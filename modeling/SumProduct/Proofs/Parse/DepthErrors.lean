import SumProduct.Proofs.Expression.TooDeep
import SumProduct.Proofs.Parse.SyntaxErrors

/-!
# Errors of depth

A text is refused for depth at a bracket inside too many open ones, or at an operation
whose operands are both complete and within the limit while their tree is one level too
deep. A sentence of finite numerals is refused for nothing else.
-/

namespace SumProduct

/-! ## Depth of operands that wait -/

/-- An operand that waits is within a limit on depth. -/
def WaitsWithin (limit : Nat) (waiting : Option Pending) : Prop :=
  ∀ pending, waiting = some pending → pending.left.depth ≤ limit

/-- The operands that wait at a level are within a limit on depth. -/
structure Level.Within (limit : Nat) (level : Level) : Prop where
  sum : WaitsWithin limit level.sum
  product : WaitsWithin limit level.product

/-- The operands that wait at the innermost level are within a limit on depth. -/
def Phase.Within (limit : Nat) : Phase → Prop
  | .operand level | .magnitude level => level.Within limit
  | .operator sum _ => WaitsWithin limit sum

/-- All operands that wait are within a limit on depth. -/
structure ParseState.OperandsWithin (limit : Nat) (state : ParseState) : Prop where
  phase : state.phase.Within limit
  outer : ∀ level ∈ state.outer, level.Within limit

theorem waitsWithin_none (limit : Nat) : WaitsWithin limit none :=
  fun _ hwaiting => by cases hwaiting

theorem waitsWithin_some {limit : Nat} {left : Expression} (hleft : left.depth ≤ limit)
    (operator : Span) : WaitsWithin limit (some ⟨left, operator⟩) := by
  rintro _ ⟨⟩
  exact hleft

theorem Level.within_start (limit : Nat) : Level.start.Within limit :=
  ⟨waitsWithin_none limit, waitsWithin_none limit⟩

theorem ParseState.operandsWithin_start (limit : Nat) : start.OperandsWithin limit :=
  ⟨Level.within_start limit, by simp [start]⟩

/-- An accepted token lets only operands within the limit wait. -/
theorem Advances.operandsWithin {limit : Nat} {state next : ParseState} {token : Token}
    (hadvances : Advances limit state token next) (hwithin : state.Within limit)
    (hoperands : state.OperandsWithin limit) : next.OperandsWithin limit := by
  obtain ⟨hphase, houter⟩ := hoperands
  cases hadvances with
  | numeral | negated | name => exact ⟨hphase.sum, houter⟩
  | minus => exact ⟨hphase, houter⟩
  | opened => exact ⟨Level.within_start limit, List.forall_mem_cons.mpr ⟨hphase, houter⟩⟩
  | times => exact ⟨⟨hphase, waitsWithin_some (hwithin.term _ _ rfl) _⟩, houter⟩
  | plus _ hfits =>
      have htotal := hfits.depth_joined_le (hwithin.term _ _ rfl)
      exact ⟨⟨waitsWithin_some htotal _, waitsWithin_none limit⟩, houter⟩
  | closed =>
      rw [List.forall_mem_cons] at houter
      exact ⟨houter.1.sum, houter.2⟩

theorem Path.operandsWithin {limit : Nat} {state last : ParseState} {tokens : List Token}
    (hpath : Path limit state tokens last) (hlimit : 0 < limit) (hwithin : state.Within limit)
    (hoperands : state.OperandsWithin limit) : last.OperandsWithin limit := by
  induction hpath with
  | nil => exact hoperands
  | cons hadvances _ ih =>
      exact ih (hadvances.within hlimit hwithin) (hadvances.operandsWithin hwithin hoperands)

/-! ## Where operands start and end -/

/-- The tokens before the left operand of an operation: none, or they end in an open
bracket or, before a product, in a plus sign. -/
def Operation.StartsAfter (op : Operation) (before : List Token) : Prop :=
  ∀ token ∈ before.getLast?, token.kind = .openBracket ∨ op = .times ∧ token.kind = .plus

/-- The tokens behind the right operand of an operation: no product goes on in them if the
operand is a term. -/
def Operation.EndsBefore (op : Operation) (after : List Token) : Prop :=
  op = .plus → ∀ token ∈ after.head?, token.kind ≠ .times

/-- The tokens end in the left operand of an operation and its sign. -/
inductive Awaits (op : Operation) (pending : Pending) : List Token → Prop
  | intro {before left : List Token} {sign : Token} (hstarts : op.StartsAfter before)
      (hleft : Spells (.chain op) left pending.left) (hsign : sign.kind = op.kind)
      (hspan : sign.span = pending.operator) : Awaits op pending (before ++ left ++ [sign])

theorem Encloses.startsAfter {outer : List Level} {around : List Token}
    (houter : Encloses outer around) (op : Operation) : op.StartsAfter around := by
  intro token hlast
  cases houter with
  | nothing => cases hlast
  | level _ _ hopening =>
      rw [List.getLast?_append, List.getLast?_singleton, Option.some_or,
        Option.mem_some_iff] at hlast
      subst hlast
      exact Or.inl hopening

/-- The left operand of a sum starts where its level does. -/
theorem Encloses.awaits_plus {outer : List Level} {around inside : List Token} {pending : Pending}
    (houter : Encloses outer around) (hwaits : Waits .plus (some pending) inside) :
    Awaits .plus pending (around ++ inside) := by
  cases hwaits with
  | pending hleft hsign hspan =>
      rw [← List.append_assoc]
      exact .intro (houter.startsAfter .plus) hleft hsign hspan

/-- The left operand of a product starts where its level does, or behind the sum that
waits there. -/
theorem Encloses.awaits_times {outer : List Level} {around inside : List Token} {level : Level}
    {pending : Pending} (houter : Encloses outer around) (hlevel : level.Holds inside)
    (hwaiting : level.product = some pending) : Awaits .times pending (around ++ inside) := by
  obtain ⟨hsum, hproduct⟩ := hlevel
  rw [hwaiting] at hproduct
  cases hproduct with
  | pending hleft hsign hspan =>
      rw [← List.append_assoc, ← List.append_assoc]
      refine .intro ?_ hleft hsign hspan
      generalize level.sum = waiting at hsum
      cases hsum with
      | nothing =>
          rw [List.append_nil]
          exact houter.startsAfter .times
      | pending _ hplus _ =>
          intro token hlast
          rw [← List.append_assoc, List.getLast?_append, List.getLast?_singleton, Option.some_or,
            Option.mem_some_iff] at hlast
          subst hlast
          exact Or.inr ⟨rfl, hplus⟩

/-! ## Operations that are too deep -/

/-- An operation whose tree is one level too deep, among the tokens of a source. Its
operands are all of `left` and all of `right`; they are complete and within the limits. -/
structure Source.OperationTooDeep (source : Source) (span : Span) (op : Operation)
    (e f : Expression) (before left : List Token) (sign : Token) (right after : List Token) :
    Prop where
  tokens : source.tokens = before ++ left ++ [sign] ++ (right ++ after)
  kind : sign.kind = op.kind
  span : sign.span = span
  starts : op.StartsAfter before
  spells_left : Spells (.chain op) left e
  spells_right : Spells op.operand right f
  ends : op.EndsBefore after
  brackets : BracketsWithin maxDepth 0 (before ++ left ++ [sign] ++ right)
  depth_left : e.depth ≤ maxDepth
  depth_right : f.depth ≤ maxDepth
  depth : (Expression.binary op e f).depth = maxDepth + 1

/-- Some operation at the span is too deep. -/
def Source.TooDeepOperation (source : Source) (span : Span) : Prop :=
  ∃ op e f before left sign right after,
    source.OperationTooDeep span op e f before left sign right after

/-- The right operand of an operation that waits makes it too deep. -/
theorem Awaits.tooDeepOperation {source : Source} {op : Operation} {pending : Pending}
    {read right after : List Token} {f : Expression} (hawaits : Awaits op pending read)
    (htokens : source.tokens = read ++ (right ++ after)) (hright : Spells op.operand right f)
    (hends : op.EndsBefore after) (hbrackets : BracketsWithin maxDepth 0 (read ++ right))
    (hleft : pending.left.depth ≤ maxDepth) (hf : f.depth ≤ maxDepth)
    (hdeep : maxDepth < (Expression.binary op pending.left f).depth) :
    source.TooDeepOperation pending.operator := by
  obtain ⟨hstarts, hspells, hsign, hspan⟩ := hawaits
  have hdepth : (Expression.binary op pending.left f).depth = maxDepth + 1 := by
    rw [Expression.depth] at hdeep ⊢
    omega
  exact ⟨op, _, f, _, _, _, right, after, htokens, hsign, hspan, hstarts, hspells, hright, hends,
    hbrackets, hleft, hf, hdepth⟩

/-- A single token is a leaf. -/
theorem Spells.depth_of_singleton {token : Token} {e : Expression}
    (hspells : Spells .factor [token] e) : e.depth = 1 := by
  generalize htokens : [token] = tokens at hspells
  cases hspells with
  | numeral | name => rfl
  | negated => cases htokens
  | bracketed => simp at htokens

/-- A token that opens no bracket keeps the limit on brackets. -/
theorem BracketsWithin.concat {limit around : Nat} {tokens : List Token} {token : Token}
    (hwithin : BracketsWithin limit around tokens) (htoken : openBrackets [token] ≤ 0) :
    BracketsWithin limit around (tokens ++ [token]) := by
  intro front hfront
  rcases List.prefix_concat_iff.mp hfront with rfl | hshort
  · have hle := hwithin tokens (List.prefix_refl tokens)
    rw [openBrackets_append]
    omega
  · exact hwithin front hshort

/-- The last token of a factor makes the product that waits for it too deep. -/
theorem Awaits.tooDeepOperation_of_token {source : Source} {pending : Pending}
    {read right earlier later : List Token} {token : Token} {f : Expression}
    (hawaits : Awaits .times pending read) (htokens : source.tokens = earlier ++ token :: later)
    (hright : earlier ++ [token] = read ++ right)
    (hbrackets : BracketsWithin maxDepth 0 earlier) (htoken : openBrackets [token] ≤ 0)
    (hspells : Spells .factor right f) (hleft : pending.left.depth ≤ maxDepth)
    (hf : f.depth ≤ maxDepth)
    (hdeep : maxDepth < (Expression.binary .times pending.left f).depth) :
    source.TooDeepOperation pending.operator := by
  have hconcat := hbrackets.concat htoken
  rw [hright] at hconcat
  rw [List.append_cons, hright, List.append_assoc] at htokens
  exact hawaits.tooDeepOperation htokens hspells (fun h => by cases h) hconcat hleft hf hdeep

namespace Path

variable {source : Source} {earlier later : List Token} {token : Token} {state : ParseState}
  {span : Span}

/-- A term that ends makes the sum that waits for it too deep. -/
theorem tooDeepOperation_of_sum {pending : Pending} {term : Expression} {outer : List Level}
    (hpath : Path maxDepth .start earlier ⟨.operator (some pending) term, outer⟩)
    (htokens : source.tokens = earlier ++ later) (hends : Operation.plus.EndsBefore later)
    (hdeep : maxDepth < (Expression.binary .plus pending.left term).depth) :
    source.TooDeepOperation pending.operator := by
  have hpositive : 0 < maxDepth := by decide
  have hwithin := hpath.within hpositive (ParseState.within_start maxDepth)
  have hoperands := hpath.operandsWithin hpositive (ParseState.within_start maxDepth)
    (ParseState.operandsWithin_start maxDepth)
  have hbrackets := hpath.bracketsWithin hpositive
  have hholds : ParseState.Holds _ earlier := hpath.holds ParseState.holds_start
  obtain ⟨houter, hphase⟩ := hholds
  cases hphase with
  | operator hsum hterm =>
      rw [← List.append_assoc] at htokens hbrackets
      rw [List.append_assoc] at htokens
      exact (houter.awaits_plus hsum).tooDeepOperation htokens hterm hends hbrackets
        (hoperands.phase pending rfl) (hwithin.term _ _ rfl) hdeep

/-- A refusal for depth is due to a bracket or to an operation. -/
theorem tooDeep_cases (hpath : Path maxDepth .start earlier state)
    (htokens : source.tokens = earlier ++ token :: later)
    (hrefuses : Refuses state token (.tooDeep span)) :
    (token.kind = .openBracket ∧ token.span = span ∧ OpensTooMany .start source.tokens) ∨
      source.TooDeepOperation span := by
  have hpositive : 0 < maxDepth := by decide
  have hwithin := hpath.within hpositive (ParseState.within_start maxDepth)
  have hoperands := hpath.operandsWithin hpositive (ParseState.within_start maxDepth)
    (ParseState.operandsWithin_start maxDepth)
  have hbrackets := hpath.bracketsWithin hpositive
  have hholds : state.Holds earlier := hpath.holds ParseState.holds_start
  generalize herror : ParseError.tooDeep span = error at hrefuses
  cases hrefuses with
  | bracket hkind hlimit =>
      cases herror
      exact Or.inl ⟨hkind, rfl, earlier, token, later, _, _, htokens, hkind, hpath, hlimit⟩
  | sum hkind hdeep =>
      cases herror
      refine Or.inr (hpath.tooDeepOperation_of_sum htokens ?_ hdeep)
      rintro _ _ ⟨⟩
      exact hkind
  | factor hfactor hwaiting hdeep =>
      cases herror
      obtain ⟨houter, hphase⟩ := hholds
      cases hphase with
      | operand hlevel =>
          exact Or.inr ((houter.awaits_times hlevel hwaiting).tooDeepOperation_of_token htokens rfl
            hbrackets hfactor.openBrackets_eq_zero.le hfactor
            (hoperands.phase.product _ hwaiting) (hfactor.depth_of_singleton.trans_le hpositive)
            hdeep)
  | negated hkind hdenotes hwaiting hdeep =>
      cases herror
      have hbalanced : openBrackets [token] = 0 := openBrackets_singleton hkind
      obtain ⟨houter, hphase⟩ := hholds
      cases hphase with
      | @magnitude _ inside sign hlevel hsign =>
          exact Or.inr ((houter.awaits_times hlevel hwaiting).tooDeepOperation_of_token htokens
            (by simp) hbrackets hbalanced.le (.negated hsign hkind hdenotes)
            (hoperands.phase.product _ hwaiting) hpositive hdeep)
  | closed hkind hsum hwaiting hdeep =>
      cases herror
      have hclosing : openBrackets [token] = -1 := openBrackets_singleton hkind
      have hterm := hsum.depth_joined_le (hwithin.term _ _ rfl)
      obtain ⟨houter, hphase⟩ := hholds
      cases hphase with
      | operator hbefore hspells =>
          cases houter with
          | level houter hlevel hopening =>
              exact Or.inr ((houter.awaits_times hlevel hwaiting).tooDeepOperation_of_token htokens
                (by simp) hbrackets (by omega)
                (.bracketed hopening hkind (hbefore.joined hspells))
                ((hoperands.outer _ List.mem_cons_self).product _ hwaiting) hterm hdeep)
  | _ => cases herror

end Path

theorem completeWaiting_eq_tooDeep {op : Operation} {waiting : Option Pending}
    {right : Expression} {span : Span}
    (hcomplete : completeWaiting op waiting right = .error (.tooDeep span)) :
    ∃ pending, waiting = some pending ∧
      maxDepth < (Expression.binary op pending.left right).depth ∧ span = pending.operator := by
  obtain ⟨pending, hwaiting, hdeep, hspan⟩ := completeWaiting_eq_error_iff.mp hcomplete
  exact ⟨pending, hwaiting, hdeep, ParseError.tooDeep.inj hspan⟩

/-- After its tokens a text is refused for depth only by the sum that its last term
completes. -/
theorem ParseState.conclude_eq_tooDeep {state : ParseState} {place : Option (Char × Nat)}
    {span : Span} (hconclude : state.conclude place = .error (.tooDeep span)) :
    ∃ pending term outer, state = ⟨.operator (some pending) term, outer⟩ ∧
      maxDepth < (Expression.binary .plus pending.left term).depth ∧ span = pending.operator := by
  obtain ⟨phase, outer⟩ := state
  cases phase with
  | operand level | magnitude level => cases place <;> cases hconclude
  | operator sum term =>
      have hcomplete : completeWaiting .plus sum term = .error (.tooDeep span) := by
        cases place with
        | none =>
            simp only [conclude, finish] at hconclude
            rcases bind_eq_error_iff.mp hconclude with hcomplete | ⟨total, _, hrest⟩
            · exact hcomplete
            · cases outer <;> cases hrest
        | some place =>
            simp only [conclude, stray] at hconclude
            split at hconclude
            next error hcomplete =>
              rw [hcomplete]
              exact hconclude
            next => cases hconclude
      obtain ⟨pending, rfl, hdeep, rfl⟩ := completeWaiting_eq_tooDeep hcomplete
      exact ⟨pending, term, outer, rfl, hdeep, rfl⟩

/-! ## The meaning of the error -/

/-- The first bracket inside `maxDepth` open ones stands at the span. -/
def Source.TooDeepBracket (text : String) (span : Span) : Prop :=
  ∃ bracket ∈ (ofString text).tokens, bracket.kind = .openBracket ∧ bracket.span = span ∧
    ∃ before after, Text.FirstBeyond maxDepth text before after ∧
      span = ⟨Text.byteSize before, Text.byteSize before + 1⟩

namespace Expression

variable {text : String}

theorem tooDeep_cases_of_parse {span : Span} (hparse : parse text = .error (.tooDeep span)) :
    Source.TooDeepBracket text span ∨ (Source.ofString text).TooDeepOperation span := by
  rcases parse_eq_error hparse with
    ⟨earlier, token, later, state, htokens, hpath, hrefuses⟩ | ⟨last, hpath, hconclude⟩
  · rcases hpath.tooDeep_cases htokens hrefuses with ⟨hkind, hspan, hopens⟩ | hoperation
    · obtain ⟨before, after, hfirst, hagain⟩ := parse_of_opensTooMany hopens
      rw [hparse, Except.error.injEq, ParseError.tooDeep.injEq] at hagain
      have hmem : token ∈ (Source.ofString text).tokens := by simp [htokens]
      exact Or.inl ⟨token, hmem, hkind, hspan, before, after, hfirst, hagain⟩
    · exact Or.inr hoperation
  · obtain ⟨pending, term, outer, rfl, hdeep, rfl⟩ := ParseState.conclude_eq_tooDeep hconclude
    exact Or.inr (hpath.tooDeepOperation_of_sum (List.append_nil _).symm
      (fun _ _ hlast => by cases hlast) hdeep)

/-- A sentence of finite numerals is read or refused for depth. -/
theorem exists_parse_of_sentence (hclean : (Source.ofString text).stray? = none)
    (hsentence : Sentence ((Source.ofString text).tokens.map Token.kind))
    (hfinite : ∀ token ∈ (Source.ofString text).tokens, token.kind = .numeral →
      ¬token.Overflows) :
    (∃ e, parse text = .ok e) ∨ ∃ span, parse text = .error (.tooDeep span) := by
  cases hparse : parse text with
  | ok e => exact Or.inl ⟨e, rfl⟩
  | error error =>
      right
      rcases parse_eq_error hparse with
        ⟨earlier, token, later, state, htokens, hpath, hrefuses⟩ | ⟨last, hpath, hconclude⟩
      · have hmem : token ∈ (Source.ofString text).tokens := by simp [htokens]
        have hwell := Source.wellFormed_of_mem_tokens _ token hmem
        have hviable : Viable (earlier.map Token.kind ++ [token.kind]) := by
          refine ⟨later.map Token.kind, ?_⟩
          rw [htokens, List.map_append, List.map_cons, List.append_cons] at hsentence
          exact hsentence
        cases hrefuses with
        | unexpected hkind => exact absurd ((hpath.viable_concat_iff _).mp hviable) hkind
        | overflow hkind hoverflow | negatedOverflow hkind hoverflow =>
            exact absurd hoverflow (hfinite token hmem hkind)
        | unreadable hkind hread =>
            obtain ⟨numeral, hnumeral⟩ := hwell.exists_ofString? hkind
            rw [hread] at hnumeral
            cases hnumeral
        | invalidName hkind hinvalid =>
            rw [hwell.isValidName hkind] at hinvalid
            cases hinvalid
        | bracket | factor | negated | sum | closed => exact ⟨_, rfl⟩
      · rcases ParseState.conclude_eq_error hconclude with
          ⟨_, _, hstop⟩ | ⟨_, _, hstray, _⟩ | ⟨span, rfl⟩
        · exact absurd (hpath.sentence_iff.mp hsentence) hstop
        · rw [hclean] at hstray
          cases hstray
        · exact ⟨span, rfl⟩

/-- An error of depth stands at the first bracket inside `maxDepth` open ones, or at an
operation with complete operands within the limit whose tree is one level too deep.
Conversely a sentence of finite numerals that opens more brackets or spells a deeper tree
is refused with this error. -/
theorem parse_refuses_depth (text : String) :
    (∀ span, parse text = .error (.tooDeep span) →
      Source.TooDeepBracket text span ∨ (Source.ofString text).TooDeepOperation span) ∧
    ((Source.ofString text).stray? = none →
      Sentence ((Source.ofString text).tokens.map Token.kind) →
      (∀ token ∈ (Source.ofString text).tokens, token.kind = .numeral → ¬token.Overflows) →
      (¬BracketsWithin maxDepth 0 (Source.ofString text).tokens ∨
        ∃ e, Spells .expression (Source.ofString text).tokens e ∧ maxDepth < e.depth) →
      ∃ span, parse text = .error (.tooDeep span)) := by
  refine ⟨fun span => tooDeep_cases_of_parse, ?_⟩
  intro hclean hsentence hfinite hbeyond
  rcases exists_parse_of_sentence hclean hsentence hfinite with ⟨e, hparse⟩ | hdeep
  · obtain ⟨_, hspells, hwithin, hdepth⟩ := spells_of_parse hparse
    rcases hbeyond with hbrackets | ⟨f, hother, hdeep⟩
    · exact absurd hwithin hbrackets
    · rw [hother.unique hspells] at hdeep
      omega
  · exact hdeep

/-- The root of a sum of sums, one level too deep. -/
theorem parse_refuses_depth_leftSums :
    (Source.TooDeepBracket (leftSums 256).text ⟨1533, 1534⟩ ∨
      (Source.ofString (leftSums 256).text).TooDeepOperation ⟨1533, 1534⟩) ∧
    ∃ span, parse (leftSums 256).text = .error (.tooDeep span) := by
  have hdepth := depth_leftSums 256
  have hspells := ((leftSums 256).spells_tokens 0).expression_of_factor
  rw [← tokens_ofString_text] at hspells
  have hdeep : maxDepth < (leftSums 256).depth := by
    rw [hdepth]
    decide
  constructor
  · apply (parse_refuses_depth (leftSums 256).text).1
    have hparse := parse_text_binary_too_deep .plus (leftSums 255) (leftSums 0) hdepth
    rw [signPlace, utf8ByteSize_text_leftSums] at hparse
    exact hparse
  · exact (parse_refuses_depth (leftSums 256).text).2 (leftSums 256).stray?_ofString_text
      ⟨_, _, rfl, hspells⟩ hspells.not_overflows (Or.inr ⟨_, hspells, hdeep⟩)

end Expression

end SumProduct
