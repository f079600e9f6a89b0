import SumProduct.Proofs.Parse.Reading

/-!
# Limits

The levels of a state are the brackets open in its tokens, and its term is within the
limit on depth. Conversely the tokens of a tree within both limits lead through all of
them, so a tree that is spelled is read.
-/

namespace SumProduct

/-- The number of brackets that are open after some tokens. -/
def openBrackets (tokens : List Token) : Int :=
  Token.Kind.openBrackets (tokens.map Token.kind)

@[simp] theorem openBrackets_nil : openBrackets [] = 0 :=
  rfl

@[simp] theorem openBrackets_append (first second : List Token) :
    openBrackets (first ++ second) = openBrackets first + openBrackets second := by
  rw [openBrackets, List.map_append, Token.Kind.openBrackets_append]
  rfl

theorem openBrackets_cons (token : Token) (tokens : List Token) :
    openBrackets (token :: tokens) = openBrackets [token] + openBrackets tokens :=
  openBrackets_append [token] tokens

theorem openBrackets_singleton {token : Token} {kind : Token.Kind} (hkind : token.kind = kind) :
    openBrackets [token] = Token.Kind.openBrackets [kind] := by
  rw [← hkind]
  rfl

theorem openBrackets_le_length (tokens : List Token) : openBrackets tokens ≤ tokens.length := by
  have hle : (tokens.map Token.kind).count .openBracket ≤ (tokens.map Token.kind).length :=
    List.count_le_length
  rw [List.length_map] at hle
  simp only [openBrackets, Token.Kind.openBrackets]
  omega

/-- No front of the tokens has more open brackets than the limit allows, counting
those that were open before. -/
def BracketsWithin (limit around : Nat) (tokens : List Token) : Prop :=
  ∀ front, front <+: tokens → around + openBrackets front ≤ limit

theorem BracketsWithin.of_append {limit around : Nat} {first second : List Token}
    (hwithin : BracketsWithin limit around (first ++ second)) :
    BracketsWithin limit around first :=
  fun front hfront => hwithin front (hfront.trans (List.prefix_append first second))

/-- Some tokens never have more open brackets than there are tokens. -/
theorem bracketsWithin_of_length_le {limit : Nat} {tokens : List Token}
    (hlength : tokens.length ≤ limit) : BracketsWithin limit 0 tokens := by
  intro front hfront
  have hle := openBrackets_le_length front
  have hfront := hfront.length_le
  omega

/-- Tokens that leave no bracket open can be set aside. -/
theorem BracketsWithin.drop {limit around inner : Nat} {first second : List Token}
    (hwithin : BracketsWithin limit around (first ++ second))
    (hfirst : around + openBrackets first = inner) : BracketsWithin limit inner second := by
  intro front hfront
  have hle := hwithin (first ++ front) ((List.prefix_append_right_inj first).mpr hfront)
  rw [openBrackets_append] at hle
  omega

/-- A bracket needs room, and what it holds has one less. -/
theorem BracketsWithin.inside {limit around : Nat} {opening : Token} {inner after : List Token}
    (hwithin : BracketsWithin limit around (opening :: inner ++ after))
    (hopening : opening.kind = .openBracket) :
    around < limit ∧ BracketsWithin limit (around + 1) inner := by
  have hopen : openBrackets [opening] = 1 := openBrackets_singleton hopening
  have hroom := hwithin [opening] (List.prefix_append [opening] (inner ++ after))
  have hfirst : BracketsWithin limit around ([opening] ++ inner) := hwithin.of_append
  refine ⟨by omega, hfirst.drop ?_⟩
  rw [hopen]
  rfl

/-- Whatever is spelled closes all its brackets. -/
theorem Spells.openBrackets_eq_zero {rule : Rule} {tokens : List Token} {e : Expression}
    (hspells : Spells rule tokens e) : openBrackets tokens = 0 := by
  induction hspells with
  | numeral hkind _ => exact openBrackets_singleton hkind
  | @negated sign token _ hsign hkind _ =>
      rw [openBrackets_cons, openBrackets_singleton hsign, openBrackets_singleton hkind]
      rfl
  | name hkind _ => exact openBrackets_singleton hkind
  | @bracketed opening closing inner _ hopening hclosing _ ih =>
      rw [List.cons_append, openBrackets_cons, openBrackets_append, ih,
        openBrackets_singleton hopening, openBrackets_singleton hclosing]
      rfl
  | operand _ ih => exact ih
  | @operation op left right sign _ _ _ hsign _ ihLeft ihRight =>
      rw [openBrackets_append, openBrackets_cons, ihLeft, ihRight, openBrackets_singleton hsign]
      cases op <;> rfl

/-! ## Limits of states -/

/-- A joined operand is within the limit if it was before. -/
theorem Fits.depth_joined_le {limit : Nat} {op : Operation} {waiting : Option Pending}
    {right : Expression} (hfits : Fits limit op waiting right) (hright : right.depth ≤ limit) :
    (joined op waiting right).depth ≤ limit := by
  cases waiting with
  | none => exact hright
  | some pending => exact hfits pending rfl

/-- A state whose term and open brackets are within a limit. -/
structure ParseState.Within (limit : Nat) (state : ParseState) : Prop where
  outer : state.outer.length ≤ limit
  term : ∀ sum term, state.phase = .operator sum term → term.depth ≤ limit

theorem ParseState.within_start (limit : Nat) : start.Within limit :=
  ⟨Nat.zero_le _, fun _ _ hphase => by cases hphase⟩

theorem Advances.within {limit : Nat} {state next : ParseState} {token : Token}
    (hadvances : Advances limit state token next) (hlimit : 0 < limit)
    (hwithin : state.Within limit) : next.Within limit := by
  cases hadvances with
  | numeral _ _ hfits =>
      refine ⟨hwithin.outer, ?_⟩
      rintro _ _ ⟨⟩
      exact hfits.depth_joined_le hlimit
  | minus => exact ⟨hwithin.outer, fun _ _ hphase => by cases hphase⟩
  | negated _ _ hfits =>
      refine ⟨hwithin.outer, ?_⟩
      rintro _ _ ⟨⟩
      exact hfits.depth_joined_le hlimit
  | name _ _ hfits =>
      refine ⟨hwithin.outer, ?_⟩
      rintro _ _ ⟨⟩
      exact hfits.depth_joined_le hlimit
  | opened _ hroom => exact ⟨hroom, fun _ _ hphase => by cases hphase⟩
  | times => exact ⟨hwithin.outer, fun _ _ hphase => by cases hphase⟩
  | plus => exact ⟨hwithin.outer, fun _ _ hphase => by cases hphase⟩
  | closed _ hsum hproduct =>
      refine ⟨Nat.le_of_succ_le hwithin.outer, ?_⟩
      rintro _ _ ⟨⟩
      exact hproduct.depth_joined_le (hsum.depth_joined_le (hwithin.term _ _ rfl))

theorem Advances.outer_length {limit : Nat} {state next : ParseState} {token : Token}
    (hadvances : Advances limit state token next) :
    (next.outer.length : Int) = state.outer.length + openBrackets [token] := by
  cases hadvances with
  | numeral hkind | minus hkind | negated hkind | name hkind | times hkind | plus hkind =>
      rw [openBrackets_singleton hkind]
      rfl
  | opened hkind =>
      rw [openBrackets_singleton hkind]
      rfl
  | closed hkind =>
      have hclose : Token.Kind.openBrackets [.closeBracket] = -1 := rfl
      rw [openBrackets_singleton hkind, hclose, List.length_cons]
      push_cast
      ring

namespace Path

variable {limit : Nat} {state last : ParseState} {tokens : List Token}

theorem within (hpath : Path limit state tokens last) (hlimit : 0 < limit)
    (hwithin : state.Within limit) : last.Within limit := by
  induction hpath with
  | nil => exact hwithin
  | cons hadvances _ ih => exact ih (hadvances.within hlimit hwithin)

/-- The levels around are the brackets that are open. -/
theorem outer_length (hpath : Path limit state tokens last) :
    (last.outer.length : Int) = state.outer.length + openBrackets tokens := by
  induction hpath with
  | nil => simp
  | cons hadvances _ ih =>
      rw [ih, openBrackets_cons, hadvances.outer_length]
      omega

/-- A path stays within the limit on brackets. -/
theorem bracketsWithin (hpath : Path limit .start tokens last) (hlimit : 0 < limit) :
    BracketsWithin limit 0 tokens := by
  rintro front ⟨rest, rfl⟩
  obtain ⟨middle, hfront, _⟩ := hpath.exists_of_append
  have houter := (hfront.within hlimit (ParseState.within_start limit)).outer
  have hlength := hfront.outer_length
  simp only [ParseState.start, List.length_nil] at hlength
  omega

end Path

/-! ## Trees within the limits are read -/

/-- The paths over the tokens of a tree, from every state in which they may come. -/
def Reaches (limit : Nat) (outer : List Level) (tokens : List Token) (e : Expression) : Rule → Prop
  | .factor => ∀ level : Level, Fits limit .times level.product e →
      Path limit ⟨.operand level, outer⟩ tokens
        ⟨.operator level.sum (joined .times level.product e), outer⟩
  | .chain .times => ∀ sum, Path limit ⟨.operand ⟨sum, none⟩, outer⟩ tokens ⟨.operator sum e, outer⟩
  | .chain .plus => ∃ sum term, Fits limit .plus sum term ∧ joined .plus sum term = e ∧
      Path limit ⟨.operand .start, outer⟩ tokens ⟨.operator sum term, outer⟩

/-- Nothing waits, so nothing can become too deep. -/
theorem fits_none (limit : Nat) (op : Operation) (right : Expression) : Fits limit op none right :=
  fun _ hwaiting => by cases hwaiting

theorem fits_some {limit : Nat} {op : Operation} {left right : Expression} {operator : Span}
    (hdepth : (Expression.binary op left right).depth ≤ limit) :
    Fits limit op (some ⟨left, operator⟩) right := by
  rintro _ ⟨⟩
  exact hdepth

theorem Expression.depth_left_le {op : Operation} {left right : Expression} {limit : Nat}
    (hdepth : (binary op left right).depth ≤ limit) : left.depth ≤ limit := by
  simp only [depth] at hdepth
  omega

theorem Expression.depth_right_le {op : Operation} {left right : Expression} {limit : Nat}
    (hdepth : (binary op left right).depth ≤ limit) : right.depth ≤ limit := by
  simp only [depth] at hdepth
  omega

/-- The tokens of a tree within the limits lead to it. -/
theorem Spells.reaches {limit : Nat} {rule : Rule} {tokens : List Token} {e : Expression}
    (hspells : Spells rule tokens e) (hdepth : e.depth ≤ limit) (outer : List Level)
    (hwithin : BracketsWithin limit outer.length tokens) : Reaches limit outer tokens e rule := by
  induction hspells generalizing outer with
  | numeral hkind hdenotes => exact fun level hfits => .single (.numeral hkind hdenotes hfits)
  | negated hsign hkind hdenotes =>
      exact fun level hfits => .cons (.minus hsign) (.single (.negated hkind hdenotes hfits))
  | name hkind hname => exact fun level hfits => .single (.name hkind hname hfits)
  | @bracketed opening closing inner e hopening hclosing hinner ih =>
      intro level hfits
      obtain ⟨hroom, hinside⟩ := hwithin.inside hopening
      obtain ⟨sum, term, hsum, rfl, hpath⟩ := ih hdepth (level :: outer) hinside
      exact .append (.cons (.opened hopening hroom) hpath) (.single (.closed hclosing hsum hfits))
  | @operand op tokens e hoperand ih =>
      cases op with
      | times => exact fun sum => ih hdepth outer hwithin ⟨sum, none⟩ (fits_none _ _ _)
      | plus => exact ⟨none, e, fits_none _ _ _, rfl, ih hdepth outer hwithin none⟩
  | @operation op left right sign e f hleft hsign hright ihLeft ihRight =>
      have hbalanced : openBrackets (left ++ [sign]) = 0 := by
        rw [openBrackets_append, hleft.openBrackets_eq_zero, openBrackets_singleton hsign]
        cases op <;> rfl
      have hrest : BracketsWithin limit outer.length right := by
        rw [← List.singleton_append, ← List.append_assoc] at hwithin
        exact hwithin.drop (by rw [hbalanced, add_zero])
      have hthis := ihLeft (Expression.depth_left_le hdepth) outer hwithin.of_append
      have hnext := ihRight (Expression.depth_right_le hdepth) outer hrest
      cases op with
      | times =>
          intro sum
          exact .append (hthis sum) (.cons (.times hsign) (hnext ⟨sum, some ⟨e, sign.span⟩⟩
            (fits_some hdepth)))
      | plus =>
          obtain ⟨sum, term, hfits, rfl, hpath⟩ := hthis
          exact ⟨some ⟨joined .plus sum term, sign.span⟩, f, fits_some hdepth, rfl,
            .append hpath (.cons (.plus hsign hfits) (hnext _))⟩

end SumProduct
