import SumProduct.Proofs.Parse.Step

/-!
# What a state has read

The trees of a state are spelled by the tokens that led to it: those of the innermost
level, and those of every level around it up to its open bracket. Each accepted token
keeps this up, for any limit.
-/

namespace SumProduct

/-- The tokens of an operation that waits for its right operand, if one does. -/
inductive Waits (op : Operation) : Option Pending → List Token → Prop
  | nothing : Waits op none []
  | pending {pending : Pending} {left : List Token} {sign : Token}
      (hleft : Spells (.chain op) left pending.left) (hsign : sign.kind = op.kind)
      (hspan : sign.span = pending.operator) : Waits op (some pending) (left ++ [sign])

/-- The tokens that have been read at a level. -/
inductive Level.Holds (level : Level) : List Token → Prop
  | intro {sum product : List Token} (hsum : Waits .plus level.sum sum)
      (hproduct : Waits .times level.product product) : Level.Holds level (sum ++ product)

/-- The tokens that have been read at the innermost level. -/
inductive Phase.Holds : Phase → List Token → Prop
  | operand {level : Level} {tokens : List Token} (hlevel : level.Holds tokens) :
      Phase.Holds (.operand level) tokens
  | magnitude {level : Level} {tokens : List Token} {sign : Token} (hlevel : level.Holds tokens)
      (hsign : sign.kind = .minus) : Phase.Holds (.magnitude level) (tokens ++ [sign])
  | operator {sum : Option Pending} {term : Expression} {before tokens : List Token}
      (hsum : Waits .plus sum before) (hterm : Spells .term tokens term) :
      Phase.Holds (.operator sum term) (before ++ tokens)

/-- The tokens that have been read at the levels around, each up to its open bracket. -/
inductive Encloses : List Level → List Token → Prop
  | nothing : Encloses [] []
  | level {level : Level} {outer : List Level} {around inside : List Token} {opening : Token}
      (houter : Encloses outer around) (hlevel : level.Holds inside)
      (hopening : opening.kind = .openBracket) :
      Encloses (level :: outer) (around ++ inside ++ [opening])

/-- The tokens that have been read up to a state. -/
inductive ParseState.Holds (state : ParseState) : List Token → Prop
  | intro {around inside : List Token} (houter : Encloses state.outer around)
      (hphase : state.phase.Holds inside) : ParseState.Holds state (around ++ inside)

theorem Waits.joined {op : Operation} {waiting : Option Pending} {before tokens : List Token}
    {e : Expression} (hwaits : Waits op waiting before) (hspells : Spells op.operand tokens e) :
    Spells (.chain op) (before ++ tokens) (joined op waiting e) := by
  cases hwaits with
  | nothing => exact .operand hspells
  | pending hleft hsign _ =>
      rw [List.append_assoc]
      exact .operation hleft hsign hspells

theorem Level.holds_start : Level.start.Holds [] := by
  have hlevel : Level.start.Holds ([] ++ []) := .intro .nothing .nothing
  exact hlevel

/-- A factor extends the term of its level. -/
theorem Level.Holds.factor {level : Level} {before tokens : List Token} {factor : Expression}
    (hlevel : level.Holds before) (hspells : Spells .factor tokens factor) :
    Phase.Holds (.operator level.sum (joined .times level.product factor)) (before ++ tokens) := by
  obtain ⟨hsum, hproduct⟩ := hlevel
  rw [List.append_assoc]
  exact .operator hsum (hproduct.joined hspells)

namespace ParseState

theorem holds_start : start.Holds [] := by
  have hstart : start.Holds ([] ++ []) := .intro .nothing (.operand Level.holds_start)
  exact hstart

/-- With no bracket open, what has been read of an expression is one. -/
theorem Holds.spells {sum : Option Pending} {term : Expression} {tokens : List Token}
    (hholds : Holds ⟨.operator sum term, []⟩ tokens) :
    Spells .expression tokens (joined .plus sum term) := by
  obtain ⟨houter, hphase⟩ := hholds
  cases houter with
  | nothing =>
      cases hphase with
      | operator hsum hterm => exact hsum.joined hterm

/-- An accepted token is added to what has been read. -/
theorem Holds.advance {limit : Nat} {state next : ParseState} {tokens : List Token} {token : Token}
    (hholds : state.Holds tokens) (hadvances : Advances limit state token next) :
    next.Holds (tokens ++ [token]) := by
  obtain ⟨houter, hphase⟩ := hholds
  rw [List.append_assoc]
  cases hadvances with
  | numeral hkind hdenotes _ =>
      cases hphase with
      | operand hlevel => exact .intro houter (hlevel.factor (.numeral hkind hdenotes))
  | minus hkind =>
      cases hphase with
      | operand hlevel => exact .intro houter (.magnitude hlevel hkind)
  | negated hkind hdenotes _ =>
      cases hphase with
      | magnitude hlevel hsign =>
          rw [List.append_assoc]
          exact .intro houter (hlevel.factor (.negated hsign hkind hdenotes))
  | name hkind hname _ =>
      cases hphase with
      | operand hlevel => exact .intro houter (hlevel.factor (.name hkind hname))
  | opened hkind _ =>
      cases hphase with
      | operand hlevel =>
          have hinner : Encloses _ _ := .level houter hlevel hkind
          rw [← List.append_assoc, ← List.append_nil (_ ++ [_])]
          exact .intro hinner (.operand Level.holds_start)
  | times hkind =>
      cases hphase with
      | operator hsum hterm =>
          rw [List.append_assoc]
          exact .intro houter (.operand (.intro hsum (.pending hterm hkind rfl)))
  | @plus sum term outer _ hkind _ =>
      cases hphase with
      | operator hsum hterm =>
          have hwaits : Waits .plus (some ⟨joined .plus sum term, token.span⟩) _ :=
            .pending (hsum.joined hterm) hkind rfl
          refine .intro houter (.operand ?_)
          rw [← List.append_nil (_ ++ [_])]
          exact .intro hwaits .nothing
  | @closed sum term level outer _ hkind _ _ =>
      cases hphase with
      | @operator _ _ before tokens hsum hterm =>
          cases houter with
          | @level _ _ around inside opening houter hlevel hopening =>
              have hfactor := Spells.bracketed hopening hkind (hsum.joined hterm)
              have hjoin : around ++ inside ++ [opening] ++ (before ++ tokens ++ [token]) =
                  around ++ (inside ++ (opening :: (before ++ tokens) ++ [token])) := by
                simp only [List.append_assoc, List.cons_append, List.nil_append]
              rw [hjoin]
              exact .intro houter (hlevel.factor hfactor)

end ParseState

/-! ## Runs over tokens -/

/-- The state after accepting some tokens in turn. -/
inductive Path (limit : Nat) : ParseState → List Token → ParseState → Prop
  | nil {state : ParseState} : Path limit state [] state
  | cons {state next last : ParseState} {token : Token} {tokens : List Token}
      (hadvances : Advances limit state token next) (hpath : Path limit next tokens last) :
      Path limit state (token :: tokens) last

namespace Path

variable {limit : Nat} {state middle last : ParseState} {tokens : List Token}

theorem single {token : Token} (hadvances : Advances limit state token last) :
    Path limit state [token] last :=
  .cons hadvances .nil

theorem append {more : List Token} (hfirst : Path limit state tokens middle)
    (hsecond : Path limit middle more last) : Path limit state (tokens ++ more) last := by
  induction hfirst with
  | nil => exact hsecond
  | cons hadvances _ ih => exact .cons hadvances (ih hsecond)

/-- Every front of the tokens leads to a state on the way. -/
theorem exists_of_append {more : List Token} (hpath : Path limit state (tokens ++ more) last) :
    ∃ middle, Path limit state tokens middle ∧ Path limit middle more last := by
  induction tokens generalizing state with
  | nil => exact ⟨state, .nil, hpath⟩
  | cons token tokens ih =>
      cases hpath with
      | cons hadvances hrest =>
          obtain ⟨middle, hfirst, hsecond⟩ := ih hrest
          exact ⟨middle, .cons hadvances hfirst, hsecond⟩

theorem holds {before : List Token} (hpath : Path limit state tokens last)
    (hholds : state.Holds before) : last.Holds (before ++ tokens) := by
  induction hpath generalizing before with
  | nil =>
      rw [List.append_nil]
      exact hholds
  | @cons state next last token tokens hadvances hpath ih =>
      have hrest := ih (hholds.advance hadvances)
      rwa [List.append_assoc] at hrest

/-- A fold that succeeds is a path. -/
theorem of_foldlM (hfold : tokens.foldlM ParseState.step state = .ok last) :
    Path maxDepth state tokens last := by
  induction tokens generalizing state with
  | nil =>
      cases hfold
      exact .nil
  | cons token tokens ih =>
      rw [List.foldlM_cons] at hfold
      obtain ⟨next, hstep, hrest⟩ := bind_eq_ok_iff.mp hfold
      exact .cons (ParseState.advances_of_step hstep) (ih hrest)

/-- A path over readable tokens is a fold that succeeds. -/
theorem foldlM (hpath : Path maxDepth state tokens last)
    (hwell : ∀ token ∈ tokens, token.WellFormed) :
    tokens.foldlM ParseState.step state = .ok last := by
  induction hpath with
  | nil => rfl
  | cons hadvances _ ih =>
      rw [List.forall_mem_cons] at hwell
      rw [List.foldlM_cons, ParseState.step_of_advances hwell.1 hadvances]
      exact ih hwell.2

end Path

end SumProduct
