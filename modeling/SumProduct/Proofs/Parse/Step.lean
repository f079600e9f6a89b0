import SumProduct.Proofs.Parse.Operand

/-!
# What a token does to a state

One relation says what accepting a token does, for any limit on depth, and another
why a token is refused. A step at `maxDepth` does one or the other and nothing else.
-/

namespace SumProduct

/-- The state after accepting a token, with some limit on depth and open brackets. -/
inductive Advances (limit : Nat) : ParseState → Token → ParseState → Prop
  | numeral {level : Level} {outer : List Level} {token : Token} {literal : Literal}
      (hkind : token.kind = .numeral) (hdenotes : token.Denotes false literal)
      (hfits : Fits limit .times level.product (.lit literal)) :
      Advances limit ⟨.operand level, outer⟩ token
        ⟨.operator level.sum (joined .times level.product (.lit literal)), outer⟩
  | minus {level : Level} {outer : List Level} {token : Token} (hkind : token.kind = .minus) :
      Advances limit ⟨.operand level, outer⟩ token ⟨.magnitude level, outer⟩
  | negated {level : Level} {outer : List Level} {token : Token} {literal : Literal}
      (hkind : token.kind = .numeral) (hdenotes : token.Denotes true literal)
      (hfits : Fits limit .times level.product (.lit literal)) :
      Advances limit ⟨.magnitude level, outer⟩ token
        ⟨.operator level.sum (joined .times level.product (.lit literal)), outer⟩
  | name {level : Level} {outer : List Level} {token : Token} {x : Variable}
      (hkind : token.kind = .name) (hname : x.name = token.text)
      (hfits : Fits limit .times level.product (.var x)) :
      Advances limit ⟨.operand level, outer⟩ token
        ⟨.operator level.sum (joined .times level.product (.var x)), outer⟩
  | opened {level : Level} {outer : List Level} {token : Token}
      (hkind : token.kind = .openBracket) (hlimit : outer.length < limit) :
      Advances limit ⟨.operand level, outer⟩ token ⟨.operand .start, level :: outer⟩
  | times {sum : Option Pending} {term : Expression} {outer : List Level} {token : Token}
      (hkind : token.kind = .times) :
      Advances limit ⟨.operator sum term, outer⟩ token
        ⟨.operand ⟨sum, some ⟨term, token.span⟩⟩, outer⟩
  | plus {sum : Option Pending} {term : Expression} {outer : List Level} {token : Token}
      (hkind : token.kind = .plus) (hfits : Fits limit .plus sum term) :
      Advances limit ⟨.operator sum term, outer⟩ token
        ⟨.operand ⟨some ⟨joined .plus sum term, token.span⟩, none⟩, outer⟩
  | closed {sum : Option Pending} {term : Expression} {level : Level} {outer : List Level}
      {token : Token} (hkind : token.kind = .closeBracket) (hsum : Fits limit .plus sum term)
      (hproduct : Fits limit .times level.product (joined .plus sum term)) :
      Advances limit ⟨.operator sum term, level :: outer⟩ token
        ⟨.operator level.sum (joined .times level.product (joined .plus sum term)), outer⟩

/-- Why a token is refused in a state. -/
inductive Refuses : ParseState → Token → ParseError → Prop
  /-- The token cannot come next. -/
  | unexpected {state : ParseState} {token : Token} (hkind : token.kind ∉ state.expected) :
      Refuses state token (state.refuse token)
  /-- A bracket inside too many others. -/
  | bracket {level : Level} {outer : List Level} {token : Token}
      (hkind : token.kind = .openBracket) (hlimit : maxDepth ≤ outer.length) :
      Refuses ⟨.operand level, outer⟩ token (.tooDeep token.span)
  /-- A factor that makes the product waiting for it too deep. -/
  | factor {level : Level} {outer : List Level} {token : Token} {factor : Expression}
      {pending : Pending} (hfactor : Spells .factor [token] factor)
      (hwaiting : level.product = some pending)
      (hdeep : maxDepth < (Expression.binary .times pending.left factor).depth) :
      Refuses ⟨.operand level, outer⟩ token (.tooDeep pending.operator)
  /-- A negated numeral that makes the product waiting for it too deep. -/
  | negated {level : Level} {outer : List Level} {token : Token} {literal : Literal}
      {pending : Pending} (hkind : token.kind = .numeral) (hdenotes : token.Denotes true literal)
      (hwaiting : level.product = some pending)
      (hdeep : maxDepth < (Expression.binary .times pending.left (.lit literal)).depth) :
      Refuses ⟨.magnitude level, outer⟩ token (.tooDeep pending.operator)
  /-- A token that ends a term and so makes the sum waiting for it too deep. -/
  | sum {pending : Pending} {term : Expression} {outer : List Level} {token : Token}
      (hkind : token.kind ≠ .times)
      (hdeep : maxDepth < (Expression.binary .plus pending.left term).depth) :
      Refuses ⟨.operator (some pending) term, outer⟩ token (.tooDeep pending.operator)
  /-- A closing bracket whose contents make the product waiting for them too deep. -/
  | closed {sum : Option Pending} {term : Expression} {level : Level} {outer : List Level}
      {token : Token} {pending : Pending} (hkind : token.kind = .closeBracket)
      (hsum : Fits maxDepth .plus sum term) (hwaiting : level.product = some pending)
      (hdeep : maxDepth < (Expression.binary .times pending.left (joined .plus sum term)).depth) :
      Refuses ⟨.operator sum term, level :: outer⟩ token (.tooDeep pending.operator)
  /-- A numeral that rounds to infinity. -/
  | overflow {level : Level} {outer : List Level} {token : Token} (hkind : token.kind = .numeral)
      (hoverflow : token.Overflows) :
      Refuses ⟨.operand level, outer⟩ token (.construction (.notFinite (.infinity false)))
  /-- A numeral after a minus sign that rounds to infinity. -/
  | negatedOverflow {level : Level} {outer : List Level} {token : Token}
      (hkind : token.kind = .numeral) (hoverflow : token.Overflows) :
      Refuses ⟨.magnitude level, outer⟩ token (.construction (.notFinite (.infinity true)))
  /-- A numeral token that holds no numeral. -/
  | unreadable {state : ParseState} {token : Token} (hkind : token.kind = .numeral)
      (hread : Numeral.ofString? token.text = none) :
      Refuses state token (.unreadableNumber token.span)
  /-- A name token that holds no name. -/
  | invalidName {state : ParseState} {token : Token} (hkind : token.kind = .name)
      (hinvalid : isValidName token.text = false) :
      Refuses state token (.construction (.invalidName token.text))

namespace ParseState

variable {state next : ParseState} {token : Token} {error : ParseError}

/-! ## Factors -/

section Factor

variable {level : Level} {outer : List Level} {reading : Except ParseError Expression}

/-- A factor that is read and then joined to what waits for it. -/
theorem factor_eq_ok
    (hstep : (do
      let factor ← reading
      return (⟨← level.factor factor, outer⟩ : ParseState)) = .ok next) :
    ∃ factor, reading = .ok factor ∧ Fits maxDepth .times level.product factor ∧
      next = ⟨.operator level.sum (joined .times level.product factor), outer⟩ := by
  obtain ⟨factor, hreading, hrest⟩ := bind_eq_ok_iff.mp hstep
  obtain ⟨phase, hphase, hnext⟩ := bind_eq_ok_iff.mp hrest
  obtain ⟨hfits, rfl⟩ := Level.factor_eq_ok_iff.mp hphase
  cases hnext
  exact ⟨factor, hreading, hfits, rfl⟩

/-- A factor fails when it is read, or when it makes a product too deep. -/
theorem factor_eq_error
    (hstep : (do
      let factor ← reading
      return (⟨← level.factor factor, outer⟩ : ParseState)) = .error error) :
    reading = .error error ∨
      ∃ factor pending, reading = .ok factor ∧ level.product = some pending ∧
        maxDepth < (Expression.binary .times pending.left factor).depth ∧
        error = .tooDeep pending.operator := by
  rcases bind_eq_error_iff.mp hstep with hreading | ⟨factor, hreading, hrest⟩
  · exact Or.inl hreading
  · rcases bind_eq_error_iff.mp hrest with hfactor | ⟨phase, _, hpure⟩
    · obtain ⟨pending, hwaiting, hdeep, rfl⟩ := Level.factor_eq_error_iff.mp hfactor
      exact Or.inr ⟨factor, pending, hreading, hwaiting, hdeep, rfl⟩
    · cases hpure

end Factor

/-! ## Steps that succeed -/

theorem advances_of_step_operand {level : Level} {outer : List Level}
    (hstep : step ⟨.operand level, outer⟩ token = .ok next) :
    Advances maxDepth ⟨.operand level, outer⟩ token next := by
  cases hkind : token.kind with
  | numeral =>
      simp only [step, hkind] at hstep
      obtain ⟨factor, hliteral, hfits, rfl⟩ := factor_eq_ok hstep
      obtain ⟨literal, rfl, hdenotes⟩ := Token.exists_denotes_of_toLiteral hliteral
      exact .numeral hkind hdenotes hfits
  | minus =>
      simp only [step, hkind] at hstep
      cases hstep
      exact .minus hkind
  | name =>
      simp only [step, hkind] at hstep
      obtain ⟨factor, hvariable, hfits, rfl⟩ := factor_eq_ok hstep
      obtain ⟨x, rfl, hname⟩ := Token.exists_name_of_toVariable hvariable
      exact .name hkind hname hfits
  | openBracket =>
      simp only [step, hkind] at hstep
      split at hstep
      next => cases hstep
      next hlimit =>
        cases hstep
        exact .opened hkind (Nat.not_le.mp hlimit)
  | _ => simp only [step, hkind] at hstep; cases hstep

theorem advances_of_step_magnitude {level : Level} {outer : List Level}
    (hstep : step ⟨.magnitude level, outer⟩ token = .ok next) :
    Advances maxDepth ⟨.magnitude level, outer⟩ token next := by
  cases hkind : token.kind with
  | numeral =>
      simp only [step, hkind] at hstep
      obtain ⟨factor, hliteral, hfits, rfl⟩ := factor_eq_ok hstep
      obtain ⟨literal, rfl, hdenotes⟩ := Token.exists_denotes_of_toLiteral hliteral
      exact .negated hkind hdenotes hfits
  | _ => simp only [step, hkind] at hstep; cases hstep

theorem advances_of_step_operator {sum : Option Pending} {term : Expression} {outer : List Level}
    (hstep : step ⟨.operator sum term, outer⟩ token = .ok next) :
    Advances maxDepth ⟨.operator sum term, outer⟩ token next := by
  cases hkind : token.kind with
  | times =>
      simp only [step, hkind] at hstep
      cases hstep
      exact .times hkind
  | plus =>
      simp only [step, hkind] at hstep
      obtain ⟨total, htotal, hnext⟩ := bind_eq_ok_iff.mp hstep
      cases hnext
      obtain ⟨hfits, rfl⟩ := completeWaiting_eq_ok_iff.mp htotal
      exact .plus hkind hfits
  | closeBracket =>
      simp only [step, hkind] at hstep
      obtain ⟨total, htotal, hrest⟩ := bind_eq_ok_iff.mp hstep
      obtain ⟨hsum, rfl⟩ := completeWaiting_eq_ok_iff.mp htotal
      cases outer with
      | nil => cases hrest
      | cons level outer =>
          obtain ⟨phase, hphase, hnext⟩ := bind_eq_ok_iff.mp hrest
          cases hnext
          obtain ⟨hproduct, rfl⟩ := Level.factor_eq_ok_iff.mp hphase
          exact .closed hkind hsum hproduct
  | _ =>
      simp only [step, hkind] at hstep
      obtain ⟨total, _, hrest⟩ := bind_eq_ok_iff.mp hstep
      cases hrest

/-- An accepted token does what the relation says. -/
theorem advances_of_step (hstep : state.step token = .ok next) :
    Advances maxDepth state token next := by
  obtain ⟨phase, outer⟩ := state
  cases phase with
  | operand level => exact advances_of_step_operand hstep
  | magnitude level => exact advances_of_step_magnitude hstep
  | operator sum term => exact advances_of_step_operator hstep

/-- A readable token that the relation accepts is accepted. -/
theorem step_of_advances (hwell : token.WellFormed)
    (hadvances : Advances maxDepth state token next) : state.step token = .ok next := by
  cases hadvances with
  | numeral hkind hdenotes hfits =>
      obtain ⟨numeral, hread⟩ := hwell.exists_ofString? hkind
      simp only [step, hkind, hdenotes.toLiteral hread,
        bind, Except.bind, Level.factor_eq_ok_iff.mpr ⟨hfits, rfl⟩]
      rfl
  | minus hkind =>
      simp only [step, hkind]
      rfl
  | negated hkind hdenotes hfits =>
      obtain ⟨numeral, hread⟩ := hwell.exists_ofString? hkind
      simp only [step, hkind, hdenotes.toLiteral hread,
        bind, Except.bind, Level.factor_eq_ok_iff.mpr ⟨hfits, rfl⟩]
      rfl
  | name hkind hname hfits =>
      simp only [step, hkind, Token.toVariable_of_name hname,
        bind, Except.bind, Level.factor_eq_ok_iff.mpr ⟨hfits, rfl⟩]
      rfl
  | opened hkind hlimit =>
      simp only [step, hkind, if_neg (Nat.not_le.mpr hlimit)]
      rfl
  | times hkind =>
      simp only [step, hkind]
      rfl
  | plus hkind hfits =>
      simp only [step, hkind, completeWaiting_of_fits hfits, bind, Except.bind]
      rfl
  | closed hkind hsum hproduct =>
      simp only [step, hkind, completeWaiting_of_fits hsum, bind, Except.bind,
        Level.factor_eq_ok_iff.mpr ⟨hproduct, rfl⟩]
      rfl

/-! ## Steps that fail -/

theorem refuses_of_step_operand {level : Level} {outer : List Level}
    (hstep : step ⟨.operand level, outer⟩ token = .error error) :
    Refuses ⟨.operand level, outer⟩ token error := by
  cases hkind : token.kind with
  | numeral =>
      simp only [step, hkind] at hstep
      rcases factor_eq_error hstep with
        hliteral | ⟨factor, pending, hliteral, hwaiting, hdeep, rfl⟩
      · rcases Token.toLiteral_eq_error hliteral with ⟨hread, rfl⟩ | ⟨hoverflow, rfl⟩
        · exact .unreadable hkind hread
        · exact .overflow hkind hoverflow
      · obtain ⟨literal, rfl, hdenotes⟩ := Token.exists_denotes_of_toLiteral hliteral
        exact .factor (.numeral hkind hdenotes) hwaiting hdeep
  | minus => simp only [step, hkind] at hstep; cases hstep
  | name =>
      simp only [step, hkind] at hstep
      rcases factor_eq_error hstep with
        hvariable | ⟨factor, pending, hvariable, hwaiting, hdeep, rfl⟩
      · obtain ⟨hinvalid, rfl⟩ := Token.toVariable_eq_error hvariable
        exact .invalidName hkind hinvalid
      · obtain ⟨x, rfl, hname⟩ := Token.exists_name_of_toVariable hvariable
        exact .factor (.name hkind hname) hwaiting hdeep
  | openBracket =>
      simp only [step, hkind] at hstep
      split at hstep
      next hlimit =>
        cases hstep
        exact .bracket hkind hlimit
      next => cases hstep
  | _ =>
      simp only [step, hkind] at hstep
      cases hstep
      exact .unexpected (by simp [expected, hkind])

theorem refuses_of_step_magnitude {level : Level} {outer : List Level}
    (hstep : step ⟨.magnitude level, outer⟩ token = .error error) :
    Refuses ⟨.magnitude level, outer⟩ token error := by
  cases hkind : token.kind with
  | numeral =>
      simp only [step, hkind] at hstep
      rcases factor_eq_error hstep with
        hliteral | ⟨factor, pending, hliteral, hwaiting, hdeep, rfl⟩
      · rcases Token.toLiteral_eq_error hliteral with ⟨hread, rfl⟩ | ⟨hoverflow, rfl⟩
        · exact .unreadable hkind hread
        · exact .negatedOverflow hkind hoverflow
      · obtain ⟨literal, rfl, hdenotes⟩ := Token.exists_denotes_of_toLiteral hliteral
        exact .negated hkind hdenotes hwaiting hdeep
  | _ =>
      simp only [step, hkind] at hstep
      cases hstep
      exact .unexpected (by simp [expected, hkind])

theorem refuses_of_step_operator {sum : Option Pending} {term : Expression} {outer : List Level}
    (hstep : step ⟨.operator sum term, outer⟩ token = .error error) :
    Refuses ⟨.operator sum term, outer⟩ token error := by
  -- Every token but `*` ends the term first.
  have hends : completeWaiting .plus sum term = .error error → token.kind ≠ .times →
      Refuses ⟨.operator sum term, outer⟩ token error := by
    intro hcomplete hkind
    obtain ⟨pending, rfl, hdeep, rfl⟩ := completeWaiting_eq_error_iff.mp hcomplete
    exact .sum hkind hdeep
  cases hkind : token.kind with
  | times => simp only [step, hkind] at hstep; cases hstep
  | plus =>
      simp only [step, hkind] at hstep
      rcases bind_eq_error_iff.mp hstep with hcomplete | ⟨total, _, hpure⟩
      · exact hends hcomplete (by simp [hkind])
      · cases hpure
  | closeBracket =>
      simp only [step, hkind] at hstep
      rcases bind_eq_error_iff.mp hstep with hcomplete | ⟨total, htotal, hrest⟩
      · exact hends hcomplete (by simp [hkind])
      · obtain ⟨hsum, rfl⟩ := completeWaiting_eq_ok_iff.mp htotal
        cases outer with
        | nil =>
            cases hrest
            exact .unexpected (by simp [expected, hkind])
        | cons level outer =>
            rcases bind_eq_error_iff.mp hrest with hfactor | ⟨phase, _, hpure⟩
            · obtain ⟨pending, hwaiting, hdeep, rfl⟩ := Level.factor_eq_error_iff.mp hfactor
              exact .closed hkind hsum hwaiting hdeep
            · cases hpure
  | _ =>
      simp only [step, hkind] at hstep
      rcases bind_eq_error_iff.mp hstep with hcomplete | ⟨total, _, hrest⟩
      · exact hends hcomplete (by simp [hkind])
      · cases hrest
        exact .unexpected (by
          simp only [expected, hkind]
          split <;> decide)

/-- A refused token is refused for one of the reasons of the relation. -/
theorem refuses_of_step (hstep : state.step token = .error error) : Refuses state token error := by
  obtain ⟨phase, outer⟩ := state
  cases phase with
  | operand level => exact refuses_of_step_operand hstep
  | magnitude level => exact refuses_of_step_magnitude hstep
  | operator sum term => exact refuses_of_step_operator hstep

end ParseState

end SumProduct
