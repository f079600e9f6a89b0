import SumProduct.Proofs.Grammar.Basic
import SumProduct.Proofs.Parse.Fold

/-!
# Operands

What leaves tokens stand for, and what an operand becomes when an operation waits for
it. Each fails in one way only: a numeral that is too large, a tree that is too deep.
-/

namespace SumProduct

/-- An operand with the operation that waits for it, if one does. -/
def joined (op : Operation) (waiting : Option Pending) (right : Expression) : Expression :=
  match waiting with
  | none => right
  | some pending => .binary op pending.left right

/-- Joining an operand to what waits for it stays within the limit. -/
def Fits (limit : Nat) (op : Operation) (waiting : Option Pending) (right : Expression) : Prop :=
  ∀ pending, waiting = some pending → (Expression.binary op pending.left right).depth ≤ limit

theorem completeWaiting_eq_ok_iff {op : Operation} {waiting : Option Pending}
    {right whole : Expression} :
    completeWaiting op waiting right = .ok whole ↔
      Fits maxDepth op waiting right ∧ whole = joined op waiting right := by
  cases waiting with
  | none => simp [completeWaiting, Fits, joined, eq_comm]
  | some pending =>
      simp only [completeWaiting, Pending.complete, Fits, joined, Option.some.injEq,
        forall_eq']
      split
      next hdeep => simp [Nat.not_le.mpr hdeep]
      next hshallow => simp [Nat.not_lt.mp hshallow, eq_comm]

theorem completeWaiting_of_fits {op : Operation} {waiting : Option Pending} {right : Expression}
    (hfits : Fits maxDepth op waiting right) :
    completeWaiting op waiting right = .ok (joined op waiting right) :=
  completeWaiting_eq_ok_iff.mpr ⟨hfits, rfl⟩

theorem completeWaiting_eq_error_iff {op : Operation} {waiting : Option Pending}
    {right : Expression} {error : ParseError} :
    completeWaiting op waiting right = .error error ↔
      ∃ pending, waiting = some pending ∧
        maxDepth < (Expression.binary op pending.left right).depth ∧
        error = .tooDeep pending.operator := by
  cases waiting with
  | none => simp [completeWaiting]
  | some pending =>
      simp only [completeWaiting, Pending.complete, Option.some.injEq, exists_eq_left']
      split
      next hdeep => simp [hdeep, eq_comm]
      next hshallow => simp [hshallow]

theorem Level.factor_eq_ok_iff {level : Level} {factor : Expression} {phase : Phase} :
    level.factor factor = .ok phase ↔
      Fits maxDepth .times level.product factor ∧
        phase = .operator level.sum (joined .times level.product factor) := by
  rw [Level.factor, map_eq_ok_iff]
  constructor
  · rintro ⟨whole, hwhole, rfl⟩
    obtain ⟨hfits, rfl⟩ := completeWaiting_eq_ok_iff.mp hwhole
    exact ⟨hfits, rfl⟩
  · rintro ⟨hfits, rfl⟩
    exact ⟨_, completeWaiting_of_fits hfits, rfl⟩

theorem Level.factor_eq_error_iff {level : Level} {factor : Expression} {error : ParseError} :
    level.factor factor = .error error ↔
      ∃ pending, level.product = some pending ∧
        maxDepth < (Expression.binary .times pending.left factor).depth ∧
        error = .tooDeep pending.operator := by
  rw [Level.factor, map_eq_error_iff, completeWaiting_eq_error_iff]

/-! ## Leaves -/

theorem Literal.ofValue_of_finite {value : Binary64} (hfinite : value.isFinite = true) :
    Literal.ofValue value = .ok ⟨value, hfinite⟩ :=
  dif_pos hfinite

theorem Literal.ofValue_of_not_finite {value : Binary64} (hfinite : value.isFinite ≠ true) :
    Literal.ofValue value = .error (.notFinite value) :=
  dif_neg hfinite

/-- The value that a numeral gets after a sign. -/
def Numeral.signed (numeral : Numeral) (negative : Bool) : Binary64 :=
  if negative then numeral.toBinary64.neg else numeral.toBinary64

theorem Numeral.negative_signed (numeral : Numeral) (negative : Bool) :
    (numeral.signed negative).negative = negative := by
  cases negative <;> rfl

theorem Numeral.magnitude_signed (numeral : Numeral) (negative : Bool) :
    (numeral.signed negative).magnitude = numeral.toBinary64.magnitude := by
  cases negative <;> rfl

namespace Token

variable {token : Token} {negative : Bool}

theorem nearest_signed {numeral : Numeral} (hread : Numeral.ofString? token.text = some numeral) :
    Binary64.IsNearest (Numeral.spelledValue token.text.toList)
      (numeral.signed negative).magnitude := by
  rw [Numeral.magnitude_signed, ← Numeral.value_of_ofString? hread]
  exact numeral.isNearest_toBinary64

/-- Reading a numeral token gives the literal that it stands for. -/
theorem exists_denotes_of_toLiteral {e : Expression} (hliteral : token.toLiteral negative = .ok e) :
    ∃ literal, e = .lit literal ∧ token.Denotes negative literal := by
  rw [toLiteral] at hliteral
  split at hliteral
  next => cases hliteral
  next numeral hread =>
    change (Expression.ofValue (numeral.signed negative)).mapError _ = _ at hliteral
    by_cases hfinite : (numeral.signed negative).isFinite = true
    · rw [Expression.ofValue, Literal.ofValue_of_finite hfinite] at hliteral
      cases hliteral
      exact ⟨_, rfl, numeral.negative_signed negative, nearest_signed hread⟩
    · rw [Expression.ofValue, Literal.ofValue_of_not_finite hfinite] at hliteral
      cases hliteral

/-- A readable numeral token gives any literal that it stands for. -/
theorem Denotes.toLiteral {literal : Literal} (hdenotes : token.Denotes negative literal)
    {numeral : Numeral} (hread : Numeral.ofString? token.text = some numeral) :
    token.toLiteral negative = .ok (.lit literal) := by
  have hvalue : numeral.signed negative = literal.value :=
    Binary64.eq_of_fields ((numeral.negative_signed negative).trans hdenotes.negative.symm)
      ((nearest_signed hread).unique hdenotes.nearest)
  rw [Token.toLiteral, hread]
  change (Expression.ofValue (numeral.signed negative)).mapError _ = _
  rw [hvalue, Expression.ofValue, Literal.ofValue_of_finite literal.finite]
  rfl

/-- Why a numeral token gives no literal: it cannot be read, or it is too large. -/
theorem toLiteral_eq_error {error : ParseError}
    (hliteral : token.toLiteral negative = .error error) :
    (Numeral.ofString? token.text = none ∧ error = .unreadableNumber token.span) ∨
      (token.Overflows ∧ error = .construction (.notFinite (.infinity negative))) := by
  rw [toLiteral] at hliteral
  split at hliteral
  next hread =>
    cases hliteral
    exact Or.inl ⟨hread, rfl⟩
  next numeral hread =>
    change (Expression.ofValue (numeral.signed negative)).mapError _ = _ at hliteral
    by_cases hfinite : (numeral.signed negative).isFinite = true
    · rw [Expression.ofValue, Literal.ofValue_of_finite hfinite] at hliteral
      cases hliteral
    · rw [Expression.ofValue, Literal.ofValue_of_not_finite hfinite] at hliteral
      cases hliteral
      have hnearest : Binary64.IsNearest (Numeral.spelledValue token.text.toList)
          (numeral.signed negative).magnitude := nearest_signed hread
      have hcode : (numeral.signed negative).magnitude = Binary64.infinityCode := by
        rw [Binary64.isFinite, decide_eq_true_eq, Nat.not_lt] at hfinite
        exact Nat.le_antisymm hnearest.1 hfinite
      have hvalue : numeral.signed negative = .infinity negative :=
        Binary64.eq_of_fields (numeral.negative_signed negative) hcode
      rw [hcode] at hnearest
      exact Or.inr ⟨hnearest, by rw [hvalue]⟩

theorem exists_name_of_toVariable {e : Expression} (hvariable : token.toVariable = .ok e) :
    ∃ x : Variable, e = .var x ∧ x.name = token.text := by
  rw [toVariable, Expression.ofName, Variable.ofName] at hvariable
  split at hvariable
  next hvalid =>
    cases hvariable
    exact ⟨⟨token.text, hvalid⟩, rfl, rfl⟩
  next => cases hvariable

theorem toVariable_of_name {x : Variable} (hname : x.name = token.text) :
    token.toVariable = .ok (.var x) := by
  obtain ⟨name, hvalid⟩ := x
  simp only at hname
  subst hname
  rw [toVariable, Expression.ofName, Variable.ofName, dif_pos hvalid]
  rfl

theorem toVariable_eq_error {error : ParseError} (hvariable : token.toVariable = .error error) :
    isValidName token.text = false ∧ error = .construction (.invalidName token.text) := by
  rw [toVariable, Expression.ofName, Variable.ofName] at hvariable
  split at hvariable
  next => cases hvariable
  next hinvalid =>
    cases hvariable
    exact ⟨Bool.eq_false_iff.mpr hinvalid, rfl⟩

end Token

end SumProduct
