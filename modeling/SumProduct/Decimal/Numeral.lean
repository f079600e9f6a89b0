import SumProduct.Binary64.Rounding

/-!
# Decimal numerals

A numeral is one or more digits, then perhaps a point and any number of digits.
It stands for an exact fraction, whatever its length, and is rounded once.
-/

namespace SumProduct

-- Powers are those of the natural numbers, also where monoids have powers.
attribute [local instance (2000)] instPowNat

/-- The fraction `significand / 10 ^ places`. -/
structure Numeral where
  significand : Nat
  places : Nat
  deriving DecidableEq, Repr

namespace Numeral

/-- The number that a list of digits spells. The list is read by halves, so that
a long numeral costs few long multiplications. -/
def ofDigits (digits : List Char) : Nat :=
  if h : digits.length ≤ 16 then Nat.ofDigitChars 10 digits 0
  else
    let low := digits.drop (digits.length / 2)
    ofDigits (digits.take (digits.length / 2)) * 10 ^ low.length + ofDigits low
termination_by digits.length
decreasing_by all_goals simp only [List.length_take, List.length_drop]; omega

/-- Reading by halves gives the positional value. -/
theorem ofDigits_eq_ofDigitChars (digits : List Char) :
    ofDigits digits = Nat.ofDigitChars 10 digits 0 := by
  fun_induction ofDigits digits with
  | case1 => rfl
  | case2 digits _ low ihHigh ihLow =>
      rw [ihHigh, ihLow, Nat.mul_comm, ← Nat.ofDigitChars_eq_ofDigitChars_zero,
        ← Nat.ofDigitChars_append, List.take_append_drop]

/-- The numeral that a text spells, if the whole text is one. -/
def ofString? (text : String) : Option Numeral :=
  let whole := text.toList.takeWhile Char.isDigit
  if whole.isEmpty then none
  else
    match text.toList.dropWhile Char.isDigit with
    | [] => some ⟨ofDigits whole, 0⟩
    | '.' :: fraction =>
        if fraction.all Char.isDigit then
          some ⟨ofDigits (whole ++ fraction), fraction.length⟩
        else none
    | _ => none

/-- The binary64 number nearest to a numeral; infinity if it is too large. -/
def toBinary64 (numeral : Numeral) : Binary64 :=
  Binary64.ofFraction numeral.significand (10 ^ numeral.places)

end Numeral

end SumProduct
