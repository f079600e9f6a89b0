import SumProduct.Binary64.Basic

/-!
# Rounding to binary64

The binary64 number nearest to a quotient of two naturals, a tie going to the
even significand. One rounding is made, on the grid of the result: the carry
into the next exponent, the subnormal range and overflow need no cases of their
own, because codes and magnitudes have one order.
-/

namespace SumProduct

-- Powers are those of the natural numbers, also where monoids have powers.
attribute [local instance (2000)] instPowNat

/-- The whole number nearest to `num / den`; a half goes to the even one. -/
def roundHalfEven (num den : Nat) : Nat :=
  let quotient := num / den
  let remainder := num % den
  if 2 * remainder < den then quotient
  else if den < 2 * remainder then quotient + 1
  else quotient + quotient % 2

namespace Binary64

/-- The magnitude code nearest to `num / den`. With `2 ^ shift` units as the
spacing of binary64 numbers at the quotient, the significand is rounded to a
multiple of the spacing; whatever rounds to `2 ^ 1024` or more is infinity. -/
def nearestCode (num den : Nat) : Nat :=
  let scaled := num * 2 ^ unitPlaces
  -- A significand has 53 bits; numbers below `2 ^ 53` units keep the spacing of one unit.
  let shift := (scaled / den).log2 - fractionBits
  min (shift * 2 ^ fractionBits + roundHalfEven scaled (den * 2 ^ shift)) infinityCode

/-- Rounding ends at infinity at the latest. -/
theorem nearestCode_le (num den : Nat) : nearestCode num den ≤ infinityCode :=
  Nat.min_le_right _ _

/-- The nonnegative number nearest to `num / den`. -/
def ofFraction (num den : Nat) : Binary64 where
  negative := false
  magnitude := nearestCode num den
  magnitude_lt := Nat.lt_of_le_of_lt (nearestCode_le num den) (by decide)

end Binary64

end SumProduct
