import SumProduct.Decimal.Shortest

/-!
# Positional text of numbers

Numerals are written out in full, without an exponent: the whole part without
leading zeros, then, if the numeral has places, a point and that many digits.
-/

namespace SumProduct

-- Powers are those of the natural numbers, also where monoids have powers.
attribute [local instance (2000)] instPowNat

namespace Numeral

/-- The digits before the point. -/
def wholeDigits (numeral : Numeral) : List Char :=
  Nat.toDigits 10 (numeral.significand / 10 ^ numeral.places)

/-- The digits after the point, one for each place. -/
def fractionDigits (numeral : Numeral) : List Char :=
  if numeral.places = 0 then []
  else
    (Nat.toDigits 10 (numeral.significand % 10 ^ numeral.places)).leftpad numeral.places '0'

/-- The numeral in full; a numeral without places has no point. -/
def text (numeral : Numeral) : String :=
  match numeral.fractionDigits with
  | [] => String.ofList numeral.wholeDigits
  | fraction => String.ofList (numeral.wholeDigits ++ '.' :: fraction)

/-- The numeral in full, with a point and a digit after it in every case. -/
def pointedText (numeral : Numeral) : String :=
  match numeral.fractionDigits with
  | [] => String.ofList (numeral.wholeDigits ++ ['.', '0'])
  | fraction => String.ofList (numeral.wholeDigits ++ '.' :: fraction)

end Numeral

namespace Binary64

/-- The sign of a number, written only if it is negative. -/
def signText (x : Binary64) : String :=
  if x.negative then "-" else ""

/-- The shortest text of any binary64 number. A NaN has no sign. -/
def text (x : Binary64) : String :=
  if x.isNaN then "NaN"
  else x.signText ++ (if x.isFinite then (Numeral.shortest x.magnitude).text else "inf")

/-- The shortest text of a finite number that always has a point, which marks it
as a number of this kind even when it is whole. -/
def pointedText (x : Binary64) : String :=
  x.signText ++ (Numeral.shortest x.magnitude).pointedText

end Binary64

end SumProduct
