import SumProduct.Decimal.Numeral

/-!
# Shortest decimals

The numeral with the fewest digits that reads back to a given binary64 number,
and of those with equally few digits the one nearest to it. A number halfway
between two of these goes to the larger one.

All quantities are whole numbers of units of `10 ^ -1074`, in which every finite
binary64 number is whole. The multiples of `10 ^ grid` units are searched from
the coarsest grid down; on each only the two neighbours of the number matter.
-/

namespace SumProduct.Numeral

-- Powers are those of the natural numbers, also where monoids have powers.
attribute [local instance (2000)] instPowNat

/-- The magnitude of a code, in units of `10 ^ -1074`. -/
def exact (code : Nat) : Nat :=
  Binary64.units code * 5 ^ Binary64.unitPlaces

/-- Whether `point` units round to `code`: it lies between the midpoints to the
neighbours, and on a midpoint only if the code is even. -/
def readsBack (code point : Nat) : Bool :=
  let low := exact (code - 1) + exact code
  let high := exact code + exact (code + 1)
  if code % 2 = 0 then decide (low ≤ 2 * point ∧ 2 * point ≤ high)
  else decide (low < 2 * point ∧ 2 * point < high)

/-- The multiple of `10 ^ grid` units nearest to `code` that reads back to it,
as a count, if there is one. -/
def onGrid? (code grid : Nat) : Option Nat :=
  let below := exact code / 10 ^ grid
  let above := below + 1
  match readsBack code (below * 10 ^ grid), readsBack code (above * 10 ^ grid) with
  | true, true =>
      if exact code - below * 10 ^ grid < above * 10 ^ grid - exact code then some below
      else some above
  | true, false => some below
  | false, true => some above
  | false, false => none

/-- The numeral of `count` times `10 ^ grid` units. -/
def ofGrid (count grid : Nat) : Numeral :=
  if grid < Binary64.unitPlaces then ⟨count, Binary64.unitPlaces - grid⟩
  else ⟨count * 10 ^ (grid - Binary64.unitPlaces), 0⟩

/-- The first hit on the grids from the given one down. Every code is a multiple
of one unit, so the last grid always has one. -/
def shortestFrom (code : Nat) : Nat → Numeral
  | 0 => ofGrid (exact code) 0
  | grid + 1 =>
      match onGrid? code (grid + 1) with
      | some count => ofGrid count (grid + 1)
      | none => shortestFrom code grid

/-- A grid coarser than the number itself, since `2 ^ 93 < 10 ^ 28`. -/
def topGrid (code : Nat) : Nat :=
  ((exact code).log2 + 1) * 28 / 93 + 1

/-- The shortest numeral that reads back to the magnitude code. -/
def shortest (code : Nat) : Numeral :=
  if code = 0 then ⟨0, 0⟩ else shortestFrom code (topGrid code)

end SumProduct.Numeral
