/-!
# Binary64 numbers

A binary64 number is kept as its sign and its magnitude code, the lower 63 bits
of its word. Codes are ordered like the magnitudes they stand for: the finite
ones come first, then infinity, then every NaN. A finite magnitude is a whole
number of units of `2 ^ -1074`, so exact work on finite numbers needs only `Nat`.
-/

namespace SumProduct

-- Powers are those of the natural numbers, also where monoids have powers.
attribute [local instance (2000)] instPowNat

namespace Binary64

/-- The place of the sign in a word, above all bits of the magnitude. -/
def signPlace : Nat := 63

/-- The bits of a significand after its first one. -/
def fractionBits : Nat := 52

/-- The binary places of the unit, the least positive magnitude. -/
def unitPlaces : Nat := 1074

/-- The magnitude code of infinity, the first one that is not finite. -/
def infinityCode : Nat := 2047 * 2 ^ fractionBits

end Binary64

/-- A binary64 number: its sign bit and the other 63 bits of its word. -/
structure Binary64 where
  negative : Bool
  magnitude : Nat
  magnitude_lt : magnitude < 2 ^ Binary64.signPlace
  deriving DecidableEq

namespace Binary64

/-- The number whose word is `bits`. -/
def ofBits (bits : UInt64) : Binary64 where
  negative := decide (2 ^ signPlace ≤ bits.toNat)
  magnitude := bits.toNat % 2 ^ signPlace
  magnitude_lt := Nat.mod_lt _ (by decide)

/-- The word of a number. -/
def toBits (x : Binary64) : UInt64 :=
  UInt64.ofNat ((if x.negative then 2 ^ signPlace else 0) + x.magnitude)

/-- Neither an infinity nor a NaN. -/
def isFinite (x : Binary64) : Bool :=
  decide (x.magnitude < infinityCode)

/-- A code above infinity stands for no number. -/
def isNaN (x : Binary64) : Bool :=
  decide (infinityCode < x.magnitude)

/-- A zero of either sign. -/
def isZero (x : Binary64) : Bool :=
  x.magnitude == 0

/-- The infinity of the given sign. -/
def infinity (negative : Bool) : Binary64 :=
  ⟨negative, infinityCode, by decide⟩

/-- The number of the same magnitude and the other sign. -/
def neg (x : Binary64) : Binary64 :=
  { x with negative := !x.negative }

/-- The magnitude of a code, in units. Codes without an exponent count the units;
in the others the upper bits are the exponent and the lower ones the significand
without its first bit. The code of infinity gets `2 ^ 1024`, the magnitude that
would follow the largest finite one. -/
def units (code : Nat) : Nat :=
  if code < 2 ^ fractionBits then code
  else
    (2 ^ fractionBits + code % 2 ^ fractionBits) * 2 ^ (code / 2 ^ fractionBits - 1)

/-- Two finite numbers of the same value: equal, or both zero. -/
def sameValue (x y : Binary64) : Bool :=
  x.magnitude == y.magnitude && (x.negative == y.negative || x.isZero)

/-- The number of the same value whose zero is positive. -/
def dropZeroSign (x : Binary64) : Binary64 :=
  { x with negative := x.negative && !x.isZero }

/-- The sign takes the uppermost bit of the word. -/
theorem toNat_toBits (x : Binary64) :
    x.toBits.toNat = (if x.negative then 2 ^ signPlace else 0) + x.magnitude := by
  have hlt := x.magnitude_lt
  unfold toBits
  rw [UInt64.toNat_ofNat']
  apply Nat.mod_eq_of_lt
  simp only [signPlace] at hlt ⊢
  split <;> omega

@[simp] theorem ofBits_toBits (x : Binary64) : ofBits x.toBits = x := by
  have hlt := x.magnitude_lt
  have htoNat := x.toNat_toBits
  obtain ⟨negative, magnitude, _⟩ := x
  cases negative <;> simp only [ofBits, mk.injEq, decide_eq_true_eq, decide_eq_false_iff_not] <;>
    simp [signPlace] at htoNat hlt ⊢ <;> omega

@[simp] theorem toBits_ofBits (bits : UInt64) : (ofBits bits).toBits = bits := by
  apply UInt64.toNat_inj.mp
  rw [toNat_toBits]
  have hlt := bits.toNat_lt
  simp only [ofBits, decide_eq_true_eq]
  split <;> simp only [signPlace] at * <;> omega

end Binary64

end SumProduct
