import Mathlib.Algebra.Order.Field.Basic
import Mathlib.Data.Rat.Cast.Order
import Mathlib.Tactic.Linarith
import Mathlib.Tactic.Ring
import SumProduct.Binary64.Rounding

/-!
# Correct rounding

A fraction is rounded correctly to a code when no other code is nearer, and at a
tie only when the code is even. The code of infinity takes part with the magnitude
that would follow the largest finite one. At most one code is correct, and
`nearestCode` finds it for every fraction.
-/

namespace SumProduct

-- Powers are those of the natural numbers, also where monoids have powers.
attribute [local instance (2000)] instPowNat

namespace Binary64

/-- A number is its sign and its magnitude. -/
theorem eq_of_fields {x y : Binary64} (hnegative : x.negative = y.negative)
    (hmagnitude : x.magnitude = y.magnitude) : x = y := by
  cases x
  cases y
  cases hnegative
  cases hmagnitude
  rfl

/-- The magnitude that a code stands for. -/
def value (code : Nat) : ℚ :=
  (units code : ℚ) / ((2 ^ unitPlaces : Nat) : ℚ)

theorem two_pow_unitPlaces_pos : (0 : ℚ) < ((2 ^ unitPlaces : Nat) : ℚ) := by
  exact_mod_cast Nat.pow_pos (by decide)

/-- The code to which `q` is rounded: every other one is farther away, or equally
far while this one is even. -/
def IsNearest (q : ℚ) (code : Nat) : Prop :=
  code ≤ infinityCode ∧ ∀ other, other ≤ infinityCode → other ≠ code →
    |q - value code| < |q - value other| ∨
      (|q - value code| = |q - value other| ∧ code % 2 = 0)

/-! ## Codes and magnitudes have one order -/

theorem units_of_lt {code : Nat} (hlt : code < 2 ^ fractionBits) : units code = code :=
  if_pos hlt

theorem units_of_le {code : Nat} (hle : 2 ^ fractionBits ≤ code) :
    units code = (2 ^ fractionBits + code % 2 ^ fractionBits) *
      2 ^ (code / 2 ^ fractionBits - 1) :=
  if_neg (Nat.not_lt.mpr hle)

/-- A significand of at most 53 bits, scaled by its shift. The upper limit belongs
to the next exponent, where it is the least significand. -/
theorem units_shift {shift significand : Nat} (hle : significand ≤ 2 ^ (fractionBits + 1))
    (hge : shift = 0 ∨ 2 ^ fractionBits ≤ significand) :
    units (shift * 2 ^ fractionBits + significand) = significand * 2 ^ shift := by
  by_cases hsmall : significand < 2 ^ fractionBits
  · obtain rfl : shift = 0 := by omega
    rw [Nat.zero_mul, Nat.zero_add, units_of_lt hsmall, Nat.pow_zero, Nat.mul_one]
  · rw [units_of_le (by omega)]
    simp only [fractionBits] at *
    by_cases hcarry : significand = 2 ^ 53
    · have hquotient : (shift * 2 ^ 52 + significand) / 2 ^ 52 - 1 = shift + 1 := by omega
      have hremainder : (shift * 2 ^ 52 + significand) % 2 ^ 52 = 0 := by omega
      rw [hquotient, hremainder, hcarry, Nat.pow_succ]
      omega
    · have hquotient : (shift * 2 ^ 52 + significand) / 2 ^ 52 - 1 = shift := by omega
      have hremainder : 2 ^ 52 + (shift * 2 ^ 52 + significand) % 2 ^ 52 = significand := by omega
      rw [hquotient, hremainder]

/-- The step from a code to the next one doubles with every exponent above the first. -/
theorem units_succ (code : Nat) :
    units (code + 1) = units code + 2 ^ (code / 2 ^ fractionBits - 1) := by
  by_cases hsmall : code < 2 ^ fractionBits
  · have hfirst : units (0 * 2 ^ fractionBits + (code + 1)) = (code + 1) * 2 ^ 0 := by
      apply units_shift _ (Or.inl rfl)
      simp only [fractionBits] at *
      omega
    rw [Nat.zero_mul, Nat.zero_add, Nat.pow_zero, Nat.mul_one] at hfirst
    rw [hfirst, units_of_lt hsmall, Nat.div_eq_of_lt hsmall]
  · let shift := code / 2 ^ fractionBits - 1
    let significand := 2 ^ fractionBits + code % 2 ^ fractionBits
    have hcode : code = shift * 2 ^ fractionBits + significand := by
      simp only [shift, significand, fractionBits] at *
      omega
    have hlt : significand < 2 ^ (fractionBits + 1) := by
      simp only [significand, fractionBits]
      omega
    have hthis : units code = significand * 2 ^ shift := by
      conv_lhs => rw [hcode]
      exact units_shift hlt.le (Or.inr (Nat.le_add_right _ _))
    have hnext : units (code + 1) = (significand + 1) * 2 ^ shift := by
      conv_lhs => rw [hcode, Nat.add_assoc]
      exact units_shift hlt (Or.inr (Nat.le_trans (Nat.le_add_right _ _) (Nat.le_succ _)))
    rw [hnext, hthis, Nat.succ_mul]

theorem units_strictMono : StrictMono units := by
  apply strictMono_nat_of_lt_succ
  intro code
  rw [units_succ]
  exact Nat.lt_add_of_pos_right (Nat.pow_pos (by decide))

theorem value_strictMono : StrictMono value := by
  intro first second hlt
  refine (div_lt_div_iff_of_pos_right two_pow_unitPlaces_pos).mpr ?_
  exact_mod_cast units_strictMono hlt

/-! ## Between the midpoints -/

/-- It is enough to compare with the two neighbours of a code. -/
theorem isNearest_of_midpoints {q : ℚ} {code : Nat} (hcode : code ≤ infinityCode)
    (hlow : 0 < code → value (code - 1) + value code < 2 * q ∨
      (value (code - 1) + value code = 2 * q ∧ code % 2 = 0))
    (hhigh : code < infinityCode → 2 * q < value code + value (code + 1) ∨
      (2 * q = value code + value (code + 1) ∧ code % 2 = 0)) :
    IsNearest q code := by
  refine ⟨hcode, ?_⟩
  intro other hother hne
  rcases Nat.lt_or_gt_of_ne hne with hlt | hgt
  · have hvalue := value_strictMono hlt
    have hmid : value other ≤ value (code - 1) := value_strictMono.monotone (by omega)
    have hfar : |q - value other| = q - value other := by
      apply abs_of_pos
      rcases hlow (by omega) with h | h <;> linarith [h]
    rw [hfar]
    rcases hlow (by omega) with hstrict | ⟨htie, heven⟩
    · exact Or.inl (abs_lt.mpr ⟨by linarith, by linarith⟩)
    · have hle : |q - value code| ≤ q - value other := abs_le.mpr ⟨by linarith, by linarith⟩
      exact (lt_or_eq_of_le hle).imp_right (fun heq => ⟨heq, heven⟩)
  · have hvalue := value_strictMono hgt
    have hmid : value (code + 1) ≤ value other := value_strictMono.monotone (by omega)
    have hfar : |q - value other| = value other - q := by
      rw [abs_sub_comm]
      apply abs_of_pos
      rcases hhigh (by omega) with h | h <;> linarith [h]
    rw [hfar]
    rcases hhigh (by omega) with hstrict | ⟨htie, heven⟩
    · exact Or.inl (abs_lt.mpr ⟨by linarith, by linarith⟩)
    · have hle : |q - value code| ≤ value other - q := abs_le.mpr ⟨by linarith, by linarith⟩
      exact (lt_or_eq_of_le hle).imp_right (fun heq => ⟨heq, heven⟩)

/-- Of two nearest codes both would be even, and the one between them would be nearer. -/
theorem IsNearest.le_of_isNearest {q : ℚ} {first second : Nat} (hfirst : IsNearest q first)
    (hsecond : IsNearest q second) : second ≤ first := by
  by_contra hlt
  have hlt : first < second := by omega
  have hforth := hfirst.2 second hsecond.1 (by omega)
  have hback := hsecond.2 first hfirst.1 (by omega)
  have htie : |q - value first| = |q - value second| := by
    rcases hforth with h | h
    · rcases hback with h' | h'
      · exact absurd h (lt_asymm h')
      · exact h'.1.symm
    · exact h.1
  have heven : first % 2 = 0 ∧ second % 2 = 0 := by
    rw [htie] at hforth hback
    exact ⟨(hforth.resolve_left (lt_irrefl _)).2, (hback.resolve_left (lt_irrefl _)).2⟩
  have hbelow := value_strictMono (show first < first + 1 by omega)
  have habove := value_strictMono (show first + 1 < second by omega)
  have hmiddle := hfirst.2 (first + 1) (by have := hsecond.1; omega) (by omega)
  -- The midpoint of the two values is `q`, and the value between is strictly nearer to it.
  have hcentre : q - value first = value second - q := by
    rcases abs_eq_abs.mp htie with h | h <;> linarith
  have hnear : |q - value (first + 1)| < |q - value first| := by
    rw [abs_of_pos (show 0 < q - value first by linarith)]
    exact abs_lt.mpr ⟨by linarith, by linarith⟩
  rcases hmiddle with h | h
  · exact lt_asymm h hnear
  · exact absurd h.1 (ne_of_gt hnear)

/-- A fraction is rounded to one code only. -/
theorem IsNearest.unique {q : ℚ} {first second : Nat} (hfirst : IsNearest q first)
    (hsecond : IsNearest q second) : first = second :=
  Nat.le_antisymm (hsecond.le_of_isNearest hfirst) (hfirst.le_of_isNearest hsecond)

end Binary64

end SumProduct
