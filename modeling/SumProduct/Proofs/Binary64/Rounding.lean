import Mathlib.Tactic.FieldSimp
import Mathlib.Tactic.NormNum
import SumProduct.Proofs.Binary64.Nearest

/-!
# Fractions are rounded correctly

Without the limit at infinity, `nearestCode` rounds the significand on the grid of
the quotient, and the result lies between the midpoints to its neighbours. The
limit keeps that true, because all larger codes are farther away than infinity.
-/

namespace SumProduct

-- Powers are those of the natural numbers, also where monoids have powers.
attribute [local instance (2000)] instPowNat

/-- A rounded quotient is at most half a unit off, and exactly half only if even. -/
theorem roundHalfEven_bounds (num : Nat) {den : Nat} (hden : 0 < den) :
    (2 * (roundHalfEven num den * den) < 2 * num + den ∨
      (2 * (roundHalfEven num den * den) = 2 * num + den ∧ roundHalfEven num den % 2 = 0)) ∧
    (2 * num < 2 * (roundHalfEven num den * den) + den ∨
      (2 * num = 2 * (roundHalfEven num den * den) + den ∧ roundHalfEven num den % 2 = 0)) := by
  have hdivision : num / den * den + num % den = num := Nat.div_add_mod' num den
  have hremainder := Nat.mod_lt num hden
  have hnext := Nat.add_one_mul (num / den) den
  simp only [roundHalfEven]
  split
  · omega
  · split
    · omega
    · rcases Nat.mod_two_eq_zero_or_one (num / den) with hparity | hparity
      · rw [hparity, Nat.add_zero]
        omega
      · rw [hparity]
        omega

namespace Binary64

section Midpoints

variable {num den : Nat}

/-- Comparing twice a fraction with two values needs no division. -/
theorem two_mul_lt_value_add_value_iff (hden : 0 < den) (first second : Nat) :
    2 * ((num : ℚ) / den) < value first + value second ↔
      2 * (num * 2 ^ unitPlaces) < (units first + units second) * den := by
  have hden' : (0 : ℚ) < den := by exact_mod_cast hden
  rw [value, value, ← add_div, mul_div_assoc', div_lt_div_iff₀ hden' two_pow_unitPlaces_pos]
  rw [← Nat.cast_lt (α := ℚ)]
  push_cast
  rw [mul_assoc]

theorem value_add_value_lt_two_mul_iff (hden : 0 < den) (first second : Nat) :
    value first + value second < 2 * ((num : ℚ) / den) ↔
      (units first + units second) * den < 2 * (num * 2 ^ unitPlaces) := by
  have hden' : (0 : ℚ) < den := by exact_mod_cast hden
  rw [value, value, ← add_div, mul_div_assoc', div_lt_div_iff₀ two_pow_unitPlaces_pos hden']
  rw [← Nat.cast_lt (α := ℚ)]
  push_cast
  rw [mul_assoc]

/-- Two values and a fraction are in the order of their counts of units. -/
theorem value_add_value_eq_two_mul (hden : 0 < den) {first second : Nat}
    (heq : (units first + units second) * den = 2 * (num * 2 ^ unitPlaces)) :
    value first + value second = 2 * ((num : ℚ) / den) := by
  refine le_antisymm (not_lt.mp ?_) (not_lt.mp ?_)
  · rw [two_mul_lt_value_add_value_iff hden, heq]
    exact lt_irrefl _
  · rw [value_add_value_lt_two_mul_iff hden, heq]
    exact lt_irrefl _

/-- The midpoints to the neighbours, counted in units. -/
theorem isNearest_of_units (hden : 0 < den) {code : Nat} (hcode : code ≤ infinityCode)
    (hlow : 0 < code →
      (units (code - 1) + units code) * den < 2 * (num * 2 ^ unitPlaces) ∨
        ((units (code - 1) + units code) * den = 2 * (num * 2 ^ unitPlaces) ∧ code % 2 = 0))
    (hhigh : code < infinityCode →
      2 * (num * 2 ^ unitPlaces) < (units code + units (code + 1)) * den ∨
        (2 * (num * 2 ^ unitPlaces) = (units code + units (code + 1)) * den ∧ code % 2 = 0)) :
    IsNearest ((num : ℚ) / den) code := by
  apply isNearest_of_midpoints hcode
  · intro hpos
    rcases hlow hpos with hlt | ⟨heq, heven⟩
    · exact Or.inl ((value_add_value_lt_two_mul_iff hden _ _).mpr hlt)
    · exact Or.inr ⟨value_add_value_eq_two_mul hden heq, heven⟩
  · intro hfinite
    rcases hhigh hfinite with hlt | ⟨heq, heven⟩
    · exact Or.inl ((two_mul_lt_value_add_value_iff hden _ _).mpr hlt)
    · exact Or.inr ⟨(value_add_value_eq_two_mul hden heq.symm).symm, heven⟩

end Midpoints

/-! ## The unlimited code -/

/-- The binary place of the spacing of binary64 numbers at a whole number of units. -/
def shiftAt (whole : Nat) : Nat :=
  whole.log2 - fractionBits

theorem lt_two_pow_shiftAt (whole : Nat) :
    whole < 2 ^ (fractionBits + 1) * 2 ^ shiftAt whole := by
  have hlog : whole < 2 ^ (whole.log2 + 1) := Nat.lt_log2_self
  have hle : whole.log2 + 1 ≤ fractionBits + 1 + shiftAt whole := by
    simp only [shiftAt]
    omega
  rw [← Nat.pow_add]
  exact Nat.lt_of_lt_of_le hlog (Nat.pow_le_pow_right (by decide) hle)

theorem two_pow_shiftAt_le {whole : Nat} (hshift : shiftAt whole ≠ 0) :
    2 ^ fractionBits * 2 ^ shiftAt whole ≤ whole := by
  have hne : whole ≠ 0 := by
    rintro rfl
    exact hshift (by decide)
  have hsum : fractionBits + shiftAt whole = whole.log2 := by
    simp only [shiftAt] at *
    omega
  rw [← Nat.pow_add, hsum]
  exact Nat.log2_self_le hne

variable {num den : Nat}

/-- The significand of a fraction of units on the grid of its quotient. -/
def significandOf (scaled den : Nat) : Nat :=
  roundHalfEven scaled (den * 2 ^ shiftAt (scaled / den))

/-- The code of a fraction of units if there were codes beyond infinity. -/
def unlimitedCode (scaled den : Nat) : Nat :=
  shiftAt (scaled / den) * 2 ^ fractionBits + significandOf scaled den

theorem nearestCode_eq (num den : Nat) :
    nearestCode num den = min (unlimitedCode (num * 2 ^ unitPlaces) den) infinityCode :=
  rfl

section Unlimited

variable {scaled den : Nat}

theorem scaled_lt (scaled : Nat) (hden : 0 < den) :
    scaled < 2 ^ (fractionBits + 1) * (den * 2 ^ shiftAt (scaled / den)) := by
  have hlt := (Nat.div_lt_iff_lt_mul hden).mp (lt_two_pow_shiftAt (scaled / den))
  rwa [Nat.mul_assoc, Nat.mul_comm (2 ^ _) den] at hlt

theorem le_scaled (hden : 0 < den) (hshift : shiftAt (scaled / den) ≠ 0) :
    2 ^ fractionBits * (den * 2 ^ shiftAt (scaled / den)) ≤ scaled := by
  have hle := (Nat.le_div_iff_mul_le hden).mp (two_pow_shiftAt_le hshift)
  rwa [Nat.mul_assoc, Nat.mul_comm (2 ^ _) den] at hle

/-- Rounding carries at most into the next exponent. -/
theorem significandOf_le (scaled : Nat) (hden : 0 < den) :
    significandOf scaled den ≤ 2 ^ (fractionBits + 1) := by
  have hspacing : 0 < den * 2 ^ shiftAt (scaled / den) :=
    Nat.mul_pos hden (Nat.pow_pos (by decide))
  have hbounds := (roundHalfEven_bounds scaled hspacing).1
  have hlt := scaled_lt scaled hden
  by_contra hgt
  have hmul := Nat.mul_le_mul_right (den * 2 ^ shiftAt (scaled / den)) (Nat.not_le.mp hgt)
  rw [Nat.succ_mul] at hmul
  simp only [significandOf] at hmul hbounds
  omega

/-- With a shift the significand has all its bits. -/
theorem le_significandOf (hden : 0 < den) (hshift : shiftAt (scaled / den) ≠ 0) :
    2 ^ fractionBits ≤ significandOf scaled den := by
  have hspacing : 0 < den * 2 ^ shiftAt (scaled / den) :=
    Nat.mul_pos hden (Nat.pow_pos (by decide))
  have hbounds := (roundHalfEven_bounds scaled hspacing).2
  have hle := le_scaled hden hshift
  by_contra hlt
  have hmul := Nat.mul_le_mul_right (den * 2 ^ shiftAt (scaled / den)) (Nat.not_le.mp hlt)
  rw [Nat.succ_mul] at hmul
  simp only [significandOf] at hmul hbounds
  omega

theorem units_unlimitedCode (hden : 0 < den) :
    units (unlimitedCode scaled den) =
      significandOf scaled den * 2 ^ shiftAt (scaled / den) := by
  apply units_shift (significandOf_le scaled hden)
  by_cases hshift : shiftAt (scaled / den) = 0
  · exact Or.inl hshift
  · exact Or.inr (le_significandOf hden hshift)

/-- A code has the parity of its significand. -/
theorem unlimitedCode_mod_two : unlimitedCode scaled den % 2 = significandOf scaled den % 2 := by
  simp only [unlimitedCode, fractionBits]
  omega

/-- Above the code the grid is not finer than at the code. -/
theorem le_units_unlimitedCode_succ (scaled : Nat) (hden : 0 < den) :
    units (unlimitedCode scaled den) + 2 ^ shiftAt (scaled / den) ≤
      units (unlimitedCode scaled den + 1) := by
  rw [units_succ]
  apply Nat.add_le_add_left
  apply Nat.pow_le_pow_right (by decide)
  by_cases hshift : shiftAt (scaled / den) = 0
  · omega
  · have hle := le_significandOf hden hshift
    simp only [unlimitedCode, fractionBits] at *
    omega

/-- Below the code the grid is the same, except under the least significand of an
exponent, where it is finer. -/
theorem units_unlimitedCode_pred (hden : 0 < den)
    (hmore : 2 ^ fractionBits < significandOf scaled den ∨ shiftAt (scaled / den) = 0)
    (hpos : 0 < unlimitedCode scaled den) :
    units (unlimitedCode scaled den - 1) + 2 ^ shiftAt (scaled / den) =
      units (unlimitedCode scaled den) := by
  have hle := significandOf_le scaled hden
  have hstep := units_succ (unlimitedCode scaled den - 1)
  rw [Nat.sub_add_cancel hpos] at hstep
  rw [hstep]
  congr 2
  simp only [unlimitedCode, fractionBits] at *
  omega

/-- The code lies above the midpoint to the code before it. -/
theorem unlimitedCode_low (hden : 0 < den) (hpos : 0 < unlimitedCode scaled den) :
    (units (unlimitedCode scaled den - 1) + units (unlimitedCode scaled den)) * den < 2 * scaled ∨
      ((units (unlimitedCode scaled den - 1) + units (unlimitedCode scaled den)) * den =
        2 * scaled ∧ unlimitedCode scaled den % 2 = 0) := by
  have hspacing : 0 < den * 2 ^ shiftAt (scaled / den) :=
    Nat.mul_pos hden (Nat.pow_pos (by decide))
  have hunits : units (unlimitedCode scaled den) * den =
      significandOf scaled den * (den * 2 ^ shiftAt (scaled / den)) := by
    rw [units_unlimitedCode hden, Nat.mul_assoc, Nat.mul_comm den]
  by_cases hmore : 2 ^ fractionBits < significandOf scaled den ∨ shiftAt (scaled / den) = 0
  · have hpred := units_unlimitedCode_pred hden hmore hpos
    have hpred' : units (unlimitedCode scaled den - 1) * den + den * 2 ^ shiftAt (scaled / den) =
        units (unlimitedCode scaled den) * den := by
      rw [← hpred, Nat.add_mul, Nat.mul_comm den]
    have hbounds := (roundHalfEven_bounds scaled hspacing).1
    rw [Nat.add_mul, unlimitedCode_mod_two]
    simp only [significandOf] at hunits ⊢
    omega
  · -- The fraction is not below the least significand of its exponent.
    left
    push Not at hmore
    have hleast : significandOf scaled den = 2 ^ fractionBits :=
      Nat.le_antisymm hmore.1 (le_significandOf hden hmore.2)
    have hle := le_scaled hden hmore.2
    rw [hleast] at hunits
    have hpred := units_strictMono (show unlimitedCode scaled den - 1 < unlimitedCode scaled den
      by omega)
    have hmul := Nat.mul_lt_mul_of_pos_right hpred hden
    rw [Nat.add_mul]
    omega

/-- The code lies below the midpoint to the code after it. -/
theorem unlimitedCode_high (hden : 0 < den) :
    2 * scaled < (units (unlimitedCode scaled den) + units (unlimitedCode scaled den + 1)) * den ∨
      (2 * scaled =
          (units (unlimitedCode scaled den) + units (unlimitedCode scaled den + 1)) * den ∧
        unlimitedCode scaled den % 2 = 0) := by
  have hspacing : 0 < den * 2 ^ shiftAt (scaled / den) :=
    Nat.mul_pos hden (Nat.pow_pos (by decide))
  have hunits : units (unlimitedCode scaled den) * den =
      significandOf scaled den * (den * 2 ^ shiftAt (scaled / den)) := by
    rw [units_unlimitedCode hden, Nat.mul_assoc, Nat.mul_comm den]
  have hsucc := Nat.mul_le_mul_right den (le_units_unlimitedCode_succ scaled hden)
  rw [Nat.add_mul, Nat.mul_comm (2 ^ _) den] at hsucc
  have hbounds := (roundHalfEven_bounds scaled hspacing).2
  rw [Nat.add_mul, unlimitedCode_mod_two]
  simp only [significandOf] at hunits ⊢
  omega

end Unlimited

/-! ## The limit at infinity -/

/-- Every fraction is rounded to the nearest code, a tie to the even one. -/
theorem isNearest_nearestCode (num : Nat) {den : Nat} (hden : 0 < den) :
    IsNearest ((num : ℚ) / den) (nearestCode num den) := by
  rw [nearestCode_eq]
  let code := unlimitedCode (num * 2 ^ unitPlaces) den
  rcases Nat.le_total code infinityCode with hle | hge
  · rw [Nat.min_eq_left hle]
    exact isNearest_of_units hden hle (unlimitedCode_low hden) (fun _ => unlimitedCode_high hden)
  · rw [Nat.min_eq_right hge]
    apply isNearest_of_units hden (Nat.le_refl _)
    · intro _
      have hpos : 0 < code := Nat.lt_of_lt_of_le (by decide) hge
      have hmid : (units (infinityCode - 1) + units infinityCode) * den ≤
          (units (code - 1) + units code) * den := by
        apply Nat.mul_le_mul_right
        apply Nat.add_le_add
        · exact units_strictMono.monotone (by omega)
        · exact units_strictMono.monotone hge
      have heven : infinityCode % 2 = 0 := by decide
      rcases unlimitedCode_low hden hpos with hlt | ⟨heq, _⟩
      · exact Or.inl (Nat.lt_of_le_of_lt hmid hlt)
      · exact (Nat.lt_or_eq_of_le (hmid.trans heq.le)).imp_right (fun h => ⟨h, heven⟩)
    · intro hlt
      exact absurd hlt (Nat.lt_irrefl _)

end Binary64

end SumProduct
