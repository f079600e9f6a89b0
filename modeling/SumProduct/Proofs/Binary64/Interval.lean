import Mathlib.Order.Interval.Set.OrdConnected
import Mathlib.Tactic.NormNum
import SumProduct.Proofs.Binary64.Nearest

/-!
# The numbers that round to a code

They lie between the midpoints to the neighbours of the code, and on a midpoint only if the
code is even. So they form an interval, and the interval of infinity starts halfway between
the greatest finite number and `2 ^ 1024`.
-/

namespace SumProduct.Binary64

-- Powers are those of the natural numbers, also where monoids have powers.
attribute [local instance (2000)] instPowNat

variable {q : ℚ} {code : Nat}

/-! ## Midpoints -/

/-- A number that is nearer to the second of two others lies behind their midpoint. -/
theorem midpoint_lt_of_nearer {first second : ℚ} (hlt : first < second)
    (hnearer : |q - second| < |q - first|) : first + second < 2 * q := by
  by_contra hle
  have hle : 2 * q ≤ first + second := not_lt.mp hle
  rw [abs_sub_comm, abs_of_pos (show 0 < second - q by linarith)] at hnearer
  rcases lt_abs.mp hnearer with h | h <;> linarith

/-- A number that is nearer to the first of two others lies in front of their midpoint. -/
theorem lt_midpoint_of_nearer {first second : ℚ} (hlt : first < second)
    (hnearer : |q - first| < |q - second|) : 2 * q < first + second := by
  by_contra hle
  have hle : first + second ≤ 2 * q := not_lt.mp hle
  rw [abs_of_pos (show 0 < q - first by linarith)] at hnearer
  rcases lt_abs.mp hnearer with h | h <;> linarith

/-- A number that is equally far from two others is their midpoint. -/
theorem eq_midpoint_of_tie {first second : ℚ} (hlt : first < second)
    (htie : |q - first| = |q - second|) : first + second = 2 * q := by
  rcases abs_eq_abs.mp htie with h | h <;> linarith

/-- The lower end of the interval. -/
theorem IsNearest.low (hnearest : IsNearest q code) (hpos : 0 < code) :
    value (code - 1) + value code < 2 * q ∨
      (value (code - 1) + value code = 2 * q ∧ code % 2 = 0) := by
  have hlt := value_strictMono (show code - 1 < code by omega)
  have hle := hnearest.1
  rcases hnearest.2 (code - 1) (by omega) (by omega) with hnearer | ⟨htie, heven⟩
  · exact Or.inl (midpoint_lt_of_nearer hlt hnearer)
  · exact Or.inr ⟨eq_midpoint_of_tie hlt htie.symm, heven⟩

/-- The upper end of the interval. -/
theorem IsNearest.high (hnearest : IsNearest q code) (hfinite : code < infinityCode) :
    2 * q < value code + value (code + 1) ∨
      (2 * q = value code + value (code + 1) ∧ code % 2 = 0) := by
  have hlt := value_strictMono (show code < code + 1 by omega)
  rcases hnearest.2 (code + 1) (by omega) (by omega) with hnearer | ⟨htie, heven⟩
  · exact Or.inl (lt_midpoint_of_nearer hlt hnearer)
  · exact Or.inr ⟨(eq_midpoint_of_tie hlt htie).symm, heven⟩

/-- What lies between two numbers that round to a code rounds to it as well. -/
theorem ordConnected_isNearest (code : Nat) : {q | IsNearest q code}.OrdConnected := by
  refine ⟨fun first hfirst second hsecond q hq => ?_⟩
  obtain ⟨hfront, hback⟩ := hq
  apply isNearest_of_midpoints hfirst.1
  · intro hpos
    rcases hfirst.low hpos with hlt | ⟨heq, heven⟩
    · exact Or.inl (by linarith)
    · exact (lt_or_eq_of_le (show value (code - 1) + value code ≤ 2 * q by linarith)).imp_right
        (fun htie => ⟨htie, heven⟩)
  · intro hfinite
    rcases hsecond.high hfinite with hlt | ⟨heq, heven⟩
    · exact Or.inl (by linarith)
    · exact (lt_or_eq_of_le (show 2 * q ≤ value code + value (code + 1) by linarith)).imp_right
        (fun htie => ⟨htie, heven⟩)

/-! ## Overflow -/

theorem cast_two_pow (places : Nat) : ((2 ^ places : Nat) : ℚ) = 2 ^ places := by
  rw [Nat.cast_pow, Nat.cast_ofNat]

/-- A whole number is as many times the number of units in one. -/
theorem value_of_units_eq {whole : Nat} (hunits : units code = whole * 2 ^ unitPlaces) :
    value code = whole := by
  rw [value, hunits, Nat.cast_mul, mul_div_cancel_right₀ _ two_pow_unitPlaces_pos.ne']

/-- The least number that rounds to infinity. -/
def overflowBound : ℚ :=
  2 ^ 1024 - 2 ^ 970

theorem value_infinityCode : value infinityCode = 2 ^ 1024 := by
  have hunits : units infinityCode = 2 ^ 1024 * 2 ^ unitPlaces := by decide +kernel
  rw [value_of_units_eq hunits, cast_two_pow]

/-- The greatest finite number has all bits of its significand. -/
theorem value_pred_infinityCode : value (infinityCode - 1) = 2 ^ 1024 - 2 ^ 971 := by
  have hunits : units (infinityCode - 1) = (2 ^ 1024 - 2 ^ 971) * 2 ^ unitPlaces := by
    decide +kernel
  rw [value_of_units_eq hunits, Nat.cast_sub (by decide +kernel), cast_two_pow, cast_two_pow]

/-- The bound is halfway between the greatest finite number and `2 ^ 1024`. -/
theorem value_add_value_infinityCode :
    value (infinityCode - 1) + value infinityCode = 2 * overflowBound := by
  have hpow : (2 : ℚ) ^ 971 = 2 * 2 ^ 970 := pow_succ' 2 970
  rw [value_pred_infinityCode, value_infinityCode, overflowBound, hpow, mul_sub,
    two_mul (2 ^ 1024), sub_add_eq_add_sub]

/-- A number rounds to infinity from the bound on; the bound itself is a tie, and the
greatest finite number is odd. -/
theorem isNearest_infinityCode_iff : IsNearest q infinityCode ↔ overflowBound ≤ q := by
  have hmid := value_add_value_infinityCode
  constructor
  · intro hnearest
    rcases hnearest.low (by decide) with h | ⟨h, _⟩ <;> linarith
  · intro hle
    apply isNearest_of_midpoints (Nat.le_refl _)
    · intro _
      rcases lt_or_eq_of_le hle with hlt | heq
      · exact Or.inl (by linarith)
      · exact Or.inr ⟨by linarith, by decide⟩
    · intro hlt
      exact absurd hlt (Nat.lt_irrefl _)

end SumProduct.Binary64
