import SumProduct.Proofs.Decimal.Value

/-!
# Shortest decimals read back

Whatever grid the search ends on, the point it returns lies between the midpoints
to the neighbours of the number, so the number is the nearest one to it.
-/

namespace SumProduct.Numeral

-- Powers are those of the natural numbers, also where monoids have powers.
attribute [local instance (2000)] instPowNat

open Binary64

/-- Ten has as many factors five as factors two. -/
theorem exact_mul_two_pow (code : Nat) :
    exact code * 2 ^ unitPlaces = units code * 10 ^ unitPlaces := by
  rw [exact, Nat.mul_assoc, ← Nat.mul_pow]

theorem exact_strictMono : StrictMono exact := by
  intro first second hlt
  exact Nat.mul_lt_mul_of_pos_right (units_strictMono hlt) (Nat.pow_pos (by decide))

/-- The test for reading back says that a point is between the midpoints, or on one
of them if the code is even. -/
theorem readsBack_iff (code point : Nat) :
    readsBack code point = true ↔
      (exact (code - 1) + exact code < 2 * point ∨
        (exact (code - 1) + exact code = 2 * point ∧ code % 2 = 0)) ∧
      (2 * point < exact code + exact (code + 1) ∨
        (2 * point = exact code + exact (code + 1) ∧ code % 2 = 0)) := by
  simp only [readsBack]
  split <;> simp only [decide_eq_true_eq] <;> omega

/-- Scaling by a power of two turns exact magnitudes into counts of units. -/
theorem exact_add_mul_two_pow (first second : Nat) :
    (exact first + exact second) * 2 ^ unitPlaces =
      (units first + units second) * 10 ^ unitPlaces := by
  rw [Nat.add_mul, exact_mul_two_pow, exact_mul_two_pow, Nat.add_mul]

/-- A point that passes the test is rounded to the code. -/
theorem isNearest_of_readsBack {code point : Nat} (hcode : code ≤ infinityCode)
    (hback : readsBack code point = true) :
    IsNearest ((point : ℚ) / ((10 ^ unitPlaces : Nat) : ℚ)) code := by
  obtain ⟨hlow, hhigh⟩ := (readsBack_iff code point).mp hback
  have hpos : 0 < 2 ^ unitPlaces := Nat.pow_pos (by decide)
  apply isNearest_of_units (ten_pow_pos _) hcode
  · intro _
    rw [← exact_add_mul_two_pow, ← Nat.mul_assoc]
    exact hlow.imp (fun hlt => Nat.mul_lt_mul_of_pos_right hlt hpos)
      (fun h => ⟨congrArg (· * 2 ^ unitPlaces) h.1, h.2⟩)
  · intro _
    rw [← exact_add_mul_two_pow, ← Nat.mul_assoc]
    exact hhigh.imp (fun hlt => Nat.mul_lt_mul_of_pos_right hlt hpos)
      (fun h => ⟨congrArg (· * 2 ^ unitPlaces) h.1, h.2⟩)

/-- Every magnitude but zero reads back from itself. -/
theorem readsBack_exact {code : Nat} (hpos : 0 < code) : readsBack code (exact code) = true := by
  have hbelow := exact_strictMono (show code - 1 < code by omega)
  have habove := exact_strictMono (show code < code + 1 by omega)
  rw [readsBack_iff]
  omega

/-- A hit on a grid reads back. -/
theorem readsBack_of_onGrid? {code grid count : Nat} (hhit : onGrid? code grid = some count) :
    readsBack code (count * 10 ^ grid) = true := by
  simp only [onGrid?] at hhit
  split at hhit
  next hbelow habove =>
    split at hhit
    · cases hhit
      exact hbelow
    · cases hhit
      exact habove
  next hbelow _ =>
    cases hhit
    exact hbelow
  next _ habove =>
    cases hhit
    exact habove
  next => cases hhit

/-- A count on a grid has the value of as many units of the finest grid. -/
theorem value_ofGrid (count grid : Nat) :
    (ofGrid count grid).value =
      ((count * 10 ^ grid : Nat) : ℚ) / ((10 ^ unitPlaces : Nat) : ℚ) := by
  simp only [ofGrid]
  split
  next hfine =>
    have hsplit : 10 ^ unitPlaces = 10 ^ (unitPlaces - grid) * 10 ^ grid := by
      rw [← Nat.pow_add, Nat.sub_add_cancel hfine.le]
    rw [hsplit, Nat.cast_mul, Nat.cast_mul, mul_div_mul_right _ _ (cast_ten_pow_ne_zero grid)]
    rfl
  next hcoarse =>
    have hsplit : 10 ^ grid = 10 ^ (grid - unitPlaces) * 10 ^ unitPlaces := by
      rw [← Nat.pow_add, Nat.sub_add_cancel (Nat.not_lt.mp hcoarse)]
    rw [hsplit, ← Nat.mul_assoc, Nat.cast_mul _ (10 ^ unitPlaces),
      mul_div_cancel_right₀ _ (cast_ten_pow_ne_zero unitPlaces), value, Nat.pow_zero, Nat.cast_one,
      div_one]

/-- The search ends at a point that reads back, at the latest on the finest grid. -/
theorem exists_readsBack_shortestFrom {code : Nat} (hpos : 0 < code) (grid : Nat) :
    ∃ point, readsBack code point = true ∧
      (shortestFrom code grid).value = (point : ℚ) / ((10 ^ unitPlaces : Nat) : ℚ) := by
  induction grid with
  | zero =>
      refine ⟨exact code, readsBack_exact hpos, ?_⟩
      rw [shortestFrom, value_ofGrid, Nat.pow_zero, Nat.mul_one]
  | succ grid ih =>
      rw [shortestFrom]
      split
      next count hhit => exact ⟨_, readsBack_of_onGrid? hhit, value_ofGrid count (grid + 1)⟩
      next => exact ih

theorem isNearest_zero : IsNearest 0 0 := by
  have h := isNearest_nearestCode 0 (show 0 < 1 by decide)
  have hcode : nearestCode 0 1 = 0 := by
    simp [nearestCode, roundHalfEven, fractionBits]
  rwa [hcode, Nat.cast_zero, zero_div] at h

/-- The shortest numeral of a finite magnitude is rounded to it. -/
theorem isNearest_shortest {code : Nat} (hfinite : code < infinityCode) :
    IsNearest (shortest code).value code := by
  rw [shortest]
  split
  next hzero =>
    rw [hzero, value, Nat.cast_zero, zero_div]
    exact isNearest_zero
  next hne =>
    obtain ⟨point, hback, hvalue⟩ :=
      exists_readsBack_shortestFrom (Nat.pos_of_ne_zero hne) (topGrid code)
    rw [hvalue]
    exact isNearest_of_readsBack hfinite.le hback

end SumProduct.Numeral
