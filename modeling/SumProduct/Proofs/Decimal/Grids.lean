import SumProduct.Proofs.Binary64.Interval
import SumProduct.Proofs.Decimal.Digits

/-!
# Intervals and decimal grids

An interval of numbers is searched for its point with the fewest digits. The coarsest grid
that meets it has such a point, since a point of a finer grid lies between the same tens and
so needs no fewer digits. Among the points with equally few digits the one nearest to a
centre is found on that grid as well, unless the grid starts only behind the centre.
-/

namespace SumProduct.Numeral

-- Powers are those of the natural numbers, also where monoids have powers.
attribute [local instance (2000)] instPowNat

/-- `count` steps are a point of the interval, on the coarsest grid that meets it, and no
point of that grid in the interval is nearer to the centre. -/
structure Chosen (interval : Set ℚ) (centre step : ℚ) (count : Nat) : Prop where
  step_pos : 0 < step
  mem : (count : ℚ) * step ∈ interval
  coarsest : ∀ other : Nat, (other : ℚ) * (10 * step) ∉ interval
  nearest : ∀ other : Nat, (other : ℚ) * step ∈ interval →
    |(count : ℚ) * step - centre| ≤ |(other : ℚ) * step - centre|

namespace Chosen

variable {interval : Set ℚ} {centre step p : ℚ} {count : Nat}

/-! ## Between two tens -/

/-- The points of the interval lie behind the ten that is below the count. -/
theorem tens_lt (hchosen : Chosen interval centre step count) (hconn : interval.OrdConnected)
    (hp : p ∈ interval) : ((count / 10 : Nat) : ℚ) * (10 * step) < p := by
  by_contra hle
  refine hchosen.coarsest (count / 10) (hconn.out hp hchosen.mem ⟨not_lt.mp hle, ?_⟩)
  have htens : (count / 10 : Nat) * 10 ≤ count := Nat.div_mul_le_self count 10
  rw [← mul_assoc]
  exact mul_le_mul_of_nonneg_right (by exact_mod_cast htens) hchosen.step_pos.le

/-- A point of the interval on a grid that is finer by some places has at least as many
digits more than the tens below the count. -/
theorem tens_mul_lt (hchosen : Chosen interval centre step count) (hconn : interval.OrdConnected)
    {digits places : Nat} (hp : (digits : ℚ) / ((10 ^ places : Nat) : ℚ) * step ∈ interval) :
    count / 10 * 10 * 10 ^ places < digits := by
  have hlt := hchosen.tens_lt hconn hp
  rw [← mul_assoc, mul_lt_mul_iff_of_pos_right hchosen.step_pos,
    lt_div_iff₀ (cast_ten_pow_pos places)] at hlt
  exact_mod_cast hlt

/-- The places of a point of the interval, whose grid is not coarser. -/
theorem exists_places (hchosen : Chosen interval centre step count) {digits : Nat} {exponent : ℤ}
    (hp : (digits : ℚ) * (10 : ℚ) ^ exponent * step ∈ interval) :
    ∃ places : Nat, (10 : ℚ) ^ exponent = 1 / ((10 ^ places : Nat) : ℚ) := by
  rcases Int.lt_or_le 0 exponent with hpos | hneg
  · obtain ⟨steps, rfl⟩ : ∃ steps : Nat, exponent = (steps : ℤ) + 1 :=
      ⟨(exponent - 1).toNat, by omega⟩
    refine absurd hp ?_
    rw [zpow_add₀ (by norm_num), zpow_one, ← cast_ten_pow, ← mul_assoc, mul_assoc, ← Nat.cast_mul]
    exact hchosen.coarsest _
  · obtain ⟨places, rfl⟩ : ∃ places : Nat, exponent = -(places : ℤ) :=
      ⟨exponent.natAbs, by omega⟩
    exact ⟨places, by rw [zpow_neg, ← cast_ten_pow, one_div]⟩

/-! ## Fewest digits -/

/-- A number below a power of ten that is not one is below it with all of its ten. -/
theorem lt_ten_pow_of_tens_lt {count places : Nat} (htens : count / 10 * 10 < 10 ^ places)
    (hplaces : places ≠ 0) : count < 10 ^ places := by
  obtain ⟨more, rfl⟩ := Nat.exists_eq_succ_of_ne_zero hplaces
  rw [Nat.pow_succ] at htens ⊢
  omega

/-- No point of the interval is written with fewer digits. -/
theorem lt_ten_pow (hchosen : Chosen interval centre step count) (hconn : interval.OrdConnected)
    {digits room : Nat} {exponent : ℤ} (hroom : digits < 10 ^ room)
    (hp : (digits : ℚ) * (10 : ℚ) ^ exponent * step ∈ interval) : count < 10 ^ room := by
  obtain ⟨places, hpow⟩ := hchosen.exists_places hp
  rw [hpow, mul_one_div] at hp
  have hlt := hchosen.tens_mul_lt hconn hp
  have htens := Nat.le_mul_of_pos_right (count / 10 * 10) (ten_pow_pos places)
  refine lt_ten_pow_of_tens_lt (htens.trans_lt (hlt.trans hroom)) ?_
  rintro rfl
  rw [Nat.pow_zero] at hroom
  omega

/-! ## Nearest to the centre -/

/-- A single step that lies in the interval is not farther away than any point of a finer
grid before it, if it does not lie far behind the centre. -/
theorem nearest_of_step (hchosen : Chosen interval centre step count)
    (hmem : step ∈ interval) (hstep : 19 * step ≤ 20 * centre) (hp : 10 * p ≤ 9 * step) :
    |(count : ℚ) * step - centre| ≤ |p - centre| := by
  have hnearest := hchosen.nearest 1 (by rwa [Nat.cast_one, one_mul])
  rw [Nat.cast_one, one_mul] at hnearest
  have hpos := hchosen.step_pos
  refine hnearest.trans ?_
  rw [abs_sub_comm p, abs_of_nonneg (show 0 ≤ centre - p by linarith)]
  exact abs_le.mpr ⟨by linarith, by linarith⟩

/-- One digit on a finer grid stays below nine tenths of a step. -/
theorem ten_mul_le (hstep : 0 < step) {digits : Nat} (hdigits : digits < 10) (places : Nat) :
    10 * ((digits : ℚ) / ((10 ^ (places + 1) : Nat) : ℚ) * step) ≤ 9 * step := by
  have hpow : (1 : ℚ) ≤ ((10 ^ places : Nat) : ℚ) := by exact_mod_cast ten_pow_pos places
  have hle : (digits : ℚ) ≤ 9 := by exact_mod_cast Nat.le_of_lt_succ hdigits
  have hsplit : ((10 ^ (places + 1) : Nat) : ℚ) = 10 * ((10 ^ places : Nat) : ℚ) := by
    rw [Nat.pow_succ, Nat.mul_comm, Nat.cast_mul, Nat.cast_ofNat]
  have hdigit : 10 * ((digits : ℚ) / ((10 ^ (places + 1) : Nat) : ℚ)) ≤ 9 := by
    rw [hsplit, ← mul_div_assoc, mul_div_mul_left _ _ (by norm_num), div_le_iff₀ (by linarith)]
    linarith
  rw [← mul_assoc]
  exact mul_le_mul_of_nonneg_right hdigit hstep.le

/-- A point of a finer grid has a digit more than the tens below the count. So there are no
tens if it has as few digits as the count, but one. -/
theorem room_eq_one {digits places room : Nat}
    (htens : count / 10 * 10 * 10 ^ (places + 1) < digits) (hroom : digits < 10 ^ room)
    (hfewest : ∀ fewer < room, 10 ^ fewer ≤ count) : room = 1 := by
  cases room with
  | zero =>
      rw [Nat.pow_zero] at hroom
      omega
  | succ more =>
      have hle := Nat.le_mul_of_pos_right (count / 10 * 10) (ten_pow_pos places)
      rw [Nat.pow_succ, ← Nat.mul_assoc] at htens
      rw [Nat.pow_succ] at hroom
      have hfull := Nat.not_lt.mpr (hfewest more (Nat.lt_succ_self more))
      by_contra hne
      exact hfull (lt_ten_pow_of_tens_lt (by omega) (by omega))

/-- No point of the interval with as few digits is nearer to the centre. -/
theorem nearest_of_fewest (hchosen : Chosen interval centre step count)
    (hconn : interval.OrdConnected) (hstep : step ∈ interval → 19 * step ≤ 20 * centre)
    {digits room : Nat} {exponent : ℤ} (hroom : digits < 10 ^ room)
    (hfewest : ∀ fewer < room, 10 ^ fewer ≤ count)
    (hp : (digits : ℚ) * (10 : ℚ) ^ exponent * step ∈ interval) :
    |(count : ℚ) * step - centre| ≤ |(digits : ℚ) * (10 : ℚ) ^ exponent * step - centre| := by
  obtain ⟨places, hpow⟩ := hchosen.exists_places hp
  rw [hpow, mul_one_div] at hp ⊢
  have hlt := hchosen.tens_mul_lt hconn hp
  cases places with
  | zero =>
      rw [Nat.pow_zero, Nat.cast_one, div_one] at hp ⊢
      exact hchosen.nearest digits hp
  | succ places =>
      -- Only a single step may lie behind the point, and not far behind the centre.
      obtain rfl := room_eq_one hlt hroom hfewest
      have hcount : 1 ≤ count := hfewest 0 Nat.one_pos
      have hle := ten_mul_le hchosen.step_pos hroom places
      have hfront : (digits : ℚ) / ((10 ^ (places + 1) : Nat) : ℚ) * step ≤ step := by
        linarith [hchosen.step_pos]
      have hback : step ≤ (count : ℚ) * step :=
        le_mul_of_one_le_left hchosen.step_pos.le (by exact_mod_cast hcount)
      have hmem : step ∈ interval := hconn.out hp hchosen.mem ⟨hfront, hback⟩
      exact hchosen.nearest_of_step hmem (hstep hmem) hle

end Chosen

end SumProduct.Numeral
