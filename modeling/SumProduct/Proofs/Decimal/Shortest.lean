import SumProduct.Proofs.Decimal.Grids
import SumProduct.Proofs.Decimal.ReadBack

/-!
# The search for the shortest decimal

The numbers that read back to a magnitude form an interval, and the search goes through the
grids that are finer and finer until one meets it. So it ends at the coarsest such grid, at
the nearest point of it: with the fewest digits, and nearest among all that have as few.
-/

namespace SumProduct.Numeral

-- Powers are those of the natural numbers, also where monoids have powers.
attribute [local instance (2000)] instPowNat

open Binary64

variable {code : Nat}

/-! ## Points that read back -/

/-- A finite magnitude in the units of the search. -/
theorem value_eq_exact (code : Nat) :
    Binary64.value code = (exact code : ℚ) / ((10 ^ unitPlaces : Nat) : ℚ) := by
  rw [Binary64.value,
    div_eq_div_iff two_pow_unitPlaces_pos.ne' (cast_ten_pow_ne_zero unitPlaces)]
  exact_mod_cast (exact_mul_two_pow code).symm

/-- A point reads back exactly if it rounds to the code. -/
theorem isNearest_iff_readsBack (hpos : 0 < code) (hfinite : code < infinityCode) (point : Nat) :
    IsNearest ((point : ℚ) / ((10 ^ unitPlaces : Nat) : ℚ)) code ↔
      readsBack code point = true := by
  refine ⟨fun hnearest => ?_, isNearest_of_readsBack hfinite.le⟩
  have hten := cast_ten_pow_pos unitPlaces
  have hlow := hnearest.low hpos
  have hhigh := hnearest.high hfinite
  simp only [value_eq_exact, ← add_div, mul_div_assoc', div_lt_div_iff_of_pos_right hten,
    div_left_inj' hten.ne'] at hlow hhigh
  rw [readsBack_iff]
  exact ⟨by exact_mod_cast hlow, by exact_mod_cast hhigh⟩

/-- What lies between two points that read back reads back as well. -/
theorem readsBack_between {first point second : Nat} (hfirst : readsBack code first = true)
    (hsecond : readsBack code second = true) (hfront : first ≤ point) (hback : point ≤ second) :
    readsBack code point = true := by
  rw [readsBack_iff] at *
  omega

/-! ## One grid -/

/-- How far a point is from the magnitude of a code. -/
def distance (code point : Nat) : Nat :=
  (point - exact code) + (exact code - point)

/-- The two points of a grid around a magnitude. -/
theorem grid_around (code grid : Nat) :
    exact code / 10 ^ grid * 10 ^ grid ≤ exact code ∧
      exact code < (exact code / 10 ^ grid + 1) * 10 ^ grid := by
  refine ⟨Nat.div_mul_le_self _ _, ?_⟩
  rw [Nat.mul_comm]
  exact Nat.lt_mul_div_succ _ (ten_pow_pos grid)

/-- Every other point of the grid lies outside of these two. -/
theorem grid_outside (code grid count : Nat) :
    count * 10 ^ grid ≤ exact code / 10 ^ grid * 10 ^ grid ∨
      (exact code / 10 ^ grid + 1) * 10 ^ grid ≤ count * 10 ^ grid := by
  rcases Nat.lt_or_ge (exact code / 10 ^ grid) count with hlt | hle
  · exact Or.inr (Nat.mul_le_mul_right _ hlt)
  · exact Or.inl (Nat.mul_le_mul_right _ hle)

/-- A miss means that neither of the two points around the magnitude reads back. -/
theorem readsBack_of_onGrid?_eq_none {grid : Nat} (hmiss : onGrid? code grid = none) :
    readsBack code (exact code / 10 ^ grid * 10 ^ grid) = false ∧
      readsBack code ((exact code / 10 ^ grid + 1) * 10 ^ grid) = false := by
  simp only [onGrid?] at hmiss
  split at hmiss
  next => split at hmiss <;> cases hmiss
  next => cases hmiss
  next => cases hmiss
  next hbelow habove => exact ⟨hbelow, habove⟩

/-- A grid without a hit has no point that reads back. -/
theorem readsBack_eq_false_of_onGrid? (hpos : 0 < code) {grid : Nat}
    (hmiss : onGrid? code grid = none) (count : Nat) :
    readsBack code (count * 10 ^ grid) = false := by
  rw [Bool.eq_false_iff]
  intro hback
  obtain ⟨hbelow, habove⟩ := grid_around code grid
  obtain ⟨hnone, hnone'⟩ := readsBack_of_onGrid?_eq_none hmiss
  rcases grid_outside code grid count with hle | hle
  · rw [readsBack_between hback (readsBack_exact hpos) hle hbelow] at hnone
    cases hnone
  · rw [readsBack_between (readsBack_exact hpos) hback habove.le hle] at hnone'
    cases hnone'

/-- A hit is the nearest of the points that read back. -/
theorem distance_le_of_onGrid? (hpos : 0 < code) {grid count other : Nat}
    (hhit : onGrid? code grid = some count)
    (hother : readsBack code (other * 10 ^ grid) = true) :
    distance code (count * 10 ^ grid) ≤ distance code (other * 10 ^ grid) := by
  obtain ⟨hbelow, habove⟩ := grid_around code grid
  have hside := grid_outside code grid other
  -- A point on one side that reads back makes the nearer point of that side read back.
  have hfront : other * 10 ^ grid ≤ exact code / 10 ^ grid * 10 ^ grid →
      readsBack code (exact code / 10 ^ grid * 10 ^ grid) = true :=
    fun hle => readsBack_between hother (readsBack_exact hpos) hle hbelow
  have hback : (exact code / 10 ^ grid + 1) * 10 ^ grid ≤ other * 10 ^ grid →
      readsBack code ((exact code / 10 ^ grid + 1) * 10 ^ grid) = true :=
    fun hle => readsBack_between (readsBack_exact hpos) hother habove.le hle
  simp only [onGrid?] at hhit
  simp only [distance]
  split at hhit
  next =>
    split at hhit
    next hnearer =>
      cases hhit
      omega
    next hnearer =>
      cases hhit
      omega
  next hreads hnone =>
    cases hhit
    rw [hnone] at hback
    have hle := hside.resolve_right (fun hle => Bool.false_ne_true (hback hle))
    omega
  next hnone hreads =>
    cases hhit
    rw [hnone] at hfront
    have hle := hside.resolve_left (fun hle => Bool.false_ne_true (hfront hle))
    omega
  next => cases hhit

/-! ## From the coarsest grid down -/

/-- A point that reads back, on the coarsest grid that has such points, and nearest among
those of that grid. -/
structure Hit (code grid count : Nat) : Prop where
  reads : readsBack code (count * 10 ^ grid) = true
  coarsest : ∀ other, readsBack code (other * 10 ^ (grid + 1)) = false
  nearest : ∀ other, readsBack code (other * 10 ^ grid) = true →
    distance code (count * 10 ^ grid) ≤ distance code (other * 10 ^ grid)

/-- The search from a grid on ends with a hit if nothing reads back on the grid above. -/
theorem exists_hit_of_shortestFrom (hpos : 0 < code) (top : Nat)
    (htop : ∀ other, readsBack code (other * 10 ^ (top + 1)) = false) :
    ∃ grid count, shortestFrom code top = ofGrid count grid ∧ Hit code grid count := by
  induction top with
  | zero =>
      refine ⟨0, exact code, rfl, ⟨?_, htop, fun other _ => ?_⟩⟩
      · rw [Nat.pow_zero, Nat.mul_one]
        exact readsBack_exact hpos
      · rw [Nat.pow_zero, Nat.mul_one, distance, Nat.sub_self]
        exact Nat.zero_le _
  | succ top ih =>
      rw [shortestFrom]
      split
      next count hhit =>
        exact ⟨top + 1, count, rfl, readsBack_of_onGrid? hhit, htop,
          fun other hother => distance_le_of_onGrid? hpos hhit hother⟩
      next hmiss => exact ih (readsBack_eq_false_of_onGrid? hpos hmiss)

/-- The top grid is coarser than the magnitude. -/
theorem exact_lt_topGrid (code : Nat) : exact code < 10 ^ topGrid code := by
  have hlog : exact code < 2 ^ ((exact code).log2 + 1) := Nat.lt_log2_self
  refine hlog.trans_le ((Nat.pow_le_pow_iff_left (show 93 ≠ 0 by decide)).mp ?_)
  rw [topGrid]
  generalize (exact code).log2 + 1 = bits
  have hgrid : 28 * bits ≤ (bits * 28 / 93 + 1) * 93 := by omega
  calc (2 ^ bits) ^ 93 = (2 ^ 93) ^ bits := by rw [← Nat.pow_mul, ← Nat.pow_mul, Nat.mul_comm]
    _ ≤ (10 ^ 28) ^ bits := Nat.pow_le_pow_left (by decide) bits
    _ = 10 ^ (28 * bits) := by rw [← Nat.pow_mul]
    _ ≤ 10 ^ ((bits * 28 / 93 + 1) * 93) := Nat.pow_le_pow_right (by decide) hgrid
    _ = (10 ^ (bits * 28 / 93 + 1)) ^ 93 := by rw [← Nat.pow_mul]

/-! ## Steps behind a magnitude -/

/-- From the first exponent on, a magnitude has `2 ^ 52` of its steps at least. -/
theorem two_pow_mul_step_le (hle : 2 ^ fractionBits ≤ code) :
    2 ^ fractionBits * 2 ^ (code / 2 ^ fractionBits - 1) ≤ units code := by
  rw [units_of_le hle]
  exact Nat.mul_le_mul_right _ (Nat.le_add_right _ _)

/-- The magnitude after a code, by the step that leads to it. -/
theorem exact_succ (code : Nat) :
    exact (code + 1) =
      exact code + 2 ^ (code / 2 ^ fractionBits - 1) * 5 ^ unitPlaces := by
  rw [exact, exact, units_succ, Nat.add_mul]

/-- A step is no greater than the magnitude in front of it. -/
theorem step_le_units (hpos : 0 < code) : 2 ^ (code / 2 ^ fractionBits - 1) ≤ units code := by
  rcases Nat.lt_or_ge code (2 ^ fractionBits) with hlt | hle
  · rw [units_of_lt hlt, Nat.div_eq_of_lt hlt]
    exact hpos
  · exact (Nat.le_mul_of_pos_left _ (by decide)).trans (two_pow_mul_step_le hle)

/-- Nothing reads back on grids above the top one. -/
theorem readsBack_topGrid (hpos : 0 < code) (other : Nat) :
    readsBack code (other * 10 ^ (topGrid code + 1)) = false := by
  have htop := exact_lt_topGrid code
  have hstep : exact (code + 1) ≤ 2 * exact code := by
    have hle := Nat.mul_le_mul_right (5 ^ unitPlaces) (step_le_units hpos)
    rw [exact_succ, Nat.two_mul]
    exact Nat.add_le_add_left hle _
  have hexact : 0 < exact code := (Nat.zero_le _).trans_lt (exact_strictMono hpos)
  rw [Bool.eq_false_iff, Ne, readsBack_iff, Nat.pow_succ]
  intro hback
  have hne : other ≠ 0 := by
    rintro rfl
    omega
  have hle := Nat.le_mul_of_pos_left (10 ^ topGrid code * 10) (Nat.pos_of_ne_zero hne)
  omega

/-- The few magnitudes that are not far greater than their steps have no power of ten close
behind them. -/
theorem not_ten_pow_behind {grid : Nat} (hpos : 0 < code) (hsmall : code ≤ 9)
    (hbehind : 20 * (code * 5 ^ unitPlaces) < 19 * 10 ^ grid) :
    2 * (code * 5 ^ unitPlaces) + 5 ^ unitPlaces < 2 * 10 ^ grid := by
  have hcode := Nat.mul_le_mul_right (5 ^ unitPlaces) hsmall
  have hunit := Nat.mul_le_mul_right (5 ^ unitPlaces) hpos
  -- The unit is a little less than half of `10 ^ 751`, and other powers of ten are far from it.
  rcases Nat.lt_trichotomy grid 751 with hlt | rfl | hgt
  · have hpow := Nat.pow_le_pow_right (show 0 < 10 by decide) (show grid ≤ 750 by omega)
    have hlow : 19 * 10 ^ (750 : Nat) ≤ 20 * 5 ^ unitPlaces := by decide +kernel
    generalize 10 ^ (750 : Nat) = power at hlow hpow
    omega
  · rcases Nat.lt_or_eq_of_le hpos with hmore | rfl
    · have htwo : 19 * 10 ^ (751 : Nat) ≤ 40 * 5 ^ unitPlaces := by decide +kernel
      have hmore := Nat.mul_le_mul_right (5 ^ unitPlaces) hmore
      generalize 10 ^ (751 : Nat) = power at hbehind htwo
      omega
    · decide +kernel
  · have hpow := Nat.pow_le_pow_right (show 0 < 10 by decide) (show 752 ≤ grid by omega)
    have hhigh : 19 * 5 ^ unitPlaces < 2 * 10 ^ (752 : Nat) := by decide +kernel
    generalize 10 ^ (752 : Nat) = power at hhigh hpow
    omega

/-- A power of ten that reads back does not lie far behind the magnitude. -/
theorem ten_pow_le_of_readsBack (hpos : 0 < code) {grid : Nat}
    (hback : readsBack code (10 ^ grid) = true) : 19 * 10 ^ grid ≤ 20 * exact code := by
  by_contra hlt
  have hlt := Nat.not_le.mp hlt
  obtain ⟨-, hhigh⟩ := (readsBack_iff code _).mp hback
  have hle : 2 * 10 ^ grid ≤ 2 * exact code +
      2 ^ (code / 2 ^ fractionBits - 1) * 5 ^ unitPlaces := by
    rw [exact_succ] at hhigh
    omega
  have hsteps : 2 * units code < 19 * 2 ^ (code / 2 ^ fractionBits - 1) := by
    apply Nat.lt_of_mul_lt_mul_right (a := 5 ^ unitPlaces)
    rw [Nat.mul_assoc, Nat.mul_assoc]
    change 2 * exact code < _
    omega
  -- A power of ten that far behind is within one step only if the steps are few.
  have hcode : code < 2 ^ fractionBits := by
    by_contra hge
    have hmany := two_pow_mul_step_le (Nat.not_lt.mp hge)
    simp only [fractionBits] at hmany hsteps
    omega
  rw [exact, units_of_lt hcode] at hlt hle
  rw [units_of_lt hcode] at hsteps
  rw [Nat.div_eq_of_lt hcode, Nat.zero_sub, Nat.pow_zero] at hle hsteps
  have hfar := not_ten_pow_behind hpos (by omega) hlt
  omega

/-! ## The shortest decimal -/

/-- The step of a grid. -/
def gridStep (grid : Nat) : ℚ :=
  ((10 ^ grid : Nat) : ℚ) / ((10 ^ unitPlaces : Nat) : ℚ)

theorem count_mul_gridStep (count grid : Nat) :
    (count : ℚ) * gridStep grid =
      ((count * 10 ^ grid : Nat) : ℚ) / ((10 ^ unitPlaces : Nat) : ℚ) := by
  rw [gridStep, ← mul_div_assoc, Nat.cast_mul]

theorem gridStep_succ (grid : Nat) : gridStep (grid + 1) = 10 * gridStep grid := by
  rw [gridStep, gridStep, Nat.pow_succ, Nat.mul_comm, Nat.cast_mul, Nat.cast_ofNat, mul_div_assoc]

/-- The distance of a point from a magnitude, in units. -/
theorem abs_sub_value (code point : Nat) :
    |(point : ℚ) / ((10 ^ unitPlaces : Nat) : ℚ) - Binary64.value code| =
      (distance code point : ℚ) / ((10 ^ unitPlaces : Nat) : ℚ) := by
  have hten := cast_ten_pow_pos unitPlaces
  rw [value_eq_exact, ← sub_div, abs_div, abs_of_pos hten, distance]
  rcases Nat.le_total point (exact code) with hle | hle
  · rw [abs_sub_comm, abs_of_nonneg (sub_nonneg.mpr (by exact_mod_cast hle)),
      Nat.sub_eq_zero_of_le hle, Nat.zero_add, Nat.cast_sub hle]
  · rw [abs_of_nonneg (sub_nonneg.mpr (by exact_mod_cast hle)),
      Nat.sub_eq_zero_of_le hle, Nat.add_zero, Nat.cast_sub hle]

/-- A hit is chosen from all numbers that round to the code. -/
theorem Hit.chosen {grid count : Nat} (hhit : Hit code grid count) (hpos : 0 < code)
    (hfinite : code < infinityCode) :
    Chosen {q | IsNearest q code} (Binary64.value code) (gridStep grid) count := by
  have hten := cast_ten_pow_pos unitPlaces
  have hreads := isNearest_iff_readsBack hpos hfinite
  refine ⟨div_pos (cast_ten_pow_pos grid) hten, ?_, fun other hother => ?_,
    fun other hother => ?_⟩
  · rw [Set.mem_ofPred_eq, count_mul_gridStep, hreads]
    exact hhit.reads
  · rw [Set.mem_ofPred_eq, ← gridStep_succ, count_mul_gridStep, hreads, hhit.coarsest] at hother
    cases hother
  · rw [Set.mem_ofPred_eq, count_mul_gridStep, hreads] at hother
    rw [count_mul_gridStep, count_mul_gridStep, abs_sub_value, abs_sub_value,
      div_le_div_iff_of_pos_right hten]
    exact_mod_cast hhit.nearest other hother

/-- The search finds a number of the coarsest grid. -/
theorem exists_hit_of_shortest (hpos : 0 < code) :
    ∃ grid count : Nat, (shortest code).value = (count : ℚ) * gridStep grid ∧
      Hit code grid count := by
  obtain ⟨grid, count, hfrom, hhit⟩ :=
    exists_hit_of_shortestFrom hpos (topGrid code) (readsBack_topGrid hpos)
  refine ⟨grid, count, ?_, hhit⟩
  rw [shortest, if_neg hpos.ne', hfrom, value_ofGrid, count_mul_gridStep]

/-- A step is a power of ten. -/
theorem gridStep_eq_zpow (grid : Nat) :
    gridStep grid = (10 : ℚ) ^ ((grid : ℤ) - (unitPlaces : ℤ)) := by
  rw [gridStep, zpow_sub₀ (by norm_num), cast_ten_pow, cast_ten_pow]

/-- A power of ten is one on any grid. -/
theorem zpow_eq_mul_gridStep (exponent : ℤ) (grid : Nat) :
    (10 : ℚ) ^ exponent =
      (10 : ℚ) ^ (exponent - ((grid : ℤ) - (unitPlaces : ℤ))) * gridStep grid := by
  rw [gridStep_eq_zpow, ← zpow_add₀ (by norm_num), sub_add_cancel]

/-- Every number that rounds to a magnitude needs as many digits as its shortest decimal has,
and is no nearer to the magnitude if it has no more. -/
theorem shortest_of_isNearest (hpos : 0 < code) (hfinite : code < infinityCode) {p : ℚ}
    (hp : IsNearest p code) {room : Nat} (hroom : WrittenWith room p) :
    WrittenWith room (shortest code).value ∧
      ((∀ fewer < room, ¬WrittenWith fewer (shortest code).value) →
        |(shortest code).value - Binary64.value code| ≤ |p - Binary64.value code|) := by
  obtain ⟨grid, count, hvalue, hhit⟩ := exists_hit_of_shortest hpos
  obtain ⟨digits, exponent, hdigits, rfl⟩ := hroom
  have hchosen := hhit.chosen hpos hfinite
  have hconn := ordConnected_isNearest code
  have hwritten : ∀ {places}, count < 10 ^ places → WrittenWith places (shortest code).value :=
    fun hlt => ⟨count, _, hlt, hvalue.trans (by rw [gridStep_eq_zpow])⟩
  rw [zpow_eq_mul_gridStep exponent grid, ← mul_assoc] at hp ⊢
  refine ⟨hwritten (hchosen.lt_ten_pow hconn hdigits hp), fun hfewest => ?_⟩
  rw [hvalue]
  refine hchosen.nearest_of_fewest hconn (fun hstep => ?_) hdigits (fun fewer hlt => ?_) hp
  · have hback := (isNearest_iff_readsBack hpos hfinite (10 ^ grid)).mp hstep
    have hnat : ((19 * 10 ^ grid : Nat) : ℚ) ≤ ((20 * exact code : Nat) : ℚ) :=
      Nat.cast_le.mpr (ten_pow_le_of_readsBack hpos hback)
    rw [gridStep, value_eq_exact, ← mul_div_assoc, ← mul_div_assoc,
      div_le_div_iff_of_pos_right (cast_ten_pow_pos unitPlaces)]
    rwa [Nat.cast_mul, Nat.cast_mul, Nat.cast_ofNat, Nat.cast_ofNat] at hnat
  · exact Nat.not_lt.mp (fun hcount => hfewest fewer hlt (hwritten hcount))

end SumProduct.Numeral
