import SumProduct.Decimal.Text
import SumProduct.Proofs.Binary64.Rounding
import SumProduct.Proofs.Text.Runs

/-!
# What numerals stand for

A numeral is a rational number, and a text of digits with at most one point is the
sum of its digits at their places. Reading keeps that number, and so does writing a
numeral in full; reading as a binary64 number depends on nothing else.
-/

namespace SumProduct

-- Powers are those of the natural numbers, also where monoids have powers.
attribute [local instance (2000)] instPowNat

namespace Numeral

/-- The rational number of a numeral. -/
def value (numeral : Numeral) : ℚ :=
  (numeral.significand : ℚ) / ((10 ^ numeral.places : Nat) : ℚ)

/-- The number that digits with at most one point among them spell. -/
def spelledValue (chars : List Char) : ℚ :=
  let whole := chars.takeWhile Char.isDigit
  let fraction := (chars.dropWhile Char.isDigit).drop 1
  (Nat.ofDigitChars 10 whole 0 : ℚ) +
    (Nat.ofDigitChars 10 fraction 0 : ℚ) / ((10 ^ fraction.length : Nat) : ℚ)

theorem ten_pow_pos (places : Nat) : 0 < 10 ^ places :=
  Nat.pow_pos (by decide)

theorem cast_ten_pow_pos (places : Nat) : (0 : ℚ) < ((10 ^ places : Nat) : ℚ) :=
  Nat.cast_pos.mpr (ten_pow_pos places)

theorem cast_ten_pow_ne_zero (places : Nat) : ((10 ^ places : Nat) : ℚ) ≠ 0 :=
  (cast_ten_pow_pos places).ne'

/-! ## Rounding depends on the value alone -/

theorem isNearest_toBinary64 (numeral : Numeral) :
    Binary64.IsNearest numeral.value numeral.toBinary64.magnitude :=
  Binary64.isNearest_nearestCode numeral.significand (ten_pow_pos numeral.places)

/-! ## Digits by their places -/

/-- The digits before and after the point, read as one number. -/
theorem ofDigits_append (whole fraction : List Char) :
    ofDigits (whole ++ fraction) =
      10 ^ fraction.length * Nat.ofDigitChars 10 whole 0 + Nat.ofDigitChars 10 fraction 0 := by
  rw [ofDigits_eq_ofDigitChars, Nat.ofDigitChars_append, Nat.ofDigitChars_eq_ofDigitChars_zero]

/-- The value of digits before and after a point. -/
theorem value_ofDigits (whole fraction : List Char) :
    value ⟨ofDigits (whole ++ fraction), fraction.length⟩ =
      (Nat.ofDigitChars 10 whole 0 : ℚ) +
        (Nat.ofDigitChars 10 fraction 0 : ℚ) / ((10 ^ fraction.length : Nat) : ℚ) := by
  have hne := cast_ten_pow_ne_zero fraction.length
  rw [value, ofDigits_append, Nat.cast_add, Nat.cast_mul, add_div, mul_div_cancel_left₀ _ hne]

/-- Reading a text gives a numeral of the number that it spells. -/
theorem value_of_ofString? {text : String} {numeral : Numeral}
    (hread : ofString? text = some numeral) : numeral.value = spelledValue text.toList := by
  simp only [ofString?] at hread
  simp only [spelledValue]
  split at hread
  next => cases hread
  next =>
    split at hread
    next hrest =>
      cases hread
      have hvalue := value_ofDigits (text.toList.takeWhile Char.isDigit) []
      rw [List.append_nil] at hvalue
      rw [hrest]
      exact hvalue
    next fraction hrest =>
      split at hread
      next =>
        cases hread
        rw [hrest]
        exact value_ofDigits _ fraction
      next => cases hread
    next => cases hread

/-! ## Numerals in full -/

/-- Digits are a numeral. -/
theorem ofString?_whole {text : String} {whole : List Char} (htext : text.toList = whole)
    (hne : whole ≠ []) (hwhole : ∀ c ∈ whole, c.isDigit = true) :
    ofString? text = some ⟨ofDigits whole, 0⟩ := by
  have hnil : Text.Stops Char.isDigit [] := by simp [Text.Stops]
  have htake := Text.takeWhile_append_of_stops hwhole hnil
  have hdrop := Text.dropWhile_append_of_stops hwhole hnil
  rw [List.append_nil] at htake hdrop
  simp only [ofString?, htext, htake, hdrop, List.isEmpty_iff, hne, if_false]

/-- Digits, a point and digits are a numeral. -/
theorem ofString?_pointed {text : String} {whole fraction : List Char}
    (htext : text.toList = whole ++ '.' :: fraction) (hne : whole ≠ [])
    (hwhole : ∀ c ∈ whole, c.isDigit = true) (hfraction : ∀ c ∈ fraction, c.isDigit = true) :
    ofString? text = some ⟨ofDigits (whole ++ fraction), fraction.length⟩ := by
  have hpoint : Text.Stops Char.isDigit ('.' :: fraction) := by simp [Text.Stops]
  simp only [ofString?, htext, Text.takeWhile_append_of_stops hwhole hpoint,
    Text.dropWhile_append_of_stops hwhole hpoint, List.isEmpty_iff, hne, if_false,
    List.all_eq_true.mpr hfraction, if_true]

theorem isDigit_of_mem_toDigits (n : Nat) : ∀ c ∈ Nat.toDigits 10 n, c.isDigit = true :=
  fun _ hmem => Nat.isDigit_of_mem_toDigits (by decide) (by decide) hmem

/-- The digits after the point of a text that always has one. -/
def pointedFraction (numeral : Numeral) : List Char :=
  if numeral.fractionDigits = [] then ['0'] else numeral.fractionDigits

theorem toList_pointedText (numeral : Numeral) :
    numeral.pointedText.toList = numeral.wholeDigits ++ '.' :: numeral.pointedFraction := by
  simp only [pointedText, pointedFraction]
  split
  next hempty => rw [if_pos hempty, String.toList_ofList]
  next hsome => rw [if_neg hsome, String.toList_ofList]

theorem isDigit_of_mem_wholeDigits (numeral : Numeral) :
    ∀ c ∈ numeral.wholeDigits, c.isDigit = true :=
  isDigit_of_mem_toDigits _

theorem wholeDigits_ne_nil (numeral : Numeral) : numeral.wholeDigits ≠ [] :=
  Nat.toDigits_ne_nil

theorem isDigit_of_mem_fractionDigits (numeral : Numeral) :
    ∀ c ∈ numeral.fractionDigits, c.isDigit = true := by
  intro c hmem
  simp only [fractionDigits] at hmem
  split at hmem
  next => cases hmem
  next =>
    rcases List.mem_append.mp hmem with hpad | hdigit
    · rw [List.eq_of_mem_replicate hpad]
      rfl
    · exact isDigit_of_mem_toDigits _ c hdigit

theorem isDigit_of_mem_pointedFraction (numeral : Numeral) :
    ∀ c ∈ numeral.pointedFraction, c.isDigit = true := by
  simp only [pointedFraction]
  split
  next => simp
  next => exact numeral.isDigit_of_mem_fractionDigits

/-- A text that always has a point has nothing but it and digits. -/
theorem isDigit_or_point_of_mem_pointedText (numeral : Numeral) :
    ∀ c ∈ numeral.pointedText.toList, c.isDigit = true ∨ c = '.' := by
  intro c hmem
  rw [numeral.toList_pointedText, List.mem_append, List.mem_cons] at hmem
  rcases hmem with hwhole | hpoint | hfraction
  · exact Or.inl (numeral.isDigit_of_mem_wholeDigits c hwhole)
  · exact Or.inr hpoint
  · exact Or.inl (numeral.isDigit_of_mem_pointedFraction c hfraction)

/-- A numeral with places has one digit for each. -/
theorem length_fractionDigits (numeral : Numeral) :
    numeral.fractionDigits.length = numeral.places := by
  simp only [fractionDigits]
  split
  next hzero => simp [hzero]
  next hplaces =>
    have hlt : numeral.significand % 10 ^ numeral.places < 10 ^ numeral.places :=
      Nat.mod_lt _ (ten_pow_pos _)
    rw [List.length_leftpad]
    apply Nat.max_eq_left
    exact (Nat.length_toDigits_le_iff (by decide) (Nat.pos_of_ne_zero hplaces)).mpr hlt

/-- The digits after the point count what the whole part leaves over. -/
theorem ofDigitChars_fractionDigits (numeral : Numeral) :
    Nat.ofDigitChars 10 numeral.fractionDigits 0 = numeral.significand % 10 ^ numeral.places := by
  simp only [fractionDigits]
  split
  next hzero => simp [hzero, Nat.mod_one]
  next =>
    rw [List.leftpad, Nat.ofDigitChars_append, Nat.ofDigitChars_replicate_zero, Nat.mul_zero,
      Nat.ofDigitChars_ten_toDigits]

/-- All digits together are the significand. -/
theorem value_digits (numeral : Numeral) :
    value ⟨ofDigits (numeral.wholeDigits ++ numeral.fractionDigits),
      numeral.fractionDigits.length⟩ = numeral.value := by
  rw [ofDigits_append, length_fractionDigits, ofDigitChars_fractionDigits, wholeDigits,
    Nat.ofDigitChars_ten_toDigits, Nat.div_add_mod]

/-- A whole numeral keeps its value when a zero is written after the point. -/
theorem value_pointedDigits (numeral : Numeral) :
    value ⟨ofDigits (numeral.wholeDigits ++ numeral.pointedFraction),
      numeral.pointedFraction.length⟩ = numeral.value := by
  rw [← numeral.value_digits, value_ofDigits, value_ofDigits, pointedFraction]
  split
  next hempty =>
    have hzero : Nat.ofDigitChars 10 ['0'] 0 = 0 := rfl
    rw [hempty, hzero, Nat.ofDigitChars_nil, Nat.cast_zero, zero_div, zero_div]
  next => rfl

/-- The text of a numeral reads back to a numeral of the same value. -/
theorem exists_ofString?_pointedText (numeral : Numeral) :
    ∃ again, ofString? numeral.pointedText = some again ∧ again.value = numeral.value := by
  have hread := ofString?_pointed numeral.toList_pointedText numeral.wholeDigits_ne_nil
    numeral.isDigit_of_mem_wholeDigits numeral.isDigit_of_mem_pointedFraction
  exact ⟨_, hread, numeral.value_pointedDigits⟩

end Numeral

end SumProduct
