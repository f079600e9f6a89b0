import SumProduct.Proofs.Decimal.Value

/-!
# Spellings of numerals

A numeral is written as one or more digits, then perhaps a point and any number of digits.
The number that it spells is not changed by zeros in front, by a point at the end or by
zeros behind the point.
-/

namespace SumProduct.Numeral

-- Powers are those of the natural numbers, also where monoids have powers.
attribute [local instance (2000)] instPowNat

/-- The digits of a numeral in front of its point and, if it has one, behind it. -/
structure Spelling where
  whole : List Char
  fraction? : Option (List Char)
  whole_ne_nil : whole ≠ []
  isDigit_of_mem_whole : ∀ c ∈ whole, c.isDigit = true
  isDigit_of_mem_fraction : ∀ c ∈ fraction?.getD [], c.isDigit = true

namespace Spelling

/-- The digits behind the point. -/
def fraction (spelling : Spelling) : List Char :=
  spelling.fraction?.getD []

/-- The characters of a numeral. -/
def chars (spelling : Spelling) : List Char :=
  match spelling.fraction? with
  | none => spelling.whole
  | some fraction => spelling.whole ++ '.' :: fraction

/-- A numeral starts with a digit. -/
theorem exists_chars_eq_cons (spelling : Spelling) :
    ∃ c rest, spelling.chars = c :: rest ∧ c.isDigit = true := by
  obtain ⟨whole, fraction?, hne, hwhole, _⟩ := spelling
  obtain ⟨c, digits, rfl⟩ := List.exists_cons_of_ne_nil hne
  have hdigit := hwhole c List.mem_cons_self
  cases fraction? with
  | none => exact ⟨c, digits, rfl, hdigit⟩
  | some fraction => exact ⟨c, digits ++ '.' :: fraction, rfl, hdigit⟩

/-- The number that a numeral spells. -/
def value (spelling : Spelling) : ℚ :=
  (Nat.ofDigitChars 10 spelling.whole 0 : ℚ) +
    (Nat.ofDigitChars 10 spelling.fraction 0 : ℚ) / ((10 ^ spelling.fraction.length : Nat) : ℚ)

/-- A spelling is read as a numeral of its number. -/
theorem exists_ofString? (spelling : Spelling) :
    ∃ numeral, ofString? (String.ofList spelling.chars) = some numeral ∧
      numeral.value = spelling.value := by
  obtain ⟨whole, fraction?, hne, hwhole, hfraction⟩ := spelling
  cases fraction? with
  | none =>
      have hvalue := value_ofDigits whole []
      rw [List.append_nil] at hvalue
      exact ⟨_, ofString?_whole String.toList_ofList hne hwhole, hvalue⟩
  | some fraction =>
      exact ⟨_, ofString?_pointed String.toList_ofList hne hwhole hfraction,
        value_ofDigits whole fraction⟩

/-- What digits with at most one point spell is the number of the numeral. -/
theorem spelledValue_chars (spelling : Spelling) :
    spelledValue spelling.chars = spelling.value := by
  obtain ⟨numeral, hread, hvalue⟩ := spelling.exists_ofString?
  rw [← hvalue, value_of_ofString? hread, String.toList_ofList]

/-- A whole number as it is written. -/
def ofNat (n : Nat) : Spelling where
  whole := Nat.toDigits 10 n
  fraction? := none
  whole_ne_nil := Nat.toDigits_ne_nil
  isDigit_of_mem_whole := isDigit_of_mem_toDigits n
  isDigit_of_mem_fraction := fun _ hmem => absurd hmem List.not_mem_nil

theorem value_ofNat (n : Nat) : (ofNat n).value = n := by
  rw [value, ofNat, Nat.ofDigitChars_ten_toDigits]
  simp only [fraction, Option.getD_none, Nat.ofDigitChars_nil, Nat.cast_zero, zero_div, add_zero]

/-! ## Zeros that do not count -/

theorem isDigit_of_mem_zeros {zeros : Nat} {c : Char} (hmem : c ∈ List.replicate zeros '0') :
    c.isDigit = true := by
  rw [List.eq_of_mem_replicate hmem]
  rfl

/-- The same numeral with more zeros in front. -/
def leading (spelling : Spelling) (zeros : Nat) : Spelling where
  whole := List.replicate zeros '0' ++ spelling.whole
  fraction? := spelling.fraction?
  whole_ne_nil := List.append_ne_nil_of_right_ne_nil _ spelling.whole_ne_nil
  isDigit_of_mem_whole :=
    List.forall_mem_append.mpr ⟨fun _ => isDigit_of_mem_zeros, spelling.isDigit_of_mem_whole⟩
  isDigit_of_mem_fraction := spelling.isDigit_of_mem_fraction

/-- The same numeral with a point, and with more zeros at the end. -/
def trailing (spelling : Spelling) (zeros : Nat) : Spelling where
  whole := spelling.whole
  fraction? := some (spelling.fraction ++ List.replicate zeros '0')
  whole_ne_nil := spelling.whole_ne_nil
  isDigit_of_mem_whole := spelling.isDigit_of_mem_whole
  isDigit_of_mem_fraction :=
    List.forall_mem_append.mpr ⟨spelling.isDigit_of_mem_fraction, fun _ => isDigit_of_mem_zeros⟩

theorem value_leading (spelling : Spelling) (zeros : Nat) :
    (spelling.leading zeros).value = spelling.value := by
  have hwhole : Nat.ofDigitChars 10 (List.replicate zeros '0' ++ spelling.whole) 0 =
      Nat.ofDigitChars 10 spelling.whole 0 := by
    rw [Nat.ofDigitChars_append, Nat.ofDigitChars_replicate_zero, Nat.mul_zero]
  simp only [value, leading, fraction, hwhole]

theorem value_trailing (spelling : Spelling) (zeros : Nat) :
    (spelling.trailing zeros).value = spelling.value := by
  have hfraction : (spelling.trailing zeros).fraction =
      spelling.fraction ++ List.replicate zeros '0' := rfl
  have hdigits : Nat.ofDigitChars 10 (spelling.fraction ++ List.replicate zeros '0') 0 =
      Nat.ofDigitChars 10 spelling.fraction 0 * 10 ^ zeros := by
    rw [Nat.ofDigitChars_append, Nat.ofDigitChars_replicate_zero, Nat.mul_comm]
  rw [value, value, hfraction, hdigits, List.length_append, List.length_replicate, Nat.pow_add,
    Nat.cast_mul, Nat.cast_mul, mul_div_mul_right _ _ (cast_ten_pow_ne_zero zeros)]
  rfl

end Spelling

/-! ## Numerals in full -/

/-- The digits of a numeral in full, with a point and a digit after it in every case. -/
def pointed (numeral : Numeral) : Spelling where
  whole := numeral.wholeDigits
  fraction? := some numeral.pointedFraction
  whole_ne_nil := numeral.wholeDigits_ne_nil
  isDigit_of_mem_whole := numeral.isDigit_of_mem_wholeDigits
  isDigit_of_mem_fraction := numeral.isDigit_of_mem_pointedFraction

theorem chars_pointed (numeral : Numeral) : numeral.pointed.chars = numeral.pointedText.toList :=
  numeral.toList_pointedText.symm

/-- Writing a numeral in full keeps its number. -/
theorem value_pointed (numeral : Numeral) : numeral.pointed.value = numeral.value := by
  rw [← numeral.value_pointedDigits, value_ofDigits]
  rfl

/-- There is a digit behind the point. -/
theorem pointedFraction_ne_nil (numeral : Numeral) : numeral.pointedFraction ≠ [] := by
  rw [pointedFraction]
  split
  next => exact List.cons_ne_nil _ _
  next hsome => exact hsome

end SumProduct.Numeral
