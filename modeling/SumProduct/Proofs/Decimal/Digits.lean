import Mathlib.Data.List.DropRight
import SumProduct.Proofs.Decimal.Spelling
import SumProduct.Proofs.Token.Lexeme

/-!
# Significant digits

The digits of a text that are left when zeros in front and zeros at the end are dropped.
They settle with how few digits a number can be written at all: a numeral of the same number
never has fewer of them.
-/

namespace SumProduct.Numeral

-- Powers are those of the natural numbers, also where monoids have powers.
attribute [local instance (2000)] instPowNat

/-! ## Numbers of few digits -/

/-- A number of at most `count` digits, at any place. -/
def WrittenWith (count : Nat) (q : ℚ) : Prop :=
  ∃ (digits : Nat) (exponent : ℤ), digits < 10 ^ count ∧ q = digits * (10 : ℚ) ^ exponent

theorem cast_ten_pow (places : Nat) : ((10 ^ places : Nat) : ℚ) = (10 : ℚ) ^ (places : ℤ) := by
  rw [zpow_natCast]
  exact Nat.cast_pow 10 places

/-- A number whose last digit counts cannot be written on a coarser grid. -/
theorem exponent_le_of_mod_ten {first second : Nat} {e f : ℤ} (hlast : first % 10 ≠ 0)
    (heq : (first : ℚ) * (10 : ℚ) ^ e = second * (10 : ℚ) ^ f) : f ≤ e := by
  by_contra hlt
  obtain ⟨steps, hsteps⟩ : ∃ steps : Nat, f = e + (steps + 1 : ℕ) :=
    ⟨(f - e - 1).toNat, by omega⟩
  have hpow : (10 : ℚ) ^ f = ((10 ^ (steps + 1) : Nat) : ℚ) * (10 : ℚ) ^ e := by
    rw [cast_ten_pow, ← zpow_add₀ (by norm_num), hsteps, add_comm]
  have hne : (10 : ℚ) ^ e ≠ 0 := zpow_ne_zero e (by norm_num)
  rw [hpow, ← mul_assoc, mul_left_inj' hne] at heq
  have hdigits : first = second * 10 ^ (steps + 1) := by exact_mod_cast heq
  rw [hdigits, Nat.pow_succ, ← Nat.mul_assoc] at hlast
  exact hlast (Nat.mul_mod_left _ _)

/-- So it needs all of its digits. -/
theorem writtenWith_iff_lt {digits count : Nat} {exponent : ℤ} (hlast : digits % 10 ≠ 0) :
    WrittenWith count (digits * (10 : ℚ) ^ exponent) ↔ digits < 10 ^ count := by
  refine ⟨?_, fun hlt => ⟨digits, exponent, hlt, rfl⟩⟩
  rintro ⟨others, e, hlt, heq⟩
  obtain ⟨steps, rfl⟩ := Int.le.dest (exponent_le_of_mod_ten hlast heq)
  have hne : (10 : ℚ) ^ e ≠ 0 := zpow_ne_zero e (by norm_num)
  rw [zpow_add₀ (by norm_num), mul_comm ((10 : ℚ) ^ e), ← mul_assoc, mul_left_inj' hne,
    ← cast_ten_pow] at heq
  have hothers : digits * 10 ^ steps = others := by exact_mod_cast heq
  exact (Nat.le_mul_of_pos_right digits (ten_pow_pos steps)).trans_lt (hothers ▸ hlt)

/-! ## Digits that count -/

/-- The digits that are left when zeros at both ends are dropped. -/
def dropZeros (digits : List Char) : List Char :=
  (digits.dropWhile (· == '0')).rdropWhile (· == '0')

/-- The digits of a text that count. -/
def significantDigits (chars : List Char) : List Char :=
  dropZeros (chars.filter Char.isDigit)

/-- Nothing but zeros is dropped. -/
theorem exists_zeros_around (digits : List Char) :
    ∃ front back, digits =
      List.replicate front '0' ++ (dropZeros digits ++ List.replicate back '0') := by
  have hfront : ∀ c ∈ digits.takeWhile (· == '0'), c = '0' :=
    fun _ hmem => beq_iff_eq.mp (List.mem_takeWhile_imp (p := (· == '0')) hmem)
  have hback : ∀ c ∈ (digits.dropWhile (· == '0')).rtakeWhile (· == '0'), c = '0' :=
    fun _ hmem => beq_iff_eq.mp (List.mem_rtakeWhile_imp (p := (· == '0')) hmem)
  refine ⟨(digits.takeWhile (· == '0')).length,
    ((digits.dropWhile (· == '0')).rtakeWhile (· == '0')).length, ?_⟩
  rw [← List.eq_replicate_of_mem hfront, ← List.eq_replicate_of_mem hback, dropZeros,
    List.rdropWhile_append_rtakeWhile, List.takeWhile_append_dropWhile]

theorem mem_of_mem_dropZeros {digits : List Char} {c : Char} (hmem : c ∈ dropZeros digits) :
    c ∈ digits :=
  (List.dropWhile_suffix _).subset ((List.rdropWhile_prefix _ _).subset hmem)

/-- What is left does not start with a zero. -/
theorem stops_dropZeros (digits : List Char) : Text.Stops (· == '0') (dropZeros digits) := by
  obtain ⟨more, hmore⟩ := List.rdropWhile_prefix (p := (· == '0'))
    (l := digits.dropWhile (· == '0'))
  have hstops := Text.stops_dropWhile (· == '0') digits
  rw [← hmore] at hstops
  exact hstops.of_append

/-- It does not end with a zero either. -/
theorem ne_zero_of_dropZeros_eq {digits front : List Char} {c : Char}
    (hdrop : dropZeros digits = front ++ [c]) : c ≠ '0' := by
  have hne : dropZeros digits ≠ [] := by simp [hdrop]
  have hlast := List.rdropWhile_last_not (· == '0') (digits.dropWhile (· == '0')) hne
  have hc : (dropZeros digits).getLast hne = c := by simp [hdrop]
  rw [← hc]
  exact fun heq => hlast (beq_iff_eq.mpr heq)

/-! ## The number that digits spell -/

theorem toNat_sub_lt_ten {c : Char} (hdigit : c.isDigit = true) : c.toNat - '0'.toNat < 10 := by
  have hrange := Token.Kind.toNat_of_isDigit hdigit
  have hzero : '0'.toNat = 0x30 := rfl
  omega

theorem toNat_sub_pos {c : Char} (hdigit : c.isDigit = true) (hc : c ≠ '0') :
    0 < c.toNat - '0'.toNat := by
  have hrange := Token.Kind.toNat_of_isDigit hdigit
  have hne : c.toNat ≠ '0'.toNat := fun heq => hc (Char.toNat_inj.mp heq)
  have hzero : '0'.toNat = 0x30 := rfl
  omega

/-- Digits spell less than the power of ten that follows them. -/
theorem ofDigitChars_lt {digits : List Char} (hdigits : ∀ c ∈ digits, c.isDigit = true) :
    Nat.ofDigitChars 10 digits 0 < 10 ^ digits.length := by
  induction digits with
  | nil => simp
  | cons c digits ih =>
      rw [List.forall_mem_cons] at hdigits
      have hrest := ih hdigits.2
      have hc := toNat_sub_lt_ten hdigits.1
      have hle : 10 ^ digits.length * (c.toNat - '0'.toNat) ≤ 10 ^ digits.length * 9 :=
        Nat.mul_le_mul_left _ (by omega)
      rw [Nat.ofDigitChars_cons, Nat.ofDigitChars_eq_ofDigitChars_zero, List.length_cons,
        Nat.pow_succ, Nat.mul_zero, Nat.zero_add]
      omega

/-- A whole number is written with a zero in front only if it is zero. -/
theorem toDigits_of_zero {n : Nat} (hzero : (Nat.toDigits 10 n).head? = some '0') :
    Nat.toDigits 10 n = ['0'] := by
  obtain ⟨rest, hdigits⟩ := List.head?_eq_some_iff.mp hzero
  cases rest with
  | nil => exact hdigits
  | cons c rest =>
      have hall := isDigit_of_mem_toDigits n
      have hvalue : n = Nat.ofDigitChars 10 (c :: rest) 0 := by
        rw [← Nat.ofDigitChars_ten_toDigits (n := n), hdigits, Nat.ofDigitChars_cons]
        rfl
      rw [hdigits, List.forall_mem_cons] at hall
      have hlt := ofDigitChars_lt hall.2
      rw [← hvalue] at hlt
      have hlength := (Nat.length_toDigits_le_iff (by decide) (Nat.succ_pos _)).mpr hlt
      rw [hdigits] at hlength
      exact absurd hlength (Nat.not_succ_le_self _)

/-- Digits that do not start with a zero spell a number of full length. -/
theorem le_ofDigitChars {c : Char} (hdigit : c.isDigit = true) (hc : c ≠ '0')
    (digits : List Char) : 10 ^ digits.length ≤ Nat.ofDigitChars 10 (c :: digits) 0 := by
  have hle := Nat.le_mul_of_pos_right (10 ^ digits.length) (toNat_sub_pos hdigit hc)
  rw [Nat.ofDigitChars_cons, Nat.ofDigitChars_eq_ofDigitChars_zero, Nat.mul_zero, Nat.zero_add]
  omega

/-- Digits that do not end with a zero spell no multiple of ten. -/
theorem ofDigitChars_mod_ten {c : Char} (hdigit : c.isDigit = true) (hc : c ≠ '0')
    (digits : List Char) : Nat.ofDigitChars 10 (digits ++ [c]) 0 % 10 ≠ 0 := by
  have hlt := toNat_sub_lt_ten hdigit
  have hpos := toNat_sub_pos hdigit hc
  rw [Nat.ofDigitChars_append, Nat.ofDigitChars_cons, Nat.ofDigitChars_nil, Nat.mul_add_mod,
    Nat.mod_eq_of_lt hlt]
  omega

/-- Digits that count are needed all. -/
theorem ofDigitChars_dropZeros_lt_iff {digits : List Char}
    (hdigits : ∀ c ∈ dropZeros digits, c.isDigit = true) (count : Nat) :
    Nat.ofDigitChars 10 (dropZeros digits) 0 < 10 ^ count ↔ (dropZeros digits).length ≤ count := by
  have hstops := stops_dropZeros digits
  have hlt := ofDigitChars_lt hdigits
  refine ⟨fun hcount => ?_,
    fun hle => hlt.trans_le (Nat.pow_le_pow_right (by decide) hle)⟩
  cases hdrop : dropZeros digits with
  | nil => exact Nat.zero_le _
  | cons c rest =>
      rw [hdrop] at hcount hstops hdigits
      have hc : c ≠ '0' := by simpa [Text.Stops] using hstops
      have hfull := le_ofDigitChars (hdigits c List.mem_cons_self) hc rest
      exact (Nat.pow_lt_pow_iff_right (by decide)).mp (hfull.trans_lt hcount)

namespace Spelling

variable {spelling : Spelling}

/-- All digits of a numeral, with the point left out. -/
theorem filter_chars (spelling : Spelling) :
    spelling.chars.filter Char.isDigit = spelling.whole ++ spelling.fraction := by
  obtain ⟨whole, fraction?, _, hwhole, hfraction⟩ := spelling
  cases fraction? with
  | none => simpa [chars, fraction] using hwhole
  | some fraction =>
      change ∀ c ∈ fraction, c.isDigit = true at hfraction
      rw [chars, List.filter_append, List.filter_eq_self.mpr hwhole,
        List.filter_cons_of_neg (by decide), List.filter_eq_self.mpr hfraction]
      rfl

/-- The number of a numeral, by the digits that count. -/
theorem exists_value_eq (spelling : Spelling) :
    ∃ exponent : ℤ, spelling.value =
      (Nat.ofDigitChars 10 (significantDigits spelling.chars) 0 : ℚ) * (10 : ℚ) ^ exponent := by
  obtain ⟨front, back, hdigits⟩ := exists_zeros_around (spelling.chars.filter Char.isDigit)
  have hwhole := value_ofDigits spelling.whole spelling.fraction
  refine ⟨back - spelling.fraction.length, ?_⟩
  have hnumber : ofDigits (spelling.whole ++ spelling.fraction) =
      10 ^ back * Nat.ofDigitChars 10 (significantDigits spelling.chars) 0 := by
    rw [← filter_chars, hdigits, ofDigits_eq_ofDigitChars, Nat.ofDigitChars_append,
      Nat.ofDigitChars_append, Nat.ofDigitChars_replicate_zero, Nat.ofDigitChars_replicate_zero,
      Nat.mul_zero]
    rfl
  rw [value, ← hwhole, Numeral.value, hnumber, Nat.cast_mul, zpow_sub₀ (by norm_num),
    ← cast_ten_pow, ← cast_ten_pow]
  ring

/-- A numeral has as many digits that count as its number needs. -/
theorem writtenWith_value_iff (spelling : Spelling) (count : Nat) :
    WrittenWith count spelling.value ↔ (significantDigits spelling.chars).length ≤ count := by
  obtain ⟨exponent, hvalue⟩ := spelling.exists_value_eq
  have hdigits : ∀ c ∈ significantDigits spelling.chars, c.isDigit = true :=
    fun c hmem => (List.mem_filter.mp (mem_of_mem_dropZeros hmem)).2
  have hcount := ofDigitChars_dropZeros_lt_iff hdigits count
  rw [hvalue]
  -- Zero has no digits that count and no last one, so it is apart.
  rcases List.eq_nil_or_concat (significantDigits spelling.chars) with hnil | ⟨front, c, hconcat⟩
  · rw [hnil, Nat.ofDigitChars_nil, Nat.cast_zero, zero_mul]
    exact ⟨fun _ => Nat.zero_le _, fun _ => ⟨0, 0, ten_pow_pos count, by simp⟩⟩
  · rw [List.concat_eq_append] at hconcat
    have hc : c.isDigit = true := hdigits c (by simp [hconcat])
    have hlast := ofDigitChars_mod_ten hc (ne_zero_of_dropZeros_eq hconcat) front
    rw [← hconcat] at hlast
    exact (writtenWith_iff_lt hlast).trans hcount

end Spelling

end SumProduct.Numeral
