import Mathlib.Tactic.SplitIfs
import SumProduct.Proofs.Text.Runs
import SumProduct.Token.Source

/-!
# Lexemes

Where the longest token ends. A lexeme is the front of the characters it is taken
from, it stays the longest one when characters behind it are cut off, and a run of
letters or a decimal is a lexeme before anything that cannot continue it.
-/

namespace SumProduct

namespace Text

/-- A character of ASCII that is no white space is not blank. -/
theorem isBlank_eq_false {c : Char} (hlow : 0x20 < c.toNat) (hhigh : c.toNat < 0x7f) :
    isBlank c = false := by
  rw [Bool.eq_false_iff]
  intro hblank
  have hrising : rising 0 blankRanges = true := by decide
  obtain ⟨range, hmem, hfirst, hlast⟩ := (inRanges_iff hrising c).mp hblank
  have hbounds : ∀ range ∈ blankRanges, range.2 ≤ 0x20 ∨ 0x7f ≤ range.1 := by decide
  rcases hbounds range hmem with h | h <;> omega

end Text

open Text

namespace Token.Kind

theorem toNat_of_isAlpha {c : Char} (hletter : c.isAlpha = true) :
    0x41 ≤ c.toNat ∧ c.toNat ≤ 0x7a := by
  have hcases : (decide ('A'.val ≤ c.val ∧ c.val ≤ 'Z'.val) ||
      (decide ('a'.val ≤ c.val) && decide (c.val ≤ 'z'.val))) = true := hletter
  simp only [Bool.or_eq_true, Bool.and_eq_true, decide_eq_true_eq,
    UInt32.le_iff_toNat_le] at hcases
  have htoNat : c.toNat = c.val.toNat := rfl
  simp only [Char.reduceVal, UInt32.reduceToNat] at hcases
  omega

theorem toNat_of_isDigit {c : Char} (hdigit : c.isDigit = true) :
    0x30 ≤ c.toNat ∧ c.toNat ≤ 0x39 := by
  simp only [Char.isDigit, Bool.and_eq_true, decide_eq_true_eq, ge_iff_le,
    UInt32.le_iff_toNat_le] at hdigit
  have htoNat : c.toNat = c.val.toNat := rfl
  simp only [Char.reduceVal, UInt32.reduceToNat] at hdigit
  omega

/-- The characters that start tokens of each kind. -/
theorem of_ofChar?_eq_some {c : Char} {kind : Kind} (hkind : ofChar? c = some kind) :
    (c = '(' ∧ kind = openBracket) ∨ (c = ')' ∧ kind = closeBracket) ∨
      (c = '+' ∧ kind = plus) ∨ (c = '-' ∧ kind = minus) ∨ (c = '*' ∧ kind = times) ∨
      (c.isAlpha = true ∧ kind = name) ∨ (c.isDigit = true ∧ kind = numeral) := by
  simp only [ofChar?] at hkind
  split_ifs at hkind <;> cases hkind <;> simp_all

/-- The single characters that are tokens. -/
def signs : List Char :=
  ['(', ')', '+', '-', '*']

/-- A character of a class without signs is no sign. -/
theorem ne_of_mem_signs {p : Char → Bool} (hsigns : signs.any p = false) {c : Char}
    (hc : p c = true) : ∀ sign ∈ signs, c ≠ sign := by
  rintro sign hmem rfl
  exact List.any_eq_false.mp hsigns c hmem hc

theorem ofChar?_of_isAlpha {c : Char} (hletter : c.isAlpha = true) : ofChar? c = some name := by
  have hne : ∀ sign ∈ signs, c ≠ sign := ne_of_mem_signs (by decide) hletter
  simp only [signs, List.forall_mem_cons] at hne
  simp [ofChar?, hne, hletter]

theorem ofChar?_of_isDigit {c : Char} (hdigit : c.isDigit = true) : ofChar? c = some numeral := by
  have hne : ∀ sign ∈ signs, c ≠ sign := ne_of_mem_signs (by decide) hdigit
  have hletter : c.isAlpha = false := by
    rw [Bool.eq_false_iff]
    intro hletter
    have := toNat_of_isAlpha hletter
    have := toNat_of_isDigit hdigit
    omega
  simp only [signs, List.forall_mem_cons] at hne
  simp [ofChar?, hne, hletter, hdigit]

/-- No token starts with a blank. -/
theorem isBlank_eq_false_of_ofChar? {c : Char} {kind : Kind} (hkind : ofChar? c = some kind) :
    isBlank c = false := by
  rcases of_ofChar?_eq_some hkind with
    ⟨rfl, _⟩ | ⟨rfl, _⟩ | ⟨rfl, _⟩ | ⟨rfl, _⟩ | ⟨rfl, _⟩ | ⟨hletter, _⟩ | ⟨hdigit, _⟩
  · decide
  · decide
  · decide
  · decide
  · decide
  · have := toNat_of_isAlpha hletter
    exact isBlank_eq_false (by omega) (by omega)
  · have := toNat_of_isDigit hdigit
    exact isBlank_eq_false (by omega) (by omega)

/-! ## The longest token -/

/-- A run of letters before anything but a letter. -/
theorem lexeme_name {text rest : List Char} (htext : ∀ c ∈ text, c.isAlpha = true)
    (hstops : Stops Char.isAlpha rest) : name.lexeme (text ++ rest) = text :=
  takeWhile_append_of_stops htext hstops

/-- Digits with a point before anything but a digit. -/
theorem numeralLexeme_pointed {whole fraction rest : List Char}
    (hwhole : ∀ c ∈ whole, c.isDigit = true) (hfraction : ∀ c ∈ fraction, c.isDigit = true)
    (hstops : Stops Char.isDigit rest) :
    numeralLexeme (whole ++ '.' :: (fraction ++ rest)) = whole ++ '.' :: fraction := by
  have hpoint : Stops Char.isDigit ('.' :: (fraction ++ rest)) := by simp [Stops]
  rw [numeralLexeme, dropWhile_append_of_stops hwhole hpoint,
    takeWhile_append_of_stops hwhole hpoint]
  simp only [takeWhile_append_of_stops hfraction hstops]

/-- Digits before anything but a digit or a point. -/
theorem numeralLexeme_whole {whole rest : List Char} (hwhole : ∀ c ∈ whole, c.isDigit = true)
    (hstops : Stops Char.isDigit rest) (hpoint : Stops (· == '.') rest) :
    numeralLexeme (whole ++ rest) = whole := by
  rw [numeralLexeme, dropWhile_append_of_stops hwhole hstops,
    takeWhile_append_of_stops hwhole hstops]
  split
  next fraction hrest => simp [Stops] at hpoint
  next => rfl

/-- The two forms of a numeral, with what stops it. -/
theorem numeralLexeme_cases (chars : List Char) :
    (∃ whole fraction rest, chars = whole ++ '.' :: (fraction ++ rest) ∧
      numeralLexeme chars = whole ++ '.' :: fraction ∧ (∀ c ∈ whole, c.isDigit = true) ∧
      (∀ c ∈ fraction, c.isDigit = true) ∧ Stops Char.isDigit rest) ∨
    (∃ whole rest, chars = whole ++ rest ∧ numeralLexeme chars = whole ∧
      (∀ c ∈ whole, c.isDigit = true) ∧ Stops Char.isDigit rest ∧ Stops (· == '.') rest) := by
  have hchars : chars.takeWhile Char.isDigit ++ chars.dropWhile Char.isDigit = chars :=
    List.takeWhile_append_dropWhile
  rw [numeralLexeme]
  split
  next fraction hrest =>
    refine Or.inl ⟨_, fraction.takeWhile Char.isDigit, fraction.dropWhile Char.isDigit, ?_, rfl,
      fun _ => List.mem_takeWhile_imp, fun _ => List.mem_takeWhile_imp, stops_dropWhile _ _⟩
    rw [List.takeWhile_append_dropWhile, ← hrest, hchars]
  next hrest =>
    refine Or.inr ⟨_, chars.dropWhile Char.isDigit, hchars.symm, rfl,
      fun _ => List.mem_takeWhile_imp, stops_dropWhile _ _, ?_⟩
    intro c hc
    rw [beq_eq_false_iff_ne]
    rintro rfl
    obtain ⟨fraction, hfraction⟩ := List.head?_eq_some_iff.mp hc
    exact hrest fraction hfraction

/-- A token is the front of the characters that it is taken from. -/
theorem lexeme_prefix (kind : Kind) (chars : List Char) : kind.lexeme chars <+: chars := by
  cases kind with
  | name => exact List.takeWhile_prefix _
  | numeral =>
      rcases numeralLexeme_cases chars with
        ⟨whole, fraction, rest, hchars, hlexeme, _⟩ | ⟨whole, rest, hchars, hlexeme, _⟩
      · refine ⟨rest, ?_⟩
        rw [lexeme, hlexeme, hchars, List.append_assoc, List.cons_append]
      · refine ⟨rest, ?_⟩
        rw [lexeme, hlexeme, hchars]
  | _ => exact List.take_prefix _ _

/-- Cutting off characters behind a token leaves the token. -/
theorem lexeme_append_of_append {kind : Kind} {text more rest : List Char} (hne : text ≠ [])
    (hlexeme : kind.lexeme (text ++ (more ++ rest)) = text) :
    kind.lexeme (text ++ more) = text := by
  cases kind with
  | name =>
      have hall : ∀ c ∈ text, c.isAlpha = true := by
        intro c hmem
        rw [← hlexeme] at hmem
        exact List.mem_takeWhile_imp hmem
      have hrest : Stops Char.isAlpha (more ++ rest) := by
        have hsame : text ++ (more ++ rest).takeWhile Char.isAlpha = text := by
          rw [← List.takeWhile_append_of_pos hall]
          exact hlexeme
        have hnil := List.append_right_eq_self.mp hsame
        have hself := List.takeWhile_append_dropWhile (p := Char.isAlpha) (l := more ++ rest)
        rw [hnil, List.nil_append] at hself
        rw [← hself]
        exact stops_dropWhile _ _
      exact lexeme_name hall hrest.of_append
  | numeral =>
      rcases numeralLexeme_cases (text ++ (more ++ rest)) with
        ⟨whole, fraction, tail, hchars, hsame, hwhole, hfraction, hstops⟩ |
        ⟨whole, tail, hchars, hsame, hwhole, hstops, hpoint⟩
      · have htext : text = whole ++ '.' :: fraction := hlexeme.symm.trans hsame
        subst htext
        have htail : more ++ rest = tail := by simpa using hchars
        rw [List.append_assoc, List.cons_append]
        exact numeralLexeme_pointed hwhole hfraction (htail ▸ hstops).of_append
      · have htext : text = whole := hlexeme.symm.trans hsame
        subst htext
        have htail : more ++ rest = tail := List.append_cancel_left hchars
        exact numeralLexeme_whole hwhole (htail ▸ hstops).of_append (htail ▸ hpoint).of_append
  | _ =>
      cases text with
      | nil => exact absurd rfl hne
      | cons c text => simpa [lexeme] using hlexeme

end Token.Kind

end SumProduct
