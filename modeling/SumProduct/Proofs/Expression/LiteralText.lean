import SumProduct.Proofs.Decimal.Shortest
import SumProduct.Proofs.Parse.Numerals

/-!
# The text of literals

A literal is written as a numeral with a point, after a minus sign if it is negative. That
text is one token behind its sign and is read as the literal again, and among all texts of
numbers that are read as it none has fewer digits that count.
-/

namespace SumProduct

open Text Binary64 Numeral

namespace Literal

/-- The text of a literal is a numeral with a point, after a minus sign if it is negative,
and nothing else is in it. -/
structure WrittenAs (literal : Literal) (whole fraction : List Char) : Prop where
  text : literal.text.toList =
    (if literal.value.negative then ['-'] else []) ++ (whole ++ '.' :: fraction)
  whole_ne_nil : whole ≠ []
  isDigit_of_mem_whole : ∀ c ∈ whole, c.isDigit = true
  whole_of_zero : whole.head? = some '0' → whole = ['0']
  fraction_ne_nil : fraction ≠ []
  isDigit_of_mem_fraction : ∀ c ∈ fraction, c.isDigit = true
  tokens : (Source.ofString literal.text).tokens =
    (if literal.value.negative then [.standing .minus "-" 0] else []) ++
      [.standing .numeral (String.ofList (whole ++ '.' :: fraction))
        (if literal.value.negative then 1 else 0)]
  stray : (Source.ofString literal.text).stray? = none

/-- No text that is read as the literal has fewer digits that count, and none that has
as many is nearer to it. -/
structure ShortestAs (literal : Literal) (chars : List Char) : Prop where
  fewest : ∀ other : SignedNumeral, Expression.parse other.text = .ok (.lit literal) →
    (significantDigits chars).length ≤ (significantDigits other.numeral.chars).length
  nearest : ∀ other : SignedNumeral, Expression.parse other.text = .ok (.lit literal) →
    (significantDigits other.numeral.chars).length = (significantDigits chars).length →
      |spelledValue chars - Binary64.value literal.value.magnitude| ≤
        |other.value - Binary64.value literal.value.magnitude|

/-- The numeral that a literal is written as. -/
def numeral (literal : Literal) : Numeral :=
  Numeral.shortest literal.value.magnitude

theorem writtenAs_numeral (literal : Literal) :
    literal.WrittenAs literal.numeral.wholeDigits literal.numeral.pointedFraction where
  text := by
    rw [text, Binary64.pointedText, Binary64.signText, String.toList_append,
      ← Numeral.toList_pointedText]
    cases literal.value.negative <;> rfl
  whole_ne_nil := literal.numeral.wholeDigits_ne_nil
  isDigit_of_mem_whole := literal.numeral.isDigit_of_mem_wholeDigits
  whole_of_zero := toDigits_of_zero
  fraction_ne_nil := literal.numeral.pointedFraction_ne_nil
  isDigit_of_mem_fraction := literal.numeral.isDigit_of_mem_pointedFraction
  tokens := by
    have htokens := (Expression.lit literal).tokens_ofString_text
    rw [← Numeral.toList_pointedText, String.ofList_toList]
    simp only [Expression.text, Expression.tokens, tokens] at htokens
    rw [htokens]
    cases literal.value.negative <;> rfl
  stray := (Expression.lit literal).stray?_ofString_text

/-- A literal as a number with its sign. -/
def shown (literal : Literal) : SignedNumeral :=
  .ofSign literal.value.negative literal.numeral.pointed

theorem text_shown (literal : Literal) : literal.shown.text = literal.text := by
  rw [shown, SignedNumeral.text_ofSign, chars_pointed, String.ofList_toList]
  rfl

/-- The text of a literal is read as the literal. -/
theorem parse_text_eq (literal : Literal) :
    Expression.parse literal.text = .ok (.lit literal) := by
  rw [← text_shown, SignedNumeral.parse_text_eq_ok_iff]
  refine ⟨(SignedNumeral.negative_ofSign _ _).symm, ?_⟩
  change IsNearest literal.numeral.pointed.value _
  rw [value_pointed]
  exact isNearest_shortest literal.magnitude_lt

/-- A text that is read as a literal other than a zero is not better than its numeral. -/
theorem numeral_best (literal : Literal) (hpos : 0 < literal.value.magnitude)
    {other : SignedNumeral} (hparse : Expression.parse other.text = .ok (.lit literal)) :
    let room := (significantDigits other.numeral.chars).length
    WrittenWith room literal.numeral.value ∧
      ((∀ fewer < room, ¬WrittenWith fewer literal.numeral.value) →
        |literal.numeral.value - Binary64.value literal.value.magnitude| ≤
          |other.value - Binary64.value literal.value.magnitude|) := by
  have hnearest := ((other.parse_text_eq_ok_iff literal).mp hparse).2
  have hroom := (other.numeral.writtenWith_value_iff _).mpr (Nat.le_refl _)
  exact shortest_of_isNearest hpos literal.magnitude_lt hnearest hroom

theorem shortestAs_numeral (literal : Literal) (hpos : 0 < literal.value.magnitude) :
    literal.ShortestAs literal.numeral.pointed.chars := by
  have hwritten := literal.numeral.pointed.writtenWith_value_iff
  rw [value_pointed] at hwritten
  refine ⟨fun other hparse => ?_, fun other hparse hlength => ?_⟩
  · exact (hwritten _).mp (literal.numeral_best hpos hparse).1
  · rw [Spelling.spelledValue_chars, value_pointed]
    refine (literal.numeral_best hpos hparse).2 (fun fewer hlt => ?_)
    rw [hwritten, ← hlength, Nat.not_le]
    exact hlt

/-- A zero is written with one digit on each side of the point. -/
theorem text_of_isZero (literal : Literal) (hzero : literal.value.isZero = true) :
    literal.text = if literal.value.negative then "-0.0" else "0.0" := by
  rw [Binary64.isZero, beq_iff_eq] at hzero
  rw [text, Binary64.pointedText, Binary64.signText, hzero]
  cases literal.value.negative <;> decide

/-- The text of a literal is exact, canonical and shortest: a numeral with a point behind its
sign, read as the literal again, with digits that cannot be bettered unless it is a zero. -/
theorem text_canonical (literal : Literal) :
    ∃ whole fraction, literal.WrittenAs whole fraction ∧
      Expression.parse literal.text = .ok (.lit literal) ∧
      (literal.value.isZero = true →
        literal.text = if literal.value.negative then "-0.0" else "0.0") ∧
      (literal.value.isZero = false → literal.ShortestAs (whole ++ '.' :: fraction)) := by
  refine ⟨_, _, literal.writtenAs_numeral, literal.parse_text_eq, literal.text_of_isZero,
    fun hzero => ?_⟩
  rw [← toList_pointedText, ← chars_pointed]
  apply literal.shortestAs_numeral
  rwa [Binary64.isZero, beq_eq_false_iff_ne, ← Nat.pos_iff_ne_zero] at hzero

/-- The least positive number, which has one digit behind hundreds of zeros, and the zero
below it. -/
theorem text_canonical_least :
    (∃ whole fraction, ShortestAs ⟨⟨false, 1, by decide⟩, by decide⟩ (whole ++ '.' :: fraction)) ∧
      text ⟨⟨true, 0, by decide⟩, by decide⟩ = "-0.0" := by
  obtain ⟨whole, fraction, -, -, -, hshortest⟩ :=
    text_canonical ⟨⟨false, 1, by decide⟩, by decide⟩
  obtain ⟨-, -, -, -, hzero, -⟩ := text_canonical ⟨⟨true, 0, by decide⟩, by decide⟩
  exact ⟨⟨whole, fraction, hshortest rfl⟩, hzero rfl⟩

end Literal

end SumProduct
