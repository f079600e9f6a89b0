import SumProduct.Proofs.Expression.Equality
import SumProduct.Proofs.Expression.Tokens
import SumProduct.Proofs.Grammar.Acceptance

/-!
# Canonical texts tell trees apart

A canonical text belongs to one tree only, whatever its depth, because its tokens spell
no other. Equal trees have the same text but for the signs of zeros: dropping these from
the text is the same as dropping them from the tree.
-/

namespace SumProduct

open Text

/-- Characters with every literal `-0.0` written as `0.0`: a minus sign is left out if the
longest numeral behind it is `0.0`. -/
def Text.dropZeroSigns : List Char → List Char
  | [] => []
  | c :: chars =>
      if c = '-' ∧ Token.Kind.numeralLexeme chars = "0.0".toList then dropZeroSigns chars
      else c :: dropZeroSigns chars

namespace Text

theorem dropZeroSigns_cons {c : Char} (hminus : c ≠ '-') (chars : List Char) :
    dropZeroSigns (c :: chars) = c :: dropZeroSigns chars :=
  if_neg fun h => hminus h.1

/-- Characters other than a minus sign are kept. -/
theorem dropZeroSigns_append {front : List Char} (hminus : '-' ∉ front) (rest : List Char) :
    dropZeroSigns (front ++ rest) = front ++ dropZeroSigns rest := by
  induction front with
  | nil => rfl
  | cons c front ih =>
      rw [List.mem_cons, not_or] at hminus
      rw [List.cons_append, dropZeroSigns_cons (Ne.symm hminus.1), ih hminus.2, List.cons_append]

end Text

/-! ## Literals -/

namespace Numeral

/-- The shortest texts of two finite numbers are different. -/
theorem pointedText_shortest_inj {code other : Nat} (hcode : code < Binary64.infinityCode)
    (hother : other < Binary64.infinityCode)
    (htext : (shortest code).pointedText = (shortest other).pointedText) : code = other := by
  obtain ⟨again, hread, hvalue⟩ := (shortest code).exists_ofString?_pointedText
  obtain ⟨again', hread', hvalue'⟩ := (shortest other).exists_ofString?_pointedText
  rw [htext, hread', Option.some.injEq] at hread
  have hnearest := isNearest_shortest hcode
  rw [← hvalue, ← hread, hvalue'] at hnearest
  exact hnearest.unique (isNearest_shortest hother)

theorem pointedText_shortest_zero : (shortest 0).pointedText = "0.0" := by
  decide

theorem minus_not_mem_pointedText (numeral : Numeral) : '-' ∉ numeral.pointedText.toList :=
  fun hmem => absurd (numeral.isDigit_or_point_of_mem_pointedText _ hmem) (by decide)

end Numeral

namespace Literal

/-- The digits of a literal. -/
def digits (literal : Literal) : List Char :=
  (Numeral.shortest literal.value.magnitude).pointedText.toList

theorem toList_text_of_negative {literal : Literal} (hnegative : literal.value.negative = true) :
    literal.text.toList = '-' :: literal.digits := by
  rw [text, Binary64.pointedText, Binary64.signText, if_pos hnegative, String.toList_append]
  rfl

theorem toList_text_of_positive {literal : Literal} (hpositive : literal.value.negative = false) :
    literal.text.toList = literal.digits := by
  rw [text, Binary64.pointedText, Binary64.signText, if_neg (by rw [hpositive]; decide),
    String.empty_append]
  rfl

/-- Only the digits of zero are those of zero. -/
theorem digits_eq_zero_iff {literal : Literal} :
    literal.digits = "0.0".toList ↔ literal.value.magnitude = 0 := by
  rw [digits, String.toList_inj, ← Numeral.pointedText_shortest_zero]
  constructor
  · exact Numeral.pointedText_shortest_inj literal.magnitude_lt (by decide)
  · intro hzero
    rw [hzero]

/-- The text of a literal loses its sign exactly if the literal is a zero. -/
theorem dropZeroSigns_text (literal : Literal) {rest : List Char}
    (hstops : Stops Char.isDigit rest) :
    Text.dropZeroSigns (literal.text.toList ++ rest) =
      literal.dropZeroSign.text.toList ++ Text.dropZeroSigns rest := by
  have hdigits : Text.dropZeroSigns (literal.digits ++ rest) =
      literal.digits ++ Text.dropZeroSigns rest :=
    Text.dropZeroSigns_append (Numeral.minus_not_mem_pointedText _) rest
  have hlexeme : Token.Kind.numeralLexeme (literal.digits ++ rest) = literal.digits :=
    Numeral.numeralLexeme_pointedText _ hstops
  cases hsign : literal.value.negative with
  | false =>
      have hpositive : literal.dropZeroSign.value.negative = false := by
        simp [dropZeroSign, Binary64.dropZeroSign, hsign]
      rw [toList_text_of_positive hsign, toList_text_of_positive hpositive, hdigits]
      rfl
  | true =>
      rw [toList_text_of_negative hsign, List.cons_append, Text.dropZeroSigns, hlexeme]
      by_cases hzero : literal.value.magnitude = 0
      · have hpositive : literal.dropZeroSign.value.negative = false := by
          simp [dropZeroSign, Binary64.dropZeroSign, Binary64.isZero, hzero]
        rw [if_pos ⟨rfl, digits_eq_zero_iff.mpr hzero⟩, toList_text_of_positive hpositive, hdigits]
        rfl
      · have hsame : literal.dropZeroSign.value = literal.value :=
          Binary64.dropZeroSign_of_ne_zero hzero
        rw [if_neg fun h => hzero (digits_eq_zero_iff.mp h.2), hdigits, text, hsame, ← text,
          toList_text_of_negative hsign, List.cons_append]

end Literal

/-! ## Trees -/

namespace Expression

/-- Leaving out the signs of zeros in the text leaves them out in the tree. -/
theorem dropZeroSigns_text (e : Expression) {rest : List Char} (hstops : Stops Char.isDigit rest) :
    Text.dropZeroSigns (e.text.toList ++ rest) =
      e.dropZeroSigns.text.toList ++ Text.dropZeroSigns rest := by
  induction e generalizing rest with
  | lit literal => exact literal.dropZeroSigns_text hstops
  | var x =>
      have hminus : '-' ∉ x.name.toList := fun hmem =>
        absurd (x.isAlpha_of_mem _ hmem) (by decide)
      exact Text.dropZeroSigns_append hminus rest
  | binary op left right ihLeft ihRight =>
      have hblank : ∀ tail, Stops Char.isDigit (' ' :: tail) := by simp [Stops]
      have hclose : ∀ tail, Stops Char.isDigit (')' :: tail) := by simp [Stops]
      have hsign : '-' ∉ op.symbol.toList := by cases op <;> decide
      simp only [dropZeroSigns, toList_text_binary, List.cons_append, List.append_assoc,
        List.nil_append]
      rw [Text.dropZeroSigns_cons (by decide), ihLeft (hblank _),
        Text.dropZeroSigns_cons (by decide), Text.dropZeroSigns_append hsign,
        Text.dropZeroSigns_cons (by decide), ihRight (hclose _),
        Text.dropZeroSigns_cons (by decide)]

-- Numerals that only begin or end like a zero keep their sign.
example : Text.dropZeroSigns "((-0.0 + -0.05) * -10.0)".toList =
    "((0.0 + -0.05) * -10.0)".toList := by
  decide

/-- A text belongs to one tree. -/
theorem eq_of_text_eq {a b : Expression} (htext : a.text = b.text) : a = b := by
  have htokens : a.tokens 0 = b.tokens 0 := by
    rw [← tokens_ofString_text, htext, tokens_ofString_text]
  have hspells := (a.spells_tokens 0).expression_of_factor
  rw [htokens] at hspells
  exact hspells.unique (b.spells_tokens 0).expression_of_factor

/-- Two trees have the same text exactly if they are the same, down to the signs of their
zeros, and they are equal exactly if their texts agree once every literal `-0.0` is
written as `0.0`. -/
theorem text_eq_iff_and_beq_iff (a b : Expression) :
    (a.text = b.text ↔ a = b) ∧
      ((a == b) = true ↔
        Text.dropZeroSigns a.text.toList = Text.dropZeroSigns b.text.toList) := by
  have hdrop : ∀ e : Expression,
      Text.dropZeroSigns e.text.toList = e.dropZeroSigns.text.toList := by
    intro e
    have hstops : Stops Char.isDigit [] := by simp [Stops]
    have happend := e.dropZeroSigns_text hstops
    rwa [Text.dropZeroSigns, List.append_nil, List.append_nil] at happend
  refine ⟨⟨eq_of_text_eq, congrArg text⟩, ?_⟩
  rw [beq_iff_dropZeroSigns_eq, hdrop, hdrop, String.toList_inj]
  exact ⟨congrArg text, eq_of_text_eq⟩

end Expression

end SumProduct
