import SumProduct.Proofs.Parse.DepthErrors
import SumProduct.Proofs.Token.Continuation

/-!
# Errors that stay

An error is found at a token or at a character, and nothing behind it is looked at. So it
stays when the text goes on after a blank. Only the end of the text can be made up for, and
a sum that is too deep by its last term: a product may still extend that term.
-/

namespace SumProduct

open Text

/-- An error of depth at a plus sign of a text. -/
def ParseError.AtPlus (error : ParseError) (text : String) : Prop :=
  ∃ sign ∈ (Source.ofString text).tokens, sign.kind = .plus ∧ error = .tooDeep sign.span

/-- A sum that waits does so at a plus sign that has been read. -/
theorem Path.exists_plus {limit : Nat} {tokens : List Token} {pending : Pending}
    {term : Expression} {outer : List Level}
    (hpath : Path limit .start tokens ⟨.operator (some pending) term, outer⟩) :
    ∃ sign ∈ tokens, sign.kind = .plus ∧ sign.span = pending.operator := by
  have hholds : ParseState.Holds _ tokens := hpath.holds ParseState.holds_start
  obtain ⟨_, hphase⟩ := hholds
  cases hphase with
  | operator hsum _ =>
      cases hsum with
      | @pending _ left sign _ hsign hspan => exact ⟨sign, by simp, hsign, hspan⟩

namespace Expression

variable {text : String} {error : ParseError}

theorem source_append_blank (text more : String) :
    Source.ofString (text ++ " " ++ more) =
      (Source.ofString text).append (' ' :: more.toList) := by
  have hblank : " ".toList = [' '] := rfl
  rw [Source.ofString, Source.append, Source.ofString, String.toList_append, String.toList_append,
    hblank, List.append_assoc, List.singleton_append]

/-- An error behind all tokens is one of the end, of a sum or of a stray character. -/
theorem stray?_of_conclude {last : ParseState}
    (hpath : Path maxDepth .start (Source.ofString text).tokens last)
    (hconclude : last.conclude (Source.ofString text).stray? = .error error)
    (hend : error ≠ .unexpectedEnd) (hplus : ¬error.AtPlus text) :
    ∃ place, (Source.ofString text).stray? = some place := by
  rcases ParseState.conclude_eq_error hconclude with
    ⟨_, h, _⟩ | ⟨character, index, hstray, _⟩ | ⟨span, rfl⟩
  · exact absurd h hend
  · exact ⟨_, hstray⟩
  · obtain ⟨pending, term, outer, rfl, _, rfl⟩ := ParseState.conclude_eq_tooDeep hconclude
    obtain ⟨sign, hmem, hkind, hspan⟩ := hpath.exists_plus
    exact absurd ⟨sign, hmem, hkind, by rw [hspan]⟩ hplus

/-- A text that fails for another reason than its end or the depth of a sum fails for the
same reason, at the same place, when more text follows after a blank. -/
theorem parse_append_of_error {text : String} {error : ParseError}
    (hparse : parse text = .error error) (hend : error ≠ .unexpectedEnd)
    (hplus : ¬error.AtPlus text) (more : String) :
    parse (text ++ " " ++ more) = .error error := by
  have hblank : ∀ c ∈ (' ' :: more.toList).head?, isBlank c = true := by
    rintro _ ⟨⟩
    decide
  rw [parse_eq_foldlM] at hparse
  rw [parse_eq_foldlM, source_append_blank]
  rcases bind_eq_error_iff.mp hparse with hfold | ⟨last, hfold, hconclude⟩
  · -- A token is refused, and it is still there with all tokens before it.
    obtain ⟨later, hlater⟩ := Source.tokens_prefix_append hblank (Source.ofString text)
    rw [← hlater, foldlM_append_of_error hfold]
    rfl
  · -- All tokens are accepted, so the reason is a character behind them.
    obtain ⟨place, hstray⟩ := stray?_of_conclude (.of_foldlM hfold) hconclude hend hplus
    obtain ⟨htokens, hplace⟩ := Source.append_of_stray hblank (Source.ofString text) hstray
    rw [htokens, hplace, hfold, ← hstray]
    exact hconclude

/-- A minus sign without a numeral, and then the numeral. -/
theorem parse_append_of_error_minus :
    let error := ParseError.unexpectedToken .closeBracket ⟨6, 7⟩ [.numeral]
    parse "(x + -)" = .error error ∧ parse ("(x + -)" ++ " " ++ "7)") = .error error := by
  have hparse : parse "(x + -)" = .error (.unexpectedToken .closeBracket ⟨6, 7⟩ [.numeral]) := by
    -- Trees have no decidable equality, so only the error is compared.
    rw [← map_eq_error_iff (f := fun _ => ())]
    decide +kernel
  refine ⟨hparse, parse_append_of_error hparse (by simp) ?_ "7)"⟩
  rintro ⟨_, _, _, h⟩
  cases h

end Expression

end SumProduct
