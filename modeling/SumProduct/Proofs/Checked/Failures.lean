import SumProduct.Proofs.Checked.Agreement
import SumProduct.Proofs.Parse.SyntaxErrors

/-!
# How a reading can end

No check of the reading fails on any text, and a text is refused for few reasons only. The
tokens of a source hold numerals and names that can be read, so that no leaf is refused but
an infinite one.
-/

namespace SumProduct

/-- All literals are finite and all names are made of letters. -/
def Expression.Valid : Expression → Prop
  | lit literal => literal.value.isFinite = true
  | var x => x.name.toList ≠ [] ∧ ∀ c ∈ x.name.toList, c.isAlpha = true
  | binary _ left right => left.Valid ∧ right.Valid

theorem Expression.valid (e : Expression) : e.Valid := by
  induction e with
  | lit literal => exact literal.finite
  | var x => exact ⟨x.toList_name_ne_nil, x.isAlpha_of_mem⟩
  | binary op left right ihLeft ihRight => exact ⟨ihLeft, ihRight⟩

/-- The reasons for which texts are refused. -/
inductive ParseError.Possible : ParseError → Prop
  | strayCharacter (character : Char) (index : Nat) : Possible (.strayCharacter character index)
  | unexpectedEnd : Possible .unexpectedEnd
  | unexpectedToken (found : Token.Kind) (span : Span) (expected : List Token.Kind) :
      Possible (.unexpectedToken found span expected)
  | tooDeep (span : Span) : Possible (.tooDeep span)
  | infinite (negative : Bool) : Possible (.construction (.notFinite (.infinity negative)))

/-- A token that stands in a source is refused for one of them. -/
theorem Refuses.possible {state : ParseState} {token : Token} {error : ParseError}
    (hrefuses : Refuses state token error) (hwell : token.WellFormed) : error.Possible := by
  cases hrefuses with
  | unexpected hkind => exact .unexpectedToken _ _ _
  | bracket | factor | negated | sum | closed => exact .tooDeep _
  | overflow | negatedOverflow => exact .infinite _
  | unreadable hkind hread =>
      obtain ⟨numeral, hnumeral⟩ := hwell.exists_ofString? hkind
      rw [hread] at hnumeral
      cases hnumeral
  | invalidName hkind hinvalid =>
      rw [hwell.isValidName hkind] at hinvalid
      cases hinvalid

theorem Expression.possible_of_parse {text : String} {error : ParseError}
    (hparse : parse text = .error error) : error.Possible := by
  rcases parse_eq_error hparse with
    ⟨earlier, token, later, state, htokens, -, hrefuses⟩ | ⟨last, -, hconclude⟩
  · have hmem : token ∈ (Source.ofString text).tokens := by simp [htokens]
    exact hrefuses.possible (Source.wellFormed_of_mem_tokens _ token hmem)
  · rcases ParseState.conclude_eq_error hconclude with
      ⟨_, rfl, _⟩ | ⟨_, _, _, rfl⟩ | ⟨span, rfl⟩
    · exact .unexpectedEnd
    · exact .strayCharacter _ _
    · exact .tooDeep span

/-- On every text all checks of the reading hold, and it ends with a valid expression or for
one of the possible reasons. -/
theorem Checked.parse_never_faults (text : String) :
    (∀ fault, parse text ≠ .error (.fault fault)) ∧
      parse text = (Expression.parse text).mapError .error ∧
      ((∃ e, Expression.parse text = .ok e ∧ e.Valid) ∨
        ∃ error, Expression.parse text = .error error ∧ error.Possible) := by
  refine ⟨fun fault hfault => ?_, parse_eq text, ?_⟩
  · rw [parse_eq] at hfault
    cases hparse : Expression.parse text with
    | ok e =>
        rw [hparse] at hfault
        cases hfault
    | error error =>
        rw [hparse] at hfault
        cases hfault
  · cases hparse : Expression.parse text with
    | ok e => exact Or.inl ⟨e, rfl, e.valid⟩
    | error error => exact Or.inr ⟨error, rfl, Expression.possible_of_parse hparse⟩

end SumProduct
