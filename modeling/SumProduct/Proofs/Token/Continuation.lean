import SumProduct.Proofs.Token.Ends

/-!
# Texts that go on

A text that goes on after a blank keeps its tokens: a blank continues none of them. If a
character ends the tokens too early, nothing behind it is looked at.
-/

namespace SumProduct

open Text

namespace Source

/-- A source that goes on with more characters. -/
def append (source : Source) (more : List Char) : Source :=
  ⟨source.offset, source.rest ++ more⟩

/-- The source of what comes behind all characters of a source. -/
def beyond (source : Source) (more : List Char) : Source :=
  ⟨source.offset + byteSize source.rest, more⟩

section Append

variable {source rest : Source} {more : List Char}
  (hblank : ∀ c ∈ more.head?, isBlank c = true)

include hblank

/-- The first token is kept. -/
theorem StartsWith.append {blanks : List Char} {token : Token}
    (hstarts : source.StartsWith blanks token rest) :
    (source.append more).StartsWith blanks token (rest.append more) := by
  refine ⟨?_, hstarts.blank, hstarts.wellFormed, ?_, hstarts.start, hstarts.stop, hstarts.offset⟩
  · simp only [Source.append, hstarts.chars, List.append_assoc]
  · have hends := hstarts.ends
    intro c hc
    cases hrest : rest.rest with
    | nil =>
        simp only [Source.append, hrest, List.nil_append] at hc
        exact Token.Kind.continues_eq_false_of_isBlank (hblank c hc)
    | cons d chars =>
        simp only [Source.append, hrest, List.cons_append, List.head?_cons] at hc
        exact hends c (by rwa [hrest, List.head?_cons])

/-- All tokens are kept, and the source goes on behind them. -/
theorem yields_append (source : Source) (hclean : source.stray? = none) :
    (source.append more).Yields source.tokens (source.beyond more) := by
  induction source using tokens_induction with
  | done source hhead =>
      rw [tokens_of_done hhead]
      exact yields_of_head_eq (head_blanks_append (head_eq_done_iff.mp hhead) _ _)
  | stray source character index hhead =>
      rw [stray?_of_stray hhead] at hclean
      cases hclean
  | token source token rest hhead ih =>
      rw [stray?_of_token hhead] at hclean
      obtain ⟨blanks, hstarts⟩ := head_eq_token_iff.mp hhead
      have hmore := head_eq_token_iff.mpr ⟨blanks, hstarts.append hblank⟩
      have hbeyond : source.beyond more = rest.beyond more := by
        simp only [beyond, hstarts.chars, hstarts.offset, hstarts.stop, hstarts.start,
          byteSize_append, byteSize_toList, Nat.add_assoc]
      rw [tokens_of_token hhead, hbeyond]
      exact Yields.cons ⟨tokens_of_token hmore, stray?_of_token hmore⟩ (ih hclean)

/-- Tokens that end too early end there whatever comes later. -/
theorem append_of_stray (source : Source) {place : Char × Nat}
    (hstray : source.stray? = some place) :
    (source.append more).tokens = source.tokens ∧ (source.append more).stray? = some place := by
  induction source using tokens_induction with
  | done source hhead =>
      rw [stray?_of_done hhead] at hstray
      cases hstray
  | stray source character index hhead =>
      rw [stray?_of_stray hhead] at hstray
      cases hstray
      cases begins_of_head hhead with
      | @stray blanks chars c hchars hblanks hnone hkind =>
          have hsplit : (source.append more).rest = blanks ++ character :: (chars ++ more) := by
            rw [Source.append, hchars, List.append_assoc, List.cons_append]
          have hmore := head_eq_of_begins (.stray hsplit hblanks hnone hkind)
          exact ⟨(tokens_of_stray hmore).trans (tokens_of_stray hhead).symm, stray?_of_stray hmore⟩
  | token source token rest hhead ih =>
      rw [stray?_of_token hhead] at hstray
      obtain ⟨blanks, hstarts⟩ := head_eq_token_iff.mp hhead
      have hmore := head_eq_token_iff.mpr ⟨blanks, hstarts.append hblank⟩
      obtain ⟨htokens, hplace⟩ := ih hstray
      rw [tokens_of_token hmore, stray?_of_token hmore, tokens_of_token hhead, htokens]
      exact ⟨rfl, hplace⟩

/-- The tokens of a source are the first ones of the source that goes on. -/
theorem tokens_prefix_append (source : Source) :
    source.tokens <+: (source.append more).tokens := by
  cases hstray : source.stray? with
  | none => exact ⟨_, (yields_append hblank source hstray).tokens.symm⟩
  | some place => exact ⟨[], by rw [(append_of_stray hblank source hstray).1, List.append_nil]⟩

end Append

end Source

end SumProduct
