import SumProduct.Proofs.Decimal.Spelling
import SumProduct.Proofs.Token.Layout

/-!
# Where tokens end

A token ends where the next character does not continue it. So a source starts with a
token exactly if the text of the token comes after blanks and is not continued, whatever
comes later.
-/

namespace SumProduct

open Text

theorem Text.isAlpha_eq_false_of_isDigit {c : Char} (hdigit : c.isDigit = true) :
    c.isAlpha = false := by
  rw [Bool.eq_false_iff]
  intro hletter
  have hname := Token.Kind.ofChar?_of_isAlpha hletter
  rw [Token.Kind.ofChar?_of_isDigit hdigit] at hname
  cases hname

theorem Text.isAlpha_eq_false_of_isBlank {c : Char} (hblank : isBlank c = true) :
    c.isAlpha = false := by
  rw [Bool.eq_false_iff]
  intro hletter
  rw [Token.Kind.isBlank_eq_false_of_ofChar? (Token.Kind.ofChar?_of_isAlpha hletter)] at hblank
  cases hblank

theorem Text.isDigit_eq_false_of_isBlank {c : Char} (hblank : isBlank c = true) :
    c.isDigit = false := by
  rw [Bool.eq_false_iff]
  intro hdigit
  rw [Token.Kind.isBlank_eq_false_of_ofChar? (Token.Kind.ofChar?_of_isDigit hdigit)] at hblank
  cases hblank

namespace Token.Kind

/-- Whether a character behind a text of a kind makes a longer token of it. A numeral has
one point at most. -/
def continues (kind : Kind) (text : List Char) (c : Char) : Bool :=
  match kind with
  | name => c.isAlpha
  | numeral => c.isDigit || c == '.' && !text.contains '.'
  | _ => false

variable {kind : Kind} {text rest : List Char}

theorem stops_continues_numeral :
    Stops (continues numeral text) rest ↔
      Stops Char.isDigit rest ∧ ('.' ∉ text → Stops (· == '.') rest) := by
  simp only [Stops, continues, Bool.or_eq_false_iff, Bool.and_eq_false_iff,
    Bool.not_eq_false', List.contains_iff_mem]
  grind

/-- Digits hold no point. -/
theorem point_not_mem {whole : List Char} (hwhole : ∀ c ∈ whole, c.isDigit = true) :
    '.' ∉ whole :=
  fun hmem => absurd (hwhole _ hmem) (by decide)

theorem numeralLexeme_append_iff (hlongest : numeralLexeme text = text) :
    numeralLexeme (text ++ rest) = text ↔
      Stops Char.isDigit rest ∧ ('.' ∉ text → Stops (· == '.') rest) := by
  constructor
  · intro hlexeme
    rcases numeralLexeme_cases (text ++ rest) with
      ⟨whole, fraction, tail, hchars, hsame, hwhole, hfraction, hstops⟩ |
      ⟨whole, tail, hchars, hsame, hwhole, hstops, hpoint⟩
    · obtain rfl : text = whole ++ '.' :: fraction := hlexeme.symm.trans hsame
      obtain rfl : rest = tail := by simpa using hchars
      exact ⟨hstops, fun hnone => absurd (by simp) hnone⟩
    · obtain rfl : text = whole := hlexeme.symm.trans hsame
      obtain rfl : rest = tail := List.append_cancel_left hchars
      exact ⟨hstops, fun _ => hpoint⟩
  · rintro ⟨hstops, hpoint⟩
    rcases numeralLexeme_cases text with
      ⟨whole, fraction, tail, _, hsame, hwhole, hfraction, _⟩ | ⟨whole, tail, _, hsame, hwhole, _⟩
    · obtain rfl : text = whole ++ '.' :: fraction := hlongest.symm.trans hsame
      rw [List.append_assoc, List.cons_append]
      exact numeralLexeme_pointed hwhole hfraction hstops
    · obtain rfl : text = whole := hlongest.symm.trans hsame
      exact numeralLexeme_whole hwhole hstops (hpoint (point_not_mem hwhole))

/-- A text is the longest token in front of some characters exactly if they do not
continue it. -/
theorem lexeme_append_iff (hne : text ≠ []) (hlongest : kind.lexeme text = text) :
    kind.lexeme (text ++ rest) = text ↔ Stops (kind.continues text) rest := by
  cases kind with
  | name =>
      have hletters : ∀ c ∈ text, c.isAlpha = true := by
        intro c hmem
        rw [← hlongest] at hmem
        exact List.mem_takeWhile_imp hmem
      constructor
      · intro hlexeme
        have hdrop : (text ++ rest).dropWhile Char.isAlpha = rest := by
          have hsplit := List.takeWhile_append_dropWhile (p := Char.isAlpha) (l := text ++ rest)
          rw [show (text ++ rest).takeWhile Char.isAlpha = text from hlexeme] at hsplit
          exact List.append_cancel_left hsplit
        have hstops := stops_dropWhile Char.isAlpha (text ++ rest)
        rwa [hdrop] at hstops
      · exact lexeme_name hletters
  | numeral => exact (numeralLexeme_append_iff hlongest).trans stops_continues_numeral.symm
  | _ =>
      obtain ⟨c, chars, rfl⟩ := List.exists_cons_of_ne_nil hne
      have hsingle : chars = [] := by simpa [lexeme] using hlongest
      subst hsingle
      simp [lexeme, continues, Stops]

/-- Neither a letter, nor a digit, nor a point continues nothing. -/
theorem continues_eq_false {c : Char} (hletter : c.isAlpha = false) (hdigit : c.isDigit = false)
    (hpoint : c ≠ '.') : kind.continues text c = false := by
  cases kind <;> simp [continues, hletter, hdigit, hpoint]

/-- A character that starts a sign continues no token. -/
theorem continues_eq_false_of_sign {other : Kind} {c : Char} (hkind : ofChar? c = some other)
    (hname : other ≠ name) (hnumeral : other ≠ numeral) : kind.continues text c = false := by
  rcases of_ofChar?_eq_some hkind with
    ⟨rfl, _⟩ | ⟨rfl, _⟩ | ⟨rfl, _⟩ | ⟨rfl, _⟩ | ⟨rfl, _⟩ | ⟨_, h⟩ | ⟨_, h⟩
  case inr.inr.inr.inr.inr.inl => exact absurd h hname
  case inr.inr.inr.inr.inr.inr => exact absurd h hnumeral
  all_goals exact continues_eq_false (by decide) (by decide) (by decide)

/-- Blanks continue no token. -/
theorem continues_eq_false_of_isBlank {c : Char} (hblank : isBlank c = true) :
    kind.continues text c = false := by
  refine continues_eq_false (isAlpha_eq_false_of_isBlank hblank)
    (isDigit_eq_false_of_isBlank hblank) ?_
  rintro rfl
  exact absurd hblank (by decide)

end Token.Kind

namespace Numeral.Spelling

/-- A numeral is the longest one in front of anything but a digit or a point. -/
theorem numeralLexeme_chars (spelling : Spelling) {rest : List Char}
    (hdigit : Stops Char.isDigit rest) (hpoint : Stops (· == '.') rest) :
    Token.Kind.numeralLexeme (spelling.chars ++ rest) = spelling.chars := by
  obtain ⟨whole, fraction?, _, hwhole, hfraction⟩ := spelling
  cases fraction? with
  | none => exact Token.Kind.numeralLexeme_whole hwhole hdigit hpoint
  | some fraction =>
      simp only [chars, List.append_assoc, List.cons_append]
      exact Token.Kind.numeralLexeme_pointed hwhole hfraction hdigit

end Numeral.Spelling

namespace Token.WellFormed

variable {token : Token}

theorem toList_ne_nil (hwell : token.WellFormed) : token.text.toList ≠ [] := by
  obtain ⟨c, text, htext, _⟩ := hwell.starts
  rw [htext]
  exact List.cons_ne_nil c text

/-- The characters of a token are those of its kind. -/
theorem mem_cases (hwell : token.WellFormed) {c : Char} (hmem : c ∈ token.text.toList) :
    (token.kind = .name ∧ c.isAlpha = true) ∨
      (token.kind = .numeral ∧ (c.isDigit = true ∨ c = '.')) ∨
      (token.kind ≠ .name ∧ token.kind ≠ .numeral ∧ Kind.ofChar? c = some token.kind) := by
  by_cases hname : token.kind = .name
  · exact Or.inl ⟨hname, hwell.isAlpha_of_mem hname c hmem⟩
  by_cases hnumeral : token.kind = .numeral
  · refine Or.inr (Or.inl ⟨hnumeral, ?_⟩)
    obtain ⟨whole, _, hwhole, htext | ⟨fraction, htext, hfraction⟩⟩ := hwell.numeral_cases hnumeral
    · exact Or.inl (hwhole c (htext ▸ hmem))
    · rw [htext, List.mem_append, List.mem_cons] at hmem
      rcases hmem with hmem | hpoint | hmem
      · exact Or.inl (hwhole c hmem)
      · exact Or.inr hpoint
      · exact Or.inl (hfraction c hmem)
  · obtain ⟨sign, htext, hkind⟩ := hwell.text_eq_singleton hname hnumeral
    rw [htext, List.mem_singleton] at hmem
    subst hmem
    exact Or.inr (Or.inr ⟨hname, hnumeral, hkind⟩)

/-- Tokens other than names hold no letters. -/
theorem isAlpha_eq_false_of_mem (hwell : token.WellFormed) (hname : token.kind ≠ .name) {c : Char}
    (hmem : c ∈ token.text.toList) : c.isAlpha = false := by
  rcases hwell.mem_cases hmem with ⟨h, _⟩ | ⟨_, hdigit | rfl⟩ | ⟨_, _, hkind⟩
  · exact absurd h hname
  · exact isAlpha_eq_false_of_isDigit hdigit
  · rfl
  · rw [Bool.eq_false_iff]
    intro hletter
    rw [Kind.ofChar?_of_isAlpha hletter, Option.some.injEq] at hkind
    exact hname hkind.symm

/-- No character of a token is blank. -/
theorem isBlank_eq_false_of_mem (hwell : token.WellFormed) {c : Char}
    (hmem : c ∈ token.text.toList) : isBlank c = false := by
  rcases hwell.mem_cases hmem with ⟨_, hletter⟩ | ⟨_, hdigit | rfl⟩ | ⟨_, _, hkind⟩
  · exact Kind.isBlank_eq_false_of_ofChar? (Kind.ofChar?_of_isAlpha hletter)
  · exact Kind.isBlank_eq_false_of_ofChar? (Kind.ofChar?_of_isDigit hdigit)
  · decide
  · exact Kind.isBlank_eq_false_of_ofChar? hkind

end Token.WellFormed

namespace Source

/-- A source that starts with blanks and a token, and goes on as another source. -/
structure StartsWith (source : Source) (blanks : List Char) (token : Token) (rest : Source) :
    Prop where
  chars : source.rest = blanks ++ (token.text.toList ++ rest.rest)
  blank : ∀ c ∈ blanks, isBlank c = true
  wellFormed : token.WellFormed
  ends : Stops (token.kind.continues token.text.toList) rest.rest
  start : token.span.start = source.offset + byteSize blanks
  stop : token.span.stop = token.span.start + token.text.utf8ByteSize
  offset : rest.offset = token.span.stop

/-- The head of a source is a token exactly if the source starts with that token. -/
theorem head_eq_token_iff {source rest : Source} {token : Token} :
    source.head = .token token rest ↔ ∃ blanks, source.StartsWith blanks token rest := by
  constructor
  · intro hhead
    have hwell := wellFormed_of_head hhead
    cases begins_of_head hhead with
    | @token blanks text rest c kind hchars hblanks hkind hlexeme =>
        have hlongest := hwell.longest
        simp only [String.toList_ofList] at hlongest
        refine ⟨blanks, ?_, hblanks, hwell, ?_, rfl, rfl, rfl⟩
        · simpa using hchars
        · rw [String.toList_ofList]
          exact (Token.Kind.lexeme_append_iff (List.cons_ne_nil c text) hlongest).mp hlexeme
  · rintro ⟨blanks, hchars, hblanks, hwell, hends, hstart, hstop, hoffset⟩
    obtain ⟨c, text, htext, hkind⟩ := hwell.starts
    have hlongest := hwell.longest
    have hsize : byteSize (c :: text) = token.text.utf8ByteSize := by
      rw [← htext, byteSize_toList]
    have hsame : String.ofList (c :: text) = token.text := by
      rw [← htext, String.ofList_toList]
    rw [htext] at hchars hends hlongest
    have hlexeme := (Token.Kind.lexeme_append_iff (List.cons_ne_nil c text) hlongest).mpr hends
    have hhead := head_eq_of_begins (.token hchars hblanks hkind hlexeme)
    rw [hsize, hsame, ← hstart, ← hstop] at hhead
    obtain ⟨offset, chars⟩ := rest
    obtain rfl : offset = token.span.stop := hoffset
    exact hhead

end Source

end SumProduct
