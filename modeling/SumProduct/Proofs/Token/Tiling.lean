import SumProduct.Proofs.Token.Ends

/-!
# Tokens tile their source

The tokens of a source stand in it one after the other, each as long as its kind allows, and
there is nothing but blanks around them. The reading ends early at the first character that
is neither blank nor part of a token. All this leaves no choice: only one list of tokens
tiles a source.
-/

namespace SumProduct

open Text

namespace Text

/-- Of two fronts of some characters, the one with fewer bytes is a front of the other one. -/
theorem prefix_of_byteSize_le {first second first' second' : List Char}
    (hsame : first ++ second = first' ++ second') (hsize : byteSize first ≤ byteSize first') :
    first <+: first' := by
  rcases List.append_eq_append_iff.mp hsame with ⟨more, hlonger, _⟩ | ⟨more, hshorter, _⟩
  · exact ⟨more, hlonger.symm⟩
  · have hnil : more = [] := by
      by_contra hne
      have hpos := byteSize_pos hne
      rw [hshorter, byteSize_append] at hsize
      omega
    have heq : first = first' := by rw [hshorter, hnil, List.append_nil]
    exact heq ▸ List.prefix_rfl

/-- One character stands at a place. -/
theorem eq_of_same_place {before after before' after' : List Char} {c d : Char}
    (hsame : before ++ c :: after = before' ++ d :: after')
    (hsize : byteSize before = byteSize before') : c = d := by
  have hfirst := prefix_of_byteSize_le hsame hsize.le
  have hsecond := prefix_of_byteSize_le hsame.symm hsize.ge
  rw [hfirst.eq_of_length_le hsecond.length_le] at hsame
  exact (List.cons.inj (List.append_cancel_left hsame)).1

end Text

/-! ## Numerals -/

namespace Numeral.Spelling

theorem isDigit_or_point_of_mem (spelling : Spelling) {c : Char} (hmem : c ∈ spelling.chars) :
    c.isDigit = true ∨ c = '.' := by
  obtain ⟨whole, fraction?, _, hwhole, hfraction⟩ := spelling
  cases fraction? with
  | none => exact Or.inl (hwhole c hmem)
  | some fraction =>
      rcases List.mem_append.mp hmem with hmem | hmem
      · exact Or.inl (hwhole c hmem)
      · rcases List.mem_cons.mp hmem with rfl | hmem
        · exact Or.inr rfl
        · exact Or.inl (hfraction c hmem)

/-- A numeral has one point at most. -/
theorem count_point_le (spelling : Spelling) : spelling.chars.count '.' ≤ 1 := by
  obtain ⟨whole, fraction?, _, hwhole, hfraction⟩ := spelling
  have hnone := List.count_eq_zero.mpr (Token.Kind.point_not_mem hwhole)
  cases fraction? with
  | none =>
      simp only [chars, hnone]
      exact Nat.zero_le 1
  | some fraction =>
      have hnone' := List.count_eq_zero.mpr (Token.Kind.point_not_mem hfraction)
      simp only [Option.getD_some] at hnone'
      simp only [chars, List.count_append, hnone, List.count_cons_self, hnone']
      exact Nat.le_refl 1

/-- A character that continues a numeral makes a longer one of it. -/
theorem exists_concat (spelling : Spelling) {c : Char}
    (hcontinues : Token.Kind.continues .numeral spelling.chars c = true) :
    ∃ longer : Spelling, longer.chars = spelling.chars ++ [c] := by
  obtain ⟨whole, fraction?, hne, hwhole, hfraction⟩ := spelling
  simp only [Token.Kind.continues, Bool.or_eq_true, Bool.and_eq_true, beq_iff_eq] at hcontinues
  cases fraction? with
  | none =>
      rcases hcontinues with hdigit | ⟨rfl, _⟩
      · refine ⟨⟨whole ++ [c], none, by simp, ?_, hfraction⟩, rfl⟩
        exact List.forall_mem_append.mpr ⟨hwhole, List.forall_mem_singleton.mpr hdigit⟩
      · exact ⟨⟨whole, some [], hne, hwhole, by simp⟩, rfl⟩
  | some fraction =>
      rcases hcontinues with hdigit | ⟨_, hnone⟩
      · refine ⟨⟨whole, some (fraction ++ [c]), hne, hwhole, ?_⟩, by simp [chars]⟩
        exact List.forall_mem_append.mpr ⟨hfraction, List.forall_mem_singleton.mpr hdigit⟩
      · simp [chars] at hnone

end Numeral.Spelling

/-! ## Longest tokens -/

namespace Token.Kind

/-- The character that is all of a token of a kind, if the kind has only one text. -/
def sign? : Kind → Option Char
  | openBracket => some '('
  | closeBracket => some ')'
  | plus => some '+'
  | minus => some '-'
  | times => some '*'
  | name | numeral => none

theorem ofChar?_of_sign? {kind : Kind} {c : Char} (hsign : kind.sign? = some c) :
    ofChar? c = some kind := by
  cases kind <;> cases hsign <;> decide

theorem sign?_of_ofChar? {kind : Kind} {c : Char} (hkind : ofChar? c = some kind)
    (hname : kind ≠ name) (hnumeral : kind ≠ numeral) : kind.sign? = some c := by
  rcases of_ofChar?_eq_some hkind with
    ⟨rfl, rfl⟩ | ⟨rfl, rfl⟩ | ⟨rfl, rfl⟩ | ⟨rfl, rfl⟩ | ⟨rfl, rfl⟩ | ⟨_, h⟩ | ⟨_, h⟩
  case inr.inr.inr.inr.inr.inl => exact absurd h hname
  case inr.inr.inr.inr.inr.inr => exact absurd h hnumeral
  all_goals rfl

/-- No letter, no digit and no sign starts no token. -/
theorem ofChar?_eq_none_iff {c : Char} :
    ofChar? c = none ↔ c.isAlpha = false ∧ c.isDigit = false ∧ c ∉ signs := by
  simp only [ofChar?, signs]
  split_ifs <;> simp_all

/-- A text is the longest one of its kind between the characters before and after it: all
letters there are, the longest numeral that starts there, or the one character of a sign. -/
def IsLongest (kind : Kind) (before text after : List Char) : Prop :=
  match kind with
  | name =>
      text ≠ [] ∧ (∀ c ∈ text, c.isAlpha = true) ∧ Stops Char.isAlpha before.reverse ∧
        Stops Char.isAlpha after
  | numeral =>
      (∃ spelling : Numeral.Spelling, spelling.chars = text) ∧
        ∀ spelling : Numeral.Spelling, spelling.chars <+: text ++ after →
          spelling.chars.length ≤ text.length
  | sign => ∃ c, sign.sign? = some c ∧ text = [c]

end Token.Kind

namespace Token.WellFormed

variable {token : Token}

theorem exists_spelling (hwell : token.WellFormed) (hkind : token.kind = .numeral) :
    ∃ spelling : Numeral.Spelling, spelling.chars = token.text.toList := by
  obtain ⟨whole, hne, hwhole, htext | ⟨fraction, htext, hfraction⟩⟩ := hwell.numeral_cases hkind
  · exact ⟨⟨whole, none, hne, hwhole, by simp⟩, htext.symm⟩
  · exact ⟨⟨whole, some fraction, hne, hwhole, hfraction⟩, htext.symm⟩

end Token.WellFormed

namespace Numeral.Spelling

/-- A numeral is the longest one exactly if what comes after it does not continue it. -/
theorem isLongest_iff (spelling : Spelling) {after : List Char} :
    (∀ longer : Spelling, longer.chars <+: spelling.chars ++ after →
      longer.chars.length ≤ spelling.chars.length) ↔
      Stops (Token.Kind.continues .numeral spelling.chars) after := by
  constructor
  · intro hlongest c hc
    obtain ⟨more, rfl⟩ := List.head?_eq_some_iff.mp hc
    rw [Bool.eq_false_iff]
    intro hcontinues
    obtain ⟨longer, hlonger⟩ := spelling.exists_concat hcontinues
    have hlength := hlongest longer ⟨more, by rw [hlonger, List.append_assoc]; rfl⟩
    rw [hlonger, List.length_append, List.length_singleton] at hlength
    omega
  · rintro hstops longer hfront
    by_contra hlength
    -- A longer numeral takes in the next character, which is then a second point.
    rcases prefix_append_cases hfront with hshort | ⟨more, hlonger, hmore⟩
    · exact hlength hshort.length_le
    cases more with
    | nil => exact hlength (by rw [hlonger, List.append_nil])
    | cons c more =>
        obtain ⟨rest, rfl⟩ := hmore
        have hstop := hstops c rfl
        simp only [Token.Kind.continues, Bool.or_eq_false_iff, Bool.and_eq_false_iff,
          beq_eq_false_iff_ne, Bool.not_eq_false', List.contains_iff_mem] at hstop
        have hmem : c ∈ longer.chars := by simp [hlonger]
        rcases longer.isDigit_or_point_of_mem hmem with hdigit | rfl
        · rw [hdigit] at hstop
          cases hstop.1
        · have hpoint : '.' ∈ spelling.chars := hstop.2.resolve_left (fun hne => hne rfl)
          have hfirst := List.count_pos_iff.mpr hpoint
          have hcount := longer.count_point_le
          rw [hlonger, List.count_append, List.count_cons_self] at hcount
          omega

end Numeral.Spelling

namespace Token

variable {token : Token} {before after : List Char}

theorem isLongest_name_iff (hkind : token.kind = .name) :
    token.kind.IsLongest before token.text.toList after ↔
      token.WellFormed ∧ Stops (token.kind.continues token.text.toList) after ∧
        Stops Char.isAlpha before.reverse := by
  constructor
  · intro hlongest
    rw [hkind] at hlongest ⊢
    obtain ⟨hne, hletters, hbefore, hafter⟩ := hlongest
    refine ⟨⟨?_, ?_⟩, hafter, hbefore⟩
    · obtain ⟨c, text, htext⟩ := List.exists_cons_of_ne_nil hne
      have hletter := hletters c (by rw [htext]; exact List.mem_cons_self)
      exact ⟨c, text, htext, hkind ▸ Kind.ofChar?_of_isAlpha hletter⟩
    · rw [hkind]
      exact List.takeWhile_eq_self_iff.mpr hletters
  · rintro ⟨hwell, hafter, hbefore⟩
    have hletters := hwell.isAlpha_of_mem hkind
    rw [hkind] at hafter ⊢
    exact ⟨hwell.toList_ne_nil, hletters, hbefore, hafter⟩

theorem isLongest_numeral_iff (hkind : token.kind = .numeral) :
    token.kind.IsLongest before token.text.toList after ↔
      token.WellFormed ∧ Stops (token.kind.continues token.text.toList) after := by
  constructor
  · intro hlongest
    rw [hkind] at hlongest ⊢
    obtain ⟨⟨spelling, hspelling⟩, hmost⟩ := hlongest
    rw [← hspelling] at hmost ⊢
    refine ⟨⟨?_, ?_⟩, spelling.isLongest_iff.mp hmost⟩
    · obtain ⟨c, text, htext, hdigit⟩ := spelling.exists_chars_eq_cons
      exact ⟨c, text, hspelling ▸ htext, hkind ▸ Kind.ofChar?_of_isDigit hdigit⟩
    · have hnil : ∀ p : Char → Bool, Stops p [] := fun p => by simp [Stops]
      have hlexeme := spelling.numeralLexeme_chars (hnil Char.isDigit) (hnil (· == '.'))
      rw [List.append_nil, hspelling] at hlexeme
      rw [hkind]
      exact hlexeme
  · rintro ⟨hwell, hafter⟩
    obtain ⟨spelling, hspelling⟩ := hwell.exists_spelling hkind
    rw [hkind, ← hspelling] at hafter ⊢
    exact ⟨⟨spelling, rfl⟩, spelling.isLongest_iff.mpr hafter⟩

theorem isLongest_sign_iff (hname : token.kind ≠ .name) (hnumeral : token.kind ≠ .numeral) :
    token.kind.IsLongest before token.text.toList after ↔
      token.WellFormed ∧ Stops (token.kind.continues token.text.toList) after := by
  have hsign : token.kind.IsLongest before token.text.toList after ↔
      ∃ c, token.kind.sign? = some c ∧ token.text.toList = [c] := by
    unfold Kind.IsLongest
    split
    next hkind => exact absurd hkind hname
    next hkind => exact absurd hkind hnumeral
    next => exact Iff.rfl
  have hstops : Stops (token.kind.continues token.text.toList) after := by
    intro c _
    unfold Kind.continues
    split
    next hkind => exact absurd hkind hname
    next hkind => exact absurd hkind hnumeral
    next => rfl
  rw [hsign]
  constructor
  · rintro ⟨c, hc, htext⟩
    refine ⟨⟨⟨c, [], htext, Kind.ofChar?_of_sign? hc⟩, ?_⟩, hstops⟩
    rw [htext]
    unfold Kind.lexeme
    split
    next hkind => exact absurd hkind hname
    next hkind => exact absurd hkind hnumeral
    next => rfl
  · rintro ⟨hwell, -⟩
    obtain ⟨c, htext, hc⟩ := hwell.text_eq_singleton hname hnumeral
    exact ⟨c, Kind.sign?_of_ofChar? hc hname hnumeral, htext⟩

/-- A token is the longest one of its kind exactly if its text is one of the kind and what
comes after it does not continue it. A name has no letter before it either. -/
theorem isLongest_iff :
    token.kind.IsLongest before token.text.toList after ↔
      token.WellFormed ∧ Stops (token.kind.continues token.text.toList) after ∧
        (token.kind = .name → Stops Char.isAlpha before.reverse) := by
  by_cases hname : token.kind = .name
  · rw [isLongest_name_iff hname]
    simp only [hname, forall_const]
  · have hnone : token.kind = .name → Stops Char.isAlpha before.reverse := fun h => absurd h hname
    by_cases hnumeral : token.kind = .numeral
    · rw [isLongest_numeral_iff hnumeral, and_iff_left hnone]
    · rw [isLongest_sign_iff hname hnumeral, and_iff_left hnone]

end Token

/-! ## Tilings -/

namespace Source

/-- A token stands between some characters of a source, at its span, and is the longest one
there. -/
structure HasToken (source : Source) (token : Token) (before after : List Char) : Prop where
  chars : source.rest = before ++ (token.text.toList ++ after)
  start : token.span.start = source.offset + byteSize before
  stop : token.span.stop = token.span.start + token.text.utf8ByteSize
  nonempty : token.span.start < token.span.stop
  longest : token.kind.IsLongest before token.text.toList after

/-- A character at its place in a source that is neither blank nor part of a token. -/
structure Uncovered (source : Source) (tokens : List Token) (c : Char) (place : Nat) : Prop where
  stands : ∃ before after, source.rest = before ++ c :: after ∧
    place = source.offset + byteSize before
  not_blank : isBlank c = false
  outside : ∀ token ∈ tokens, place < token.span.start ∨ token.span.stop ≤ place

/-- Tokens that tile a source up to its end, or up to a stray character: they stand in it one
after the other, and there is nothing but blanks around them. The stray character is neither
blank nor part of a token, and no token could start with it. -/
structure Tiles (source : Source) (tokens : List Token) (stray? : Option (Char × Nat)) : Prop where
  stand : ∀ token ∈ tokens, ∃ before after, source.HasToken token before after
  rising : tokens.Pairwise fun first second => first.span.stop ≤ second.span.start
  blank : ∀ c place, source.Uncovered tokens c place → ∃ found ∈ stray?, found.2 ≤ place
  uncovered : ∀ found ∈ stray?, source.Uncovered tokens found.1 found.2
  before_stray : ∀ found ∈ stray?, ∀ token ∈ tokens, token.span.stop ≤ found.2
  starts_none : ∀ found ∈ stray?,
    found.1.isAlpha = false ∧ found.1.isDigit = false ∧ found.1 ∉ Token.Kind.signs

section StartsWith

variable {source rest : Source} {token : Token} {blanks : List Char} {tokens : List Token}
  {stray? : Option (Char × Nat)}

/-- The first token stands behind its blanks. -/
theorem StartsWith.hasToken (hstarts : source.StartsWith blanks token rest) :
    source.HasToken token blanks rest.rest := by
  have hsize := byteSize_pos hstarts.wellFormed.toList_ne_nil
  rw [byteSize_toList] at hsize
  refine ⟨hstarts.chars, hstarts.start, hstarts.stop, by have := hstarts.stop; omega, ?_⟩
  refine Token.isLongest_iff.mpr ⟨hstarts.wellFormed, hstarts.ends, fun _ c hc => ?_⟩
  have hmem : c ∈ blanks := List.mem_reverse.mp (List.mem_of_mem_head? hc)
  exact isAlpha_eq_false_of_isBlank (hstarts.blank c hmem)

/-- The source behind the first token starts at its end. -/
theorem StartsWith.offset_eq (hstarts : source.StartsWith blanks token rest) :
    rest.offset = source.offset + byteSize (blanks ++ token.text.toList) := by
  rw [hstarts.offset, hstarts.stop, hstarts.start, byteSize_append, byteSize_toList, Nat.add_assoc]

/-- What is uncovered behind the first token is what is uncovered at all. -/
theorem StartsWith.uncovered_iff (hstarts : source.StartsWith blanks token rest) {c : Char}
    {place : Nat} : source.Uncovered (token :: tokens) c place ↔ rest.Uncovered tokens c place := by
  have hoffset := hstarts.offset_eq
  constructor
  · rintro ⟨⟨before, after, hchars, hplace⟩, hblank, houtside⟩
    obtain ⟨hfirst, hothers⟩ := List.forall_mem_cons.mp houtside
    rw [hstarts.chars, ← List.append_assoc] at hchars
    rcases append_eq_append_cons hchars with ⟨inside, hfront, _⟩ | ⟨inside, rfl, hrest⟩
    · rcases append_eq_append_cons hfront with ⟨more, rfl, _⟩ | ⟨more, rfl, htext⟩
      · -- The blanks in front of the token hold no such character.
        have hmem := hstarts.blank c (by simp)
        rw [hblank] at hmem
        cases hmem
      · have hstart := hstarts.start
        have hstop := hstarts.stop
        have hsize := byteSize_pos (List.cons_ne_nil c inside)
        rw [← byteSize_toList, htext, byteSize_append] at hstop
        rw [byteSize_append] at hplace
        omega
    · refine ⟨⟨inside, after, hrest, ?_⟩, hblank, hothers⟩
      rw [hplace, hoffset, byteSize_append, Nat.add_assoc]
  · rintro ⟨⟨before, after, hchars, hplace⟩, hblank, hothers⟩
    refine ⟨⟨blanks ++ token.text.toList ++ before, after, ?_, ?_⟩, hblank, ?_⟩
    · rw [hstarts.chars, hchars]
      simp only [List.append_assoc]
    · rw [hplace, hoffset, byteSize_append _ before, Nat.add_assoc]
    · refine List.forall_mem_cons.mpr ⟨Or.inr ?_, hothers⟩
      rw [← hstarts.offset, hplace]
      omega

/-- Directly in front of a name behind the first token there is no letter. -/
theorem StartsWith.stops_reverse (hstarts : source.StartsWith blanks token rest) {next : Token}
    {after : List Char} (hnext : rest.HasToken next [] after) (hname : next.kind = .name) :
    Stops Char.isAlpha (blanks ++ token.text.toList).reverse := by
  have hwell := (Token.isLongest_iff.mp hnext.longest).1
  obtain ⟨d, text, htext, _⟩ := hwell.starts
  have hletter := hwell.isAlpha_of_mem hname d (by rw [htext]; exact List.mem_cons_self)
  have hhead : rest.rest.head? = some d := by
    rw [hnext.chars, htext]
    rfl
  have hother : token.kind ≠ .name := by
    intro hkind
    have hends := hstarts.ends d hhead
    rw [hkind] at hends
    exact absurd hletter (Bool.eq_false_iff.mp hends)
  have hne : token.text.toList.reverse ≠ [] :=
    mt List.reverse_eq_nil_iff.mp hstarts.wellFormed.toList_ne_nil
  intro c hc
  rw [List.reverse_append, List.head?_append_of_ne_nil _ hne] at hc
  have hmem : c ∈ token.text.toList := List.mem_reverse.mp (List.mem_of_mem_head? hc)
  exact hstarts.wellFormed.isAlpha_eq_false_of_mem hother hmem

/-- A token behind the first one is a token of the whole source. -/
theorem StartsWith.hasToken_of_rest (hstarts : source.StartsWith blanks token rest)
    {next : Token} {before after : List Char} (hnext : rest.HasToken next before after) :
    source.HasToken next (blanks ++ token.text.toList ++ before) after := by
  refine ⟨?_, ?_, hnext.stop, hnext.nonempty, ?_⟩
  · rw [hstarts.chars, hnext.chars]
    simp only [List.append_assoc]
  · rw [hnext.start, hstarts.offset_eq, byteSize_append _ before, Nat.add_assoc]
  · obtain ⟨hwell, hends, hbefore⟩ := Token.isLongest_iff.mp hnext.longest
    refine Token.isLongest_iff.mpr ⟨hwell, hends, fun hname => ?_⟩
    rcases List.eq_nil_or_concat before with rfl | ⟨front, c, rfl⟩
    · rw [List.append_nil]
      exact hstarts.stops_reverse hnext hname
    · have hlast := hbefore hname
      rw [List.concat_eq_append, ← List.append_assoc, List.reverse_concat]
      rw [List.concat_eq_append, List.reverse_concat] at hlast
      simpa [Stops] using hlast

/-- A token of the whole source that does not start before the end of the first one stands
behind it. -/
theorem StartsWith.hasToken_rest (hstarts : source.StartsWith blanks token rest)
    {next : Token} {before after : List Char} (hnext : source.HasToken next before after)
    (hrising : token.span.stop ≤ next.span.start) :
    ∃ before', rest.HasToken next before' after := by
  have hoffset := hstarts.offset_eq
  have hplace : byteSize (blanks ++ token.text.toList) ≤ byteSize before := by
    have hstart := hnext.start
    rw [← hstarts.offset] at hrising
    omega
  have hsplit : blanks ++ token.text.toList ++ rest.rest =
      before ++ (next.text.toList ++ after) := by
    rw [← hnext.chars, hstarts.chars, List.append_assoc]
  obtain ⟨before', rfl⟩ := prefix_of_byteSize_le hsplit hplace
  refine ⟨before', ?_, ?_, hnext.stop, hnext.nonempty, ?_⟩
  · rw [List.append_assoc _ before'] at hsplit
    exact List.append_cancel_left hsplit
  · rw [hnext.start, hoffset, byteSize_append _ before', Nat.add_assoc]
  · obtain ⟨hwell, hends, hbefore⟩ := Token.isLongest_iff.mp hnext.longest
    refine Token.isLongest_iff.mpr ⟨hwell, hends, fun hname => ?_⟩
    have hstops := hbefore hname
    rw [List.reverse_append] at hstops
    exact hstops.of_append

end StartsWith

/-! ## One token after the other -/

variable {source rest : Source} {token : Token} {blanks : List Char} {tokens : List Token}
  {stray? : Option (Char × Nat)}

theorem tiles_nil (hhead : source.head = .done) : source.Tiles [] none := by
  have hblanks := head_eq_done_iff.mp hhead
  refine ⟨by simp, .nil, ?_, by simp, by simp, by simp⟩
  rintro c place ⟨⟨before, after, hchars, _⟩, hblank, _⟩
  have hmem := hblanks c (by simp [hchars])
  rw [hblank] at hmem
  cases hmem

theorem tiles_stray {c : Char} {index : Nat} (hhead : source.head = .stray c index) :
    source.Tiles [] (some (c, index)) := by
  cases begins_of_head hhead with
  | @stray blanks after c hchars hblanks hblank hkind =>
      refine ⟨by simp, .nil, ?_, ?_, by simp, ?_⟩
      · rintro d place ⟨⟨before, rest, hrest, rfl⟩, hother, _⟩
        refine ⟨_, rfl, ?_⟩
        rcases append_eq_append_cons (hchars.symm.trans hrest) with ⟨inside, rfl, _⟩ | ⟨inside, rfl, _⟩
        · have hmem := hblanks d (by simp)
          rw [hother] at hmem
          cases hmem
        · simp only [byteSize_append]
          omega
      · rintro found ⟨⟩
        exact ⟨⟨blanks, after, hchars, rfl⟩, hblank, by simp⟩
      · rintro found ⟨⟩
        exact Token.Kind.ofChar?_eq_none_iff.mp hkind

/-- A token in front of a tiling. -/
theorem Tiles.cons (hstarts : source.StartsWith blanks token rest)
    (htiles : rest.Tiles tokens stray?) : source.Tiles (token :: tokens) stray? := by
  have hbehind : ∀ next ∈ tokens, token.span.stop ≤ next.span.start := by
    intro next hnext
    obtain ⟨before, after, hstands⟩ := htiles.stand next hnext
    rw [hstands.start, hstarts.offset]
    exact Nat.le_add_right _ _
  refine ⟨?_, List.pairwise_cons.mpr ⟨hbehind, htiles.rising⟩, fun c place huncovered => ?_,
    fun found hfound => ?_, fun found hfound => ?_, htiles.starts_none⟩
  · refine List.forall_mem_cons.mpr ⟨⟨_, _, hstarts.hasToken⟩, fun next hnext => ?_⟩
    obtain ⟨before, after, hstands⟩ := htiles.stand next hnext
    exact ⟨_, _, hstarts.hasToken_of_rest hstands⟩
  · exact htiles.blank c place (hstarts.uncovered_iff.mp huncovered)
  · exact hstarts.uncovered_iff.mpr (htiles.uncovered found hfound)
  · refine List.forall_mem_cons.mpr ⟨?_, htiles.before_stray found hfound⟩
    obtain ⟨⟨before, after, _, hplace⟩, _, _⟩ := htiles.uncovered found hfound
    rw [hplace, hstarts.offset]
    exact Nat.le_add_right _ _

/-- The first token of a tiling is the first one of the source, and the others tile the rest. -/
theorem Tiles.uncons (htiles : source.Tiles (token :: tokens) stray?) :
    ∃ blanks rest, source.StartsWith blanks token rest ∧ rest.Tiles tokens stray? := by
  obtain ⟨⟨before, after, hfirst⟩, hothers⟩ := List.forall_mem_cons.mp htiles.stand
  obtain ⟨hbehind, hrising⟩ := List.pairwise_cons.mp htiles.rising
  obtain ⟨hwell, hends, -⟩ := Token.isLongest_iff.mp hfirst.longest
  have hblanks : ∀ c ∈ before, isBlank c = true := by
    intro c hmem
    obtain ⟨front, back, rfl⟩ := List.append_of_mem hmem
    by_contra hblank
    have hstart := hfirst.start
    have hnonempty := hfirst.nonempty
    have hsize := byteSize_pos (List.cons_ne_nil c back)
    rw [byteSize_append] at hstart
    -- A character in front of the first token is in none of the tokens.
    have huncovered : source.Uncovered (token :: tokens) c (source.offset + byteSize front) := by
      refine ⟨⟨front, back ++ (token.text.toList ++ after), ?_, rfl⟩, by simpa using hblank, ?_⟩
      · rw [hfirst.chars]
        simp only [List.append_assoc, List.cons_append]
      · refine List.forall_mem_cons.mpr ⟨Or.inl (by omega), fun next hnext => Or.inl ?_⟩
        have hlater := hbehind next hnext
        omega
    obtain ⟨found, hfound, hplace⟩ := htiles.blank c _ huncovered
    have hstray := htiles.before_stray found hfound token List.mem_cons_self
    omega
  have hstarts : source.StartsWith before token ⟨token.span.stop, after⟩ :=
    ⟨hfirst.chars, hblanks, hwell, hends, hfirst.start, hfirst.stop, rfl⟩
  refine ⟨before, _, hstarts, ?_, hrising, fun c place huncovered => ?_, fun found hfound => ?_,
    fun found hfound => ?_, htiles.starts_none⟩
  · intro next hnext
    obtain ⟨front, back, hstands⟩ := hothers next hnext
    obtain ⟨front', hrest⟩ := hstarts.hasToken_rest hstands (hbehind next hnext)
    exact ⟨front', back, hrest⟩
  · exact htiles.blank c place (hstarts.uncovered_iff.mpr huncovered)
  · exact hstarts.uncovered_iff.mp (htiles.uncovered found hfound)
  · exact (List.forall_mem_cons.mp (htiles.before_stray found hfound)).2

/-- A source that is tiled without any token starts with none. -/
theorem Tiles.head_of_nil (htiles : source.Tiles [] stray?) :
    source.head = match stray? with
      | none => .done
      | some (c, index) => .stray c index := by
  have huncovered : ∀ front c back, source.rest = front ++ c :: back → isBlank c ≠ true →
      source.Uncovered [] c (source.offset + byteSize front) :=
    fun front c back hchars hblank => ⟨⟨front, back, hchars, rfl⟩, by simpa using hblank, by simp⟩
  cases stray? with
  | none =>
      refine head_eq_done_iff.mpr fun c hmem => ?_
      by_contra hblank
      obtain ⟨front, back, hchars⟩ := List.append_of_mem hmem
      obtain ⟨found, hfound, -⟩ := htiles.blank c _ (huncovered front c back hchars hblank)
      cases hfound
  | some found =>
      obtain ⟨c, index⟩ := found
      obtain ⟨⟨before, after, hchars, rfl⟩, hblank, -⟩ := htiles.uncovered _ rfl
      have hkind := Token.Kind.ofChar?_eq_none_iff.mpr (htiles.starts_none _ rfl)
      refine head_eq_of_begins (.stray hchars (fun d hmem => ?_) hblank hkind)
      by_contra hother
      obtain ⟨front, back, rfl⟩ := List.append_of_mem hmem
      rw [List.append_assoc] at hchars
      obtain ⟨found, hfound, hplace⟩ := htiles.blank d _ (huncovered front d _ hchars hother)
      cases hfound
      have hsize := byteSize_pos (List.cons_ne_nil d back)
      simp only [byteSize_append] at hplace
      omega

/-! ## The only tiling -/

theorem tiles_tokens (source : Source) : source.Tiles source.tokens source.stray? := by
  induction source using tokens_induction with
  | done source hhead =>
      rw [tokens_of_done hhead, stray?_of_done hhead]
      exact tiles_nil hhead
  | stray source c index hhead =>
      rw [tokens_of_stray hhead, stray?_of_stray hhead]
      exact tiles_stray hhead
  | token source token rest hhead ih =>
      obtain ⟨blanks, hstarts⟩ := head_eq_token_iff.mp hhead
      rw [tokens_of_token hhead, stray?_of_token hhead]
      exact ih.cons hstarts

theorem Tiles.unique (htiles : source.Tiles tokens stray?) :
    tokens = source.tokens ∧ stray? = source.stray? := by
  induction tokens generalizing source with
  | nil =>
      have hhead := htiles.head_of_nil
      cases stray? with
      | none => exact ⟨(tokens_of_done hhead).symm, (stray?_of_done hhead).symm⟩
      | some found => exact ⟨(tokens_of_stray hhead).symm, (stray?_of_stray hhead).symm⟩
  | cons token tokens ih =>
      obtain ⟨blanks, rest, hstarts, hrest⟩ := htiles.uncons
      have hhead := head_eq_token_iff.mpr ⟨blanks, hstarts⟩
      obtain ⟨rfl, rfl⟩ := ih hrest
      exact ⟨(tokens_of_token hhead).symm, (stray?_of_token hhead).symm⟩

/-- The character at which a tiling ends early is the first one that is uncovered. -/
theorem Tiles.stray_iff (htiles : source.Tiles tokens stray?) {c : Char} {index : Nat} :
    stray? = some (c, index) ↔
      source.Uncovered tokens c index ∧
        ∀ d place, source.Uncovered tokens d place → index ≤ place := by
  constructor
  · rintro rfl
    refine ⟨htiles.uncovered _ rfl, fun d place hother => ?_⟩
    obtain ⟨found, hfound, hplace⟩ := htiles.blank d place hother
    cases hfound
    exact hplace
  · rintro ⟨hfirst, hleast⟩
    obtain ⟨⟨d, place⟩, hstray, hplace⟩ := htiles.blank c index hfirst
    have hother := htiles.uncovered _ hstray
    obtain rfl : index = place := Nat.le_antisymm (hleast d place hother) hplace
    obtain ⟨⟨before, after, hchars, hindex⟩, -, -⟩ := hfirst
    obtain ⟨⟨before', after', hchars', hindex'⟩, -, -⟩ := hother
    rw [eq_of_same_place (hchars.symm.trans hchars') (by omega)]
    exact hstray

/-- The tokens of a text tile it, and no other tokens do. They end early exactly at the first
character that is neither blank nor part of a token. -/
theorem tiles_ofString_iff (text : String) :
    (∀ tokens stray?, (ofString text).Tiles tokens stray? ↔
      tokens = (ofString text).tokens ∧ stray? = (ofString text).stray?) ∧
    ∀ c index, (ofString text).stray? = some (c, index) ↔
      (ofString text).Uncovered (ofString text).tokens c index ∧
        ∀ d place, (ofString text).Uncovered (ofString text).tokens d place → index ≤ place := by
  refine ⟨fun tokens stray? => ⟨Tiles.unique, ?_⟩, fun c index => (tiles_tokens _).stray_iff⟩
  rintro ⟨rfl, rfl⟩
  exact tiles_tokens _

example : (ofString " 1..2 x").tokens.map Token.text = ["1."] ∧
    (ofString " 1..2 x").stray? = some ('.', 3) := by cbv

end Source

end SumProduct
