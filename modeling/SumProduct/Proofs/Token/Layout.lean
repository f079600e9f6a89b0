import Mathlib.Tactic.Ring
import SumProduct.Expression.Basic
import SumProduct.Proofs.Decimal.Value
import SumProduct.Proofs.Token.Sequence

/-!
# Tokens in their text

Every token that is read has the text of its kind, so names are valid and numerals
can be read. It stands in the source at its span, and the brackets before it in the
text are those of the tokens before it.
-/

namespace SumProduct

open Text

/-! ## The texts of tokens -/

/-- A token whose whole text is the longest token of its kind. -/
structure Token.WellFormed (token : Token) : Prop where
  starts : ∃ c text, token.text.toList = c :: text ∧ Kind.ofChar? c = some token.kind
  longest : token.kind.lexeme token.text.toList = token.text.toList

namespace Token.WellFormed

variable {token : Token}

theorem isAlpha_of_mem (hwell : token.WellFormed) (hkind : token.kind = .name) :
    ∀ c ∈ token.text.toList, c.isAlpha = true := by
  intro c hmem
  have hlongest := hwell.longest
  rw [hkind] at hlongest
  rw [← hlongest] at hmem
  exact List.mem_takeWhile_imp hmem

/-- A name token holds a valid name. -/
theorem isValidName (hwell : token.WellFormed) (hkind : token.kind = .name) :
    SumProduct.isValidName token.text = true := by
  obtain ⟨c, text, htext, _⟩ := hwell.starts
  have hall := List.all_eq_true.mpr (hwell.isAlpha_of_mem hkind)
  rw [SumProduct.isValidName, hall, htext]
  rfl

/-- The text of a numeral token: digits, or digits with a point among them. -/
theorem numeral_cases (hwell : token.WellFormed) (hkind : token.kind = .numeral) :
    ∃ whole, whole ≠ [] ∧ (∀ c ∈ whole, c.isDigit = true) ∧
      (token.text.toList = whole ∨
        ∃ fraction, token.text.toList = whole ++ '.' :: fraction ∧
          ∀ c ∈ fraction, c.isDigit = true) := by
  obtain ⟨c, text, htext, hstart⟩ := hwell.starts
  have hdigit : c.isDigit = true := by
    rcases Kind.of_ofChar?_eq_some hstart with
      ⟨_, h⟩ | ⟨_, h⟩ | ⟨_, h⟩ | ⟨_, h⟩ | ⟨_, h⟩ | ⟨_, h⟩ | ⟨hdigit, _⟩
    all_goals first | exact hdigit | (rw [hkind] at h; cases h)
  have hlongest := hwell.longest
  rw [hkind, Kind.lexeme] at hlongest
  rcases Kind.numeralLexeme_cases token.text.toList with
    ⟨whole, fraction, rest, hchars, hsame, hwhole, hfraction, _⟩ |
    ⟨whole, rest, hchars, hsame, hwhole, _⟩
  · refine ⟨whole, ?_, hwhole, Or.inr ⟨fraction, hlongest.symm.trans hsame, hfraction⟩⟩
    rintro rfl
    rw [htext, List.nil_append, List.cons.injEq] at hchars
    rw [hchars.1] at hdigit
    cases hdigit
  · refine ⟨whole, ?_, hwhole, Or.inl (hlongest.symm.trans hsame)⟩
    rintro rfl
    rw [hlongest, htext] at hsame
    cases hsame

/-- A numeral token can be read. -/
theorem exists_ofString? (hwell : token.WellFormed) (hkind : token.kind = .numeral) :
    ∃ numeral, Numeral.ofString? token.text = some numeral := by
  obtain ⟨whole, hne, hwhole, htext | ⟨fraction, htext, hfraction⟩⟩ := hwell.numeral_cases hkind
  · exact ⟨_, Numeral.ofString?_whole htext hne hwhole⟩
  · exact ⟨_, Numeral.ofString?_pointed htext hne hwhole hfraction⟩

end Token.WellFormed

/-- A head that is a token is well formed. -/
theorem Source.wellFormed_of_head {source rest : Source} {token : Token}
    (hhead : source.head = .token token rest) : token.WellFormed := by
  have hbegins := source.begins_head
  rw [hhead] at hbegins
  cases hbegins with
  | @token blanks text rest c kind hrest hblanks hkind hlexeme =>
      refine ⟨⟨c, text, String.toList_ofList, hkind⟩, ?_⟩
      have hshort : kind.lexeme (c :: text ++ []) = c :: text :=
        Token.Kind.lexeme_append_of_append (List.cons_ne_nil c text) (by simpa using hlexeme)
      simpa using hshort

theorem Source.wellFormed_of_mem_tokens (source : Source) :
    ∀ token ∈ source.tokens, token.WellFormed := by
  induction source using Source.tokens_induction with
  | done source hhead => simp [tokens_of_done hhead]
  | stray source character index hhead => simp [tokens_of_stray hhead]
  | token source token rest hhead ih =>
      rw [tokens_of_token hhead, List.forall_mem_cons]
      exact ⟨wellFormed_of_head hhead, ih⟩

/-! ## Brackets -/

/-- The number of brackets that are open after tokens of some kinds. -/
def Token.Kind.openBrackets (kinds : List Kind) : Int :=
  (kinds.count .openBracket : Int) - (kinds.count .closeBracket : Int)

/-- The number of brackets that are open after some characters. -/
def Text.openBrackets (chars : List Char) : Int :=
  (chars.count '(' : Int) - (chars.count ')' : Int)

@[simp] theorem Token.Kind.openBrackets_nil : openBrackets [] = 0 :=
  rfl

@[simp] theorem Token.Kind.openBrackets_append (first second : List Kind) :
    openBrackets (first ++ second) = openBrackets first + openBrackets second := by
  simp only [openBrackets, List.count_append]
  omega

theorem Token.Kind.openBrackets_cons (kind : Kind) (kinds : List Kind) :
    openBrackets (kind :: kinds) = openBrackets [kind] + openBrackets kinds :=
  openBrackets_append [kind] kinds

@[simp] theorem Text.openBrackets_nil : Text.openBrackets [] = 0 :=
  rfl

@[simp] theorem Text.openBrackets_append (first second : List Char) :
    Text.openBrackets (first ++ second) = Text.openBrackets first + Text.openBrackets second := by
  simp only [openBrackets, List.count_append]
  omega

theorem Text.openBrackets_eq_zero {chars : List Char}
    (hnone : ∀ c ∈ chars, c ≠ '(' ∧ c ≠ ')') : Text.openBrackets chars = 0 := by
  have hleft : chars.count '(' = 0 := List.count_eq_zero.mpr (fun hmem => (hnone _ hmem).1 rfl)
  have hright : chars.count ')' = 0 := List.count_eq_zero.mpr (fun hmem => (hnone _ hmem).2 rfl)
  rw [openBrackets, hleft, hright]
  rfl

theorem Text.openBrackets_blanks {chars : List Char} (hblanks : ∀ c ∈ chars, isBlank c = true) :
    Text.openBrackets chars = 0 := by
  apply openBrackets_eq_zero
  intro c hmem
  have hblank := hblanks c hmem
  constructor <;> rintro rfl <;> exact absurd hblank (by decide)

namespace Token.WellFormed

variable {token : Token}

/-- A sign is a single character. -/
theorem text_eq_singleton (hwell : token.WellFormed) (hname : token.kind ≠ .name)
    (hnumeral : token.kind ≠ .numeral) :
    ∃ c, token.text.toList = [c] ∧ Kind.ofChar? c = some token.kind := by
  obtain ⟨c, text, htext, hstart⟩ := hwell.starts
  have hlongest := hwell.longest
  rw [htext] at hlongest
  have hsingle : text = [] := by
    cases hkind : token.kind with
    | name => exact absurd hkind hname
    | numeral => exact absurd hkind hnumeral
    | _ => simpa [hkind, Kind.lexeme] using hlongest
  exact ⟨c, hsingle ▸ htext, hstart⟩

/-- An open bracket is written as one. -/
theorem text_of_openBracket (hwell : token.WellFormed) (hkind : token.kind = .openBracket) :
    token.text.toList = ['('] := by
  obtain ⟨c, htext, hstart⟩ := hwell.text_eq_singleton (by simp [hkind]) (by simp [hkind])
  rw [hkind] at hstart
  rcases Kind.of_ofChar?_eq_some hstart with
    ⟨rfl, _⟩ | ⟨_, h⟩ | ⟨_, h⟩ | ⟨_, h⟩ | ⟨_, h⟩ | ⟨_, h⟩ | ⟨_, h⟩
  · exact htext
  all_goals cases h

/-- Names and numerals hold no brackets. -/
theorem not_bracket_of_mem (hwell : token.WellFormed)
    (hkind : token.kind = .name ∨ token.kind = .numeral) :
    ∀ c ∈ token.text.toList, c ≠ '(' ∧ c ≠ ')' := by
  intro c hmem
  have hclass : c.isAlpha = true ∨ c.isDigit = true ∨ c = '.' := by
    rcases hkind with hname | hnumeral
    · exact Or.inl (hwell.isAlpha_of_mem hname c hmem)
    · obtain ⟨whole, _, hwhole, htext | ⟨fraction, htext, hfraction⟩⟩ :=
        hwell.numeral_cases hnumeral
      · exact Or.inr (Or.inl (hwhole c (htext ▸ hmem)))
      · rw [htext, List.mem_append, List.mem_cons] at hmem
        rcases hmem with h | h | h
        · exact Or.inr (Or.inl (hwhole c h))
        · exact Or.inr (Or.inr h)
        · exact Or.inr (Or.inl (hfraction c h))
  constructor <;> rintro rfl <;> exact absurd hclass (by decide)

/-- The text of a token opens as many brackets as its kind says. -/
theorem openBrackets_text (hwell : token.WellFormed) :
    Text.openBrackets token.text.toList = Kind.openBrackets [token.kind] := by
  by_cases hlong : token.kind = .name ∨ token.kind = .numeral
  · rw [Text.openBrackets_eq_zero (hwell.not_bracket_of_mem hlong)]
    rcases hlong with hkind | hkind <;> rw [hkind] <;> rfl
  · push Not at hlong
    obtain ⟨c, htext, hstart⟩ := hwell.text_eq_singleton hlong.1 hlong.2
    rw [htext]
    rcases Kind.of_ofChar?_eq_some hstart with
      ⟨rfl, hkind⟩ | ⟨rfl, hkind⟩ | ⟨rfl, hkind⟩ | ⟨rfl, hkind⟩ | ⟨rfl, hkind⟩ | ⟨_, hkind⟩ |
      ⟨_, hkind⟩
    case inr.inr.inr.inr.inr.inl => exact absurd hkind hlong.1
    case inr.inr.inr.inr.inr.inr => exact absurd hkind hlong.2
    all_goals rw [hkind]; decide

/-- Before the end of a token its text has opened no bracket. -/
theorem openBrackets_front (hwell : token.WellFormed) {front : List Char}
    (hfront : front <+: token.text.toList) :
    Text.openBrackets front = 0 ∨ front = token.text.toList := by
  by_cases hlong : token.kind = .name ∨ token.kind = .numeral
  · exact Or.inl (Text.openBrackets_eq_zero
      (fun c hmem => hwell.not_bracket_of_mem hlong c (hfront.subset hmem)))
  · push Not at hlong
    obtain ⟨c, htext, _⟩ := hwell.text_eq_singleton hlong.1 hlong.2
    rw [htext] at hfront ⊢
    rcases List.prefix_cons_iff.mp hfront with rfl | ⟨rest, rfl, hnil⟩
    · exact Or.inl rfl
    · exact Or.inr (by rw [List.prefix_nil.mp hnil])

end Token.WellFormed

/-! ## Where tokens stand -/

/-- A front of joined lists ends in the first one or goes on into the second. -/
theorem prefix_append_cases {α : Type} {front first second : List α}
    (hfront : front <+: first ++ second) :
    front <+: first ∨ ∃ rest, front = first ++ rest ∧ rest <+: second := by
  obtain ⟨tail, heq⟩ := hfront
  rcases List.append_eq_append_iff.mp heq with ⟨middle, hfirst, _⟩ | ⟨rest, hfront, hsecond⟩
  · exact Or.inl ⟨middle, hfirst.symm⟩
  · exact Or.inr ⟨rest, hfront, tail, hsecond.symm⟩

/-- Of a list cut in two ways, the earlier cut lies in the first part or in the second. -/
theorem append_eq_append_cons {α : Type} {first second before rest : List α} {a : α}
    (heq : first ++ second = before ++ a :: rest) :
    (∃ inside, first = before ++ a :: inside ∧ rest = inside ++ second) ∨
      ∃ inside, before = first ++ inside ∧ second = inside ++ a :: rest := by
  rcases List.append_eq_append_iff.mp heq with ⟨inside, hbefore, hsecond⟩ | ⟨inside, hfirst, hrest⟩
  · exact Or.inr ⟨inside, hbefore, hsecond⟩
  · cases inside with
    | nil => exact Or.inr ⟨[], by simpa using hfirst.symm, by simpa using hrest.symm⟩
    | cons b inside =>
        rw [List.cons_append, List.cons.injEq] at hrest
        obtain ⟨rfl, hrest⟩ := hrest
        exact Or.inl ⟨inside, hfirst, hrest⟩

namespace Source

/-- The text `before` a token of a source, which stands there at its span. The second
part finds the tokens read so far at any place before it, as far as brackets go. -/
structure StandsAt (source : Source) (earlier : List Token) (token : Token)
    (before after : List Char) : Prop where
  text : source.rest = before ++ (token.text.toList ++ after)
  span : token.span = ⟨source.offset + byteSize before,
    source.offset + byteSize before + token.text.utf8ByteSize⟩
  brackets : Text.openBrackets before = Token.Kind.openBrackets (earlier.map Token.kind)
  fronts : ∀ front, front <+: before → ∃ read, read <+: earlier ∧
    Text.openBrackets front = Token.Kind.openBrackets (read.map Token.kind)

/-- The first token of a source stands after blanks. -/
theorem standsAt_head {source rest : Source} {token : Token}
    (hhead : source.head = .token token rest) :
    ∃ blanks, source.StandsAt [] token blanks rest.rest := by
  have hbegins := source.begins_head
  rw [hhead] at hbegins
  cases hbegins with
  | @token blanks text rest c kind hrest hblanks hkind hlexeme =>
      refine ⟨blanks, ?_, ?_, openBrackets_blanks hblanks, ?_⟩
      · rw [hrest, String.toList_ofList]
      · rfl
      · intro front hfront
        refine ⟨[], List.nil_prefix, ?_⟩
        exact openBrackets_blanks (fun c hmem => hblanks c (hfront.subset hmem))

/-- The rest after the first token starts where the token ends. -/
theorem offset_of_head {source rest : Source} {token : Token}
    (hhead : source.head = .token token rest) : rest.offset = token.span.stop := by
  have hbegins := source.begins_head
  rw [hhead] at hbegins
  cases hbegins
  rfl

/-- What stands in the rest of a source stands in the source. -/
theorem StandsAt.cons {source rest : Source} {first token : Token} {earlier : List Token}
    {blanks before after : List Char} (hhead : source.head = .token first rest)
    (hfirst : source.StandsAt [] first blanks rest.rest)
    (hnext : rest.StandsAt earlier token before after) :
    source.StandsAt (first :: earlier) token (blanks ++ (first.text.toList ++ before)) after := by
  have hwell := wellFormed_of_head hhead
  have hblanks : Text.openBrackets blanks = 0 := hfirst.brackets
  have hsize : rest.offset = source.offset + byteSize (blanks ++ first.text.toList) := by
    rw [offset_of_head hhead, hfirst.span, byteSize_append, byteSize_toList, Nat.add_assoc]
  refine ⟨?_, ?_, ?_, ?_⟩
  · rw [hfirst.text, hnext.text]
    simp only [List.append_assoc]
  · rw [hnext.span, hsize]
    simp only [byteSize_append, Nat.add_assoc]
  · rw [List.map_cons, Token.Kind.openBrackets_cons, ← hnext.brackets, ← hwell.openBrackets_text,
      Text.openBrackets_append, Text.openBrackets_append, hblanks, zero_add]
  · intro front hfront
    rcases prefix_append_cases hfront with hshort | ⟨middle, rfl, hmiddle⟩
    · obtain ⟨read, hread, hbrackets⟩ := hfirst.fronts front hshort
      exact ⟨read, hread.trans List.nil_prefix, hbrackets⟩
    rcases prefix_append_cases hmiddle with hinside | ⟨tail, rfl, htail⟩
    · -- A front that ends inside the first token ends before any bracket of it.
      rcases hwell.openBrackets_front hinside with hzero | rfl
      · refine ⟨[], List.nil_prefix, ?_⟩
        rw [Text.openBrackets_append, hblanks, hzero]
        rfl
      · refine ⟨[first], List.prefix_append [first] _, ?_⟩
        rw [Text.openBrackets_append, hblanks, hwell.openBrackets_text, zero_add]
        rfl
    · obtain ⟨read, hread, hbrackets⟩ := hnext.fronts tail htail
      refine ⟨first :: read, List.cons_prefix_cons.mpr ⟨rfl, hread⟩, ?_⟩
      rw [List.map_cons, Token.Kind.openBrackets_cons, ← hbrackets, ← hwell.openBrackets_text,
        Text.openBrackets_append, Text.openBrackets_append, hblanks, zero_add]

/-- Every token of a source stands in its text. -/
theorem exists_standsAt (source : Source) {earlier later : List Token} {token : Token}
    (htokens : source.tokens = earlier ++ token :: later) :
    ∃ before after, source.StandsAt earlier token before after := by
  induction source using tokens_induction generalizing earlier with
  | done source hhead =>
      rw [tokens_of_done hhead] at htokens
      simp at htokens
  | stray source character index hhead =>
      rw [tokens_of_stray hhead] at htokens
      simp at htokens
  | token source first rest hhead ih =>
      rw [tokens_of_token hhead] at htokens
      obtain ⟨blanks, hfirst⟩ := standsAt_head hhead
      cases earlier with
      | nil =>
          rw [List.nil_append, List.cons.injEq] at htokens
          obtain ⟨rfl, _⟩ := htokens
          exact ⟨blanks, rest.rest, hfirst⟩
      | cons head earlier =>
          rw [List.cons_append, List.cons.injEq] at htokens
          obtain ⟨rfl, hlater⟩ := htokens
          obtain ⟨before, after, hnext⟩ := ih hlater
          exact ⟨_, after, .cons hhead hfirst hnext⟩

/-- The first character that is neither blank nor part of a token: the text before it
has the same tokens and no such character. -/
structure FirstStray (source : Source) (character : Char) (index : Nat)
    (before after : List Char) : Prop where
  text : source.rest = before ++ character :: after
  index : index = source.offset + byteSize before
  not_blank : isBlank character = false
  no_token : Token.Kind.ofChar? character = none
  tokens : (mk source.offset before).tokens = source.tokens
  clean : (mk source.offset before).stray? = none

/-- The character that ends the tokens too early is the first of its kind. -/
theorem exists_firstStray (source : Source) {character : Char} {index : Nat}
    (hstray : source.stray? = some (character, index)) :
    ∃ before after, source.FirstStray character index before after := by
  induction source using tokens_induction with
  | done source hhead =>
      rw [stray?_of_done hhead] at hstray
      cases hstray
  | stray source character' index' hhead =>
      rw [stray?_of_stray hhead] at hstray
      cases hstray
      have hbegins := source.begins_head
      rw [hhead] at hbegins
      cases hbegins with
      | @stray blanks rest c hrest hblanks hblank hkind =>
          have hdone : (mk source.offset blanks).head = .done := head_eq_of_begins (.done hblanks)
          exact ⟨blanks, rest, hrest, rfl, hblank, hkind,
            (tokens_of_done hdone).trans (tokens_of_stray hhead).symm, stray?_of_done hdone⟩
  | token source token rest hhead ih =>
      rw [stray?_of_token hhead] at hstray
      obtain ⟨before, after, hbefore, hindex, hblank, hnone, htokens, hclean⟩ := ih hstray
      have hbegins := source.begins_head
      rw [hhead] at hbegins
      cases hbegins with
      | @token blanks text rest c kind hrest hblanks hkind hlexeme =>
          simp only at hbefore hindex
          subst hbefore
          have hshort := Token.Kind.lexeme_append_of_append (List.cons_ne_nil c text) hlexeme
          have hbegins : Begins ⟨source.offset, blanks ++ (c :: text ++ before)⟩ _ :=
            .token rfl hblanks hkind hshort
          have hfront := head_eq_of_begins hbegins
          refine ⟨blanks ++ (c :: text ++ before), after, ?_, ?_, hblank, hnone, ?_, ?_⟩
          · rw [hrest]
            simp only [List.append_assoc, List.cons_append]
          · rw [hindex]
            simp only [byteSize_append, Nat.add_assoc]
          · rw [tokens_of_token hfront, tokens_of_token hhead, htokens]
          · rw [stray?_of_token hfront, hclean]

end Source

end SumProduct
