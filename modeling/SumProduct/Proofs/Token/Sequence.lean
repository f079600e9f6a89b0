import SumProduct.Proofs.Token.Lexeme

/-!
# The tokens of a source

All tokens of a source in order, and the character at which they end too early, if
there is one. Every token stands in the text at its span, after blanks, and what is
read of a text up to some place does not depend on what follows.
-/

namespace SumProduct

open Text

namespace Source

/-- What a source starts with, told by its characters. -/
inductive Begins (source : Source) : Head → Prop
  | done (hblanks : ∀ c ∈ source.rest, isBlank c = true) : Begins source .done
  | stray {blanks rest : List Char} {c : Char} (hrest : source.rest = blanks ++ c :: rest)
      (hblanks : ∀ c ∈ blanks, isBlank c = true) (hblank : isBlank c = false)
      (hkind : Token.Kind.ofChar? c = none) :
      Begins source (.stray c (source.offset + byteSize blanks))
  | token {blanks text rest : List Char} {c : Char} {kind : Token.Kind}
      (hrest : source.rest = blanks ++ (c :: text ++ rest))
      (hblanks : ∀ c ∈ blanks, isBlank c = true) (hkind : Token.Kind.ofChar? c = some kind)
      (hlexeme : kind.lexeme (c :: text ++ rest) = c :: text) :
      Begins source (.token
        ⟨kind, String.ofList (c :: text), ⟨source.offset + byteSize blanks,
          source.offset + byteSize blanks + byteSize (c :: text)⟩⟩
        ⟨source.offset + byteSize blanks + byteSize (c :: text), rest⟩)

/-- Skipping blanks, with the blanks given. -/
theorem skipBlanks_eq {source : Source} {blanks rest : List Char}
    (hrest : source.rest = blanks ++ rest) (hblanks : ∀ c ∈ blanks, isBlank c = true)
    (hstops : Stops isBlank rest) :
    source.skipBlanks = ⟨source.offset + byteSize blanks, rest⟩ := by
  rw [skipBlanks, hrest, takeWhile_append_of_stops hblanks hstops, after, hrest,
    List.drop_left]
  rfl

theorem head_eq_of_begins {source : Source} {head : Head} (hbegins : source.Begins head) :
    source.head = head := by
  cases hbegins with
  | done hblanks =>
      have hskip := skipBlanks_eq (List.append_nil source.rest).symm hblanks (by simp [Stops])
      simp [Source.head, hskip]
  | stray hrest hblanks hblank hkind =>
      have hskip := skipBlanks_eq hrest hblanks (by simpa [Stops] using hblank)
      simp [Source.head, hskip, hkind]
  | @token blanks text rest c kind hrest hblanks hkind hlexeme =>
      have hstops : Stops isBlank (c :: text ++ rest) := by
        simpa [Stops] using Token.Kind.isBlank_eq_false_of_ofChar? hkind
      have hskip := skipBlanks_eq hrest hblanks hstops
      rw [List.cons_append] at hskip hlexeme
      simp only [Source.head, hskip, hkind, hlexeme, after]
      rw [← List.cons_append, List.drop_left]
      rfl

theorem begins_head (source : Source) : source.Begins source.head := by
  have hsplit : source.rest.takeWhile isBlank ++ source.rest.dropWhile isBlank = source.rest :=
    List.takeWhile_append_dropWhile
  have hblanks : ∀ c ∈ source.rest.takeWhile isBlank, isBlank c = true :=
    fun _ => List.mem_takeWhile_imp
  have hstops := stops_dropWhile isBlank source.rest
  cases hrest : source.rest.dropWhile isBlank with
  | nil =>
      rw [hrest, List.append_nil] at hsplit
      have hdone : source.Begins .done := .done (hsplit ▸ hblanks)
      rwa [head_eq_of_begins hdone]
  | cons c chars =>
      rw [hrest] at hsplit hstops
      cases hkind : Token.Kind.ofChar? c with
      | none =>
          have hblank : isBlank c = false := by simpa [Stops] using hstops
          have hstray := Begins.stray hsplit.symm hblanks hblank hkind
          rwa [head_eq_of_begins hstray]
      | some kind =>
          obtain ⟨rest, hlexeme⟩ := kind.lexeme_prefix (c :: chars)
          obtain ⟨c', text, htext⟩ := List.exists_cons_of_ne_nil
            (Token.Kind.lexeme_ne_nil chars hkind)
          rw [htext, List.cons_append, List.cons.injEq] at hlexeme
          obtain ⟨rfl, rfl⟩ := hlexeme
          have htoken := Begins.token hsplit.symm hblanks hkind htext
          rwa [head_eq_of_begins htoken]

theorem begins_of_head {source : Source} {head : Head} (hhead : source.head = head) :
    source.Begins head :=
  hhead ▸ source.begins_head

/-- Nothing but blanks is left of a source without tokens or stray characters. -/
theorem head_eq_done_iff {source : Source} :
    source.head = .done ↔ ∀ c ∈ source.rest, isBlank c = true := by
  constructor
  · intro hhead
    cases begins_of_head hhead with
    | done hblanks => exact hblanks
  · exact fun hblanks => head_eq_of_begins (.done hblanks)

/-- The tokens of a source, up to its end or to a character that starts none. -/
def tokens (source : Source) : List Token :=
  match _hhead : source.head with
  | .token token rest => token :: rest.tokens
  | .done | .stray _ _ => []
termination_by source.rest.length
decreasing_by exact Source.length_lt_of_head _hhead

/-- The first character that is neither blank nor part of a token, and its place. -/
def stray? (source : Source) : Option (Char × Nat) :=
  match _hhead : source.head with
  | .done => none
  | .stray character index => some (character, index)
  | .token _ rest => rest.stray?
termination_by source.rest.length
decreasing_by exact Source.length_lt_of_head _hhead

section Equations

variable {source rest : Source} {token : Token} {character : Char} {index : Nat}

theorem tokens_of_done (hhead : source.head = .done) : source.tokens = [] := by
  rw [tokens]
  split <;> simp_all

theorem tokens_of_stray (hhead : source.head = .stray character index) : source.tokens = [] := by
  rw [tokens]
  split <;> simp_all

theorem tokens_of_token (hhead : source.head = .token token rest) :
    source.tokens = token :: rest.tokens := by
  rw [tokens]
  split <;> simp_all

theorem stray?_of_done (hhead : source.head = .done) : source.stray? = none := by
  rw [stray?]
  split <;> simp_all

theorem stray?_of_stray (hhead : source.head = .stray character index) :
    source.stray? = some (character, index) := by
  rw [stray?]
  split <;> simp_all

theorem stray?_of_token (hhead : source.head = .token token rest) :
    source.stray? = rest.stray? := by
  rw [stray?]
  split <;> simp_all

end Equations

/-- Induction along the tokens of a source. -/
theorem tokens_induction {motive : Source → Prop}
    (done : ∀ source, source.head = .done → motive source)
    (stray : ∀ source character index, source.head = .stray character index → motive source)
    (token : ∀ source token rest, source.head = .token token rest → motive rest → motive source)
    (source : Source) : motive source := by
  induction source using tokens.induct with
  | case1 source token' rest hhead ih => exact token source token' rest hhead ih
  | case2 source hhead => exact done source hhead
  | case3 source character index hhead => exact stray source character index hhead

/-! ## Sources that go on as others -/

/-- A source that starts with some tokens and goes on as another source. -/
structure Yields (source : Source) (tokens : List Token) (rest : Source) : Prop where
  tokens : source.tokens = tokens ++ rest.tokens
  stray : source.stray? = rest.stray?

theorem Yields.append {source middle rest : Source} {first second : List Token}
    (hfirst : source.Yields first middle) (hsecond : middle.Yields second rest) :
    source.Yields (first ++ second) rest :=
  ⟨by rw [hfirst.tokens, hsecond.tokens, List.append_assoc], hfirst.stray.trans hsecond.stray⟩

theorem Yields.cons {source middle rest : Source} {token : Token} {tokens : List Token}
    (hfirst : source.Yields [token] middle) (hsecond : middle.Yields tokens rest) :
    source.Yields (token :: tokens) rest :=
  hfirst.append hsecond

theorem head_of_end (offset : Nat) : (mk offset []).head = .done :=
  head_eq_of_begins (.done (by simp))

/-- A source of which nothing is left has no other tokens. -/
theorem Yields.tokens_of_end {source : Source} {tokens : List Token} {offset : Nat}
    (hyields : source.Yields tokens ⟨offset, []⟩) : source.tokens = tokens := by
  rw [hyields.tokens, tokens_of_done (head_of_end offset), List.append_nil]

theorem Yields.stray?_of_end {source : Source} {tokens : List Token} {offset : Nat}
    (hyields : source.Yields tokens ⟨offset, []⟩) : source.stray? = none := by
  rw [hyields.stray, stray?_of_done (head_of_end offset)]

/-- Sources of the same head have the same tokens. -/
theorem yields_of_head_eq {source rest : Source} (hhead : source.head = rest.head) :
    source.Yields [] rest := by
  cases hrest : rest.head with
  | done =>
      rw [hrest] at hhead
      exact ⟨by rw [tokens_of_done hhead, tokens_of_done hrest, List.append_nil],
        by rw [stray?_of_done hhead, stray?_of_done hrest]⟩
  | stray character index =>
      rw [hrest] at hhead
      exact ⟨by rw [tokens_of_stray hhead, tokens_of_stray hrest, List.append_nil],
        by rw [stray?_of_stray hhead, stray?_of_stray hrest]⟩
  | token token after =>
      rw [hrest] at hhead
      exact ⟨by rw [tokens_of_token hhead, tokens_of_token hrest, List.nil_append],
        by rw [stray?_of_token hhead, stray?_of_token hrest]⟩

/-- Blanks in front of a source only add to its place. -/
theorem head_blanks_append {blanks : List Char} (hblanks : ∀ c ∈ blanks, isBlank c = true)
    (offset : Nat) (chars : List Char) :
    (mk offset (blanks ++ chars)).head = (mk (offset + byteSize blanks) chars).head := by
  have hall : ∀ {more : List Char}, (∀ c ∈ more, isBlank c = true) →
      ∀ c ∈ blanks ++ more, isBlank c = true := by
    intro more hmore
    rw [List.forall_mem_append]
    exact ⟨hblanks, hmore⟩
  have hsize : ∀ more, offset + byteSize (blanks ++ more) =
      offset + byteSize blanks + byteSize more := by
    intro more
    rw [byteSize_append, Nat.add_assoc]
  apply head_eq_of_begins
  have hbegins := begins_head ⟨offset + byteSize blanks, chars⟩
  generalize (mk (offset + byteSize blanks) chars).head = head at hbegins
  cases hbegins with
  | done hmore => exact .done (hall hmore)
  | @stray more after c hrest hmore hnonblank hkind =>
      have hchars : blanks ++ chars = blanks ++ more ++ c :: after := by
        rw [List.append_assoc]
        exact congrArg (blanks ++ ·) hrest
      rw [← hsize]
      exact .stray hchars (hall hmore) hnonblank hkind
  | @token more text after c kind hrest hmore hkind hlexeme =>
      have hchars : blanks ++ chars = blanks ++ more ++ (c :: text ++ after) := by
        rw [List.append_assoc]
        exact congrArg (blanks ++ ·) hrest
      simp only [← hsize]
      exact .token hchars (hall hmore) hkind hlexeme

end Source

end SumProduct
