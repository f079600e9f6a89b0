import Mathlib.Data.List.Chain
import SumProduct.Proofs.Parse.Insertion
import SumProduct.Proofs.Token.Ends

/-!
# Blanks between tokens

Blanks that come into a text between two tokens move the tokens behind them and change
nothing else. A text that loses all of its blanks keeps its tokens as long as no two words
stand side by side.
-/

namespace SumProduct

open Text

namespace Source

/-- A source whose tokens are those of another one, at moved places. -/
structure Moves (insertion : Insertion) (source moved : Source) : Prop where
  tokens : moved.tokens = source.tokens.map insertion.moveToken
  stray : moved.stray? = source.stray?.map insertion.moveStray

variable {insertion : Insertion} {source moved rest rest' : Source}

theorem Moves.of_done (hhead : source.head = .done) (hmoved : moved.head = .done) :
    Moves insertion source moved :=
  ⟨by rw [tokens_of_done hhead, tokens_of_done hmoved, List.map_nil],
    by rw [stray?_of_done hhead, stray?_of_done hmoved, Option.map_none]⟩

theorem Moves.of_stray {character : Char} {index : Nat}
    (hhead : source.head = .stray character index)
    (hmoved : moved.head = .stray character (insertion.moveIndex index)) :
    Moves insertion source moved :=
  ⟨by rw [tokens_of_stray hhead, tokens_of_stray hmoved, List.map_nil],
    by rw [stray?_of_stray hhead, stray?_of_stray hmoved, Option.map_some]; rfl⟩

theorem Moves.of_token {token : Token} (hhead : source.head = .token token rest)
    (hmoved : moved.head = .token (insertion.moveToken token) rest')
    (hrest : Moves insertion rest rest') : Moves insertion source moved :=
  ⟨by rw [tokens_of_token hhead, tokens_of_token hmoved, hrest.tokens, List.map_cons],
    by rw [stray?_of_token hhead, stray?_of_token hmoved, hrest.stray]⟩

/-- Sources with the heads of others have their tokens. -/
theorem Moves.of_heads {other other' : Source} (hmoves : Moves insertion other other')
    (hhead : source.head = other.head) (hmoved : moved.head = other'.head) :
    Moves insertion source moved := by
  obtain ⟨htokens, hstray⟩ := hmoves
  have hsource := yields_of_head_eq hhead
  have hother := yields_of_head_eq hmoved
  exact ⟨by rw [hother.tokens, hsource.tokens, List.nil_append, List.nil_append, htokens],
    by rw [hother.stray, hsource.stray, hstray]⟩

/-- Behind the insertion all tokens move. -/
theorem moves_offset (source : Source) (hplace : insertion.place ≤ source.offset) :
    Moves insertion source ⟨source.offset + insertion.amount, source.rest⟩ := by
  induction source using tokens_induction with
  | done source hhead =>
      have hblanks := head_eq_done_iff.mp hhead
      exact .of_done hhead (head_eq_done_iff.mpr hblanks)
  | stray source character index hhead =>
      cases begins_of_head hhead with
      | @stray blanks after c hrest hblanks hblank hkind =>
          have hbegins : Begins ⟨source.offset + insertion.amount, source.rest⟩ _ :=
            .stray hrest hblanks hblank hkind
          refine .of_stray hhead ((head_eq_of_begins hbegins).trans ?_)
          rw [Insertion.moveIndex_of_le (Nat.le_add_right_of_le hplace), Nat.add_right_comm]
  | token source token rest hhead ih =>
      obtain ⟨blanks, hstarts⟩ := head_eq_token_iff.mp hhead
      have hstart := hstarts.start
      have hstop := hstarts.stop
      have hoffset := hstarts.offset
      have hspan : insertion.moveSpan token.span = _ := Insertion.moveSpan_of_le (by omega)
      refine .of_token hhead (head_eq_token_iff.mpr ⟨blanks, ?_⟩) (ih (by omega))
      refine ⟨hstarts.chars, hstarts.blank, ⟨hstarts.wellFormed.starts,
        hstarts.wellFormed.longest⟩, hstarts.ends, ?_, ?_, ?_⟩ <;>
        simp only [Insertion.moveToken, hspan] <;> omega

/-! ## Inserting blanks -/

/-- A place that is not inside of a token. -/
def Outside (place : Nat) (token : Token) : Prop :=
  ¬(token.span.start < place ∧ place < token.span.stop)

instance (place : Nat) (token : Token) : Decidable (Outside place token) :=
  inferInstanceAs (Decidable (¬_))

/-- Blanks among the blanks in front of a source move all of its tokens. -/
theorem moves_of_blanks {front blanks back : List Char} (hchars : source.rest = front ++ back)
    (hfront : ∀ c ∈ front, isBlank c = true) (hblanks : ∀ c ∈ blanks, isBlank c = true) :
    Moves ⟨source.offset + byteSize front, byteSize blanks⟩ source
      ⟨source.offset, front ++ blanks ++ back⟩ := by
  obtain ⟨offset, chars⟩ := source
  obtain rfl : chars = front ++ back := hchars
  have hall : ∀ c ∈ front ++ blanks, isBlank c = true := by
    rw [List.forall_mem_append]
    exact ⟨hfront, hblanks⟩
  have hmoves : Moves ⟨offset + byteSize front, byteSize blanks⟩ _ _ :=
    moves_offset ⟨offset + byteSize front, back⟩ (Nat.le_refl _)
  refine hmoves.of_heads (head_blanks_append hfront offset back) ?_
  rw [head_blanks_append hall, byteSize_append, Nat.add_assoc]

/-- A cut that is neither among the blanks in front of a token nor inside of it comes behind
the token. -/
theorem StartsWith.exists_front {blanks front back : List Char} {token : Token}
    (hstarts : source.StartsWith blanks token rest) (hchars : source.rest = front ++ back)
    (hfront : ¬∀ c ∈ front, isBlank c = true)
    (houtside : Outside (source.offset + byteSize front) token) :
    ∃ more, front = blanks ++ (token.text.toList ++ more) ∧ rest.rest = more ++ back := by
  have hsplit := hstarts.chars.symm.trans hchars
  rcases List.append_eq_append_iff.mp hsplit with ⟨inside, rfl, hinside⟩ | ⟨inside, rfl, _⟩
  · rcases List.append_eq_append_iff.mp hinside with ⟨more, rfl, hmore⟩ | ⟨tail, htext, hback⟩
    · exact ⟨more, rfl, hmore⟩
    · cases tail with
      | nil => exact ⟨[], by simpa using htext.symm, by simpa using hback.symm⟩
      | cons c tail =>
          -- The cut would be inside of the token.
          refine absurd ?_ houtside
          have hinside : inside ≠ [] := by
            rintro rfl
            exact hfront (by simpa using hstarts.blank)
          have hbefore := byteSize_pos hinside
          have hbehind := byteSize_pos (List.cons_ne_nil c tail)
          have hsize := congrArg byteSize htext
          rw [byteSize_toList, byteSize_append] at hsize
          rw [byteSize_append, hstarts.stop, hstarts.start]
          omega
  · exact absurd (fun c hmem => hstarts.blank c (List.mem_append_left _ hmem)) hfront

/-- A stray character in front of a cut stays where it is. -/
theorem Begins.stray_insert {front back : List Char} {character : Char} {index : Nat}
    (hbegins : source.Begins (.stray character index)) (hchars : source.rest = front ++ back)
    (hfront : ¬∀ c ∈ front, isBlank c = true) (blanks : List Char) :
    index < source.offset + byteSize front ∧
      Begins ⟨source.offset, front ++ blanks ++ back⟩ (.stray character index) := by
  cases hbegins with
  | @stray before after c hrest hbefore hblank hkind =>
      rcases List.append_eq_append_iff.mp (hrest.symm.trans hchars) with
        ⟨inside, rfl, hinside⟩ | ⟨inside, rfl, _⟩
      · cases inside with
        | nil => exact absurd (by simpa using hbefore) hfront
        | cons d more =>
            rw [List.cons_append, List.cons.injEq] at hinside
            obtain ⟨rfl, rfl⟩ := hinside
            have hsize := byteSize_pos (List.cons_ne_nil character more)
            have hsplit : before ++ character :: more ++ blanks ++ back =
                before ++ character :: (more ++ blanks ++ back) := by
              simp only [List.append_assoc, List.cons_append]
            refine ⟨?_, .stray hsplit hbefore hblank hkind⟩
            rw [byteSize_append]
            omega
      · exact absurd (fun c hmem => hbefore c (List.mem_append_left _ hmem)) hfront

/-- A token in front of a cut stays where it is. -/
theorem StartsWith.insert {before front more blanks back : List Char} {token : Token}
    (hstarts : source.StartsWith before token rest)
    (hfront : front = before ++ (token.text.toList ++ more)) (hrest : rest.rest = more ++ back)
    (hblanks : ∀ c ∈ blanks, isBlank c = true) :
    StartsWith ⟨source.offset, front ++ blanks ++ back⟩ before token
      ⟨rest.offset, more ++ blanks ++ back⟩ := by
  refine ⟨?_, hstarts.blank, hstarts.wellFormed, ?_, hstarts.start, hstarts.stop, hstarts.offset⟩
  · simp only [hfront, List.append_assoc]
  · have hends := hstarts.ends
    rw [hrest] at hends
    cases more with
    | cons c more => simpa [Stops] using hends
    | nil =>
        cases blanks with
        | nil => exact hends
        | cons c blanks =>
            rw [List.forall_mem_cons] at hblanks
            simpa [Stops] using Token.Kind.continues_eq_false_of_isBlank hblanks.1

/-- Blanks that come between two tokens move the tokens behind them. -/
theorem moves_insert (source : Source) {front blanks back : List Char}
    (hchars : source.rest = front ++ back) (hblanks : ∀ c ∈ blanks, isBlank c = true)
    (houtside : ∀ token ∈ source.tokens, Outside (source.offset + byteSize front) token) :
    Moves ⟨source.offset + byteSize front, byteSize blanks⟩ source
      ⟨source.offset, front ++ blanks ++ back⟩ := by
  induction source using tokens_induction generalizing front with
  | done source hhead =>
      have hall := head_eq_done_iff.mp hhead
      rw [hchars, List.forall_mem_append] at hall
      exact moves_of_blanks hchars hall.1 hblanks
  | stray source character index hhead =>
      by_cases hfront : ∀ c ∈ front, isBlank c = true
      · exact moves_of_blanks hchars hfront hblanks
      obtain ⟨hindex, hmoved⟩ := (begins_of_head hhead).stray_insert hchars hfront blanks
      refine .of_stray hhead ?_
      rw [Insertion.moveIndex_of_lt hindex]
      exact head_eq_of_begins hmoved
  | token source token rest hhead ih =>
      by_cases hfront : ∀ c ∈ front, isBlank c = true
      · exact moves_of_blanks hchars hfront hblanks
      -- The cut comes behind the first token, so this one stays.
      rw [tokens_of_token hhead, List.forall_mem_cons] at houtside
      obtain ⟨before, hstarts⟩ := head_eq_token_iff.mp hhead
      obtain ⟨more, hsplit, hrest⟩ := hstarts.exists_front hchars hfront houtside.1
      -- The cut stands in the rest of the source where it stands in the source.
      have hplace : source.offset + byteSize front = rest.offset + byteSize more := by
        rw [hsplit, byteSize_append, byteSize_append, byteSize_toList, hstarts.offset,
          hstarts.stop, hstarts.start]
        omega
      have hstart : token.span.start < source.offset + byteSize front := by
        have hsize := byteSize_pos hstarts.wellFormed.toList_ne_nil
        rw [byteSize_toList] at hsize
        rw [hplace, hstarts.offset, hstarts.stop]
        omega
      have hmoved := head_eq_token_iff.mpr ⟨before, hstarts.insert hsplit hrest hblanks⟩
      have hstays : Insertion.moveToken ⟨source.offset + byteSize front, byteSize blanks⟩ token =
          token := by
        rw [Insertion.moveToken, Insertion.moveSpan_of_lt hstart]
      rw [← hstays] at hmoved
      rw [hplace] at houtside hmoved ⊢
      exact .of_token hhead hmoved (ih hrest houtside.2)

end Source

/-! ## Deleting blanks -/

/-- Characters without the blanks among them. -/
def Text.withoutBlanks (chars : List Char) : List Char :=
  chars.filter fun c => !isBlank c

theorem Text.withoutBlanks_append (first second : List Char) :
    withoutBlanks (first ++ second) = withoutBlanks first ++ withoutBlanks second :=
  List.filter_append ..

theorem Text.withoutBlanks_eq_nil {chars : List Char} (hchars : ∀ c ∈ chars, isBlank c = true) :
    withoutBlanks chars = [] := by
  rw [withoutBlanks, List.filter_eq_nil_iff]
  intro c hmem
  simp [hchars c hmem]

theorem Text.withoutBlanks_eq_self {chars : List Char} (hchars : ∀ c ∈ chars, isBlank c = false) :
    withoutBlanks chars = chars := by
  rw [withoutBlanks, List.filter_eq_self]
  intro c hmem
  simp [hchars c hmem]

/-- Words are the tokens that the characters behind them can make longer. -/
def Token.Kind.isWord : Kind → Bool
  | name | numeral => true
  | _ => false

/-- Of two tokens that are not both words, the second one does not continue the first. -/
theorem Token.Kind.continues_eq_false_of_words {kind other : Kind} {c : Char}
    (hother : ofChar? c = some other) (hapart : kind.isWord = true → other.isWord = false)
    (text : List Char) : kind.continues text c = false := by
  by_cases hword : kind.isWord = true
  · have hsign := hapart hword
    refine continues_eq_false_of_sign hother ?_ ?_ <;> intro h <;> rw [h] at hsign <;> cases hsign
  · cases kind with
    | name | numeral => exact absurd rfl hword
    | _ => rfl

/-- Tokens among which no two words are neighbours. -/
def WordsApart (tokens : List Token) : Prop :=
  tokens.IsChain fun first second => first.kind.isWord = true → second.kind.isWord = false

/-- What a token holds, wherever it stands. -/
def Token.content (token : Token) : Kind × String :=
  (token.kind, token.text)

theorem Token.content_eq_iff {token other : Token} :
    token.content = other.content ↔ token.kind = other.kind ∧ token.text = other.text :=
  Prod.mk_inj

namespace Source

variable {source rest : Source}

theorem StartsWith.withoutBlanks_eq {blanks : List Char} {token : Token}
    (hstarts : source.StartsWith blanks token rest) :
    withoutBlanks source.rest = token.text.toList ++ withoutBlanks rest.rest := by
  rw [hstarts.chars, withoutBlanks_append, withoutBlanks_append, withoutBlanks_eq_nil hstarts.blank,
    withoutBlanks_eq_self fun _ => hstarts.wellFormed.isBlank_eq_false_of_mem, List.nil_append]

/-- Without blanks, a token is followed by one that does not make it longer. -/
theorem stops_withoutBlanks (hclean : source.stray? = none) {kind : Token.Kind}
    (hapart : ∀ next ∈ source.tokens.head?, kind.isWord = true → next.kind.isWord = false)
    (text : List Char) : Stops (kind.continues text) (withoutBlanks source.rest) := by
  cases hhead : source.head with
  | done =>
      rw [withoutBlanks_eq_nil (head_eq_done_iff.mp hhead)]
      simp [Stops]
  | stray character index =>
      rw [stray?_of_stray hhead] at hclean
      cases hclean
  | token next rest =>
      obtain ⟨blanks, hstarts⟩ := head_eq_token_iff.mp hhead
      obtain ⟨c, chars, htext, hkind⟩ := hstarts.wellFormed.starts
      have hnext : kind.isWord = true → next.kind.isWord = false :=
        hapart next (by rw [tokens_of_token hhead]; rfl)
      rw [hstarts.withoutBlanks_eq, htext]
      simpa [Stops] using Token.Kind.continues_eq_false_of_words hkind hnext text

/-- A source whose words are apart has the same tokens without its blanks. -/
theorem tokens_withoutBlanks (source : Source) (hclean : source.stray? = none)
    (hapart : WordsApart source.tokens) (offset : Nat) :
    stray? ⟨offset, withoutBlanks source.rest⟩ = none ∧
      (tokens ⟨offset, withoutBlanks source.rest⟩).map Token.content =
        source.tokens.map Token.content := by
  induction source using tokens_induction generalizing offset with
  | done source hhead =>
      have hdone : head ⟨offset, withoutBlanks source.rest⟩ = .done := by
        rw [head_eq_done_iff, withoutBlanks_eq_nil (head_eq_done_iff.mp hhead)]
        simp
      rw [tokens_of_done hhead, tokens_of_done hdone]
      exact ⟨stray?_of_done hdone, rfl⟩
  | stray source character index hhead =>
      rw [stray?_of_stray hhead] at hclean
      cases hclean
  | token source token rest hhead ih =>
      rw [stray?_of_token hhead] at hclean
      rw [tokens_of_token hhead, WordsApart, List.isChain_cons] at hapart
      obtain ⟨blanks, hstarts⟩ := head_eq_token_iff.mp hhead
      -- The same token without the blanks before it: what comes next is a sign or a bracket if
      -- the token is a word, so it ends where it did.
      let bare : Token := ⟨token.kind, token.text, ⟨offset, offset + token.text.utf8ByteSize⟩⟩
      have hbare : StartsWith ⟨offset, withoutBlanks source.rest⟩ [] bare
          ⟨offset + token.text.utf8ByteSize, withoutBlanks rest.rest⟩ :=
        ⟨hstarts.withoutBlanks_eq, by simp, ⟨hstarts.wellFormed.starts, hstarts.wellFormed.longest⟩,
          stops_withoutBlanks hclean hapart.1 _, rfl, rfl, rfl⟩
      have hfirst := head_eq_token_iff.mpr ⟨[], hbare⟩
      obtain ⟨hstray, hcontents⟩ := ih hclean hapart.2 (offset + token.text.utf8ByteSize)
      rw [stray?_of_token hfirst, tokens_of_token hfirst, tokens_of_token hhead, List.map_cons,
        List.map_cons, hcontents]
      exact ⟨hstray, rfl⟩

end Source

end SumProduct
