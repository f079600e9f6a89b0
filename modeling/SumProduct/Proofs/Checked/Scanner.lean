import SumProduct.Parse.Error
import SumProduct.Proofs.Token.Sequence

/-!
# Scanning with a checked cursor

The tokens of a text are found by a cursor that counts bytes. Every look at the text is a
slice, which is a fault if it leaves the text or cuts a character. The cursor never faults,
since it only ever moves by whole characters, and it finds the tokens of the source.
-/

namespace SumProduct

/-- What must not happen while a text is read. -/
inductive Fault where
  /-- A slice that leaves the text or cuts a character. -/
  | slice (span : Span)
  /-- A token that stands for no operation, taken for one. -/
  | noOperation (kind : Token.Kind)
  /-- A token that is no numeral, read as one. -/
  | noNumeral (kind : Token.Kind)
  /-- A literal that is not finite. -/
  | notFinite (value : Binary64)
  /-- A variable that has no valid name. -/
  | invalidName (name : String)
  /-- A bracket that is left without having been entered. -/
  | notNested
  /-- More brackets inside each other, or more operands, than any text has. -/
  | exhausted
  deriving DecidableEq

namespace Text

/-! ## Slices -/

/-- The characters from a byte on, if a character starts there or the text ends. -/
def fromByte? : List Char → Nat → Option (List Char)
  | chars, 0 => some chars
  | [], _ + 1 => none
  | c :: chars, place + 1 =>
      if c.utf8Size ≤ place + 1 then fromByte? chars (place + 1 - c.utf8Size) else none

/-- The characters in front of a byte, if a character starts there or the text ends. -/
def upToByte? : List Char → Nat → Option (List Char)
  | _, 0 => some []
  | [], _ + 1 => none
  | c :: chars, place + 1 =>
      if c.utf8Size ≤ place + 1 then (upToByte? chars (place + 1 - c.utf8Size)).map (c :: ·)
      else none

/-- The characters of a span. -/
def slice? (chars : List Char) (span : Span) : Option (List Char) :=
  if span.start ≤ span.stop then
    (fromByte? chars span.start).bind fun rest => upToByte? rest (span.stop - span.start)
  else none

/-- A text is cut where some of its characters end. -/
theorem fromByte?_append (front rest : List Char) :
    fromByte? (front ++ rest) (byteSize front) = some rest := by
  induction front with
  | nil => cases rest <;> rfl
  | cons c front ih =>
      obtain ⟨size, hsize⟩ := Nat.exists_eq_succ_of_ne_zero
        (show byteSize (c :: front) ≠ 0 by have := c.utf8Size_pos; rw [byteSize_cons]; omega)
      have hplace := byteSize_cons c front
      rw [List.cons_append, hsize, fromByte?, if_pos (by omega)]
      rwa [show size + 1 - c.utf8Size = byteSize front by omega]

/-- It is cut nowhere else. -/
theorem exists_of_fromByte? {chars rest : List Char} {place : Nat}
    (hcut : fromByte? chars place = some rest) :
    ∃ front, chars = front ++ rest ∧ byteSize front = place := by
  induction chars generalizing place with
  | nil =>
      cases place with
      | zero =>
          cases hcut
          exact ⟨[], rfl, rfl⟩
      | succ place => cases hcut
  | cons c chars ih =>
      cases place with
      | zero =>
          cases hcut
          exact ⟨[], rfl, rfl⟩
      | succ place =>
          rw [fromByte?] at hcut
          split at hcut
          next hle =>
            obtain ⟨front, rfl, hfront⟩ := ih hcut
            exact ⟨c :: front, rfl, by rw [byteSize_cons]; omega⟩
          next => cases hcut

theorem upToByte?_append (front rest : List Char) :
    upToByte? (front ++ rest) (byteSize front) = some front := by
  induction front with
  | nil => cases rest <;> rfl
  | cons c front ih =>
      obtain ⟨size, hsize⟩ := Nat.exists_eq_succ_of_ne_zero
        (show byteSize (c :: front) ≠ 0 by have := c.utf8Size_pos; rw [byteSize_cons]; omega)
      have hplace := byteSize_cons c front
      rw [List.cons_append, hsize, upToByte?, if_pos (by omega),
        show size + 1 - c.utf8Size = byteSize front by omega, ih]
      rfl

/-- The slice between two cuts. -/
theorem slice?_append (front text rest : List Char) :
    slice? (front ++ (text ++ rest)) ⟨byteSize front, byteSize front + byteSize text⟩ =
      some text := by
  rw [slice?, if_pos (Nat.le_add_right _ _), fromByte?_append, Nat.add_sub_cancel_left]
  exact upToByte?_append text rest

end Text

open Text

/-! ## The cursor -/

/-- A text with a place in it, counted in bytes. -/
structure Scanner where
  text : List Char
  cursor : Nat

namespace Scanner

/-- The characters from the cursor on. -/
def rest (scanner : Scanner) : Except Fault (List Char) :=
  match fromByte? scanner.text scanner.cursor with
  | some rest => .ok rest
  | none => .error (.slice ⟨scanner.cursor, byteSize scanner.text⟩)

/-- The character at the cursor, if the text goes on. -/
def peek (scanner : Scanner) : Except Fault (Option Char) :=
  scanner.rest.map List.head?

/-- The cursor behind a character that it stands at. -/
def skip (scanner : Scanner) (c : Char) : Scanner :=
  { scanner with cursor := scanner.cursor + c.utf8Size }

/-- What a cursor that sees a character skips is left of the text. -/
theorem skip_le {scanner : Scanner} {c : Char} (hpeek : scanner.peek = .ok (some c)) :
    (scanner.skip c).cursor ≤ byteSize scanner.text := by
  rw [peek, rest] at hpeek
  split at hpeek
  next rest hcut =>
    obtain ⟨front, htext, hfront⟩ := exists_of_fromByte? hcut
    cases rest with
    | nil => cases hpeek
    | cons c' rest =>
        cases hpeek
        rw [htext, byteSize_append, byteSize_cons, hfront, skip]
        simp only
        omega
  next => cases hpeek

/-- The cursor behind all characters of a class. -/
def skipWhile (p : Char → Bool) (scanner : Scanner) : Except Fault Scanner :=
  match _hpeek : scanner.peek with
  | .error fault => .error fault
  | .ok none => .ok scanner
  | .ok (some c) => if p c then (scanner.skip c).skipWhile p else .ok scanner
termination_by byteSize scanner.text - scanner.cursor
decreasing_by
  have hle := skip_le _hpeek
  have hpos := c.utf8Size_pos
  simp only [skip] at hle ⊢
  omega

/-- The cursor behind a numeral. -/
def skipNumeral (scanner : Scanner) : Except Fault Scanner := do
  let scanner ← scanner.skipWhile Char.isDigit
  match ← scanner.peek with
  | some '.' => (scanner.skip '.').skipWhile Char.isDigit
  | _ => return scanner

/-- The cursor behind a token of a kind, which starts with the character at the cursor. -/
def skipToken (scanner : Scanner) (kind : Token.Kind) (c : Char) : Except Fault Scanner :=
  match kind with
  | .name => scanner.skipWhile Char.isAlpha
  | .numeral => scanner.skipNumeral
  | _ => .ok (scanner.skip c)

/-- The token between the cursor and a later one. -/
def token (scanner later : Scanner) (kind : Token.Kind) : Except Fault Token :=
  let span : Span := ⟨scanner.cursor, later.cursor⟩
  match slice? scanner.text span with
  | some text => .ok ⟨kind, String.ofList text, span⟩
  | none => .error (.slice span)

/-- The next token or stray character, if there is one, and the cursor behind it. -/
def next (scanner : Scanner) : Except Fault (Option (Except ParseError Token) × Scanner) :=
  match _hpeek : scanner.peek with
  | .error fault => .error fault
  | .ok none => .ok (none, scanner)
  | .ok (some c) =>
      if isBlank c then (scanner.skip c).next
      else
        match Token.Kind.ofChar? c with
        | none => .ok (some (.error (.strayCharacter c scanner.cursor)), scanner)
        | some kind => do
            let later ← scanner.skipToken kind c
            let token ← scanner.token later kind
            return (some (.ok token), later)
termination_by byteSize scanner.text - scanner.cursor
decreasing_by
  have hle := skip_le _hpeek
  have hpos := c.utf8Size_pos
  simp only [skip] at hle ⊢
  omega

/-! ## What the cursor finds -/

/-- The cursor stands where a source starts. -/
def At (scanner : Scanner) (source : Source) : Prop :=
  ∃ front, scanner.text = front ++ source.rest ∧ scanner.cursor = byteSize front ∧
    source.offset = byteSize front

/-- The cursor behind some characters. -/
def behind (scanner : Scanner) (chars : List Char) : Scanner :=
  { scanner with cursor := scanner.cursor + byteSize chars }

theorem skip_eq_behind (scanner : Scanner) (c : Char) : scanner.skip c = scanner.behind [c] := by
  rw [skip, behind, byteSize_cons, byteSize_nil, Nat.add_zero]

theorem behind_behind (scanner : Scanner) (first second : List Char) :
    (scanner.behind first).behind second = scanner.behind (first ++ second) := by
  rw [behind, behind, behind, byteSize_append, Nat.add_assoc]

theorem behind_nil (scanner : Scanner) : scanner.behind [] = scanner :=
  rfl

variable {scanner : Scanner} {source : Source} {offset : Nat} {chars : List Char}

/-- A cursor that moves by whole characters stands at a source again. -/
theorem At.behind {rest : List Char} (hat : scanner.At ⟨offset, chars ++ rest⟩) :
    (scanner.behind chars).At ⟨offset + byteSize chars, rest⟩ := by
  obtain ⟨front, htext, hcursor, hoffset⟩ := hat
  refine ⟨front ++ chars, ?_, ?_, ?_⟩
  · simpa only [Scanner.behind, List.append_assoc] using htext
  · rw [Scanner.behind, byteSize_append, hcursor]
  · rw [byteSize_append, ← hoffset]

theorem At.cursor_eq (hat : scanner.At source) : scanner.cursor = source.offset := by
  obtain ⟨front, -, hcursor, hoffset⟩ := hat
  rw [hcursor, hoffset]

/-- A cursor at a source sees its first character. -/
theorem At.peek_eq (hat : scanner.At source) : scanner.peek = .ok source.rest.head? := by
  obtain ⟨front, htext, hcursor, -⟩ := hat
  rw [peek, rest, htext, hcursor, fromByte?_append]
  rfl

-- Inside of a character there is nothing to see.
example : peek ⟨['é', '+'], 1⟩ = .error (.slice ⟨1, 3⟩) := by rfl

section Unfold

variable {p : Char → Bool} {c : Char}

theorem skipWhile_of_none (hpeek : scanner.peek = .ok none) :
    scanner.skipWhile p = .ok scanner := by
  rw [skipWhile]
  split <;> simp_all

theorem skipWhile_of_some (hpeek : scanner.peek = .ok (some c)) :
    scanner.skipWhile p =
      if p c then (scanner.behind [c]).skipWhile p else .ok scanner := by
  rw [skipWhile]
  split <;> simp_all [skip_eq_behind]

theorem next_of_none (hpeek : scanner.peek = .ok none) : scanner.next = .ok (none, scanner) := by
  rw [next]
  split <;> simp_all

theorem next_of_blank (hpeek : scanner.peek = .ok (some c)) (hblank : isBlank c = true) :
    scanner.next = (scanner.behind [c]).next := by
  rw [next]
  split <;> simp_all [skip_eq_behind]

theorem next_of_not_blank (hpeek : scanner.peek = .ok (some c)) (hblank : isBlank c = false) :
    scanner.next =
      match Token.Kind.ofChar? c with
      | none => .ok (some (.error (.strayCharacter c scanner.cursor)), scanner)
      | some kind => do
          let later ← scanner.skipToken kind c
          let token ← scanner.token later kind
          return (some (.ok token), later) := by
  rw [next]
  split <;> simp_all

end Unfold

/-- A run of characters of a class is skipped whole. -/
theorem skipWhile_eq (p : Char → Bool) (hat : scanner.At ⟨offset, chars⟩) :
    scanner.skipWhile p = .ok (scanner.behind (chars.takeWhile p)) := by
  induction chars generalizing scanner offset with
  | nil => exact skipWhile_of_none hat.peek_eq
  | cons c chars ih =>
      have hnext : (scanner.behind [c]).At ⟨offset + byteSize [c], chars⟩ := At.behind hat
      rw [skipWhile_of_some hat.peek_eq, List.takeWhile_cons]
      split
      next => rw [ih hnext, behind_behind, List.singleton_append]
      next => rw [behind_nil]

/-- A numeral is skipped whole. -/
theorem skipNumeral_eq (hat : scanner.At ⟨offset, chars⟩) :
    scanner.skipNumeral = .ok (scanner.behind (Token.Kind.numeralLexeme chars)) := by
  have hsplit : chars.takeWhile Char.isDigit ++ chars.dropWhile Char.isDigit = chars :=
    List.takeWhile_append_dropWhile
  have hwhole := skipWhile_eq Char.isDigit hat
  rw [← hsplit] at hat
  have hlater := hat.behind
  rw [skipNumeral, hwhole, Token.Kind.numeralLexeme]
  simp only [bind, Except.bind, hlater.peek_eq]
  cases hrest : chars.dropWhile Char.isDigit with
  | nil => rfl
  | cons c fraction =>
      rw [hrest] at hlater
      by_cases hpoint : c = '.'
      · subst hpoint
        rw [← List.singleton_append] at hlater
        have hfraction := hlater.behind
        simp only [List.head?_cons, skip_eq_behind]
        rw [skipWhile_eq _ hfraction, behind_behind, behind_behind, List.singleton_append]
      · simp only [List.head?_cons]
        split
        next heq => exact absurd (Option.some.inj heq) hpoint
        next =>
          split
          next heq => exact absurd (List.cons.inj heq).1 hpoint
          next => rfl

/-- A token is skipped whole. -/
theorem skipToken_eq {c : Char} (kind : Token.Kind) (hat : scanner.At ⟨offset, c :: chars⟩) :
    scanner.skipToken kind c = .ok (scanner.behind (kind.lexeme (c :: chars))) := by
  cases kind with
  | name => exact skipWhile_eq Char.isAlpha hat
  | numeral => exact skipNumeral_eq hat
  | _ => exact congrArg Except.ok (scanner.skip_eq_behind c)

/-- A token is the slice between two cursors. -/
theorem token_eq {text rest : List Char} (kind : Token.Kind)
    (hat : scanner.At ⟨offset, text ++ rest⟩) :
    scanner.token (scanner.behind text) kind =
      .ok ⟨kind, String.ofList text, ⟨offset, offset + byteSize text⟩⟩ := by
  obtain ⟨front, htext, hcursor, hoffset⟩ := hat
  simp only at htext hoffset
  simp only [token, behind, htext, hcursor, slice?_append, hoffset]

end Scanner

/-- The first token of a source, or the stray character instead of it. -/
def Source.item (source : Source) : Option (Except ParseError Token) :=
  match source.head with
  | .done => none
  | .stray character index => some (.error (.strayCharacter character index))
  | .token token _ => some (.ok token)

theorem Source.after_of_append {offset : Nat} {chars text rest : List Char}
    (hchars : chars = text ++ rest) :
    Source.after ⟨offset, chars⟩ text = ⟨offset + byteSize text, rest⟩ := by
  rw [after, hchars, List.drop_left]
  rfl

/-- A source that starts with no blank starts with what its first character says. -/
theorem Source.head_of_not_blank {c : Char} (hblank : isBlank c = false) (offset : Nat)
    (chars : List Char) :
    (Source.mk offset (c :: chars)).head =
      match Token.Kind.ofChar? c with
      | none => .stray c offset
      | some kind =>
          let text := kind.lexeme (c :: chars)
          .token ⟨kind, String.ofList text, ⟨offset, offset + byteSize text⟩⟩
            (Source.after ⟨offset, c :: chars⟩ text) := by
  have hstops : Stops isBlank (c :: chars) := by simpa [Stops] using hblank
  have hskip : (Source.mk offset (c :: chars)).skipBlanks = ⟨offset, c :: chars⟩ :=
    skipBlanks_eq (List.nil_append _).symm (by simp) hstops
  simp only [head, hskip]
  rfl

/-- The cursor finds what the source starts with, and stands behind it. -/
theorem Scanner.At.next_eq {scanner : Scanner} {source : Source} (hat : scanner.At source) :
    ∃ later, scanner.next = .ok (source.item, later) ∧
      ∀ token rest, source.head = .token token rest → later.At rest := by
  obtain ⟨offset, chars⟩ := source
  induction chars generalizing scanner offset with
  | nil =>
      refine ⟨scanner, next_of_none hat.peek_eq, fun token rest hhead => ?_⟩
      rw [Source.head_eq_of_begins (.done (by simp))] at hhead
      cases hhead
  | cons c chars ih =>
      by_cases hblank : isBlank c = true
      · have hblanks : ∀ c' ∈ [c], isBlank c' = true := List.forall_mem_singleton.mpr hblank
        have hhead : (Source.mk offset (c :: chars)).head = _ :=
          Source.head_blanks_append hblanks offset chars
        have hnext : (scanner.behind [c]).At ⟨offset + byteSize [c], chars⟩ := At.behind hat
        rw [next_of_blank hat.peek_eq hblank, Source.item, hhead]
        exact ih _ hnext
      · rw [Bool.not_eq_true] at hblank
        have hhead := Source.head_of_not_blank hblank offset chars
        rw [next_of_not_blank hat.peek_eq hblank, Source.item, hhead]
        cases hkind : Token.Kind.ofChar? c with
        | none =>
            -- The place of a stray character is where the cursor stands.
            have hcursor : scanner.cursor = offset := hat.cursor_eq
            rw [hcursor]
            exact ⟨scanner, rfl, fun token rest hstray => by cases hstray⟩
        | some kind =>
            obtain ⟨rest, hrest⟩ := kind.lexeme_prefix (c :: chars)
            have htoken := skipToken_eq kind hat
            rw [← hrest] at hat
            simp only [htoken, bind, Except.bind, token_eq kind hat]
            refine ⟨_, rfl, fun token later hlater => ?_⟩
            cases hlater
            rw [Source.after_of_append hrest.symm]
            exact hat.behind

end SumProduct
