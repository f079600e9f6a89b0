import SumProduct.Proofs.Grammar.Words
import SumProduct.Proofs.Expression.Tokens
import SumProduct.Proofs.Token.Tiling

/-!
# The pieces of canonical texts

A canonical text is written piece by piece, each of them a token or a blank, and it is read
in the very same pieces. No two of its words are neighbours, so nothing of a piece depends on
the pieces around it, and every stretch of them is read as it is read in the whole text.
-/

namespace SumProduct

open Text

/-- A piece of a text: a blank, or the text of one token. -/
inductive Piece where
  | blank
  | token (kind : Token.Kind) (text : String)

namespace Piece

/-- The characters of a piece. -/
def chars : Piece → List Char
  | blank => [' ']
  | token _ text => text.toList

/-- Some pieces written one after the other. -/
def written (pieces : List Piece) : List Char :=
  pieces.flatMap chars

/-- The tokens among some pieces, of which the first one stands at an offset. -/
def tokens (offset : Nat) : List Piece → List Token
  | [] => []
  | blank :: rest => tokens (offset + 1) rest
  | token kind text :: rest =>
      .standing kind text offset :: tokens (offset + text.utf8ByteSize) rest

theorem written_cons (piece : Piece) (rest : List Piece) :
    written (piece :: rest) = piece.chars ++ written rest :=
  List.flatMap_cons

@[simp] theorem written_append (first second : List Piece) :
    written (first ++ second) = written first ++ written second :=
  List.flatMap_append

theorem tokens_append (offset : Nat) (first second : List Piece) :
    tokens offset (first ++ second) =
      tokens offset first ++ tokens (offset + byteSize (written first)) second := by
  induction first generalizing offset with
  | nil => rfl
  | cons piece first ih =>
      rw [written_cons, byteSize_append, ← Nat.add_assoc, List.cons_append]
      cases piece with
      | blank => exact ih (offset + 1)
      | token kind text =>
          have hsize : byteSize (token kind text).chars = text.utf8ByteSize := byteSize_toList text
          rw [hsize, tokens, ih, tokens, List.cons_append]

/-! ## Pieces that stand apart -/

/-- Whether a piece is a word, which the characters behind it can make longer. -/
def isWord : Piece → Bool
  | blank => false
  | token kind _ => kind.isWord

/-- The text of a token is one of its kind. -/
def WellFormed : Piece → Prop
  | blank => True
  | token kind text => (Token.standing kind text 0).WellFormed

/-- Well-formed pieces among which no two words are neighbours. -/
structure Apart (pieces : List Piece) : Prop where
  wellFormed : ∀ piece ∈ pieces, piece.WellFormed
  words : pieces.IsChain fun first second => first.isWord = true → second.isWord = false

theorem apart_nil : Apart [] :=
  ⟨by simp, List.isChain_nil⟩

theorem apart_singleton {piece : Piece} (hwell : piece.WellFormed) : Apart [piece] :=
  ⟨List.forall_mem_singleton.mpr hwell, List.isChain_singleton piece⟩

/-- A piece that is no word parts others. -/
theorem Apart.append_cons {first second : List Piece} {piece : Piece} (hfirst : Apart first)
    (hwell : piece.WellFormed) (hword : piece.isWord = false) (hsecond : Apart second) :
    Apart (first ++ piece :: second) := by
  refine ⟨?_, isChain_append_cons isWord hfirst.words hword hsecond.words⟩
  exact List.forall_mem_append.mpr
    ⟨hfirst.wellFormed, List.forall_mem_cons.mpr ⟨hwell, hsecond.wellFormed⟩⟩

/-- A stretch of pieces that stand apart. -/
theorem Apart.of_infix {stretch pieces : List Piece} (hapart : Apart pieces)
    (hstretch : stretch <:+: pieces) : Apart stretch :=
  ⟨fun piece hmem => hapart.wellFormed piece (hstretch.subset hmem), hapart.words.infix hstretch⟩

/-- What comes behind a token does not continue it. -/
theorem Apart.stops {kind : Token.Kind} {text : String} {rest : List Piece}
    (hapart : Apart (token kind text :: rest)) :
    Stops (kind.continues text.toList) (written rest) := by
  have hwords := (List.isChain_cons.mp hapart.words).1
  cases rest with
  | nil => simp [Stops, written]
  | cons next rest =>
      rw [written_cons]
      cases next with
      | blank => simpa [Stops, chars] using Token.Kind.continues_eq_false_of_isBlank (by decide)
      | token other text' =>
          have hwell : (Token.standing other text' 0).WellFormed :=
            hapart.wellFormed (token other text') (by simp)
          obtain ⟨c, more, htext, hkind⟩ := hwell.starts
          have htext : text'.toList = c :: more := htext
          have hends := Token.Kind.continues_eq_false_of_words hkind (hwords (token other text') rfl)
          simpa [Stops, chars, htext] using hends text.toList

/-- Pieces that stand apart are read as they are written. -/
theorem Apart.yields {pieces : List Piece} (hapart : Apart pieces) (offset : Nat) :
    Source.Yields ⟨offset, written pieces⟩ (tokens offset pieces)
      ⟨offset + byteSize (written pieces), []⟩ := by
  induction pieces generalizing offset with
  | nil => exact Source.yields_of_head_eq rfl
  | cons piece rest ih =>
      have hrest := ih (hapart.of_infix (List.suffix_cons piece rest).isInfix)
      rw [written_cons, byteSize_append, ← Nat.add_assoc]
      cases piece with
      | blank => exact (Source.yields_blank offset _).append (hrest (offset + 1))
      | token kind text =>
          have hwell : (Token.standing kind text 0).WellFormed :=
            hapart.wellFormed (token kind text) List.mem_cons_self
          have hlexeme : kind.lexeme (text.toList ++ written rest) = text.toList :=
            (Token.Kind.lexeme_append_iff hwell.toList_ne_nil hwell.longest).mpr hapart.stops
          have hsize : byteSize (token kind text).chars = text.utf8ByteSize := byteSize_toList text
          obtain ⟨c, more, htext, hkind⟩ := hwell.starts
          rw [hsize]
          exact (Source.yields_standing htext hkind hlexeme offset).cons
            (hrest (offset + text.utf8ByteSize))

end Piece

/-! ## Trees -/

/-- The pieces of a literal: its sign, if it is negative, and its digits. -/
def Literal.pieces (literal : Literal) : List Piece :=
  let digits := (Numeral.shortest literal.value.magnitude).pointedText
  if literal.value.negative then [.token .minus "-", .token .numeral digits]
  else [.token .numeral digits]

namespace Expression

/-- The pieces that a tree is written in, in the order in which they are written. -/
def pieces : Expression → List Piece
  | lit literal => literal.pieces
  | var x => [.token .name x.name]
  | binary op left right =>
      .token .openBracket "(" ::
        (left.pieces ++ .blank :: .token op.kind op.symbol :: .blank :: right.pieces) ++
        [.token .closeBracket ")"]

theorem written_pieces (e : Expression) : Piece.written e.pieces = e.text.toList := by
  induction e with
  | lit literal =>
      rw [pieces, Literal.pieces, text, Literal.text, Binary64.pointedText, Binary64.signText]
      split
      · rw [String.toList_append]
        simp only [Piece.written, List.flatMap_cons, Piece.chars, List.flatMap_nil, List.append_nil]
      · rw [String.empty_append]
        simp only [Piece.written, List.flatMap_cons, Piece.chars, List.flatMap_nil, List.append_nil]
  | var x => exact List.append_nil _
  | binary op left right ihLeft ihRight =>
      simp only [pieces, Piece.written_cons, Piece.written_append, ihLeft, ihRight,
        toList_text_binary, List.append_assoc, List.cons_append]
      rfl

/-- The tokens among the pieces of a tree are its tokens. -/
theorem tokens_pieces (e : Expression) (offset : Nat) :
    Piece.tokens offset e.pieces = e.tokens offset := by
  induction e generalizing offset with
  | lit literal =>
      rw [pieces, Literal.pieces, tokens, Literal.tokens]
      split <;> rfl
  | var x => rfl
  | binary op left right ihLeft ihRight =>
      simp only [pieces, tokens, signPlace, Piece.tokens, Piece.tokens_append, List.cons_append,
        ihLeft, ihRight, written_pieces, byteSize_toList, List.append_assoc,
        op.utf8ByteSize_symbol]
      rfl

theorem wellFormed_of_mem_tokens (e : Expression) :
    ∀ token ∈ e.tokens 0, (Piece.token token.kind token.text).WellFormed := by
  rw [← tokens_ofString_text]
  intro token hmem
  have hwell := Source.wellFormed_of_mem_tokens _ token hmem
  exact ⟨hwell.starts, hwell.longest⟩

/-- A tree has a bracket or a blank between any two of its words. -/
theorem apart_pieces (e : Expression) : Piece.Apart e.pieces := by
  induction e with
  | lit literal =>
      have hwell := (lit literal).wellFormed_of_mem_tokens
      simp only [tokens, Literal.tokens] at hwell
      rw [pieces, Literal.pieces]
      split
      next hnegative =>
        rw [if_pos hnegative] at hwell
        have hdigits := Piece.apart_singleton (hwell _ (List.mem_cons_of_mem _ List.mem_cons_self))
        exact Piece.apart_nil.append_cons (hwell _ List.mem_cons_self) rfl hdigits
      next hpositive =>
        rw [if_neg hpositive] at hwell
        exact Piece.apart_singleton (hwell _ List.mem_cons_self)
  | var x => exact Piece.apart_singleton ((var x).wellFormed_of_mem_tokens _ List.mem_cons_self)
  | binary op left right ihLeft ihRight =>
      have hblank : Piece.blank.WellFormed := trivial
      have hopen : (Piece.token .openBracket "(").WellFormed := ⟨⟨'(', [], rfl, rfl⟩, rfl⟩
      have hclose : (Piece.token .closeBracket ")").WellFormed := ⟨⟨')', [], rfl, rfl⟩, rfl⟩
      have hsign : (Piece.token op.kind op.symbol).WellFormed ∧
          (Piece.token op.kind op.symbol).isWord = false := by
        cases op with
        | plus => exact ⟨⟨⟨'+', [], rfl, rfl⟩, rfl⟩, rfl⟩
        | times => exact ⟨⟨⟨'*', [], rfl, rfl⟩, rfl⟩, rfl⟩
      have hright := Piece.apart_nil.append_cons hblank rfl ihRight
      have hbehind := Piece.apart_nil.append_cons hsign.1 hsign.2 hright
      have hinner := ihLeft.append_cons hblank rfl hbehind
      have hfront := Piece.apart_nil.append_cons hopen rfl hinner
      exact hfront.append_cons hclose rfl Piece.apart_nil

/-- A text is written in the pieces of its tree and read in these pieces: its tokens are the
tokens among them, each where it was written, and it has no other characters but blanks. Any
stretch of the pieces is read as in the whole text, so no two neighbours make one token and
no piece makes two. -/
theorem text_read_in_pieces (e : Expression) :
    Piece.written e.pieces = e.text.toList ∧
    (Source.ofString e.text).tokens = Piece.tokens 0 e.pieces ∧
    (Source.ofString e.text).stray? = none ∧
    (∀ token ∈ (Source.ofString e.text).tokens, ∃ before after,
      (Source.ofString e.text).HasToken token before after) ∧
    ∀ front stretch back, e.pieces = front ++ stretch ++ back →
      let place := byteSize (Piece.written front)
      (Source.mk place (Piece.written stretch)).tokens = Piece.tokens place stretch ∧
        (Source.mk place (Piece.written stretch)).stray? = none := by
  refine ⟨e.written_pieces, ?_, e.stray?_ofString_text, (Source.tiles_tokens _).stand, ?_⟩
  · rw [tokens_ofString_text, tokens_pieces]
  · intro front stretch back hpieces
    have hapart : Piece.Apart stretch := e.apart_pieces.of_infix ⟨front, back, hpieces.symm⟩
    have hyields := hapart.yields (byteSize (Piece.written front))
    exact ⟨hyields.tokens_of_end, hyields.stray?_of_end⟩

end Expression

end SumProduct
