import SumProduct.Text.Blank
import SumProduct.Token.Basic

/-!
# Reading tokens from a source

A source is what is left of a text and where that starts. Its first token is the
longest one at its first character that is not blank. A character that starts no
token ends the reading: nothing after it is looked at.
-/

namespace SumProduct

namespace Token.Kind

/-- Digits, then perhaps a point and any number of digits. -/
def numeralLexeme (chars : List Char) : List Char :=
  match chars.dropWhile Char.isDigit with
  | '.' :: fraction => chars.takeWhile Char.isDigit ++ '.' :: fraction.takeWhile Char.isDigit
  | _ => chars.takeWhile Char.isDigit

/-- The longest token of a kind that starts the characters, which are taken to
begin with a character of that kind. -/
def lexeme (kind : Kind) (chars : List Char) : List Char :=
  match kind with
  | name => chars.takeWhile Char.isAlpha
  | numeral => numeralLexeme chars
  | _ => chars.take 1

end Token.Kind

/-- What is left of a text, and the number of bytes before it. -/
structure Source where
  offset : Nat
  rest : List Char

namespace Source

/-- A whole text as a source. -/
def ofString (text : String) : Source :=
  ⟨0, text.toList⟩

/-- The source after its first `text.length` characters, which are `text`. -/
def after (source : Source) (text : List Char) : Source :=
  ⟨source.offset + (String.ofList text).utf8ByteSize, source.rest.drop text.length⟩

/-- The source from its first character that is not blank. -/
def skipBlanks (source : Source) : Source :=
  source.after (source.rest.takeWhile Text.isBlank)

/-- What a source starts with. -/
inductive Head where
  /-- There are no tokens left. -/
  | done
  /-- A character that starts no token, and its place. -/
  | stray (character : Char) (index : Nat)
  /-- A token, and the source after it. -/
  | token (token : Token) (rest : Source)

/-- What a source starts with, blanks apart. -/
def head (source : Source) : Head :=
  let source := source.skipBlanks
  match source.rest with
  | [] => .done
  | c :: _ =>
      match Token.Kind.ofChar? c with
      | none => .stray c source.offset
      | some kind =>
          let text := kind.lexeme source.rest
          let rest := source.after text
          .token ⟨kind, String.ofList text, ⟨source.offset, rest.offset⟩⟩ rest

/-- Skipping blanks adds nothing. -/
theorem length_skipBlanks_le (source : Source) :
    source.skipBlanks.rest.length ≤ source.rest.length := by
  simp [skipBlanks, after]

end Source

/-- A token holds at least the character it starts with. -/
theorem Token.Kind.lexeme_ne_nil {kind : Kind} {c : Char} (chars : List Char)
    (hkind : ofChar? c = some kind) : kind.lexeme (c :: chars) ≠ [] := by
  have hname : kind = name → c.isAlpha = true := by
    rintro rfl
    simp only [ofChar?] at hkind
    grind
  have hnumeral : kind = numeral → c.isDigit = true := by
    rintro rfl
    simp only [ofChar?] at hkind
    grind
  cases kind with
  | name => simp [lexeme, hname rfl]
  | numeral =>
      simp only [lexeme, numeralLexeme]
      split <;> simp [hnumeral rfl]
  | _ => simp [lexeme]

/-- Every token shortens what is left of the source. -/
theorem Source.length_lt_of_head {source rest : Source} {token : Token}
    (hhead : source.head = .token token rest) : rest.rest.length < source.rest.length := by
  have hskip := source.length_skipBlanks_le
  simp only [head] at hhead
  split at hhead
  next => cases hhead
  next c chars hchars =>
    split at hhead
    next => cases hhead
    next kind hkind =>
      have htext := Token.Kind.lexeme_ne_nil chars hkind
      rw [← hchars] at htext
      have hpos := List.length_pos_iff.mpr htext
      cases hhead
      rw [hchars] at hpos hskip
      simp only [after, hchars, List.length_drop, List.length_cons] at hpos hskip ⊢
      omega

end SumProduct
