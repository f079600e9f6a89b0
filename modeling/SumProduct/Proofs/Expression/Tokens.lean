import SumProduct.Expression.Text
import SumProduct.Proofs.Decimal.ReadBack
import SumProduct.Proofs.Grammar.Basic

/-!
# The tokens of canonical texts

The canonical text of a tree is read token by token as it was written, whatever follows,
as long as that is neither a letter nor a digit. The tokens spell the tree as a single
factor, since every compound tree has brackets of its own.
-/

namespace SumProduct

open Text

/-! ## Single tokens -/

/-- A blank in front adds nothing but its place. -/
theorem Source.yields_blank (offset : Nat) (rest : List Char) :
    Yields ⟨offset, ' ' :: rest⟩ [] ⟨offset + 1, rest⟩ := by
  have hblank : ∀ c ∈ [' '], isBlank c = true := List.forall_mem_singleton.mpr (by decide)
  exact yields_of_head_eq (head_blanks_append hblank offset rest)

/-- A token of a given text that stands at an offset. -/
def Token.standing (kind : Kind) (text : String) (offset : Nat) : Token :=
  ⟨kind, text, ⟨offset, offset + text.utf8ByteSize⟩⟩

/-- A token in front of anything that does not make it longer. -/
theorem Source.yields_standing {kind : Token.Kind} {text : String} {c : Char}
    {chars rest : List Char} (htext : text.toList = c :: chars)
    (hkind : Token.Kind.ofChar? c = some kind)
    (hlexeme : kind.lexeme (text.toList ++ rest) = text.toList) (offset : Nat) :
    Yields ⟨offset, text.toList ++ rest⟩ [Token.standing kind text offset]
      ⟨offset + text.utf8ByteSize, rest⟩ := by
  have hsize : byteSize (c :: chars) = text.utf8ByteSize := by
    rw [← htext, byteSize_toList]
  have hsame : String.ofList (c :: chars) = text := by
    rw [← htext, String.ofList_toList]
  rw [htext] at hlexeme ⊢
  have hbegins : Begins ⟨offset, [] ++ (c :: chars ++ rest)⟩ _ :=
    .token rfl (by simp) hkind hlexeme
  have hhead := head_eq_of_begins hbegins
  rw [List.nil_append, byteSize_nil, Nat.add_zero, hsize, hsame] at hhead
  exact ⟨tokens_of_token hhead, stray?_of_token hhead⟩

/-- A sign of one character needs no end. -/
theorem Source.yields_sign {kind : Token.Kind} {c : Char} (text : String)
    (htext : text.toList = [c]) (hkind : Token.Kind.ofChar? c = some kind)
    (hname : kind ≠ .name) (hnumeral : kind ≠ .numeral) (offset : Nat) (rest : List Char) :
    Yields ⟨offset, c :: rest⟩ [Token.standing kind text offset]
      ⟨offset + text.utf8ByteSize, rest⟩ := by
  have hlexeme : kind.lexeme (text.toList ++ rest) = text.toList := by
    rw [htext]
    cases kind with
    | name => exact absurd rfl hname
    | numeral => exact absurd rfl hnumeral
    | _ => rfl
  have hyields := yields_standing htext hkind hlexeme offset
  rwa [htext] at hyields

theorem Source.yields_open (offset : Nat) (rest : List Char) :
    Yields ⟨offset, '(' :: rest⟩ [.standing .openBracket "(" offset] ⟨offset + 1, rest⟩ :=
  yields_sign "(" rfl rfl (by decide) (by decide) offset rest

theorem Source.yields_close (offset : Nat) (rest : List Char) :
    Yields ⟨offset, ')' :: rest⟩ [.standing .closeBracket ")" offset] ⟨offset + 1, rest⟩ :=
  yields_sign ")" rfl rfl (by decide) (by decide) offset rest

theorem Source.yields_minus (offset : Nat) (rest : List Char) :
    Yields ⟨offset, '-' :: rest⟩ [.standing .minus "-" offset] ⟨offset + 1, rest⟩ :=
  yields_sign "-" rfl rfl (by decide) (by decide) offset rest

/-! ## Leaves -/

/-- The tokens of a literal: its sign, if it is negative, and its digits. -/
def Literal.tokens (literal : Literal) (offset : Nat) : List Token :=
  let digits := (Numeral.shortest literal.value.magnitude).pointedText
  if literal.value.negative then
    [.standing .minus "-" offset, .standing .numeral digits (offset + 1)]
  else [.standing .numeral digits offset]

/-- Digits with a point in front of anything but a digit are the longest numeral. -/
theorem Numeral.numeralLexeme_pointedText (numeral : Numeral) {rest : List Char}
    (hstops : Stops Char.isDigit rest) :
    Token.Kind.numeralLexeme (numeral.pointedText.toList ++ rest) = numeral.pointedText.toList := by
  rw [numeral.toList_pointedText, List.append_assoc, List.cons_append]
  exact Token.Kind.numeralLexeme_pointed numeral.isDigit_of_mem_wholeDigits
    numeral.isDigit_of_mem_pointedFraction hstops

/-- A numeral with a point ends before anything but a digit. -/
theorem Numeral.yields_pointedText (numeral : Numeral) {rest : List Char}
    (hstops : Stops Char.isDigit rest) (offset : Nat) :
    Source.Yields ⟨offset, numeral.pointedText.toList ++ rest⟩
      [.standing .numeral numeral.pointedText offset]
      ⟨offset + numeral.pointedText.utf8ByteSize, rest⟩ := by
  obtain ⟨c, digits, hdigits⟩ := List.exists_cons_of_ne_nil numeral.wholeDigits_ne_nil
  have hfirst : numeral.pointedText.toList = c :: (digits ++ '.' :: numeral.pointedFraction) := by
    rw [numeral.toList_pointedText, hdigits, List.cons_append]
  have hdigit : c.isDigit = true :=
    numeral.isDigit_of_mem_wholeDigits c (hdigits ▸ List.mem_cons_self)
  exact Source.yields_standing hfirst (Token.Kind.ofChar?_of_isDigit hdigit)
    (numeral.numeralLexeme_pointedText hstops) offset

theorem Literal.yields_text (literal : Literal) {rest : List Char}
    (hstops : Stops Char.isDigit rest) (offset : Nat) :
    Source.Yields ⟨offset, literal.text.toList ++ rest⟩ (literal.tokens offset)
      ⟨offset + literal.text.utf8ByteSize, rest⟩ := by
  have hdigits := (Numeral.shortest literal.value.magnitude).yields_pointedText hstops
  rw [text, Binary64.pointedText, Binary64.signText, tokens]
  split
  next hnegative =>
    rw [String.toList_append, String.utf8ByteSize_append, ← Nat.add_assoc]
    exact (Source.yields_minus offset _).cons (hdigits (offset + 1))
  next hpositive =>
    rw [String.empty_append]
    exact hdigits offset

theorem Variable.yields_name (x : Variable) {rest : List Char} (hstops : Stops Char.isAlpha rest)
    (offset : Nat) :
    Source.Yields ⟨offset, x.name.toList ++ rest⟩ [.standing .name x.name offset]
      ⟨offset + x.name.utf8ByteSize, rest⟩ := by
  have hletters := x.isAlpha_of_mem
  obtain ⟨c, letters, hname⟩ := List.exists_cons_of_ne_nil x.toList_name_ne_nil
  have hletter : c.isAlpha = true := hletters c (hname ▸ List.mem_cons_self)
  exact Source.yields_standing hname (Token.Kind.ofChar?_of_isAlpha hletter)
    (Token.Kind.lexeme_name hletters hstops) offset

/-! ## Trees -/

theorem Operation.utf8ByteSize_symbol (op : Operation) : op.symbol.utf8ByteSize = 1 := by
  cases op <;> rfl

/-- The sign of an operation is its token. -/
theorem Operation.yields_symbol (op : Operation) (offset : Nat) (rest : List Char) :
    Source.Yields ⟨offset, op.symbol.toList ++ rest⟩ [.standing op.kind op.symbol offset]
      ⟨offset + op.symbol.utf8ByteSize, rest⟩ := by
  cases op with
  | plus => exact Source.yields_sign _ rfl rfl (by decide) (by decide) offset rest
  | times => exact Source.yields_sign _ rfl rfl (by decide) (by decide) offset rest

namespace Expression

/-- The place of the sign of an operation, for its left operand and its own place. -/
def signPlace (left : Expression) (offset : Nat) : Nat :=
  offset + 1 + left.text.utf8ByteSize + 1

/-- The tokens of the canonical text of a tree that stands at an offset. -/
def tokens (offset : Nat) : Expression → List Token
  | lit literal => literal.tokens offset
  | var x => [.standing .name x.name offset]
  | binary op left right =>
      let sign := left.signPlace offset
      .standing .openBracket "(" offset ::
        (left.tokens (offset + 1) ++
          .standing op.kind op.symbol sign :: right.tokens (sign + 2)) ++
        [.standing .closeBracket ")" (sign + 2 + right.text.utf8ByteSize)]

theorem toList_text_binary (op : Operation) (left right : Expression) :
    (binary op left right).text.toList =
      '(' :: (left.text.toList ++
        ' ' :: (op.symbol.toList ++ ' ' :: (right.text.toList ++ [')']))) := by
  simp only [text, String.toList_append, List.append_assoc]
  rfl

theorem utf8ByteSize_text_binary (op : Operation) (left right : Expression) (offset : Nat) :
    offset + (binary op left right).text.utf8ByteSize =
      left.signPlace offset + 2 + right.text.utf8ByteSize + 1 := by
  simp only [text, String.utf8ByteSize_append, op.utf8ByteSize_symbol, signPlace]
  have hopen : "(".utf8ByteSize = 1 := rfl
  have hclose : ")".utf8ByteSize = 1 := rfl
  have hblank : " ".utf8ByteSize = 1 := rfl
  omega

/-- The text of a tree is read as its tokens, in front of anything but a letter or a
digit. -/
theorem yields_text (e : Expression) (rest : List Char) (halpha : Stops Char.isAlpha rest)
    (hdigit : Stops Char.isDigit rest) (offset : Nat) :
    Source.Yields ⟨offset, e.text.toList ++ rest⟩ (e.tokens offset)
      ⟨offset + e.text.utf8ByteSize, rest⟩ := by
  induction e generalizing rest offset with
  | lit literal => exact literal.yields_text hdigit offset
  | var x => exact x.yields_name halpha offset
  | binary op left right ihLeft ihRight =>
      -- What follows an operand here is a blank or a closing bracket.
      have hleft := ihLeft (' ' :: (op.symbol.toList ++
        ' ' :: (right.text.toList ++ ')' :: rest))) (by simp [Stops]) (by simp [Stops]) (offset + 1)
      have hright := ihRight (')' :: rest) (by simp [Stops]) (by simp [Stops])
        (left.signPlace offset + 2)
      have hsign := op.yields_symbol (left.signPlace offset)
        (' ' :: (right.text.toList ++ ')' :: rest))
      rw [op.utf8ByteSize_symbol] at hsign
      have hfirst := hleft.append (Source.yields_blank _ _)
      have hsecond := hsign.append (Source.yields_blank _ _)
      rw [List.append_nil] at hfirst hsecond
      have hinner := hfirst.append (hsecond.cons hright)
      have hwhole := (Source.yields_open offset _).cons (hinner.append (Source.yields_close _ rest))
      rw [utf8ByteSize_text_binary, toList_text_binary]
      simpa only [tokens, List.append_assoc, List.cons_append, List.nil_append] using hwhole

theorem yields_ofString_text (e : Expression) :
    (Source.ofString e.text).Yields (e.tokens 0) ⟨0 + e.text.utf8ByteSize, []⟩ := by
  have hyields := e.yields_text [] (by simp [Stops]) (by simp [Stops]) 0
  rwa [List.append_nil] at hyields

/-- The whole text of a tree has the tokens of the tree. -/
theorem tokens_ofString_text (e : Expression) : (Source.ofString e.text).tokens = e.tokens 0 :=
  e.yields_ofString_text.tokens_of_end

theorem stray?_ofString_text (e : Expression) : (Source.ofString e.text).stray? = none :=
  e.yields_ofString_text.stray?_of_end

end Expression

/-! ## What the tokens spell -/

/-- The digits of a finite number stand for it, with its sign. -/
theorem Literal.denotes_digits (literal : Literal) (offset : Nat) :
    (Token.standing .numeral (Numeral.shortest literal.value.magnitude).pointedText
      offset).Denotes literal.value.negative literal := by
  obtain ⟨again, hread, hvalue⟩ :=
    (Numeral.shortest literal.value.magnitude).exists_ofString?_pointedText
  refine ⟨rfl, ?_⟩
  rw [Token.standing, ← Numeral.value_of_ofString? hread, hvalue]
  exact Numeral.isNearest_shortest literal.magnitude_lt

theorem Literal.spells_tokens (literal : Literal) (offset : Nat) :
    Spells .factor (literal.tokens offset) (.lit literal) := by
  have hdenotes := literal.denotes_digits
  rw [tokens]
  split
  next hnegative =>
    rw [hnegative] at hdenotes
    exact .negated rfl rfl (hdenotes (offset + 1))
  next hpositive =>
    rw [Bool.not_eq_true] at hpositive
    rw [hpositive] at hdenotes
    exact .numeral rfl (hdenotes offset)

/-- A factor is an operand of either operation. -/
theorem Spells.operand_of_factor {tokens : List Token} {e : Expression}
    (hspells : Spells .factor tokens e) (op : Operation) : Spells op.operand tokens e := by
  cases op with
  | plus =>
      change Spells (.chain .times) tokens e
      exact .operand hspells
  | times => exact hspells

/-- A chain of either operation is an expression. -/
theorem Spells.expression_of_chain {op : Operation} {tokens : List Token} {e : Expression}
    (hspells : Spells (.chain op) tokens e) : Spells .expression tokens e := by
  cases op with
  | plus => exact hspells
  | times =>
      change Spells (.chain .plus) tokens e
      exact .operand hspells

theorem Spells.expression_of_factor {tokens : List Token} {e : Expression}
    (hspells : Spells .factor tokens e) : Spells .expression tokens e :=
  .operand (hspells.operand_of_factor .plus)

/-- The tokens of a tree spell it as one factor. -/
theorem Expression.spells_tokens (e : Expression) (offset : Nat) :
    Spells .factor (e.tokens offset) e := by
  induction e generalizing offset with
  | lit literal => exact literal.spells_tokens offset
  | var x => exact .name rfl rfl
  | binary op left right ihLeft ihRight =>
      have hleft := (ihLeft (offset + 1)).operand_of_factor op
      have hright := (ihRight (left.signPlace offset + 2)).operand_of_factor op
      have hinner : Spells (.chain op) (left.tokens (offset + 1) ++
          .standing op.kind op.symbol (left.signPlace offset) ::
            right.tokens (left.signPlace offset + 2)) (binary op left right) :=
        .operation (.operand hleft) rfl hright
      exact .bracketed rfl rfl hinner.expression_of_chain

end SumProduct
