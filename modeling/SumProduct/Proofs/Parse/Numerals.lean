import SumProduct.Proofs.Binary64.Interval
import SumProduct.Proofs.Expression.Tokens
import SumProduct.Proofs.Parse.Operand
import SumProduct.Proofs.Token.Ends

/-!
# Reading single numbers

A numeral of any length, perhaps after a minus sign, is rounded once. What is read depends
on nothing but the number that is spelled and its sign, and from a fixed bound on the number
is refused as infinite.
-/

namespace SumProduct

open Text Binary64

/-! ## Rounding a numeral -/

namespace Numeral

variable {numeral : Numeral}

/-- A numeral rounds to a finite number below the bound only. -/
theorem isFinite_signed_iff (negative : Bool) :
    (numeral.signed negative).isFinite = true ↔ numeral.value < overflowBound := by
  have hnearest := numeral.isNearest_toBinary64
  rw [isFinite, decide_eq_true_eq, magnitude_signed, ← not_le (b := numeral.value),
    ← isNearest_infinityCode_iff]
  constructor
  · intro hfinite hinfinite
    exact absurd (hnearest.unique hinfinite) hfinite.ne
  · intro hbelow
    refine lt_of_le_of_ne hnearest.1 (fun hcode => hbelow ?_)
    rwa [hcode] at hnearest

/-- From the bound on a numeral rounds to infinity. -/
theorem signed_of_overflow (negative : Bool) (hoverflow : overflowBound ≤ numeral.value) :
    numeral.signed negative = .infinity negative := by
  apply eq_of_fields (numeral.negative_signed negative)
  rw [magnitude_signed]
  exact numeral.isNearest_toBinary64.unique (isNearest_infinityCode_iff.mpr hoverflow)

end Numeral

namespace Token

variable {token : Token} {numeral : Numeral}

/-- A numeral below the bound is read as the literal nearest to it. -/
theorem toLiteral_of_lt (hread : Numeral.ofString? token.text = some numeral) (negative : Bool)
    (hbelow : numeral.value < overflowBound) :
    ∃ literal, token.toLiteral negative = .ok (.lit literal) ∧
      literal.value = numeral.signed negative := by
  have hfinite := (Numeral.isFinite_signed_iff negative).mpr hbelow
  refine ⟨⟨_, hfinite⟩, Denotes.toLiteral ⟨numeral.negative_signed negative, ?_⟩ hread, rfl⟩
  exact nearest_signed hread

/-- From the bound on a numeral is refused. -/
theorem toLiteral_of_le (hread : Numeral.ofString? token.text = some numeral) (negative : Bool)
    (hoverflow : overflowBound ≤ numeral.value) :
    token.toLiteral negative = .error (.construction (.notFinite (.infinity negative))) := by
  have hfinite : (infinity negative).isFinite ≠ true := by
    cases negative <;> decide
  rw [toLiteral, hread]
  change (Expression.ofValue (numeral.signed negative)).mapError _ = _
  rw [Numeral.signed_of_overflow negative hoverflow, Expression.ofValue,
    Literal.ofValue_of_not_finite hfinite]
  rfl

end Token

/-- A text that has some tokens and ends is read by them. -/
theorem Expression.parse_of_yields {chars : List Char} {tokens : List Token} {offset : Nat}
    (hyields : Source.Yields ⟨0, chars⟩ tokens ⟨offset, []⟩) :
    parse (String.ofList chars) =
      tokens.foldlM ParseState.step .start >>= fun last => last.conclude none := by
  rw [parse_eq_foldlM, Source.ofString, String.toList_ofList, hyields.tokens_of_end,
    hyields.stray?_of_end]

namespace ParseState

variable {token : Token}

/-- A numeral is a whole expression. -/
theorem conclude_numeral (hkind : token.kind = .numeral) :
    ([token].foldlM step start >>= fun last => last.conclude none) = token.toLiteral false := by
  have hstep : start.step token =
      (token.toLiteral false).map fun literal => ⟨.operator none literal, []⟩ := by
    simp only [step, start, hkind]
    cases token.toLiteral false <;> rfl
  rw [List.foldlM_cons, hstep]
  cases token.toLiteral false <;> rfl

/-- A numeral after a minus sign is one as well. -/
theorem conclude_negated {sign : Token} (hsign : sign.kind = .minus)
    (hkind : token.kind = .numeral) :
    ([sign, token].foldlM step start >>= fun last => last.conclude none) =
      token.toLiteral true := by
  have hminus : start.step sign = .ok ⟨.magnitude .start, []⟩ := by
    simp only [step, start, hsign]
    rfl
  have hstep : step ⟨.magnitude .start, []⟩ token =
      (token.toLiteral true).map fun literal => ⟨.operator none literal, []⟩ := by
    simp only [step, hkind]
    cases token.toLiteral true <;> rfl
  change ((start.step sign >>= fun next => [token].foldlM step next) >>= _) = _
  rw [hminus]
  change ((step ⟨.magnitude .start, []⟩ token >>= _) >>= _) = _
  rw [hstep]
  cases token.toLiteral true <;> rfl

end ParseState

/-! ## Numbers with their signs -/

namespace Numeral.Spelling

theorem yields_chars (spelling : Spelling) {rest : List Char} (hdigit : Stops Char.isDigit rest)
    (hpoint : Stops (· == '.') rest) (offset : Nat) :
    Source.Yields ⟨offset, spelling.chars ++ rest⟩
      [.standing .numeral (String.ofList spelling.chars) offset]
      ⟨offset + byteSize spelling.chars, rest⟩ := by
  obtain ⟨c, more, hchars, hfirst⟩ := spelling.exists_chars_eq_cons
  have htext : (String.ofList spelling.chars).toList = spelling.chars := String.toList_ofList
  have hyields := Source.yields_standing (htext.trans hchars)
    (Token.Kind.ofChar?_of_isDigit hfirst)
    (by rw [htext]; exact spelling.numeralLexeme_chars hdigit hpoint) offset
  rwa [htext] at hyields

end Numeral.Spelling

/-- A numeral, perhaps after a minus sign and blanks. -/
structure SignedNumeral where
  /-- The blanks after the minus sign, if there is one. -/
  minus? : Option (List Char)
  numeral : Numeral.Spelling
  isBlank_of_mem : ∀ c ∈ minus?.getD [], isBlank c = true

namespace SignedNumeral

/-- Whether there is a minus sign. -/
def negative (signed : SignedNumeral) : Bool :=
  signed.minus?.isSome

/-- The number that is spelled after the sign. -/
def value (signed : SignedNumeral) : ℚ :=
  signed.numeral.value

/-- A whole number after a minus sign and a blank. -/
def minus (n : Nat) : SignedNumeral :=
  ⟨some [' '], .ofNat n, List.forall_mem_singleton.mpr (by decide)⟩

theorem value_minus (n : Nat) : (minus n).value = n :=
  Numeral.Spelling.value_ofNat n

/-- The characters of a number with its sign. -/
def text (signed : SignedNumeral) : String :=
  match signed.minus? with
  | none => String.ofList signed.numeral.chars
  | some blanks => String.ofList ('-' :: (blanks ++ signed.numeral.chars))

/-- A numeral behind a minus sign, if it is negative. -/
def ofSign (negative : Bool) (numeral : Numeral.Spelling) : SignedNumeral where
  minus? := if negative then some [] else none
  numeral := numeral
  isBlank_of_mem := by
    cases negative <;> simp

theorem negative_ofSign (negative : Bool) (numeral : Numeral.Spelling) :
    (ofSign negative numeral).negative = negative := by
  cases negative <;> rfl

theorem text_ofSign (negative : Bool) (numeral : Numeral.Spelling) :
    (ofSign negative numeral).text =
      (if negative then "-" else "") ++ String.ofList numeral.chars := by
  rw [← String.toList_inj, String.toList_append]
  cases negative <;> simp [text, ofSign]

/-- The same number with more zeros in front. -/
def leading (signed : SignedNumeral) (zeros : Nat) : SignedNumeral :=
  { signed with numeral := signed.numeral.leading zeros }

/-- The same number with a point, and with more zeros at the end. -/
def trailing (signed : SignedNumeral) (zeros : Nat) : SignedNumeral :=
  { signed with numeral := signed.numeral.trailing zeros }

theorem negative_leading (signed : SignedNumeral) (zeros : Nat) :
    (signed.leading zeros).negative = signed.negative :=
  rfl

theorem value_leading (signed : SignedNumeral) (zeros : Nat) :
    (signed.leading zeros).value = signed.value :=
  signed.numeral.value_leading zeros

theorem value_trailing (signed : SignedNumeral) (zeros : Nat) :
    (signed.trailing zeros).value = signed.value :=
  signed.numeral.value_trailing zeros

/-- The token of a numeral that stands at an offset. -/
def token (signed : SignedNumeral) (offset : Nat) : Token :=
  .standing .numeral (String.ofList signed.numeral.chars) offset

theorem exists_ofString?_token (signed : SignedNumeral) (offset : Nat) :
    ∃ numeral, Numeral.ofString? (signed.token offset).text = some numeral ∧
      numeral.value = signed.value :=
  signed.numeral.exists_ofString?

/-- What is read of a number is its numeral, with its sign. -/
theorem exists_parse_text_eq (signed : SignedNumeral) :
    ∃ offset, Expression.parse signed.text = (signed.token offset).toLiteral signed.negative := by
  obtain ⟨minus?, numeral, hblanks⟩ := signed
  have hdigit : Stops Char.isDigit [] := by simp [Stops]
  have hpoint : Stops (· == '.') [] := by simp [Stops]
  have hnumeral := numeral.yields_chars hdigit hpoint
  rw [List.append_nil] at hnumeral
  cases minus? with
  | none =>
      have hparse := Expression.parse_of_yields (hnumeral 0)
      exact ⟨_, hparse.trans (ParseState.conclude_numeral rfl)⟩
  | some blanks =>
      have hskip := Source.yields_of_head_eq
        (Source.head_blanks_append hblanks (0 + 1) numeral.chars)
      have hparse := Expression.parse_of_yields
        ((Source.yields_minus 0 _).cons (hskip.append (hnumeral _)))
      exact ⟨_, hparse.trans (ParseState.conclude_negated rfl rfl)⟩

/-- A number below the bound is read as the literal nearest to it, with its sign. -/
theorem exists_parse_text_of_lt (signed : SignedNumeral) (hbelow : signed.value < overflowBound) :
    ∃ literal, Expression.parse signed.text = .ok (.lit literal) ∧
      literal.value.negative = signed.negative ∧
      IsNearest signed.value literal.value.magnitude := by
  obtain ⟨offset, hparse⟩ := signed.exists_parse_text_eq
  obtain ⟨numeral, hread, hvalue⟩ := signed.exists_ofString?_token offset
  rw [← hvalue] at hbelow ⊢
  obtain ⟨literal, hliteral, hsigned⟩ := Token.toLiteral_of_lt hread signed.negative hbelow
  refine ⟨literal, hparse.trans hliteral, ?_, ?_⟩
  · rw [hsigned]
    exact numeral.negative_signed _
  · rw [hsigned, numeral.magnitude_signed]
    exact numeral.isNearest_toBinary64

/-- From the bound on a number is refused as infinite. -/
theorem parse_text_of_le (signed : SignedNumeral) (hoverflow : overflowBound ≤ signed.value) :
    Expression.parse signed.text =
      .error (.construction (.notFinite (.infinity signed.negative))) := by
  obtain ⟨offset, hparse⟩ := signed.exists_parse_text_eq
  obtain ⟨numeral, hread, hvalue⟩ := signed.exists_ofString?_token offset
  rw [← hvalue] at hoverflow
  exact hparse.trans (Token.toLiteral_of_le hread signed.negative hoverflow)

/-- A number is read as a literal exactly if it rounds to it and has its sign. -/
theorem parse_text_eq_ok_iff (signed : SignedNumeral) (literal : Literal) :
    Expression.parse signed.text = .ok (.lit literal) ↔
      literal.value.negative = signed.negative ∧
        IsNearest signed.value literal.value.magnitude := by
  rcases lt_or_ge signed.value overflowBound with hbelow | hoverflow
  · obtain ⟨read, hparse, hnegative, hnearest⟩ := signed.exists_parse_text_of_lt hbelow
    rw [hparse, Except.ok.injEq, Expression.lit.injEq]
    constructor
    · rintro rfl
      exact ⟨hnegative, hnearest⟩
    · rintro ⟨hnegative', hnearest'⟩
      exact Literal.eq_of_nearest (hnegative.trans hnegative'.symm) hnearest hnearest'
  · rw [signed.parse_text_of_le hoverflow]
    constructor
    · intro hparse
      cases hparse
    · rintro ⟨-, hnearest⟩
      have hinfinite := hnearest.unique (isNearest_infinityCode_iff.mpr hoverflow)
      exact absurd hinfinite literal.magnitude_lt.ne

/-- Numbers of one sign and one value are read alike. -/
theorem parse_text_congr {signed other : SignedNumeral}
    (hnegative : other.negative = signed.negative) (hvalue : other.value = signed.value) :
    Expression.parse other.text = Expression.parse signed.text := by
  rcases lt_or_ge signed.value overflowBound with hbelow | hoverflow
  · obtain ⟨literal, hparse, hsign, hnearest⟩ := signed.exists_parse_text_of_lt hbelow
    rw [hparse, other.parse_text_eq_ok_iff, hnegative, hvalue]
    exact ⟨hsign, hnearest⟩
  · rw [signed.parse_text_of_le hoverflow]
    rw [← hvalue] at hoverflow
    rw [other.parse_text_of_le hoverflow, hnegative]

end SignedNumeral

/-- What is read of a number, of any length, is settled by its value and its sign: below the
bound its bits are those of the nearest code and of the sign, from the bound on it is an
infinity of that sign. Zeros in front, zeros at the end and a bare point do not matter. -/
theorem Expression.parse_signedNumeral (signed : SignedNumeral) :
    (signed.value < overflowBound →
      ∃ literal code, parse signed.text = .ok (.lit literal) ∧ IsNearest signed.value code ∧
        literal.value.toBits.toNat =
          (if signed.negative then 2 ^ Binary64.signPlace else 0) + code) ∧
    (overflowBound ≤ signed.value →
      parse signed.text = .error (.construction (.notFinite (.infinity signed.negative)))) ∧
    (∀ other : SignedNumeral, other.negative = signed.negative → other.value = signed.value →
      parse other.text = parse signed.text) ∧
    (∀ zeros, parse (signed.leading zeros).text = parse signed.text ∧
      parse (signed.trailing zeros).text = parse signed.text) := by
  refine ⟨fun hbelow => ?_, signed.parse_text_of_le,
    fun other hnegative hvalue => SignedNumeral.parse_text_congr hnegative hvalue,
    fun zeros => ⟨?_, ?_⟩⟩
  · obtain ⟨literal, hparse, hnegative, hnearest⟩ := signed.exists_parse_text_of_lt hbelow
    refine ⟨literal, _, hparse, hnearest, ?_⟩
    rw [toNat_toBits, hnegative]
  · exact SignedNumeral.parse_text_congr (signed.negative_leading zeros)
      (signed.value_leading zeros)
  · exact SignedNumeral.parse_text_congr rfl (signed.value_trailing zeros)

/-- The bound is sharp: it is the first whole number that is refused. -/
theorem Expression.parse_signedNumeral_at_bound :
    (∃ literal code, parse (SignedNumeral.minus (2 ^ 1024 - 2 ^ 970 - 1)).text =
        .ok (.lit literal) ∧ literal.value.toBits.toNat = 2 ^ 63 + code) ∧
      parse (SignedNumeral.minus (2 ^ 1024 - 2 ^ 970)).text =
        .error (.construction (.notFinite (.infinity true))) ∧
      parse ((SignedNumeral.minus (2 ^ 1024 - 2 ^ 970)).leading 7).text =
        parse (SignedNumeral.minus (2 ^ 1024 - 2 ^ 970)).text := by
  have hbound : overflowBound = ((2 ^ 1024 - 2 ^ 970 : Nat) : ℚ) := by
    rw [overflowBound, Nat.cast_sub (by decide +kernel), cast_two_pow, cast_two_pow]
  have hbelow : (SignedNumeral.minus (2 ^ 1024 - 2 ^ 970 - 1)).value < overflowBound := by
    rw [hbound, SignedNumeral.value_minus, Nat.cast_lt]
    decide +kernel
  have hoverflow : overflowBound ≤ (SignedNumeral.minus (2 ^ 1024 - 2 ^ 970)).value := by
    rw [hbound, SignedNumeral.value_minus]
  obtain ⟨hliteral, -, -, -⟩ := parse_signedNumeral (.minus (2 ^ 1024 - 2 ^ 970 - 1))
  obtain ⟨-, herror, hsame, -⟩ := parse_signedNumeral (.minus (2 ^ 1024 - 2 ^ 970))
  obtain ⟨literal, code, hparse, -, hbits⟩ := hliteral hbelow
  exact ⟨⟨literal, code, hparse, hbits⟩, herror hoverflow,
    hsame _ (SignedNumeral.negative_leading _ 7) (SignedNumeral.value_leading _ 7)⟩

end SumProduct
