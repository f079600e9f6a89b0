import SumProduct.Parse.Error
import SumProduct.Proofs.Decimal.Value
import SumProduct.Proofs.Token.Layout

/-!
# The grammar of expressions

Which sequences of tokens spell which trees, whatever the limits on depth:

    expression  =  term { "+" term }
    term        =  factor { "*" factor }
    factor      =  numeral  |  "-" numeral  |  name  |  "(" expression ")"

Both chains group to the left, brackets add no node, and a literal is its numeral
rounded correctly. The kinds of such tokens are the sentences of the grammar.
-/

namespace SumProduct

open Text

/-- The kind of the token that stands for an operation. -/
def Operation.kind : Operation → Token.Kind
  | .plus => .plus
  | .times => .times

/-- The rules of the grammar: factors, and the chains of operands of an operation. -/
inductive Rule where
  | factor
  | chain (op : Operation)
  deriving DecidableEq, Repr

/-- Terms are chains of factors. -/
abbrev Rule.term : Rule :=
  .chain .times

/-- Expressions are chains of terms. -/
abbrev Rule.expression : Rule :=
  .chain .plus

/-- What stands on both sides of an operation. -/
def Operation.operand : Operation → Rule
  | .plus => .term
  | .times => .factor

/-- The literal that a numeral token stands for: correctly rounded, with a given sign. -/
structure Token.Denotes (token : Token) (negative : Bool) (literal : Literal) : Prop where
  negative : literal.value.negative = negative
  nearest : Binary64.IsNearest (Numeral.spelledValue token.text.toList) literal.value.magnitude

/-- The tokens spell the tree by the rule. -/
inductive Spells : Rule → List Token → Expression → Prop
  | numeral {token : Token} {literal : Literal} (hkind : token.kind = .numeral)
      (hdenotes : token.Denotes false literal) : Spells .factor [token] (.lit literal)
  | negated {sign token : Token} {literal : Literal} (hsign : sign.kind = .minus)
      (hkind : token.kind = .numeral) (hdenotes : token.Denotes true literal) :
      Spells .factor [sign, token] (.lit literal)
  | name {token : Token} {x : Variable} (hkind : token.kind = .name)
      (hname : x.name = token.text) : Spells .factor [token] (.var x)
  | bracketed {opening closing : Token} {inner : List Token} {e : Expression}
      (hopening : opening.kind = .openBracket) (hclosing : closing.kind = .closeBracket)
      (hinner : Spells .expression inner e) :
      Spells .factor (opening :: inner ++ [closing]) e
  | operand {op : Operation} {tokens : List Token} {e : Expression}
      (hoperand : Spells op.operand tokens e) : Spells (.chain op) tokens e
  | operation {op : Operation} {left right : List Token} {sign : Token} {e f : Expression}
      (hleft : Spells (.chain op) left e) (hsign : sign.kind = op.kind)
      (hright : Spells op.operand right f) :
      Spells (.chain op) (left ++ sign :: right) (.binary op e f)

namespace Literal

theorem magnitude_lt (literal : Literal) : literal.value.magnitude < Binary64.infinityCode := by
  have hfinite := literal.finite
  rwa [Binary64.isFinite, decide_eq_true_eq] at hfinite

/-- A number rounds to one literal of each sign. -/
theorem eq_of_nearest {first second : Literal} {q : ℚ}
    (hnegative : first.value.negative = second.value.negative)
    (hfirst : Binary64.IsNearest q first.value.magnitude)
    (hsecond : Binary64.IsNearest q second.value.magnitude) : first = second := by
  have hvalue := Binary64.eq_of_fields hnegative (hfirst.unique hsecond)
  cases first
  cases second
  cases hvalue
  rfl

end Literal

namespace Token

/-- Whether the number of a numeral token rounds to infinity. -/
def Overflows (token : Token) : Prop :=
  Binary64.IsNearest (Numeral.spelledValue token.text.toList) Binary64.infinityCode

/-- A numeral token stands for one literal of each sign at most. -/
theorem Denotes.unique {token : Token} {negative : Bool} {first second : Literal}
    (hfirst : token.Denotes negative first) (hsecond : token.Denotes negative second) :
    first = second :=
  Literal.eq_of_nearest (hfirst.negative.trans hsecond.negative.symm) hfirst.nearest
    hsecond.nearest

/-- A token that stands for a literal is finite. -/
theorem Denotes.not_overflows {token : Token} {negative : Bool} {literal : Literal}
    (hdenotes : token.Denotes negative literal) : ¬token.Overflows := by
  intro hinfinite
  exact literal.magnitude_lt.ne (hdenotes.nearest.unique hinfinite)

end Token

/-- No numeral of a spelled tree overflows. -/
theorem Spells.not_overflows {rule : Rule} {tokens : List Token} {e : Expression}
    (hspells : Spells rule tokens e) :
    ∀ token ∈ tokens, token.kind = .numeral → ¬token.Overflows := by
  induction hspells with
  | numeral hkind hdenotes =>
      intro token hmem _
      rw [List.mem_singleton.mp hmem]
      exact hdenotes.not_overflows
  | negated hsign hkind hdenotes =>
      intro token hmem hnumeral
      rcases List.mem_cons.mp hmem with rfl | hmem
      · rw [hsign] at hnumeral
        cases hnumeral
      · rw [List.mem_singleton.mp hmem]
        exact hdenotes.not_overflows
  | name hkind hname =>
      intro token hmem hnumeral
      rw [List.mem_singleton.mp hmem, hkind] at hnumeral
      cases hnumeral
  | bracketed hopening hclosing hinner ih =>
      intro token hmem hnumeral
      rw [List.mem_append, List.mem_cons, List.mem_singleton] at hmem
      rcases hmem with (rfl | hmem) | rfl
      · rw [hopening] at hnumeral
        cases hnumeral
      · exact ih token hmem hnumeral
      · rw [hclosing] at hnumeral
        cases hnumeral
  | operand hoperand ih => exact ih
  | @operation op left right sign e f hleft hsign hright ihLeft ihRight =>
      intro token hmem hnumeral
      rw [List.mem_append, List.mem_cons] at hmem
      rcases hmem with hmem | rfl | hmem
      · exact ihLeft token hmem hnumeral
      · rw [hsign] at hnumeral
        cases op <;> cases hnumeral
      · exact ihRight token hmem hnumeral

/-! ## Sentences -/

/-- The kinds of the tokens that spell an expression. -/
def Sentence (kinds : List Token.Kind) : Prop :=
  ∃ tokens e, tokens.map Token.kind = kinds ∧ Spells .expression tokens e

/-- Kinds that are the front of a sentence. -/
def Viable (kinds : List Token.Kind) : Prop :=
  ∃ more, Sentence (kinds ++ more)

end SumProduct
