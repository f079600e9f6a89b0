import SumProduct.Expression.Error
import SumProduct.Token.Basic

/-!
# Why a text is not an expression

Each reason tells where the text fails; a token in the wrong place also tells
what could have stood there. The messages lose none of this.
-/

namespace SumProduct

/-- The greatest depth of a tree, and the greatest number of open brackets, that
a text may have. -/
def maxDepth : Nat := 256

/-- A reason why a text is not an expression. -/
inductive ParseError where
  /-- A character that starts no token. -/
  | strayCharacter (character : Char) (index : Nat)
  /-- The text ends before the expression does. -/
  | unexpectedEnd
  /-- A token where only others could stand. -/
  | unexpectedToken (found : Token.Kind) (span : Span) (expected : List Token.Kind)
  /-- A numeral that cannot be read. -/
  | unreadableNumber (span : Span)
  /-- A bracket or an operation too deep inside others. -/
  | tooDeep (span : Span)
  /-- A leaf that is no expression. -/
  | construction (error : ConstructionError)
  deriving DecidableEq

/-- A choice of words: "A, B or C". -/
def oneOf : List String → String
  | [] => "nothing"
  | [only] => only
  | [first, second] => first ++ " or " ++ second
  | first :: rest => first ++ ", " ++ oneOf rest

/-- Where a span lies: "1..2". -/
def Span.text (span : Span) : String :=
  span.start.repr ++ ".." ++ span.stop.repr

/-- The wording of a reason; what is no expression is worded as such. -/
def ParseError.message : ParseError → String
  | strayCharacter character index =>
      "invalid character " ++ Text.quotedChar character ++ " at index " ++ index.repr
  | unexpectedEnd => "unexpected end of input"
  | unexpectedToken found span expected =>
      "found " ++ found.description ++ " at " ++ span.text ++ ", expected " ++
        oneOf (expected.map Token.Kind.description)
  | unreadableNumber span => "unable to read the number at " ++ span.text
  | tooDeep span =>
      "nested more than " ++ maxDepth.repr ++ " levels deep at " ++ span.text
  | construction error => error.message

end SumProduct
