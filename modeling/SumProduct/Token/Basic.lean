/-!
# Tokens

The pieces that the text of an expression is made of, each with the place where
it stands. Places are counted in bytes of UTF-8.
-/

namespace SumProduct

/-- A stretch of a text, from the byte `start` up to but not including `stop`. -/
structure Span where
  start : Nat
  stop : Nat
  deriving DecidableEq, Repr

namespace Token

/-- The kinds of token. A minus is read only directly in front of a numeral. -/
inductive Kind where
  | name
  | numeral
  | openBracket
  | closeBracket
  | plus
  | minus
  | times
  deriving DecidableEq, Repr

/-- How messages refer to a token of a kind. -/
def Kind.description : Kind → String
  | name => "a variable"
  | numeral => "a number"
  | openBracket => "\"(\""
  | closeBracket => "\")\""
  | plus => "\"+\""
  | minus => "\"-\""
  | times => "\"*\""

/-- The kind of the tokens that start with a character, if any do. -/
def Kind.ofChar? (c : Char) : Option Kind :=
  if c = '(' then some openBracket
  else if c = ')' then some closeBracket
  else if c = '+' then some plus
  else if c = '-' then some minus
  else if c = '*' then some times
  else if c.isAlpha then some name
  else if c.isDigit then some numeral
  else none

end Token

/-- A token: its kind, its text and its place in the source. -/
structure Token where
  kind : Token.Kind
  text : String
  span : Span
  deriving DecidableEq, Repr

end SumProduct
