/-!
# Operations

The two operations that join expressions, and the two sides on which they have
an operand.
-/

namespace SumProduct

/-- An operation on two operands. -/
inductive Operation where
  | plus
  | times
  deriving DecidableEq, Repr

/-- The sign of an operation in the text of an expression. -/
def Operation.symbol : Operation → String
  | .plus => "+"
  | .times => "*"

/-- A side of an operation. -/
inductive Side where
  | left
  | right
  deriving DecidableEq, Repr

/-- How messages refer to a side. -/
def Side.name : Side → String
  | .left => "left"
  | .right => "right"

end SumProduct
