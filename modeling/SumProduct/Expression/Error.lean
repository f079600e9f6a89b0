import SumProduct.Decimal.Text
import SumProduct.Expression.Operation
import SumProduct.Text.Quoted

/-!
# Why an expression cannot be made

Each reason holds what was offered, and its message shows that.
-/

namespace SumProduct

/-- A reason why an expression cannot be made. -/
inductive ConstructionError where
  /-- A literal has to be finite. -/
  | notFinite (value : Binary64)
  /-- A variable is named by ASCII letters. -/
  | invalidName (name : String)
  /-- An operation has two operands. -/
  | missingOperand (op : Operation) (side : Side)
  deriving DecidableEq

/-- The wording of a reason. -/
def ConstructionError.message : ConstructionError → String
  | notFinite value => value.text ++ " is not a finite number"
  | invalidName name =>
      Text.quoted name ++ " is not a valid variable name, expected one or more ASCII letters"
  | missingOperand op side =>
      "the " ++ side.name ++ " operand of \"" ++ op.symbol ++ "\" is missing"

end SumProduct
