import SumProduct.Expression.Basic

/-!
# The canonical text of expressions

Every compound expression stands in brackets of its own, so that the text shows
the whole tree. A literal always has a point, a variable is its name.
-/

namespace SumProduct

/-- A literal in full, in as few digits as read back to it. -/
def Literal.text (literal : Literal) : String :=
  literal.value.pointedText

/-- The one canonical text of an expression. -/
def Expression.text : Expression → String
  | lit literal => literal.text
  | var x => x.name
  | binary op left right => "(" ++ left.text ++ " " ++ op.symbol ++ " " ++ right.text ++ ")"

instance : ToString Literal := ⟨Literal.text⟩

instance : ToString Expression := ⟨Expression.text⟩

end SumProduct
