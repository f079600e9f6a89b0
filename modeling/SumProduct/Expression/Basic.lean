import SumProduct.Expression.Error

/-!
# Expressions

Arithmetic expressions are trees: finite numbers and named variables at the
leaves, a sum or a product of two expressions at every other node. A tree is
kept as it was built. No grouping is forgotten and no order is changed.
-/

namespace SumProduct

/-- A finite number. -/
structure Literal where
  value : Binary64
  finite : value.isFinite = true
  deriving DecidableEq

/-- The literal of a number, which has to be finite. -/
def Literal.ofValue (value : Binary64) : Except ConstructionError Literal :=
  if finite : value.isFinite = true then .ok ⟨value, finite⟩ else .error (.notFinite value)

/-- One or more ASCII letters. -/
def isValidName (name : String) : Bool :=
  !name.toList.isEmpty && name.toList.all Char.isAlpha

/-- A named unknown. Names that differ in case are different. -/
structure Variable where
  name : String
  valid : isValidName name = true
  deriving DecidableEq

/-- A name has at least one letter. -/
theorem Variable.toList_name_ne_nil (x : Variable) : x.name.toList ≠ [] := by
  have hvalid := x.valid
  rw [isValidName, Bool.and_eq_true] at hvalid
  simpa using hvalid.1

/-- A name has nothing but letters. -/
theorem Variable.isAlpha_of_mem (x : Variable) : ∀ c ∈ x.name.toList, c.isAlpha = true := by
  have hvalid := x.valid
  rw [isValidName, Bool.and_eq_true] at hvalid
  exact List.all_eq_true.mp hvalid.2

/-- The variable of a name, which has to consist of ASCII letters. -/
def Variable.ofName (name : String) : Except ConstructionError Variable :=
  if valid : isValidName name = true then .ok ⟨name, valid⟩ else .error (.invalidName name)

/-- An arithmetic expression. -/
inductive Expression where
  | lit (literal : Literal)
  | var (name : Variable)
  | binary (op : Operation) (left right : Expression)

namespace Expression

/-- The literal expression of a number, which has to be finite. -/
def ofValue (value : Binary64) : Except ConstructionError Expression :=
  (Literal.ofValue value).map lit

/-- The variable expression of a name, which has to consist of ASCII letters. -/
def ofName (name : String) : Except ConstructionError Expression :=
  (Variable.ofName name).map var

/-- `left + right`. -/
def sum (left right : Expression) : Expression :=
  binary .plus left right

/-- `left * right`. -/
def product (left right : Expression) : Expression :=
  binary .times left right

instance : Add Expression := ⟨sum⟩

instance : Mul Expression := ⟨product⟩

/-- An operation on operands that may be missing; of two missing ones the left
is reported. -/
def tryBinary (op : Operation) : Option Expression → Option Expression →
    Except ConstructionError Expression
  | some left, some right => .ok (binary op left right)
  | none, _ => .error (.missingOperand op .left)
  | some _, none => .error (.missingOperand op .right)

/-- The operation at the root, with its operands. -/
def asBinary : Expression → Option (Operation × Expression × Expression)
  | binary op left right => some (op, left, right)
  | lit _ | var _ => none

/-- Whether the expression has operands. -/
def isCompound (e : Expression) : Bool :=
  e.asBinary.isSome

/-- The height of the tree; a leaf has height one. -/
def depth : Expression → Nat
  | lit _ | var _ => 1
  | binary _ left right => 1 + max left.depth right.depth

/-- There is no empty tree. -/
theorem depth_pos (e : Expression) : 0 < e.depth := by
  cases e <;> simp only [depth] <;> omega

end Expression

end SumProduct
