import SumProduct.Expression.Variables

/-!
# Expressions read in order

A tree read in order is the reading of its left operand, its operation and the reading of
its right operand. The walk over the variables finds them in this order, and every subtree
is read as one stretch of the whole.
-/

namespace SumProduct

/-- What stands at one place of an expression: a leaf or an operation. -/
inductive Symbol where
  | lit (literal : Literal)
  | var (name : Variable)
  | op (operation : Operation)

namespace Symbol

/-- The literal of a symbol, if it is one. -/
def asLiteral? : Symbol → Option Literal
  | lit literal => some literal
  | var _ | op _ => none

/-- The variable of a symbol, if it is one. -/
def asVariable? : Symbol → Option Variable
  | var x => some x
  | lit _ | op _ => none

/-- The operation of a symbol, if it is one. -/
def asOperation? : Symbol → Option Operation
  | op operation => some operation
  | lit _ | var _ => none

end Symbol

namespace Expression

/-- The left operand, the operation and the right operand, each operand in order. -/
def inOrder : Expression → List Symbol
  | lit literal => [.lit literal]
  | var x => [.var x]
  | binary op left right => left.inOrder ++ .op op :: right.inOrder

/-! ## The walk over the variables -/

/-- The variables of some trees, one tree after the other. -/
def variablesOf (pending : List Expression) : List Variable :=
  (pending.flatMap inOrder).filterMap Symbol.asVariable?

@[simp] theorem variablesOf_nil : variablesOf [] = [] :=
  rfl

theorem variablesOf_cons (top : Expression) (pending : List Expression) :
    variablesOf (top :: pending) =
      top.inOrder.filterMap Symbol.asVariable? ++ variablesOf pending := by
  rw [variablesOf, List.flatMap_cons, List.filterMap_append, ← variablesOf]

/-- A visit drops a literal, or puts the operands of an operation in its place. -/
theorem variablesOf_visit {top : Expression} {pending : List Expression}
    (hvar : ∀ x, top ≠ var x) :
    variablesOf (visit (top :: pending)) = variablesOf (top :: pending) := by
  cases top with
  | lit literal => rw [visit, variablesOf_cons]; rfl
  | var x => exact absurd rfl (hvar x)
  | binary op left right =>
      have hsplit : (binary op left right).inOrder.filterMap Symbol.asVariable? =
          left.inOrder.filterMap Symbol.asVariable? ++
            right.inOrder.filterMap Symbol.asVariable? := by
        rw [inOrder, List.filterMap_append]
        rfl
      rw [visit, variablesOf_cons, variablesOf_cons, variablesOf_cons, hsplit, List.append_assoc]

/-- A walk goes on as long as there are variables, and finds the first of them. -/
theorem variablesOf_of_nextVariable (pending : List Expression) :
    variablesOf pending =
      match nextVariable pending with
      | none => []
      | some (x, rest) => x :: variablesOf rest := by
  fun_induction nextVariable pending with
  | case1 => rfl
  | case2 x pending => rw [variablesOf_cons]; rfl
  | case3 top pending hvar ih => rw [← ih, variablesOf_visit hvar]

theorem walk_eq (found : List Variable) (pending : List Expression) :
    walk found pending = found.reverse ++ variablesOf pending := by
  fun_induction walk found pending with
  | case1 found pending hnext =>
      rw [variablesOf_of_nextVariable, hnext, List.append_nil]
  | case2 found pending x rest hnext ih =>
      rw [ih, variablesOf_of_nextVariable pending, hnext, List.reverse_cons, List.append_assoc]
      rfl

/-- The walk finds the variables in order. -/
theorem vars_eq (e : Expression) : e.vars = e.inOrder.filterMap Symbol.asVariable? := by
  rw [vars, walk_eq, variablesOf_cons]
  simp

/-! ## Subtrees -/

/-- A tree stands inside another one, with the symbols read before and after it. -/
inductive Occurs (f : Expression) : Expression → List Symbol → List Symbol → Prop
  | whole : Occurs f f [] []
  | left {op : Operation} {left right : Expression} {before after : List Symbol}
      (hleft : Occurs f left before after) :
      Occurs f (binary op left right) before (after ++ .op op :: right.inOrder)
  | right {op : Operation} {left right : Expression} {before after : List Symbol}
      (hright : Occurs f right before after) :
      Occurs f (binary op left right) (left.inOrder ++ .op op :: before) after

end Expression

end SumProduct
