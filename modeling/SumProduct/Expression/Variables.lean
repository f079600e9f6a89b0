import SumProduct.Expression.Basic

/-!
# The variables of an expression

The variables are visited from left to right, each as often as it occurs. The
walk keeps the subtrees still to be visited on a stack, the next one on top, and
can be resumed after every variable.
-/

namespace SumProduct.Expression

/-- The number of nodes. -/
def size : Expression → Nat
  | lit _ | var _ => 1
  | binary _ left right => left.size + right.size + 1

/-- The number of nodes still to be visited. -/
def pendingSize : List Expression → Nat
  | [] => 0
  | e :: pending => e.size + pendingSize pending

/-- The stack after its top has been visited: an operation gives way to its two
operands, the left one on top, and a leaf to what was under it. -/
def visit : List Expression → List Expression
  | [] => []
  | binary _ left right :: pending => left :: right :: pending
  | lit _ :: pending | var _ :: pending => pending

/-- Every visit leaves fewer nodes. -/
theorem pendingSize_visit_lt (top : Expression) (pending : List Expression) :
    pendingSize (visit (top :: pending)) < pendingSize (top :: pending) := by
  cases top <;> simp only [visit, pendingSize, size] <;> omega

/-- The next variable of the walk and the stack after it. -/
def nextVariable : List Expression → Option (Variable × List Expression)
  | [] => none
  | var x :: pending => some (x, visit (var x :: pending))
  | top :: pending => nextVariable (visit (top :: pending))
termination_by pending => pendingSize pending
decreasing_by exact pendingSize_visit_lt top pending

/-- Finding a variable leaves fewer nodes. -/
theorem pendingSize_lt_of_nextVariable {pending rest : List Expression} {x : Variable}
    (hnext : nextVariable pending = some (x, rest)) : pendingSize rest < pendingSize pending := by
  fun_induction nextVariable pending with
  | case1 => cases hnext
  | case2 y pending =>
      cases hnext
      exact pendingSize_visit_lt (var x) pending
  | case3 top pending _ ih => exact Nat.lt_trans (ih hnext) (pendingSize_visit_lt top pending)

/-- The whole walk from a stack, after the variables found so far, latest first. -/
def walk (found : List Variable) (pending : List Expression) : List Variable :=
  match _hnext : nextVariable pending with
  | none => found.reverse
  | some (x, rest) => walk (x :: found) rest
termination_by pendingSize pending
decreasing_by exact pendingSize_lt_of_nextVariable _hnext

/-- The variables from left to right, repetitions kept. -/
def vars (e : Expression) : List Variable :=
  walk [] [e]

/-- The distinct names of the variables, in rising order of their bytes. -/
def variableNames (e : Expression) : List String :=
  (e.vars.map Variable.name).mergeSort.eraseReps

end SumProduct.Expression
