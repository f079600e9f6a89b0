import SumProduct.Decimal.Numeral
import SumProduct.Expression.Basic
import SumProduct.Parse.Error

/-!
# Expressions read in part

The grammar is

    expression  =  term { "+" term }
    term        =  factor { "*" factor }
    factor      =  numeral  |  "-" numeral  |  name  |  "(" expression ")"

and both operations group to the left. What has been read up to some token is
kept as a state: for every bracket still open, and for the text around them all,
the sum and the product that wait for their right operand. Every token takes a
state to the next one or is refused.
-/

namespace SumProduct

/-- A left operand and the place of the operation that waits for a right one. -/
structure Pending where
  left : Expression
  operator : Span

/-- What waits between two brackets: a sum for its next term, a product for its
next factor. -/
structure Level where
  sum : Option Pending
  product : Option Pending

/-- A level at which nothing has been read. -/
def Level.start : Level :=
  ⟨none, none⟩

/-- What may come next at the innermost level. -/
inductive Phase where
  /-- A factor. -/
  | operand (level : Level)
  /-- The numeral after a minus sign. -/
  | magnitude (level : Level)
  /-- An operation, a closing bracket or the end; `term` may still grow. -/
  | operator (sum : Option Pending) (term : Expression)

/-- All that has been read: the innermost level, and the levels outside of its
brackets from the inside out. -/
structure ParseState where
  phase : Phase
  outer : List Level

/-- The numeral of a token as a literal, negated after a minus sign. -/
def Token.toLiteral (token : Token) (negative : Bool) : Except ParseError Expression :=
  match Numeral.ofString? token.text with
  | none => .error (.unreadableNumber token.span)
  | some numeral =>
      let magnitude := numeral.toBinary64
      (Expression.ofValue (if negative then magnitude.neg else magnitude)).mapError .construction

/-- The name of a token as a variable. -/
def Token.toVariable (token : Token) : Except ParseError Expression :=
  (Expression.ofName token.text).mapError .construction

/-- Gives a waiting operation its right operand. The place of the operation is
reported if the tree becomes too deep. -/
def Pending.complete (pending : Pending) (op : Operation) (right : Expression) :
    Except ParseError Expression :=
  let whole := Expression.binary op pending.left right
  if maxDepth < whole.depth then .error (.tooDeep pending.operator) else .ok whole

/-- Gives an operation its right operand, if one waits. -/
def completeWaiting (op : Operation) (waiting : Option Pending) (right : Expression) :
    Except ParseError Expression :=
  match waiting with
  | none => .ok right
  | some pending => pending.complete op right

/-- Takes a factor into a level, whose term it extends at once. -/
def Level.factor (level : Level) (factor : Expression) : Except ParseError Phase :=
  (completeWaiting .times level.product factor).map (.operator level.sum)

/-- The kinds of token that may come next. -/
def ParseState.expected (state : ParseState) : List Token.Kind :=
  match state.phase with
  | .operand _ => [.numeral, .minus, .name, .openBracket]
  | .magnitude _ => [.numeral]
  | .operator _ _ =>
      if state.outer.isEmpty then [.plus, .times] else [.closeBracket, .plus, .times]

namespace ParseState

/-- Nothing has been read. -/
def start : ParseState :=
  ⟨.operand .start, []⟩

/-- The refusal of a token. -/
def refuse (state : ParseState) (token : Token) : ParseError :=
  .unexpectedToken token.kind token.span state.expected

/-- The state after one more token. A term ends with the first token that does
not extend it, and only then is it added to the sum that waits for it. -/
def step (state : ParseState) (token : Token) : Except ParseError ParseState :=
  match state.phase with
  | .operand level =>
      match token.kind with
      | .numeral => do
          let factor ← token.toLiteral false
          return ⟨← level.factor factor, state.outer⟩
      | .minus => return ⟨.magnitude level, state.outer⟩
      | .name => do
          let factor ← token.toVariable
          return ⟨← level.factor factor, state.outer⟩
      | .openBracket =>
          if maxDepth ≤ state.outer.length then throw (.tooDeep token.span)
          else return ⟨.operand .start, level :: state.outer⟩
      | _ => throw (state.refuse token)
  | .magnitude level =>
      match token.kind with
      | .numeral => do
          let factor ← token.toLiteral true
          return ⟨← level.factor factor, state.outer⟩
      | _ => throw (state.refuse token)
  | .operator sum term =>
      match token.kind with
      -- The term goes on, so the sum goes on waiting.
      | .times => return ⟨.operand ⟨sum, some ⟨term, token.span⟩⟩, state.outer⟩
      | .plus => do
          let total ← completeWaiting .plus sum term
          return ⟨.operand ⟨some ⟨total, token.span⟩, none⟩, state.outer⟩
      | .closeBracket => do
          let total ← completeWaiting .plus sum term
          match state.outer with
          | [] => throw (state.refuse token)
          -- What the bracket held is one factor of the level around it.
          | level :: outer => return ⟨← level.factor total, outer⟩
      | _ => do
          let _ ← completeWaiting .plus sum term
          throw (state.refuse token)

/-- The expression that has been read when no tokens are left. -/
def finish (state : ParseState) : Except ParseError Expression :=
  match state.phase with
  | .operand _ | .magnitude _ => throw .unexpectedEnd
  | .operator sum term => do
      let total ← completeWaiting .plus sum term
      if state.outer.isEmpty then return total else throw .unexpectedEnd

/-- The error at a character that starts no token. Like any end of a term it
first completes the sum that waits. -/
def stray (state : ParseState) (character : Char) (index : Nat) : ParseError :=
  match state.phase with
  | .operand _ | .magnitude _ => .strayCharacter character index
  | .operator sum term =>
      match completeWaiting .plus sum term with
      | .error error => error
      | .ok _ => .strayCharacter character index

end ParseState

end SumProduct
