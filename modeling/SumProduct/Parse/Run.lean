import SumProduct.Expression.Equality
import SumProduct.Expression.Text
import SumProduct.Parse.State
import SumProduct.Token.Source

/-!
# Reading expressions

The tokens of a text are read one by one, each only after all before it have been
accepted, and the first reason to refuse the text is the one reported.
-/

namespace SumProduct

/-- Reads the rest of a source from a state. -/
def ParseState.run (state : ParseState) (source : Source) : Except ParseError Expression :=
  match _hhead : source.head with
  | .done => state.finish
  | .stray character index => .error (state.stray character index)
  | .token token rest =>
      match state.step token with
      | .error error => .error error
      | .ok next => next.run rest
termination_by source.rest.length
decreasing_by exact Source.length_lt_of_head _hhead

namespace Expression

/-- The expression that a text spells. -/
def parse (text : String) : Except ParseError Expression :=
  ParseState.start.run (Source.ofString text)

/-- Whether the canonical text of an expression reads back to an equal expression
that has the same hash. -/
def roundTrips (e : Expression) : Except ParseError Bool :=
  (parse e.text).map fun again => again == e && hash again == hash e

end Expression

end SumProduct
