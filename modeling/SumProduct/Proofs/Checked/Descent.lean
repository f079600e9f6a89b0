import SumProduct.Proofs.Checked.Scanner
import SumProduct.Proofs.Parse.Fold
import SumProduct.Proofs.Parse.Operand

/-!
# Reading by descent, with every check made

A second reader of expressions, which descends into the operands by the rules of the grammar
and looks at one token before it takes it. Whatever it relies on is checked where it is
relied on, and a failed check is a fault rather than an error of the text: that slices keep to
the text, that a token looked at is the token taken, that operations have signs, that what is
built is valid, that brackets are left as often as entered.

What it does on the way is recorded: what it pulls from the scanner and what it takes, the
rounds of its chains, and where the reading of an expression starts and ends, so that the
readings at work at any moment can be counted.
-/

namespace SumProduct

/-- Why a checked reading ends without an expression. -/
inductive Failure where
  /-- The text is no expression. -/
  | error (error : ParseError)
  /-- Something happened that must not happen. -/
  | fault (fault : Fault)

/-- What a scanner gives: a token, an error or the end. -/
abbrev Item :=
  Option (Except ParseError Token)

/-- What a reading does. -/
inductive Event where
  /-- It asks the scanner for an item. -/
  | pull (item : Item)
  /-- It goes behind an item that was pulled. -/
  | take (item : Item)
  /-- A chain goes on behind its sign. -/
  | round (op : Operation)
  /-- It starts to read an expression. -/
  | enter
  /-- It ends to read the expression that it started last. -/
  | leave

/-- A scanner, with what it has found if that was looked at but not taken yet, and the number
of brackets that have been entered. -/
structure Reader where
  scanner : Scanner
  ahead : Option Item
  nesting : Nat

/-- A reader at the start of a text. -/
def Reader.start (text : String) : Reader :=
  ⟨⟨text.toList, 0⟩, none, 0⟩

/-- What is done until there is a result, the result, and the reader that is left behind, by a
failure as well. -/
structure Traced (α : Type) where
  events : List Event
  result : Except Failure α
  reader : Reader

/-- What is done after some events. -/
def Traced.after {α : Type} (events : List Event) (traced : Traced α) : Traced α :=
  { traced with events := events ++ traced.events }

/-- A part of the descent, which goes on from a reader. -/
structure Reading (α : Type) where
  run : Reader → Traced α

namespace Reading

variable {α β : Type}

instance : Monad Reading where
  pure a := ⟨fun reader => ⟨[], .ok a, reader⟩⟩
  bind x f := ⟨fun reader =>
    let first := x.run reader
    match first.result with
    | .error failure => ⟨first.events, .error failure, first.reader⟩
    | .ok a => ((f a).run first.reader).after first.events⟩

section Bind

variable {x : Reading α} {reader later : Reader} {events : List Event}

theorem run_bind_of_ok {a : α} (hx : x.run reader = ⟨events, .ok a, later⟩) (f : α → Reading β) :
    (x >>= f).run reader = ((f a).run later).after events := by
  simp only [bind, hx]

theorem run_bind_of_error {failure : Failure} (hx : x.run reader = ⟨events, .error failure, later⟩)
    (f : α → Reading β) : (x >>= f).run reader = ⟨events, .error failure, later⟩ := by
  simp only [bind, hx]

end Bind

/-! ## Tokens -/

/-- Something that is done. -/
def emit (event : Event) : Reading Unit :=
  ⟨fun reader => ⟨[event], .ok (), reader⟩⟩

/-- A result for which nothing is done. -/
def quiet (result : Except Failure α) : Reading α :=
  ⟨fun reader => ⟨[], result, reader⟩⟩

/-- A failure, which ends the reading. -/
def fail (failure : Failure) : Reading α :=
  quiet (.error failure)

/-- The next item, which is looked at only. It is pulled if it was not looked at before. -/
def look : Reading Item where
  run reader :=
    match reader.ahead with
    | some item => ⟨[], .ok item, reader⟩
    | none =>
        match reader.scanner.next with
        | .error fault => ⟨[], .error (.fault fault), reader⟩
        | .ok (item, scanner) =>
            ⟨[.pull item], .ok item, { reader with scanner, ahead := some item }⟩

/-- Goes behind an item that was looked at. -/
def take (item : Item) : Reading Item where
  run reader := ⟨[.take item], .ok item, { reader with ahead := none }⟩

/-- The next item, which is taken. -/
def next : Reading Item := do
  take (← look)

/-- The kind of the next token, if there is one. -/
def peek : Reading (Option Token.Kind) := do
  match ← look with
  | some (.ok token) => return some token.kind
  | some (.error _) | none => return none

/-- The next token, without which the text is refused. -/
def advance : Reading Token := do
  match ← next with
  | some (.ok token) => return token
  | some (.error error) => fail (.error error)
  | none => fail (.error .unexpectedEnd)

/-- The sign with which a chain of an operation goes on. -/
def goOn (op : Operation) : Reading Token := do
  emit (.round op)
  advance

/-! ## Brackets -/

/-- Goes into one more bracket, and tells how many are open then. -/
def enter : Reading Nat where
  run reader := ⟨[], .ok (reader.nesting + 1), { reader with nesting := reader.nesting + 1 }⟩

/-- Goes out of the innermost bracket. -/
def leave : Reading Unit where
  run reader :=
    match reader.nesting with
    | 0 => ⟨[], .error (.fault .notNested), reader⟩
    | nesting + 1 => ⟨[], .ok (), { reader with nesting }⟩

/-- The result of a part that may refuse the text. Its refusal does not end the reading yet. -/
def attempt (part : Reading α) : Reading (Except ParseError α) where
  run reader :=
    let tried := part.run reader
    match tried.result with
    | .ok a => ⟨tried.events, .ok (.ok a), tried.reader⟩
    | .error (.error error) => ⟨tried.events, .ok (.error error), tried.reader⟩
    | .error (.fault fault) => ⟨tried.events, .error (.fault fault), tried.reader⟩

/-- A part that is read inside of a bracket, which is left before a refusal is passed on. -/
def inside (part : Reading α) : Reading α := do
  let read ← attempt part
  leave
  quiet (read.mapError .error)

/-- A part that reads a whole expression. It is at work until it has a result, be it a failure. -/
def whole (part : Reading α) : Reading α where
  run reader :=
    let done := part.run reader
    { done with events := .enter :: (done.events ++ [.leave]) }

end Reading

/-! ## Leaves -/

/-- The operation that a kind of token stands for. -/
def Token.Kind.checkedOperation : Token.Kind → Except Failure Operation
  | .plus => .ok .plus
  | .times => .ok .times
  | kind => .error (.fault (.noOperation kind))

/-- The literal of a number, checked again once it is made. -/
def Literal.checkedOfValue (value : Binary64) : Except Failure Literal := do
  let literal ← (Literal.ofValue value).mapError fun error => .error (.construction error)
  if literal.value.isFinite then return literal
  else throw (.fault (.notFinite literal.value))

/-- The variable of a name, checked again once it is made. -/
def Variable.checkedOfName (name : String) : Except Failure Variable := do
  let x ← (Variable.ofName name).mapError fun error => .error (.construction error)
  if isValidName x.name then return x else throw (.fault (.invalidName x.name))

/-- The literal of a numeral. -/
def Token.checkedLiteral (token : Token) (negative : Bool) : Except Failure Expression :=
  if token.kind = .numeral then
    match Numeral.ofString? token.text with
    | none => throw (.error (.unreadableNumber token.span))
    | some numeral => (Literal.checkedOfValue (numeral.signed negative)).map .lit
  else throw (.fault (.noNumeral token.kind))

/-- The variable of a name. -/
def Token.checkedVariable (token : Token) : Except Failure Expression :=
  (Variable.checkedOfName token.text).map .var

namespace Reading

/-! ## The descent -/

/-- The operands of an operation that come after the first, with the depth of what has been
read. There are fewer of them than `rounds`. -/
def more (sign : Token.Kind) (op : Operation) (operand : Reading Expression) :
    Nat → Expression → Nat → Reading Expression
  | 0, _, _ => fail (.fault .exhausted)
  | rounds + 1, left, depth => do
      if (← peek) = some sign then
        let token ← goOn op
        let right ← operand
        let depth := 1 + max depth right.depth
        if maxDepth < depth then fail (.error (.tooDeep token.span))
        else more sign op operand rounds (.binary op left right) depth
      else return left

/-- Operands with the signs of an operation between them. -/
def chain (sign : Token.Kind) (operand : Reading Expression) (rounds : Nat) :
    Reading Expression := do
  let op ← quiet sign.checkedOperation
  let left ← operand
  more sign op operand rounds left left.depth

/-- A numeral, after a minus sign. -/
def negated : Reading Expression := do
  let token ← advance
  if token.kind = .numeral then quiet (token.checkedLiteral true)
  else fail (.error (.unexpectedToken token.kind token.span [.numeral]))

/-- The bracket that closes an expression. -/
def closed (e : Expression) : Reading Expression := do
  let closing ← advance
  if closing.kind = .closeBracket then return e
  else fail (.error (.unexpectedToken closing.kind closing.span [.closeBracket, .plus, .times]))

/-- What stands in a bracket that has been opened, and the bracket that closes it. -/
def bracketed (opening : Token) (inner : Reading Expression) : Reading Expression := do
  if maxDepth < (← enter) then fail (.error (.tooDeep opening.span))
  else closed (← inside inner)

/-- A factor, with no more brackets inside each other than `levels` is. -/
def factor (rounds : Nat) : Nat → Reading Expression
  | 0 => fail (.fault .exhausted)
  | levels + 1 => do
      match ← peek with
      | some .numeral =>
          let token ← advance
          quiet (token.checkedLiteral false)
      | some .minus =>
          let _ ← advance
          negated
      | some .name =>
          let token ← advance
          quiet token.checkedVariable
      | some .openBracket =>
          let opening ← advance
          bracketed opening
            (whole (chain .plus (chain .times (factor rounds levels) rounds) rounds))
      | _ =>
          let token ← advance
          fail (.error (.unexpectedToken token.kind token.span
            [.numeral, .minus, .name, .openBracket]))

/-- A sum of products of factors. -/
def expression (rounds levels : Nat) : Reading Expression :=
  whole (chain .plus (chain .times (factor rounds levels) rounds) rounds)

/-- An expression, if there is nothing behind it. -/
def ended (e : Expression) : Reading Expression := do
  match ← next with
  | none => return e
  | some (.ok token) =>
      fail (.error (.unexpectedToken token.kind token.span [.plus, .times]))
  | some (.error error) => fail (.error error)

end Reading

/-- What is done to read the expression that a text spells, with the given numbers of rounds
and levels. -/
def Traced.parse (rounds levels : Nat) (text : String) : Traced Expression :=
  (Reading.expression rounds levels >>= Reading.ended).run (.start text)

namespace Checked

/-- The expression that a text spells, read with the given numbers of rounds and levels. -/
def parseWithin (rounds levels : Nat) (text : String) : Except Failure Expression :=
  (Traced.parse rounds levels text).result

/-- The expression that a text spells. It has fewer operands than characters, and no more
brackets inside each other than may be open. -/
def parse (text : String) : Except Failure Expression :=
  parseWithin (text.toList.length + 1) (maxDepth + 1) text

end Checked

end SumProduct
