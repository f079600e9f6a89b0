import SumProduct.Proofs.Parse.Fold

/-!
# Moved places

Reading does not look at places, it only hands them on. So tokens whose places have moved
are read to the same tree or to the same error, with the places in it moved alike.
-/

namespace SumProduct

/-- Bytes that come into a text at a place. -/
structure Insertion where
  place : Nat
  amount : Nat

namespace Insertion

variable (insertion : Insertion)

/-- Places from the insertion on move by its amount. -/
def moveIndex (index : Nat) : Nat :=
  if insertion.place ≤ index then index + insertion.amount else index

/-- A span moves as a whole if it starts at the insertion or behind it. -/
def moveSpan (span : Span) : Span :=
  if insertion.place ≤ span.start then
    ⟨span.start + insertion.amount, span.stop + insertion.amount⟩
  else span

section Moving

variable {insertion}

theorem moveIndex_of_le {index : Nat} (hle : insertion.place ≤ index) :
    insertion.moveIndex index = index + insertion.amount :=
  if_pos hle

theorem moveIndex_of_lt {index : Nat} (hlt : index < insertion.place) :
    insertion.moveIndex index = index :=
  if_neg (Nat.not_le_of_lt hlt)

theorem moveSpan_of_le {span : Span} (hle : insertion.place ≤ span.start) :
    insertion.moveSpan span = ⟨span.start + insertion.amount, span.stop + insertion.amount⟩ :=
  if_pos hle

theorem moveSpan_of_lt {span : Span} (hlt : span.start < insertion.place) :
    insertion.moveSpan span = span :=
  if_neg (Nat.not_le_of_lt hlt)

end Moving

/-- A character at a moved place. -/
def moveStray : Char × Nat → Char × Nat
  | (character, index) => (character, insertion.moveIndex index)

/-- A token at a moved place. -/
def moveToken (token : Token) : Token :=
  { token with span := insertion.moveSpan token.span }

/-- An operation that waits, at a moved place. -/
def movePending (pending : Pending) : Pending :=
  { pending with operator := insertion.moveSpan pending.operator }

/-- A level with its places moved. -/
def moveLevel (level : Level) : Level :=
  ⟨level.sum.map insertion.movePending, level.product.map insertion.movePending⟩

/-- A phase with its places moved. -/
def movePhase : Phase → Phase
  | .operand level => .operand (insertion.moveLevel level)
  | .magnitude level => .magnitude (insertion.moveLevel level)
  | .operator sum term => .operator (sum.map insertion.movePending) term

/-- A state with its places moved. -/
def moveState (state : ParseState) : ParseState :=
  ⟨insertion.movePhase state.phase, state.outer.map insertion.moveLevel⟩

/-- An error with its place moved. -/
def moveError : ParseError → ParseError
  | .strayCharacter character index => .strayCharacter character (insertion.moveIndex index)
  | .unexpectedEnd => .unexpectedEnd
  | .unexpectedToken found span expected =>
      .unexpectedToken found (insertion.moveSpan span) expected
  | .unreadableNumber span => .unreadableNumber (insertion.moveSpan span)
  | .tooDeep span => .tooDeep (insertion.moveSpan span)
  | .construction error => .construction error

/-- A result with the places of its error moved. -/
def moveResult {α β : Type} (move : α → β) : Except ParseError α → Except ParseError β
  | .ok a => .ok (move a)
  | .error error => .error (insertion.moveError error)

theorem moveResult_id {α : Type} (result : Except ParseError α) :
    insertion.moveResult id result = result.mapError insertion.moveError := by
  cases result <;> rfl

/-- Moving goes through the steps of a computation one by one. -/
theorem moveResult_bind {α β γ δ : Type} {move : α → β} {move' : γ → δ}
    {next : α → Except ParseError γ} {next' : β → Except ParseError δ}
    (hnext : ∀ a, next' (move a) = insertion.moveResult move' (next a))
    (result : Except ParseError α) :
    (insertion.moveResult move result >>= next') =
      insertion.moveResult move' (result >>= next) := by
  cases result with
  | error error => rfl
  | ok a => exact hnext a

/-! ## Steps -/

theorem completeWaiting_move (op : Operation) (waiting : Option Pending) (right : Expression) :
    completeWaiting op (waiting.map insertion.movePending) right =
      insertion.moveResult id (completeWaiting op waiting right) := by
  cases waiting with
  | none => rfl
  | some pending =>
      simp only [Option.map_some, completeWaiting, Pending.complete, movePending]
      split <;> rfl

theorem factor_move (level : Level) (factor : Expression) :
    (insertion.moveLevel level).factor factor =
      insertion.moveResult insertion.movePhase (level.factor factor) := by
  rw [Level.factor, moveLevel, completeWaiting_move, Level.factor]
  cases completeWaiting .times level.product factor <;> rfl

theorem toLiteral_move (token : Token) (negative : Bool) :
    (insertion.moveToken token).toLiteral negative =
      insertion.moveResult id (token.toLiteral negative) := by
  simp only [Token.toLiteral, moveToken]
  cases Numeral.ofString? token.text with
  | none => rfl
  | some numeral =>
      cases hvalue : Expression.ofValue
        (if negative then numeral.toBinary64.neg else numeral.toBinary64) <;> simp [hvalue] <;> rfl

theorem toVariable_move (token : Token) :
    (insertion.moveToken token).toVariable = insertion.moveResult id token.toVariable := by
  simp only [Token.toVariable, moveToken]
  cases Expression.ofName token.text <;> rfl

theorem refuse_move (state : ParseState) (token : Token) :
    (insertion.moveState state).refuse (insertion.moveToken token) =
      insertion.moveError (state.refuse token) := by
  obtain ⟨phase, outer⟩ := state
  have hempty : (outer.map insertion.moveLevel).isEmpty = outer.isEmpty := List.isEmpty_map
  cases phase <;>
    simp [ParseState.refuse, ParseState.expected, moveState, movePhase, moveToken, moveError]

/-- A factor is read and joined to what waits for it, wherever that stands. -/
theorem factor_bind_move (reading : Except ParseError Expression) (level : Level)
    (outer : List Level) :
    (do
      let factor ← insertion.moveResult id reading
      return (⟨← (insertion.moveLevel level).factor factor, outer.map insertion.moveLevel⟩ :
        ParseState)) =
      insertion.moveResult insertion.moveState (do
        let factor ← reading
        return ⟨← level.factor factor, outer⟩) := by
  refine insertion.moveResult_bind (fun factor => ?_) reading
  rw [id, factor_move]
  cases level.factor factor <;> rfl

@[simp] theorem kind_moveToken (token : Token) : (insertion.moveToken token).kind = token.kind :=
  rfl

theorem step_operand_move (level : Level) (outer : List Level) (token : Token) :
    (insertion.moveState ⟨.operand level, outer⟩).step (insertion.moveToken token) =
      insertion.moveResult insertion.moveState (ParseState.step ⟨.operand level, outer⟩ token) := by
  have hrefuse := insertion.refuse_move ⟨.operand level, outer⟩ token
  simp only [moveState, movePhase] at hrefuse ⊢
  cases hkind : token.kind with
  | numeral =>
      simp only [ParseState.step, kind_moveToken, hkind, toLiteral_move]
      exact insertion.factor_bind_move _ level outer
  | minus =>
      simp only [ParseState.step, kind_moveToken, hkind]
      rfl
  | name =>
      simp only [ParseState.step, kind_moveToken, hkind, toVariable_move]
      exact insertion.factor_bind_move _ level outer
  | openBracket =>
      simp only [ParseState.step, kind_moveToken, hkind, List.length_map]
      split <;> rfl
  | _ =>
      simp only [ParseState.step, kind_moveToken, hkind, hrefuse]
      rfl

theorem step_magnitude_move (level : Level) (outer : List Level) (token : Token) :
    (insertion.moveState ⟨.magnitude level, outer⟩).step (insertion.moveToken token) =
      insertion.moveResult insertion.moveState
        (ParseState.step ⟨.magnitude level, outer⟩ token) := by
  have hrefuse := insertion.refuse_move ⟨.magnitude level, outer⟩ token
  simp only [moveState, movePhase] at hrefuse ⊢
  cases hkind : token.kind with
  | numeral =>
      simp only [ParseState.step, kind_moveToken, hkind, toLiteral_move]
      exact insertion.factor_bind_move _ level outer
  | _ =>
      simp only [ParseState.step, kind_moveToken, hkind, hrefuse]
      rfl

theorem step_operator_move (sum : Option Pending) (term : Expression) (outer : List Level)
    (token : Token) :
    (insertion.moveState ⟨.operator sum term, outer⟩).step (insertion.moveToken token) =
      insertion.moveResult insertion.moveState
        (ParseState.step ⟨.operator sum term, outer⟩ token) := by
  have hrefuse := insertion.refuse_move ⟨.operator sum term, outer⟩ token
  simp only [moveState, movePhase] at hrefuse ⊢
  cases hkind : token.kind with
  | times =>
      simp only [ParseState.step, kind_moveToken, hkind]
      rfl
  | plus =>
      simp only [ParseState.step, kind_moveToken, hkind, completeWaiting_move]
      refine insertion.moveResult_bind (fun _ => ?_) _
      rfl
  | closeBracket =>
      simp only [ParseState.step, kind_moveToken, hkind, completeWaiting_move]
      refine insertion.moveResult_bind (fun total => ?_) _
      cases outer with
      | nil =>
          simp only [List.map_nil] at hrefuse ⊢
          rw [hrefuse]
          rfl
      | cons level outer =>
          simp only [List.map_cons, id, factor_move]
          cases level.factor total <;> rfl
  | _ =>
      simp only [ParseState.step, kind_moveToken, hkind, completeWaiting_move, hrefuse]
      refine insertion.moveResult_bind (fun _ => ?_) _
      rfl

/-- Steps hand places on. -/
theorem step_move (state : ParseState) (token : Token) :
    (insertion.moveState state).step (insertion.moveToken token) =
      insertion.moveResult insertion.moveState (state.step token) := by
  obtain ⟨phase, outer⟩ := state
  cases phase with
  | operand level => exact insertion.step_operand_move level outer token
  | magnitude level => exact insertion.step_magnitude_move level outer token
  | operator sum term => exact insertion.step_operator_move sum term outer token

/-! ## Runs -/

/-- A run over moved tokens hands places on. -/
theorem foldlM_move (state : ParseState) (tokens : List Token) :
    (tokens.map insertion.moveToken).foldlM ParseState.step (insertion.moveState state) =
      insertion.moveResult insertion.moveState (tokens.foldlM ParseState.step state) := by
  induction tokens generalizing state with
  | nil => rfl
  | cons token tokens ih =>
      rw [List.map_cons, List.foldlM_cons, step_move, List.foldlM_cons]
      exact insertion.moveResult_bind ih _

theorem conclude_move (state : ParseState) (place : Option (Char × Nat)) :
    (insertion.moveState state).conclude (place.map insertion.moveStray) =
      insertion.moveResult id (state.conclude place) := by
  obtain ⟨phase, outer⟩ := state
  cases phase with
  | operand level | magnitude level => cases place <;> rfl
  | operator sum term =>
      cases place with
      | none =>
          simp only [Option.map_none, ParseState.conclude, ParseState.finish, moveState, movePhase,
            completeWaiting_move, List.isEmpty_map]
          refine insertion.moveResult_bind (fun total => ?_) _
          cases outer <;> rfl
      | some place =>
          obtain ⟨character, index⟩ := place
          simp only [Option.map_some, moveStray, ParseState.conclude, ParseState.stray, moveState,
            movePhase, completeWaiting_move]
          cases completeWaiting .plus sum term <;> rfl

end Insertion

/-- A text with the tokens of another one, at moved places, is read to the same tree or to
the same error at its moved place. -/
theorem Expression.parse_eq_of_moved {text moved : String} (insertion : Insertion)
    (htokens : (Source.ofString moved).tokens =
      (Source.ofString text).tokens.map insertion.moveToken)
    (hstray : (Source.ofString moved).stray? =
      (Source.ofString text).stray?.map insertion.moveStray) :
    parse moved = (parse text).mapError insertion.moveError := by
  have hstart : insertion.moveState .start = .start := rfl
  rw [parse_eq_foldlM, parse_eq_foldlM, htokens, hstray, ← hstart, insertion.foldlM_move,
    ← insertion.moveResult_id]
  exact insertion.moveResult_bind (fun last => insertion.conclude_move last _) _

end SumProduct
