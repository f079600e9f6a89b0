import SumProduct.Proofs.Checked.Descent

/-!
# Steps of a reader

What a reader that stands where a source starts looks at and takes is what the source starts
with, and it stands where the rest of the source starts then. A bracket that has been entered
can be left, with a result or with a refusal.
-/

namespace SumProduct

/-! ## One token of look-ahead -/

/-- The kind of the first token of a source, if it starts with one. -/
def Source.kind? (source : Source) : Option Token.Kind :=
  match source.head with
  | .token token _ => some token.kind
  | .done | .stray _ _ => none

theorem Source.exists_token_of_kind? {source : Source} {kind : Token.Kind}
    (hkind : source.kind? = some kind) :
    ∃ token rest, source.head = .token token rest ∧ token.kind = kind := by
  rw [Source.kind?] at hkind
  split at hkind
  next token rest hhead => exact ⟨token, rest, hhead, Option.some.inj hkind⟩
  next => cases hkind
  next => cases hkind

/-- A state that cannot do without another token, and has no error of its own where there is
none. -/
structure ParseState.Needy (state : ParseState) : Prop where
  finish : state.finish = .error .unexpectedEnd
  stray : ∀ character index, state.stray character index = .strayCharacter character index

/-- The reader stands where a source starts. -/
def Reader.At (reader : Reader) (source : Source) : Prop :=
  match reader.ahead with
  | none => reader.scanner.At source
  | some item => item = source.item ∧
      ∀ token rest, source.head = .token token rest → reader.scanner.At rest

theorem Reader.at_start (text : String) : (start text).At (Source.ofString text) :=
  ⟨[], rfl, rfl, rfl⟩

/-- What is pulled to look at the next item. -/
def Reader.pullsAt (reader : Reader) (source : Source) : List Event :=
  match reader.ahead with
  | none => [.pull source.item]
  | some _ => []

namespace Reading

variable {reader : Reader} {source rest : Source} {token : Token}

theorem look_eq (hat : reader.At source) :
    ∃ later, look.run reader = ⟨reader.pullsAt source, .ok source.item, later⟩ ∧ later.At source ∧
      later.ahead = some source.item ∧ later.nesting = reader.nesting := by
  obtain ⟨scanner, ahead, nesting⟩ := reader
  cases ahead with
  | none =>
      obtain ⟨later, hnext, hrest⟩ := Scanner.At.next_eq hat
      refine ⟨⟨later, some source.item, nesting⟩, ?_, ⟨rfl, hrest⟩, rfl, rfl⟩
      simp only [look, hnext]
      rfl
  | some item =>
      obtain ⟨rfl, hrest⟩ := hat
      exact ⟨_, rfl, ⟨rfl, hrest⟩, rfl, rfl⟩

/-- Looking at a token moves nothing. -/
theorem peek_eq (hat : reader.At source) :
    ∃ later, peek.run reader = ⟨reader.pullsAt source, .ok source.kind?, later⟩ ∧ later.At source ∧
      later.ahead = some source.item ∧ later.nesting = reader.nesting := by
  obtain ⟨later, hlook, hlater⟩ := look_eq hat
  refine ⟨later, ?_, hlater⟩
  rw [peek, run_bind_of_ok hlook]
  unfold Source.item Source.kind?
  cases source.head <;> exact congrArg (Traced.mk · _ later) (List.append_nil _)

theorem next_eq (hat : reader.At source) :
    ∃ later, next.run reader =
        ⟨reader.pullsAt source ++ [.take source.item], .ok source.item, later⟩ ∧
      later.ahead = none ∧ later.nesting = reader.nesting ∧
      ∀ token rest, source.head = .token token rest → later.At rest := by
  obtain ⟨later, hlook, hlater, hahead, hnesting⟩ := look_eq hat
  refine ⟨{ later with ahead := none }, ?_, rfl, hnesting, ?_⟩
  · rw [next, run_bind_of_ok hlook]
    rfl
  · rw [Reader.At, hahead] at hlater
    exact hlater.2

/-- A token is taken. -/
theorem advance_of_token (hat : reader.At source) (hhead : source.head = .token token rest) :
    ∃ later, advance.run reader =
        ⟨reader.pullsAt source ++ [.take source.item], .ok token, later⟩ ∧
      later.At rest ∧ later.ahead = none ∧ later.nesting = reader.nesting := by
  obtain ⟨later, hnext, hahead, hnesting, hrest⟩ := next_eq hat
  refine ⟨later, ?_, hrest token rest hhead, hahead, hnesting⟩
  rw [advance, run_bind_of_ok hnext, Source.item, hhead]
  exact congrArg (Traced.mk · _ later) (List.append_nil _)

/-- Where there is no token to take, a run that cannot do without refuses the text as well. -/
theorem advance_of_kind?_eq_none (hat : reader.At source) (hnone : source.kind? = none) :
    ∃ error later, advance.run reader =
        ⟨reader.pullsAt source ++ [.take source.item], .error (.error error), later⟩ ∧
      later.nesting = reader.nesting ∧
      ∀ state : ParseState, state.Needy → state.run source = .error error := by
  obtain ⟨later, hnext, -, hnesting, -⟩ := next_eq hat
  rw [advance, run_bind_of_ok hnext]
  cases hhead : source.head with
  | done =>
      refine ⟨.unexpectedEnd, later, ?_, hnesting, fun state hneedy => ?_⟩
      · rw [Source.item, hhead]
        exact congrArg (Traced.mk · _ later) (List.append_nil _)
      · rw [ParseState.run_of_done hhead, hneedy.finish]
  | stray character index =>
      refine ⟨.strayCharacter character index, later, ?_, hnesting, fun state hneedy => ?_⟩
      · rw [Source.item, hhead]
        exact congrArg (Traced.mk · _ later) (List.append_nil _)
      · rw [ParseState.run_of_stray hhead, hneedy.stray]
  | token token rest =>
      rw [Source.kind?, hhead] at hnone
      cases hnone

/-! ## Brackets -/

section Brackets

variable {α : Type} {part : Reading α} {nesting : Nat} {reader later : Reader}
  {events : List Event}

theorem attempt_of_ok {a : α} (hpart : part.run reader = ⟨events, .ok a, later⟩) :
    (attempt part).run reader = ⟨events, .ok (.ok a), later⟩ := by
  simp only [attempt, hpart]

theorem attempt_of_error {error : ParseError}
    (hpart : part.run reader = ⟨events, .error (.error error), later⟩) :
    (attempt part).run reader = ⟨events, .ok (.error error), later⟩ := by
  simp only [attempt, hpart]

/-- A bracket that has been entered is left. -/
theorem leave_of_succ (hnesting : reader.nesting = nesting + 1) :
    leave.run reader = ⟨[], .ok (), { reader with nesting }⟩ := by
  simp only [leave, hnesting]

theorem inside_of_ok {a : α} (hpart : part.run reader = ⟨events, .ok a, later⟩)
    (hnesting : later.nesting = nesting + 1) :
    (inside part).run reader = ⟨events, .ok a, { later with nesting }⟩ := by
  rw [inside, run_bind_of_ok (attempt_of_ok hpart), run_bind_of_ok (leave_of_succ hnesting)]
  exact congrArg (Traced.mk · _ _) (List.append_nil events)

theorem inside_of_error {error : ParseError}
    (hpart : part.run reader = ⟨events, .error (.error error), later⟩)
    (hnesting : later.nesting = nesting + 1) :
    (inside part).run reader = ⟨events, .error (.error error), { later with nesting }⟩ := by
  rw [inside, run_bind_of_ok (attempt_of_error hpart), run_bind_of_ok (leave_of_succ hnesting)]
  exact congrArg (Traced.mk · _ _) (List.append_nil events)

end Brackets

end Reading

end SumProduct
