import SumProduct.Parse.Run
import SumProduct.Proofs.Token.Layout

/-!
# Reading as a fold

A source is read by folding the steps of the state over its tokens and concluding
at its end or at the character that ends the tokens too early. A fold that fails
fails at its first refused token.
-/

namespace SumProduct

section Except

variable {ε α β σ : Type}

theorem bind_eq_ok_iff {x : Except ε α} {f : α → Except ε β} {b : β} :
    x >>= f = .ok b ↔ ∃ a, x = .ok a ∧ f a = .ok b := by
  cases x <;> simp [bind, Except.bind]

theorem bind_eq_error_iff {x : Except ε α} {f : α → Except ε β} {error : ε} :
    x >>= f = .error error ↔ x = .error error ∨ ∃ a, x = .ok a ∧ f a = .error error := by
  cases x <;> simp [bind, Except.bind]

theorem map_eq_ok_iff {x : Except ε α} {f : α → β} {b : β} :
    x.map f = .ok b ↔ ∃ a, x = .ok a ∧ f a = b := by
  cases x <;> simp [Except.map]

theorem map_eq_error_iff {x : Except ε α} {f : α → β} {error : ε} :
    x.map f = .error error ↔ x = .error error := by
  cases x <;> simp [Except.map]

theorem foldlM_append_of_ok {f : σ → α → Except ε σ} {s middle : σ} {first : List α}
    (hfirst : first.foldlM f s = .ok middle) (second : List α) :
    (first ++ second).foldlM f s = second.foldlM f middle := by
  rw [List.foldlM_append, hfirst]
  rfl

theorem foldlM_append_of_error {f : σ → α → Except ε σ} {s : σ} {error : ε} {first : List α}
    (hfirst : first.foldlM f s = .error error) (second : List α) :
    (first ++ second).foldlM f s = .error error := by
  rw [List.foldlM_append, hfirst]
  rfl

/-- A fold fails at the first element that is refused. -/
theorem exists_of_foldlM_eq_error {f : σ → α → Except ε σ} {s : σ} {error : ε} {list : List α}
    (hfold : list.foldlM f s = .error error) :
    ∃ before a after middle, list = before ++ a :: after ∧
      before.foldlM f s = .ok middle ∧ f middle a = .error error := by
  induction list generalizing s with
  | nil => cases hfold
  | cons a list ih =>
      rw [List.foldlM_cons] at hfold
      rcases bind_eq_error_iff.mp hfold with hstep | ⟨next, hstep, hrest⟩
      · exact ⟨[], a, list, s, rfl, rfl, hstep⟩
      · obtain ⟨before, b, after, middle, rfl, hbefore, herror⟩ := ih hrest
        refine ⟨a :: before, b, after, middle, rfl, ?_, herror⟩
        rw [List.foldlM_cons, hstep]
        exact hbefore

end Except

namespace ParseState

/-- The end of a reading, at the end of the source or at a character that starts no
token. -/
def conclude (state : ParseState) : Option (Char × Nat) → Except ParseError Expression
  | none => state.finish
  | some (character, index) => .error (state.stray character index)

section Head

variable {state : ParseState} {source rest : Source} {token : Token} {character : Char}
  {index : Nat}

theorem run_of_done (hhead : source.head = .done) : state.run source = state.finish := by
  rw [run]
  split <;> simp_all

theorem run_of_stray (hhead : source.head = .stray character index) :
    state.run source = .error (state.stray character index) := by
  rw [run]
  split <;> simp_all

theorem run_of_token (hhead : source.head = .token token rest) :
    state.run source = state.step token >>= fun next => next.run rest := by
  rw [run]
  split
  next hother => simp [hhead] at hother
  next hother => simp [hhead] at hother
  next token' rest' hother =>
    rw [hhead, Source.Head.token.injEq] at hother
    obtain ⟨rfl, rfl⟩ := hother
    cases state.step token <;> rfl

end Head

theorem run_eq_foldlM (state : ParseState) (source : Source) :
    state.run source =
      source.tokens.foldlM step state >>= fun last => last.conclude source.stray? := by
  induction source using Source.tokens_induction generalizing state with
  | done source hhead =>
      rw [Source.tokens_of_done hhead, Source.stray?_of_done hhead, run_of_done hhead]
      rfl
  | stray source character index hhead =>
      rw [Source.tokens_of_stray hhead, Source.stray?_of_stray hhead, run_of_stray hhead]
      rfl
  | token source token rest hhead ih =>
      rw [Source.tokens_of_token hhead, Source.stray?_of_token hhead, List.foldlM_cons,
        bind_assoc, run_of_token hhead]
      cases state.step token with
      | error error => rfl
      | ok next => exact ih next

end ParseState

theorem Expression.parse_eq_foldlM (text : String) :
    parse text = (Source.ofString text).tokens.foldlM ParseState.step .start >>=
      fun last => last.conclude (Source.ofString text).stray? :=
  ParseState.run_eq_foldlM .start (.ofString text)

end SumProduct
