import SumProduct.Expression.Variables

/-!
# Names of variables

The listed names of an expression are those of its variables: erasing the repetitions of
the sorted names loses none and adds none.
-/

namespace SumProduct

/-! ## Erasing repetitions -/

section EraseReps

variable {α : Type} [BEq α]

/-- What has been kept so far comes first. -/
theorem eraseRepsBy_loop_eq (last : α) (rest kept : List α) :
    List.eraseRepsBy.loop (· == ·) last rest kept =
      kept.reverse ++ List.eraseRepsBy.loop (· == ·) last rest [] := by
  induction rest generalizing last kept with
  | nil => simp only [List.eraseRepsBy.loop, List.reverse_cons, List.reverse_nil, List.nil_append]
  | cons next rest ih =>
      rw [List.eraseRepsBy.loop, List.eraseRepsBy.loop]
      split
      · exact ih last kept
      · rw [ih next (last :: kept), ih next [last], List.reverse_cons, List.append_assoc]
        rfl

/-- Of two equal neighbours the first one stays. -/
theorem eraseReps_cons_cons (first next : α) (rest : List α) :
    (first :: next :: rest).eraseReps =
      if first == next then (first :: rest).eraseReps
      else first :: (next :: rest).eraseReps := by
  change List.eraseRepsBy.loop (· == ·) first (next :: rest) [] = _
  rw [List.eraseRepsBy.loop]
  cases first == next with
  | true => rfl
  | false => exact eraseRepsBy_loop_eq next rest [first]

theorem mem_eraseReps [LawfulBEq α] {a : α} {list : List α} : a ∈ list.eraseReps ↔ a ∈ list := by
  induction list with
  | nil => rfl
  | cons first rest ih =>
      cases rest with
      | nil => rfl
      | cons next rest =>
          rw [eraseReps_cons_cons]
          split
          next hsame =>
            obtain rfl := eq_of_beq hsame
            rw [ih, List.mem_cons, List.mem_cons, List.mem_cons, or_self_left]
          next => rw [List.mem_cons, ih, ← List.mem_cons]

end EraseReps

namespace Expression

theorem mem_variableNames_iff {e : Expression} {name : String} :
    name ∈ e.variableNames ↔ ∃ x ∈ e.vars, x.name = name := by
  rw [variableNames, mem_eraseReps, List.mem_mergeSort, List.mem_map]

/-- The listed names have nothing but letters. -/
theorem isAlpha_of_mem_variableNames {e : Expression} {name : String}
    (hname : name ∈ e.variableNames) : ∀ c ∈ name.toList, c.isAlpha = true := by
  obtain ⟨x, _, rfl⟩ := mem_variableNames_iff.mp hname
  exact x.isAlpha_of_mem

end Expression

end SumProduct
