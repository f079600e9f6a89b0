import SumProduct.Proofs.Checked.Agreement

/-!
# Rounds and levels to spare

The descent is given a number of rounds for its chains and a number of levels for its brackets.
A reading that does not run out of them does the same with more. None runs out of rounds for all
characters of its text and levels for all brackets that may be open.
-/

namespace SumProduct

variable {α β : Type}

/-- What is done with some rounds and levels and with more of them: the same, if the fewer
ones are enough. -/
def Traced.Approximates (x y : Traced α) : Prop :=
  x.result = .error (.fault .exhausted) ∨ x = y

namespace Reading

/-- A part of the descent that does from every reader what another one does, if its rounds and
levels are enough. -/
def Approximates (x y : Reading α) : Prop :=
  ∀ reader, (x.run reader).Approximates (y.run reader)

variable {x y : Reading α} {f g : α → Reading β} {part part' : Reading Expression}
  {rounds rounds' levels levels' : Nat}

theorem Approximates.refl (x : Reading α) : x.Approximates x :=
  fun _ => Or.inr rfl

theorem approximates_exhausted (y : Reading α) : (fail (.fault .exhausted)).Approximates y :=
  fun _ => Or.inl rfl

theorem Approximates.bind (hx : x.Approximates y) (hf : ∀ a, (f a).Approximates (g a)) :
    (x >>= f).Approximates (y >>= g) := by
  intro reader
  rcases hx reader with hexhausted | heq
  · exact Or.inl (by rw [run_bind_of_error (congrArg (Traced.mk _ · _) hexhausted)])
  · generalize hfirst : x.run reader = first at heq
    obtain ⟨events, result, later⟩ := first
    cases result with
    | error failure =>
        rw [run_bind_of_error hfirst, run_bind_of_error heq.symm]
        exact Or.inr rfl
    | ok a =>
        rw [run_bind_of_ok hfirst, run_bind_of_ok heq.symm]
        exact (hf a later).imp id (congrArg (Traced.after events))

/-- A part that runs out of rounds or levels is not caught. -/
theorem Approximates.attempt (hx : x.Approximates y) :
    (attempt x).Approximates (attempt y) := by
  intro reader
  unfold Reading.attempt
  rcases hx reader with hexhausted | heq
  · exact Or.inl (by simp only [hexhausted])
  · exact Or.inr (by simp only [heq])

theorem Approximates.inside (hx : x.Approximates y) : (inside x).Approximates (inside y) :=
  hx.attempt.bind fun _ => .refl _

theorem Approximates.whole (hx : x.Approximates y) : (whole x).Approximates (whole y) := by
  intro reader
  unfold Reading.whole
  exact (hx reader).imp id fun heq => by simp only [heq]

theorem Approximates.more (hpart : part.Approximates part') (hrounds : rounds ≤ rounds')
    (sign : Token.Kind) (op : Operation) (left : Expression) (depth : Nat) :
    (more sign op part rounds left depth).Approximates
      (more sign op part' rounds' left depth) := by
  induction rounds generalizing rounds' left depth with
  | zero => exact approximates_exhausted _
  | succ rounds ih =>
      obtain ⟨rounds', rfl⟩ := Nat.exists_eq_add_of_lt hrounds
      refine (Approximates.refl peek).bind fun kind => ?_
      split
      next hkind =>
        refine (Approximates.refl (goOn op)).bind fun token => hpart.bind fun right => ?_
        dsimp only
        split
        next => exact .refl _
        next => exact ih (Nat.le_add_right _ _) _ _
      next => exact .refl _

theorem Approximates.chain (hpart : part.Approximates part') (hrounds : rounds ≤ rounds')
    (sign : Token.Kind) : (chain sign part rounds).Approximates (chain sign part' rounds') :=
  (Approximates.refl _).bind fun op => hpart.bind fun left =>
    hpart.more hrounds sign op left left.depth

theorem Approximates.bracketed (hpart : part.Approximates part') (opening : Token) :
    (bracketed opening part).Approximates (bracketed opening part') := by
  refine (Approximates.refl enter).bind fun nesting => ?_
  split
  next => exact .refl _
  next => exact hpart.inside.bind fun _ => .refl _

theorem approximates_factor (hrounds : rounds ≤ rounds') (hlevels : levels ≤ levels') :
    (factor rounds levels).Approximates (factor rounds' levels') := by
  induction levels generalizing levels' with
  | zero => exact approximates_exhausted _
  | succ levels ih =>
      obtain ⟨levels', rfl⟩ := Nat.exists_eq_add_of_lt hlevels
      refine (Approximates.refl peek).bind fun kind => ?_
      split
      case h_4 =>
        -- Only brackets take levels.
        have hfactor := ih (Nat.le_add_right levels levels')
        have hwhole := ((hfactor.chain hrounds .times).chain hrounds .plus).whole
        exact (Approximates.refl advance).bind fun opening => hwhole.bracketed opening
      all_goals exact .refl _

theorem approximates_expression (hrounds : rounds ≤ rounds') (hlevels : levels ≤ levels') :
    (expression rounds levels).Approximates (expression rounds' levels') :=
  (((approximates_factor hrounds hlevels).chain hrounds .times).chain hrounds .plus).whole

end Reading

/-- With rounds for all characters and levels for all brackets that may be open, more of them
change nothing in what is done. -/
theorem Traced.parse_eq_parse (text : String) {rounds levels : Nat}
    (hrounds : text.toList.length < rounds) (hlevels : maxDepth < levels) :
    parse rounds levels text = parse (text.toList.length + 1) (maxDepth + 1) text := by
  have hrounds' : text.toList.length + 1 ≤ rounds := hrounds
  have hlevels' : maxDepth + 1 ≤ levels := hlevels
  have happroximates : (parse (text.toList.length + 1) (maxDepth + 1) text).Approximates
      (parse rounds levels text) :=
    (Reading.approximates_expression hrounds' hlevels').bind (fun e => .refl (Reading.ended e)) _
  rcases happroximates with hexhausted | heq
  · rw [← Checked.parseWithin, ← Checked.parse, Checked.parse_eq] at hexhausted
    cases hparse : Expression.parse text <;> rw [hparse] at hexhausted <;> cases hexhausted
  · exact heq.symm

end SumProduct
