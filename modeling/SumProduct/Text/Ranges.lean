/-!
# Ranges of code points

A character property is given by the ranges of the code points that have it, in
rising order, both ends included.
-/

namespace SumProduct.Text

/-- Whether a character lies in one of the ranges. In rising order only the first
range that reaches up to the character can hold it. -/
def inRanges (ranges : List (Nat × Nat)) (c : Char) : Bool :=
  match ranges.find? (fun range => decide (c.toNat ≤ range.2)) with
  | some range => decide (range.1 ≤ c.toNat)
  | none => false

/-- The ranges are in order, apart from each other and not below `bound`. -/
def rising (bound : Nat) : List (Nat × Nat) → Bool
  | [] => true
  | (first, last) :: rest =>
      decide (bound ≤ first) && decide (first ≤ last) && rising (last + 1) rest

theorem le_of_rising {bound : Nat} {ranges : List (Nat × Nat)}
    (hrising : rising bound ranges = true) {range : Nat × Nat} (hmem : range ∈ ranges) :
    bound ≤ range.1 := by
  induction ranges generalizing bound with
  | nil => cases hmem
  | cons head rest ih =>
      simp only [rising, Bool.and_eq_true, decide_eq_true_eq] at hrising
      rcases List.mem_cons.mp hmem with rfl | hmem
      · exact hrising.1.1
      · have hrest := ih hrising.2 hmem
        omega

/-- On rising ranges the search finds exactly the characters of the ranges. -/
theorem inRanges_iff {bound : Nat} {ranges : List (Nat × Nat)}
    (hrising : rising bound ranges = true) (c : Char) :
    inRanges ranges c = true ↔ ∃ range ∈ ranges, range.1 ≤ c.toNat ∧ c.toNat ≤ range.2 := by
  induction ranges generalizing bound with
  | nil => simp [inRanges]
  | cons head rest ih =>
      simp only [rising, Bool.and_eq_true, decide_eq_true_eq] at hrising
      by_cases hreach : c.toNat ≤ head.2
      · have hhead : inRanges (head :: rest) c = decide (head.1 ≤ c.toNat) := by
          simp [inRanges, hreach]
        rw [hhead, decide_eq_true_iff]
        constructor
        · intro hfirst
          exact ⟨head, List.mem_cons_self, hfirst, hreach⟩
        · rintro ⟨range, hmem, hfirst, _⟩
          rcases List.mem_cons.mp hmem with rfl | hmem
          · exact hfirst
          · have hafter := le_of_rising hrising.2 hmem
            omega
      · have htail : inRanges (head :: rest) c = inRanges rest c := by
          simp [inRanges, hreach]
        rw [htail, ih hrising.2]
        constructor
        · rintro ⟨range, hmem, hbounds⟩
          exact ⟨range, List.mem_cons_of_mem _ hmem, hbounds⟩
        · rintro ⟨range, hmem, hbounds⟩
          rcases List.mem_cons.mp hmem with rfl | hmem
          · exact absurd hbounds.2 hreach
          · exact ⟨range, hmem, hbounds⟩

end SumProduct.Text
