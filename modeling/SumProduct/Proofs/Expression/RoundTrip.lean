import SumProduct.Proofs.Expression.Equality
import SumProduct.Proofs.Expression.Tokens
import SumProduct.Proofs.Grammar.Acceptance

/-!
# Canonical texts are read back

The brackets of a canonical text nest less deeply than its tree, so a tree within the
limit on depth is within the limit on brackets too. Its text is read back to the very
same tree, down to the signs of its zeros.
-/

namespace SumProduct

/-! ## Brackets of canonical texts -/

/-- Tokens that close all their brackets come before any others. -/
theorem BracketsWithin.append {limit around : Nat} {first second : List Token}
    (hfirst : BracketsWithin limit around first) (hbalanced : openBrackets first = 0)
    (hsecond : BracketsWithin limit around second) :
    BracketsWithin limit around (first ++ second) := by
  intro front hfront
  rcases prefix_append_cases hfront with hshort | ⟨rest, rfl, hrest⟩
  · exact hfirst front hshort
  · rw [openBrackets_append, hbalanced, zero_add]
    exact hsecond rest hrest

/-- A token that is no bracket opens none. -/
theorem bracketsWithin_singleton {limit around : Nat} {token : Token} (haround : around ≤ limit)
    (htoken : openBrackets [token] = 0) : BracketsWithin limit around [token] := by
  intro front hfront
  rcases List.prefix_cons_iff.mp hfront with rfl | ⟨rest, rfl, hrest⟩
  · rw [openBrackets_nil]
    omega
  · rw [List.prefix_nil.mp hrest, htoken]
    omega

/-- Brackets around balanced tokens are one more than what they hold. -/
theorem BracketsWithin.bracketed {limit around : Nat} {opening closing : Token}
    {inner : List Token} (hopening : opening.kind = .openBracket)
    (hclosing : closing.kind = .closeBracket) (hroom : around < limit)
    (hbalanced : openBrackets inner = 0) (hinner : BracketsWithin limit (around + 1) inner) :
    BracketsWithin limit around (opening :: inner ++ [closing]) := by
  have hopen : openBrackets [opening] = 1 := openBrackets_singleton hopening
  have hclose : openBrackets [closing] = -1 := openBrackets_singleton hclosing
  intro front hfront
  rcases List.prefix_cons_iff.mp hfront with rfl | ⟨rest, rfl, hrest⟩
  · rw [openBrackets_nil]
    omega
  · rw [openBrackets_cons, hopen]
    rcases prefix_append_cases hrest with hshort | ⟨last, rfl, hlast⟩
    · have hle := hinner rest hshort
      omega
    · rw [openBrackets_append, hbalanced]
      rcases List.prefix_cons_iff.mp hlast with rfl | ⟨tail, rfl, htail⟩
      · rw [openBrackets_nil]
        omega
      · rw [List.prefix_nil.mp htail, hclose]
        omega

theorem Literal.bracketsWithin_tokens (literal : Literal) {limit around : Nat}
    (haround : around ≤ limit) (offset : Nat) :
    BracketsWithin limit around (literal.tokens offset) := by
  rw [tokens]
  split
  · exact BracketsWithin.append (bracketsWithin_singleton haround rfl) rfl
      (bracketsWithin_singleton haround rfl)
  · exact bracketsWithin_singleton haround rfl

/-- Every compound tree adds one bracket, and leaves add none. -/
theorem Expression.bracketsWithin_tokens (e : Expression) {limit around : Nat}
    (hdepth : around + e.depth ≤ limit + 1) (offset : Nat) :
    BracketsWithin limit around (e.tokens offset) := by
  induction e generalizing around offset with
  | lit literal => exact literal.bracketsWithin_tokens (Nat.le_of_succ_le_succ hdepth) offset
  | var x => exact bracketsWithin_singleton (Nat.le_of_succ_le_succ hdepth) rfl
  | binary op left right ihLeft ihRight =>
      rw [depth] at hdepth
      have hpos := left.depth_pos
      have hleft : BracketsWithin limit (around + 1) (left.tokens (offset + 1)) :=
        ihLeft (by omega) (offset + 1)
      have hright : BracketsWithin limit (around + 1) (right.tokens (left.signPlace offset + 2)) :=
        ihRight (by omega) (left.signPlace offset + 2)
      have hbalanced := (left.spells_tokens (offset + 1)).openBrackets_eq_zero
      have hbalanced' := (right.spells_tokens (left.signPlace offset + 2)).openBrackets_eq_zero
      have hsign : openBrackets [.standing op.kind op.symbol (left.signPlace offset)] = 0 := by
        cases op <;> rfl
      have hrest := (bracketsWithin_singleton (by omega) hsign).append hsign hright
      refine .bracketed rfl rfl (by omega) ?_ (hleft.append hbalanced hrest)
      rw [openBrackets_append, openBrackets_cons, hbalanced, hsign, hbalanced']
      rfl

/-! ## Reading back -/

/-- The canonical text of a tree within the limit on depth is read back to the same
tree, which is equal to it and has its hash. -/
theorem Expression.parse_text (e : Expression) (hdepth : e.depth ≤ maxDepth) :
    parse e.text = .ok e ∧ e.roundTrips = .ok true := by
  have hparse : parse e.text = .ok e := by
    apply parse_of_spells e.stray?_ofString_text
    · rw [tokens_ofString_text]
      exact (e.spells_tokens 0).expression_of_factor
    · rw [tokens_ofString_text]
      exact e.bracketsWithin_tokens (by omega) 0
    · exact hdepth
  refine ⟨hparse, ?_⟩
  rw [roundTrips, hparse, Except.map, Except.ok.injEq, Bool.and_eq_true]
  exact ⟨e.equal_self, beq_self_eq_true (hash e)⟩

/-- A negative zero and the greatest finite number. -/
theorem Expression.parse_text_extremes :
    let e := binary .times
      (binary .plus (lit ⟨⟨true, 0, by decide⟩, rfl⟩) (var ⟨"x", by decide⟩))
      (lit ⟨⟨false, Binary64.infinityCode - 1, by decide⟩, rfl⟩)
    parse e.text = .ok e ∧ e.roundTrips = .ok true :=
  parse_text _ (by decide)

end SumProduct
