import Mathlib.Logic.Relation
import SumProduct.Expression.Variables
import SumProduct.Proofs.Expression.Equality

/-!
# Groupings of operands

One operation can be put between operands in a row in many ways, one for each full
bracketing. Equal trees have equally many nodes, and the more operands the left side of a
bracketing takes in, the more nodes it has. So trees of different bracketings differ, and no
tree is equal to a part of itself.
-/

namespace SumProduct

namespace Expression

/-! ## Sizes of equal trees -/

theorem size_dropZeroSigns (e : Expression) : e.dropZeroSigns.size = e.size := by
  induction e with
  | lit literal => rfl
  | var x => rfl
  | binary op left right ihLeft ihRight => simp only [dropZeroSigns, size, ihLeft, ihRight]

/-- Equal trees have equally many nodes. -/
theorem size_eq_of_beq {a b : Expression} (heq : (a == b) = true) : a.size = b.size := by
  rw [← a.size_dropZeroSigns, beq_iff_dropZeroSigns_eq.mp heq, b.size_dropZeroSigns]

/-- Compound trees are equal operand by operand. -/
theorem binary_beq_binary_iff {op op' : Operation} {left right left' right' : Expression} :
    (binary op left right == binary op' left' right') = true ↔
      op = op' ∧ (left == left') = true ∧ (right == right') = true := by
  simp only [beq_iff_dropZeroSigns_eq, dropZeroSigns, binary.injEq]

/-! ## Parts of a tree -/

/-- An expression is the left or the right operand of another one. -/
inductive IsOperand : Expression → Expression → Prop
  | left (op : Operation) (left right : Expression) : IsOperand left (binary op left right)
  | right (op : Operation) (left right : Expression) : IsOperand right (binary op left right)

theorem IsOperand.size_lt {f e : Expression} (hoperand : IsOperand f e) : f.size < e.size := by
  cases hoperand <;> simp only [size] <;> omega

/-- An operand of an operand, at any depth, is smaller than the whole. -/
theorem size_lt_of_transGen {f e : Expression} (hpart : Relation.TransGen IsOperand f e) :
    f.size < e.size := by
  induction hpart with
  | single hoperand => exact hoperand.size_lt
  | tail _ hoperand ih => exact ih.trans hoperand.size_lt

theorem beq_eq_false_of_size_lt {a b : Expression} (hsize : a.size < b.size) :
    (a == b) = false := by
  rw [Bool.eq_false_iff]
  exact fun heq => hsize.ne (size_eq_of_beq heq)

/-! ## Nodes of operands in a row -/

/-- The nodes of some operands, and one more node for each of them. -/
def weight (operands : List Expression) : Nat :=
  pendingSize operands + operands.length

theorem weight_append (first second : List Expression) :
    weight (first ++ second) = weight first + weight second := by
  have hnodes : pendingSize (first ++ second) = pendingSize first + pendingSize second := by
    induction first with
    | nil => simp [pendingSize]
    | cons e first ih => simp only [List.cons_append, pendingSize, ih]; omega
  rw [weight, weight, weight, hnodes, List.length_append]
  omega

theorem eq_nil_of_weight_eq_zero {operands : List Expression} (hweight : weight operands = 0) :
    operands = [] := by
  rw [weight] at hweight
  exact List.eq_nil_of_length_eq_zero (by omega)

/-- Operands in a row are split at one place only if the sides have the same weight. -/
theorem append_inj_of_weight {first second first' second' : List Expression}
    (hsame : first ++ second = first' ++ second') (hweight : weight first = weight first') :
    first = first' ∧ second = second' := by
  have hlength : first.length = first'.length := by
    rcases List.append_eq_append_iff.mp hsame with ⟨more, rfl, _⟩ | ⟨more, rfl, _⟩
    all_goals
      rw [weight_append] at hweight
      have hmore : weight more = 0 := by omega
      rw [eq_nil_of_weight_eq_zero hmore, List.append_nil]
  exact List.append_inj hsame hlength

end Expression

/-! ## Full bracketings -/

/-- A full bracketing of operands in a row. -/
inductive Grouping where
  | operand (e : Expression)
  | join (left right : Grouping)

namespace Grouping

open Expression

/-- The operands from left to right. -/
def operands : Grouping → List Expression
  | operand e => [e]
  | join left right => left.operands ++ right.operands

/-- The tree that a bracketing builds with an operation. -/
def build (op : Operation) : Grouping → Expression
  | operand e => e
  | join left right => binary op (left.build op) (right.build op)

theorem length_operands_pos (g : Grouping) : 0 < g.operands.length := by
  induction g with
  | operand e => exact Nat.one_pos
  | join left right ihLeft _ => rw [operands, List.length_append]; omega

/-- A single operand has one bracketing only. -/
theorem operands_join_ne (left right : Grouping) (e : Expression) :
    (join left right).operands ≠ [e] := by
  intro hsingle
  have hlength := congrArg List.length hsingle
  have hleft := left.length_operands_pos
  have hright := right.length_operands_pos
  simp only [operands, List.length_append, List.length_singleton] at hlength
  omega

/-- The operations between the operands add one node less than there are operands. -/
theorem size_build (op : Operation) (g : Grouping) :
    (g.build op).size + 1 = weight g.operands := by
  induction g with
  | operand e => simp [build, operands, weight, pendingSize]
  | join left right ihLeft ihRight =>
      rw [operands, weight_append, ← ihLeft, ← ihRight, build, size]
      omega

/-- Bracketings of the same operands that build equal trees are the same. -/
theorem eq_of_build_beq {op : Operation} {g h : Grouping} (hoperands : g.operands = h.operands)
    (hbuild : (g.build op == h.build op) = true) : g = h := by
  induction g generalizing h with
  | operand e =>
      cases h with
      | operand e' => rw [List.singleton_inj.mp hoperands]
      | join left right => exact absurd hoperands.symm (operands_join_ne left right e)
  | join left right ihLeft ihRight =>
      cases h with
      | operand e => exact absurd hoperands (operands_join_ne left right e)
      | join left' right' =>
          obtain ⟨-, hleft, hright⟩ := binary_beq_binary_iff.mp hbuild
          -- Equal left sides have the same weight, so they take in the same operands.
          have hweight : weight left.operands = weight left'.operands := by
            rw [← left.size_build op, ← left'.size_build op, size_eq_of_beq hleft]
          obtain ⟨hfirst, hsecond⟩ := append_inj_of_weight hoperands hweight
          rw [ihLeft hfirst hleft, ihRight hsecond hright]

end Grouping

namespace Expression

/-- The two bracketings of three operands build different trees. -/
theorem beq_regrouped_eq_false (op : Operation) (a b c : Expression) :
    (binary op a (binary op b c) == binary op (binary op a b) c) = false := by
  rw [Bool.eq_false_iff]
  intro heq
  have hoperands : (Grouping.join (.operand a) (.join (.operand b) (.operand c))).operands =
      (Grouping.join (.join (.operand a) (.operand b)) (.operand c)).operands := rfl
  cases Grouping.eq_of_build_beq hoperands heq

/-- Operands can change places only if they are equal. -/
theorem beq_swapped_iff {op : Operation} {a b : Expression} :
    (binary op a b == binary op b a) = true ↔ (a == b) = true := by
  rw [binary_beq_binary_iff]
  exact ⟨fun h => h.2.1, fun heq => ⟨rfl, heq, BEq.symm heq⟩⟩

/-- Different bracketings of the same operands build unequal trees, whatever the operands
are. So no tree is equal to a proper part of itself, no three operands can be regrouped, and
two operands can be swapped only if they are equal. -/
theorem groupings_never_collapse (op : Operation) :
    (∀ g h : Grouping, g.operands = h.operands → g ≠ h → (g.build op == h.build op) = false) ∧
      (∀ f e : Expression, Relation.TransGen IsOperand f e → (f == e) = false) ∧
      (∀ a b c : Expression,
        (binary op a (binary op b c) == binary op (binary op a b) c) = false) ∧
      ∀ a b : Expression, (binary op a b == binary op b a) = true ↔ (a == b) = true := by
  refine ⟨fun g h hoperands hne => ?_, fun f e hpart => ?_, beq_regrouped_eq_false op,
    fun a b => beq_swapped_iff⟩
  · rw [Bool.eq_false_iff]
    exact fun hbuild => hne (Grouping.eq_of_build_beq hoperands hbuild)
  · exact beq_eq_false_of_size_lt (size_lt_of_transGen hpart)

/-- Operands that hold each other, so that one bracketing builds a part of what the other
one puts beside it. -/
theorem groupings_never_collapse_nested :
    let x := var ⟨"x", by decide⟩
    let twice := binary .times x x
    let g := Grouping.join (.operand x) (.join (.operand twice) (.operand x))
    let h := Grouping.join (.join (.operand x) (.operand twice)) (.operand x)
    g.operands = h.operands ∧ g ≠ h ∧ (g.build .times == h.build .times) = false ∧
      Relation.TransGen IsOperand x (g.build .times) ∧ (x == g.build .times) = false := by
  intro x twice g h
  have hne : g ≠ h := by simp [g, h]
  have hpart : Relation.TransGen IsOperand x (g.build .times) :=
    .tail (.tail (.single (.left _ x x)) (.left _ twice x)) (.right _ x (binary .times twice x))
  obtain ⟨hgroupings, hparts, -, -⟩ := groupings_never_collapse .times
  exact ⟨rfl, hne, hgroupings g h rfl hne, hpart, hparts x _ hpart⟩

end Expression

end SumProduct
