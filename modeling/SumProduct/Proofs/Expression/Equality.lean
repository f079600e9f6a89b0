import SumProduct.Expression.Equality
import SumProduct.Proofs.Binary64.Nearest

/-!
# Equality by normal forms

Two expressions are equal exactly if they become the same tree once every zero has lost
its sign. Equality is an equivalence for that reason.
-/

namespace SumProduct

namespace Binary64

/-- Numbers have the same value if they agree once the sign of a zero is dropped. -/
theorem sameValue_iff {x y : Binary64} :
    x.sameValue y = true ↔ x.dropZeroSign = y.dropZeroSign := by
  obtain ⟨negative, magnitude, hlt⟩ := x
  obtain ⟨negative', magnitude', hlt'⟩ := y
  simp only [sameValue, dropZeroSign, isZero, mk.injEq, Bool.and_eq_true, Bool.or_eq_true,
    beq_iff_eq]
  constructor
  · rintro ⟨rfl, rfl | hzero⟩
    · exact ⟨rfl, rfl⟩
    · simp [hzero]
  · rintro ⟨hnegative, rfl⟩
    refine ⟨rfl, ?_⟩
    by_cases hzero : magnitude = 0
    · exact Or.inr hzero
    · have hsome : (magnitude == 0) = false := beq_eq_false_iff_ne.mpr hzero
      exact Or.inl (by simpa [hsome] using hnegative)

/-- Only a zero can lose its sign. -/
theorem dropZeroSign_of_ne_zero {x : Binary64} (hne : x.magnitude ≠ 0) : x.dropZeroSign = x := by
  have hsome : x.isZero = false := beq_eq_false_iff_ne.mpr hne
  rw [dropZeroSign, hsome, Bool.not_false, Bool.and_true]

@[simp] theorem dropZeroSign_dropZeroSign (x : Binary64) :
    x.dropZeroSign.dropZeroSign = x.dropZeroSign := by
  simp [dropZeroSign, isZero]

theorem isFinite_dropZeroSign (x : Binary64) : x.dropZeroSign.isFinite = x.isFinite :=
  rfl

end Binary64

/-- The literal of the same value whose zero is positive. -/
def Literal.dropZeroSign (literal : Literal) : Literal :=
  ⟨literal.value.dropZeroSign, literal.value.isFinite_dropZeroSign.trans literal.finite⟩

namespace Expression

/-- The tree with every negative zero made positive. -/
def dropZeroSigns : Expression → Expression
  | lit literal => lit literal.dropZeroSign
  | var x => var x
  | binary op left right => binary op left.dropZeroSigns right.dropZeroSigns

/-- Trees are equal if they agree once their zeros have lost their signs. -/
theorem beq_iff_dropZeroSigns_eq {a b : Expression} :
    (a == b) = true ↔ a.dropZeroSigns = b.dropZeroSigns := by
  change a.equal b = true ↔ _
  induction a generalizing b with
  | lit literal =>
      cases b with
      | lit other =>
          simp only [equal, dropZeroSigns, lit.injEq, Literal.dropZeroSign, Literal.mk.injEq]
          exact Binary64.sameValue_iff
      | var y => simp [equal, dropZeroSigns]
      | binary op left right => simp [equal, dropZeroSigns]
  | var x =>
      cases b with
      | lit other => simp [equal, dropZeroSigns]
      | var y =>
          obtain ⟨name, hvalid⟩ := x
          obtain ⟨name', hvalid'⟩ := y
          simp [equal, dropZeroSigns]
      | binary op left right => simp [equal, dropZeroSigns]
  | binary op left right ihLeft ihRight =>
      cases b with
      | lit other => simp [equal, dropZeroSigns]
      | var y => simp [equal, dropZeroSigns]
      | binary op' left' right' =>
          simp only [equal, dropZeroSigns, binary.injEq, Bool.and_eq_true, beq_iff_eq,
            ihLeft, ihRight, and_assoc]

/-- Every tree is equal to itself. -/
theorem equal_self (e : Expression) : e.equal e = true :=
  beq_iff_dropZeroSigns_eq.mpr rfl

instance : EquivBEq Expression where
  rfl := beq_iff_dropZeroSigns_eq.mpr rfl
  symm hab := beq_iff_dropZeroSigns_eq.mpr (beq_iff_dropZeroSigns_eq.mp hab).symm
  trans hab hbc := beq_iff_dropZeroSigns_eq.mpr
    ((beq_iff_dropZeroSigns_eq.mp hab).trans (beq_iff_dropZeroSigns_eq.mp hbc))

end Expression

end SumProduct
