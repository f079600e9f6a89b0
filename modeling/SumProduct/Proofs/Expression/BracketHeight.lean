import Mathlib.Order.Bounds.Basic
import SumProduct.Proofs.Expression.UniqueText

/-!
# Brackets of canonical texts

A compound tree is written in brackets of its own, so the brackets of a text rise and fall
with the operations of its tree: along the text the number of open brackets is never negative,
and the greatest such number is one less than the depth of the tree. There are as many
brackets as operations.
-/

namespace SumProduct

namespace Text

/-- Characters that close every bracket they open, and no other, and of whose brackets
`height` are open at a time, but no more. -/
structure Nests (height : Nat) (chars : List Char) : Prop where
  closed : openBrackets chars = 0
  fronts : ∀ front, front <+: chars → 0 ≤ openBrackets front ∧ openBrackets front ≤ height
  reached : ∃ front, front <+: chars ∧ openBrackets front = height

variable {height other : Nat} {chars first second inner front : List Char}

theorem nests_of_no_bracket (hnone : ∀ c ∈ chars, c ≠ '(' ∧ c ≠ ')') : Nests 0 chars := by
  have hzero : ∀ front, front <+: chars → openBrackets front = 0 :=
    fun front hfront => openBrackets_eq_zero fun c hmem => hnone c (hfront.subset hmem)
  refine ⟨hzero chars List.prefix_rfl, fun front hfront => ?_, [], List.nil_prefix, rfl⟩
  rw [hzero front hfront]
  exact ⟨le_rfl, le_rfl⟩

/-- What nests side by side is as high as the higher of both. -/
theorem Nests.append (hfirst : Nests height first) (hsecond : Nests other second) :
    Nests (max height other) (first ++ second) := by
  have hbehind : ∀ front, openBrackets (first ++ front) = openBrackets front := by
    intro front
    rw [openBrackets_append, hfirst.closed, zero_add]
  refine ⟨(hbehind second).trans hsecond.closed, fun front hfront => ?_, ?_⟩
  · rcases prefix_append_cases hfront with hshort | ⟨rest, rfl, hrest⟩
    · have hbounds := hfirst.fronts front hshort
      omega
    · have hbounds := hsecond.fronts rest hrest
      rw [hbehind]
      omega
  · rcases Nat.le_total height other with hle | hle
    · obtain ⟨front, hfront, hreached⟩ := hsecond.reached
      refine ⟨first ++ front, (List.prefix_append_right_inj first).mpr hfront, ?_⟩
      rw [hbehind, hreached, max_eq_right hle]
    · obtain ⟨front, hfront, hreached⟩ := hfirst.reached
      exact ⟨front, hfront.trans (List.prefix_append first second), by
        rw [hreached, max_eq_left hle]⟩

/-- Some characters in brackets. -/
def bracketed (inner : List Char) : List Char :=
  '(' :: (inner ++ [')'])

theorem openBrackets_open_cons (chars : List Char) :
    openBrackets ('(' :: chars) = 1 + openBrackets chars :=
  openBrackets_append ['('] chars

/-- A front of bracketed characters is empty, the whole, or an open bracket with a front of
what the brackets hold. -/
theorem prefix_bracketed_cases (hfront : front <+: bracketed inner) :
    front = [] ∨ front = bracketed inner ∨ ∃ part, part <+: inner ∧ front = '(' :: part := by
  rcases List.prefix_cons_iff.mp hfront with rfl | ⟨rest, rfl, hrest⟩
  · exact Or.inl rfl
  rcases prefix_append_cases hrest with hpart | ⟨last, rfl, hlast⟩
  · exact Or.inr (Or.inr ⟨rest, hpart, rfl⟩)
  rcases List.prefix_cons_iff.mp hlast with rfl | ⟨tail, rfl, htail⟩
  · exact Or.inr (Or.inr ⟨inner, List.prefix_rfl, by rw [List.append_nil]⟩)
  · exact Or.inr (Or.inl (by rw [List.prefix_nil.mp htail, bracketed]))

/-- Brackets around what nests are one higher. -/
theorem Nests.bracketed (hinner : Nests height inner) : Nests (height + 1) (bracketed inner) := by
  have hclosed : openBrackets (Text.bracketed inner) = 0 := by
    rw [Text.bracketed, openBrackets_open_cons, openBrackets_append, hinner.closed]
    rfl
  refine ⟨hclosed, fun front hfront => ?_, ?_⟩
  · rcases prefix_bracketed_cases hfront with rfl | rfl | ⟨part, hpart, rfl⟩
    · rw [openBrackets_nil]
      omega
    · rw [hclosed]
      omega
    · have hbounds := hinner.fronts part hpart
      rw [openBrackets_open_cons]
      omega
  · obtain ⟨part, hpart, hreached⟩ := hinner.reached
    refine ⟨'(' :: part, List.cons_prefix_cons.mpr ⟨rfl, hpart.trans (List.prefix_append _ _)⟩, ?_⟩
    rw [openBrackets_open_cons, hreached]
    omega

/-- Between the brackets around what nests, at least one bracket is open. -/
theorem Nests.one_le_inside (hinner : Nests height inner)
    (hfront : front <+: Text.bracketed inner) (hne : front ≠ [])
    (hpart : front ≠ Text.bracketed inner) : 1 ≤ openBrackets front := by
  rcases prefix_bracketed_cases hfront with rfl | rfl | ⟨part, hinside, rfl⟩
  · exact absurd rfl hne
  · exact absurd rfl hpart
  · have hbounds := hinner.fronts part hinside
    rw [openBrackets_open_cons]
    omega

end Text

open Text

/-! ## Leaves -/

/-- The characters that brackets and operations are written in. -/
def Text.marks : List Char :=
  ['(', ')', '+', '*']

/-- A character of a class without marks is no mark. -/
theorem Text.not_mem_marks {p : Char → Bool} (hmarks : marks.any p = false) {c : Char}
    (hc : p c = true) : c ∉ marks :=
  fun hmem => List.any_eq_false.mp hmarks c hmem hc

theorem Literal.not_mem_marks_of_mem_digits (literal : Literal) :
    ∀ c ∈ literal.digits, c ∉ marks := by
  intro c hmem
  rcases Numeral.isDigit_or_point_of_mem_pointedText _ c hmem with hdigit | rfl
  · exact not_mem_marks (by decide) hdigit
  · decide

namespace Expression

/-- Leaves are written without brackets and operations. -/
theorem not_mem_marks_of_leaf {e : Expression} (hleaf : e.isCompound = false) :
    ∀ c ∈ e.text.toList, c ∉ marks := by
  cases e with
  | lit literal =>
      rw [text]
      cases hsign : literal.value.negative with
      | false =>
          rw [Literal.toList_text_of_positive hsign]
          exact literal.not_mem_marks_of_mem_digits
      | true =>
          rw [Literal.toList_text_of_negative hsign]
          exact List.forall_mem_cons.mpr ⟨by decide, literal.not_mem_marks_of_mem_digits⟩
  | var x => exact fun c hmem => not_mem_marks (by decide) (x.isAlpha_of_mem c hmem)
  | binary op left right => cases hleaf

theorem count_eq_zero_of_leaf {e : Expression} (hleaf : e.isCompound = false) {mark : Char}
    (hmark : mark ∈ marks) : e.text.toList.count mark = 0 :=
  List.count_eq_zero.mpr fun hmem => not_mem_marks_of_leaf hleaf mark hmem hmark

theorem nests_of_leaf {e : Expression} (hleaf : e.isCompound = false) : Nests 0 e.text.toList := by
  refine nests_of_no_bracket fun c hmem => ?_
  have hmark := not_mem_marks_of_leaf hleaf c hmem
  constructor <;> rintro rfl <;> exact hmark (by decide)

/-! ## Trees -/

/-- What stands between the brackets of a compound tree. -/
def inside (op : Operation) (left right : Expression) : List Char :=
  left.text.toList ++ (' ' :: (op.symbol.toList ++ [' ']) ++ right.text.toList)

theorem toList_text_eq_bracketed (op : Operation) (left right : Expression) :
    (binary op left right).text.toList = bracketed (inside op left right) := by
  rw [toList_text_binary, bracketed, inside]
  simp only [List.append_assoc, List.cons_append, List.nil_append]

theorem nests_inside (op : Operation) {left right : Expression}
    (hleft : Nests (left.depth - 1) left.text.toList)
    (hright : Nests (right.depth - 1) right.text.toList) :
    Nests (max left.depth right.depth - 1) (inside op left right) := by
  have hsign : Nests 0 (' ' :: (op.symbol.toList ++ [' '])) :=
    nests_of_no_bracket (by cases op <;> simp [Operation.symbol])
  have hwhole := hleft.append (hsign.append hright)
  have hheight : max (left.depth - 1) (max 0 (right.depth - 1)) =
      max left.depth right.depth - 1 := by
    omega
  rwa [hheight] at hwhole

/-- The brackets of a text are as high as its tree is deep, the leaves apart. -/
theorem nests_text (e : Expression) : Nests (e.depth - 1) e.text.toList := by
  induction e with
  | lit literal => exact nests_of_leaf rfl
  | var x => exact nests_of_leaf rfl
  | binary op left right ihLeft ihRight =>
      have hpos := left.depth_pos
      have hinside := (nests_inside op ihLeft ihRight).bracketed
      have hheight : max left.depth right.depth - 1 + 1 = (binary op left right).depth - 1 := by
        rw [depth]
        omega
      rwa [hheight, ← toList_text_eq_bracketed] at hinside

/-- The tree and all of its parts, a tree before its operands. -/
def subtrees : Expression → List Expression
  | lit literal => [lit literal]
  | var x => [var x]
  | binary op left right => binary op left right :: (left.subtrees ++ right.subtrees)

theorem count_text_binary (op : Operation) (left right : Expression) {mark : Char}
    (hblank : mark ≠ ' ') (hclose : mark ≠ ')') :
    (binary op left right).text.toList.count mark =
      ['('].count mark + (left.text.toList.count mark + op.symbol.toList.count mark +
        right.text.toList.count mark) := by
  have hblanks : [' '].count mark = 0 := List.count_singleton.trans (by simpa using hblank.symm)
  have hcloses : [')'].count mark = 0 := List.count_singleton.trans (by simpa using hclose.symm)
  have hsplit : (binary op left right).text.toList = ['('] ++ (left.text.toList ++ ([' '] ++
      (op.symbol.toList ++ ([' '] ++ (right.text.toList ++ [')']))))) := toList_text_binary ..
  rw [hsplit]
  simp only [List.count_append, hblanks, hcloses]
  omega

/-- A text has one open bracket for each compound part of its tree. -/
theorem count_open_eq (e : Expression) :
    e.text.toList.count '(' = e.subtrees.countP isCompound := by
  induction e with
  | lit literal => exact count_eq_zero_of_leaf rfl (by decide)
  | var x => exact count_eq_zero_of_leaf rfl (by decide)
  | binary op left right ihLeft ihRight =>
      have hcompound : (binary op left right).isCompound = true := rfl
      have hsign : op.symbol.toList.count '(' = 0 := by cases op <;> decide
      have hopen : ['('].count '(' = 1 := rfl
      rw [count_text_binary op left right (by decide) (by decide), subtrees,
        List.countP_cons_of_pos hcompound, List.countP_append, ← ihLeft, ← ihRight, hsign, hopen]
      omega

/-- A text has one sign of an operation for each open bracket. -/
theorem count_open_eq_count_signs (e : Expression) :
    e.text.toList.count '(' = e.text.toList.count '+' + e.text.toList.count '*' := by
  have hleaf : ∀ {f : Expression}, f.isCompound = false →
      f.text.toList.count '(' = f.text.toList.count '+' + f.text.toList.count '*' := by
    intro f hleaf
    rw [count_eq_zero_of_leaf hleaf (by decide), count_eq_zero_of_leaf hleaf (by decide),
      count_eq_zero_of_leaf hleaf (by decide)]
  induction e with
  | lit literal => exact hleaf rfl
  | var x => exact hleaf rfl
  | binary op left right ihLeft ihRight =>
      have hsign : ['('].count '(' + op.symbol.toList.count '(' =
          ['('].count '+' + op.symbol.toList.count '+' +
            (['('].count '*' + op.symbol.toList.count '*') := by
        cases op <;> decide
      rw [count_text_binary op left right (by decide) (by decide),
        count_text_binary op left right (by decide) (by decide),
        count_text_binary op left right (by decide) (by decide)]
      omega

/-- The open brackets of a text: there are never fewer than none, none at the end, and at
least one all through a compound text, and the greatest number of them is one less than the
depth of the tree. There are as many open brackets as compound parts and as operations. -/
theorem text_bracket_height (e : Expression) :
    (∀ front, front <+: e.text.toList → 0 ≤ Text.openBrackets front) ∧
    Text.openBrackets e.text.toList = 0 ∧
    (e.isCompound = true → ∀ front, front <+: e.text.toList → front ≠ [] →
      front ≠ e.text.toList → 1 ≤ Text.openBrackets front) ∧
    IsGreatest {height | ∃ front, front <+: e.text.toList ∧ Text.openBrackets front = height}
      ((e.depth : Int) - 1) ∧
    e.text.toList.count '(' = e.subtrees.countP isCompound ∧
    e.text.toList.count '(' = e.text.toList.count '+' + e.text.toList.count '*' := by
  have hnests := e.nests_text
  have hheight : ((e.depth - 1 : Nat) : Int) = (e.depth : Int) - 1 := Nat.cast_pred e.depth_pos
  refine ⟨fun front hfront => (hnests.fronts front hfront).1, hnests.closed, ?_, ?_,
    e.count_open_eq, e.count_open_eq_count_signs⟩
  · intro hcompound front hfront hne hpart
    cases e with
    | lit literal | var x => cases hcompound
    | binary op left right =>
        rw [toList_text_eq_bracketed] at hfront hpart
        exact (nests_inside op left.nests_text right.nests_text).one_le_inside hfront hne hpart
  · rw [← hheight]
    refine ⟨hnests.reached, ?_⟩
    rintro height ⟨front, hfront, rfl⟩
    exact (hnests.fronts front hfront).2

end Expression

end SumProduct
