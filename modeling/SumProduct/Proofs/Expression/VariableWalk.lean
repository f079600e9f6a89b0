import Mathlib.Data.List.Sort
import Mathlib.Data.String.Basic
import Mathlib.Logic.Function.Iterate
import SumProduct.Proofs.Expression.InOrder
import SumProduct.Proofs.Expression.VariableNames
import SumProduct.Proofs.Text.Bytes
import SumProduct.Proofs.Token.Lexeme

/-!
# The walk over the variables

The walk visits every node once and finds the variables of the left operand before those of
the right one. Of the trees that wait on its stack each is less deep than those under it
leave room for, so the stack never holds more trees than the expression is deep. The names
that it finds are listed in the strict order of their bytes.
-/

namespace SumProduct

namespace Expression

/-- The variables of the left operand and then those of the right one. -/
def leaves : Expression → List Variable
  | lit _ => []
  | var x => [x]
  | binary _ left right => left.leaves ++ right.leaves

theorem filterMap_inOrder (e : Expression) :
    e.inOrder.filterMap Symbol.asVariable? = e.leaves := by
  induction e with
  | lit literal => rfl
  | var x => rfl
  | binary op left right ihLeft ihRight =>
      rw [inOrder, List.filterMap_append, ihLeft, leaves, ← ihRight]
      rfl

/-! ## Visits -/

/-- Every visit is one of the nodes that were left. -/
theorem pendingSize_visit (pending : List Expression) :
    pendingSize (visit pending) = pendingSize pending - 1 := by
  cases pending with
  | nil => rfl
  | cons top pending => cases top <;> simp only [visit, pendingSize, size] <;> omega

theorem pendingSize_iterate (visits : Nat) (pending : List Expression) :
    pendingSize (visit^[visits] pending) = pendingSize pending - visits := by
  induction visits with
  | zero => rfl
  | succ visits ih =>
      rw [Function.iterate_succ_apply', pendingSize_visit, ih]
      omega

theorem eq_nil_of_pendingSize_eq_zero {pending : List Expression}
    (hsize : pendingSize pending = 0) : pending = [] := by
  cases pending with
  | nil => rfl
  | cons top pending =>
      have hpos : 0 < top.size := by cases top <;> simp only [size] <;> omega
      rw [pendingSize] at hsize
      omega

/-- The search for the next variable is a number of visits, of which the last one is that of
the variable. -/
theorem exists_visits_of_nextVariable {pending rest : List Expression} {x : Variable}
    (hnext : nextVariable pending = some (x, rest)) :
    ∃ visits, visit^[visits] pending = var x :: rest ∧ visit^[visits + 1] pending = rest := by
  fun_induction nextVariable pending with
  | case1 => cases hnext
  | case2 y pending =>
      cases hnext
      exact ⟨0, rfl, rfl⟩
  | case3 top pending hvar ih =>
      obtain ⟨visits, hfound, hrest⟩ := ih hnext
      exact ⟨visits + 1, hfound, hrest⟩

/-! ## The stack -/

/-- Each tree on the stack is less deep than the trees under it leave room for. -/
def StackWithin (limit : Nat) : List Expression → Prop
  | [] => True
  | top :: pending => top.depth + pending.length ≤ limit ∧ StackWithin limit pending

/-- A visit puts the operands of a tree in its place, and they are less deep. -/
theorem StackWithin.visit {limit : Nat} {pending : List Expression}
    (hwithin : StackWithin limit pending) : StackWithin limit (visit pending) := by
  cases pending with
  | nil => trivial
  | cons top pending =>
      obtain ⟨htop, hpending⟩ := hwithin
      cases top with
      | lit literal => exact hpending
      | var x => exact hpending
      | binary op left right =>
          rw [depth] at htop
          refine ⟨?_, ?_, hpending⟩
          · rw [List.length_cons]
            omega
          · omega

theorem StackWithin.iterate {limit : Nat} {pending : List Expression}
    (hwithin : StackWithin limit pending) (visits : Nat) :
    StackWithin limit (Expression.visit^[visits] pending) := by
  induction visits with
  | zero => exact hwithin
  | succ visits ih =>
      rw [Function.iterate_succ_apply']
      exact ih.visit

theorem StackWithin.length_le {limit : Nat} {pending : List Expression}
    (hwithin : StackWithin limit pending) : pending.length ≤ limit := by
  cases pending with
  | nil => exact Nat.zero_le _
  | cons top pending =>
      have htop := hwithin.1
      have hpos := top.depth_pos
      rw [List.length_cons]
      omega

end Expression

/-! ## Sorted names -/

/-- Erasing the repetitions of a sorted list leaves a strictly rising one. -/
theorem pairwise_lt_eraseReps {α : Type} [BEq α] [LawfulBEq α] [LinearOrder α] {list : List α}
    (hsorted : list.Pairwise (· ≤ ·)) : list.eraseReps.Pairwise (· < ·) := by
  induction list with
  | nil => exact List.Pairwise.nil
  | cons first rest ih =>
      cases rest with
      | nil => exact List.pairwise_singleton _ first
      | cons next rest =>
          obtain ⟨hfirst, hrest⟩ := List.pairwise_cons.mp hsorted
          rw [eraseReps_cons_cons]
          split
          next hsame =>
            obtain rfl := eq_of_beq hsame
            exact ih hrest
          next hne =>
            refine List.pairwise_cons.mpr ⟨fun a hmem => ?_, ih hrest⟩
            have hlt : first < next :=
              lt_of_le_of_ne (hfirst next List.mem_cons_self) (by simpa using hne)
            rcases List.mem_cons.mp (mem_eraseReps.mp hmem) with rfl | hlater
            · exact hlt
            · exact hlt.trans_le ((List.pairwise_cons.mp hrest).1 a hlater)

namespace Text

/-- The bytes of ASCII characters are in the order of the characters. -/
theorem bytes_lt_bytes {first second : String} (hfirst : ∀ c ∈ first.toList, c.toNat ≤ 0x7f)
    (hsecond : ∀ c ∈ second.toList, c.toNat ≤ 0x7f) (hlt : first < second) :
    bytes first < bytes second := by
  rw [String.lt_iff_toList_lt] at hlt
  rw [bytes_eq_flatMap, bytes_eq_flatMap]
  generalize first.toList = front at hfirst hlt
  generalize second.toList = back at hsecond hlt
  induction front generalizing back with
  | nil =>
      cases back with
      | nil => exact absurd hlt (lt_irrefl _)
      | cons d back =>
          rw [List.flatMap_cons, utf8EncodeChar_ascii (hsecond d List.mem_cons_self)]
          exact List.nil_lt_cons _ _
  | cons c front ih =>
      cases back with
      | nil => exact absurd hlt (List.not_lt_nil _)
      | cons d back =>
          rw [List.forall_mem_cons] at hfirst hsecond
          rw [List.flatMap_cons, List.flatMap_cons, utf8EncodeChar_ascii hfirst.1,
            utf8EncodeChar_ascii hsecond.1, List.singleton_append, List.singleton_append,
            List.cons_lt_cons_iff]
          rcases List.cons_lt_cons_iff.mp hlt with hless | ⟨rfl, hrest⟩
          · left
            rw [UInt8.lt_iff_toNat_lt, toNat_toUInt8 hfirst.1, toNat_toUInt8 hsecond.1]
            exact UInt32.lt_iff_toNat_lt.mp hless
          · exact Or.inr ⟨rfl, ih hfirst.2 back hsecond.2 hrest⟩

end Text

namespace Expression

/-- The listed names rise strictly by their bytes. -/
theorem variableNames_pairwise (e : Expression) :
    e.variableNames.Pairwise fun first second => Text.bytes first < Text.bytes second := by
  have hsorted := List.pairwise_mergeSort' (· ≤ ·) (e.vars.map Variable.name)
  have hrising : e.variableNames.Pairwise (· < ·) := pairwise_lt_eraseReps hsorted
  have hascii : ∀ name ∈ e.variableNames, ∀ c ∈ name.toList, c.toNat ≤ 0x7f := by
    intro name hname c hmem
    have hletter := Token.Kind.toNat_of_isAlpha (isAlpha_of_mem_variableNames hname c hmem)
    omega
  refine hrising.imp_of_mem fun hfirst hsecond hlt => ?_
  exact Text.bytes_lt_bytes (hascii _ hfirst) (hascii _ hsecond) hlt

/-- The walk finds the variables of the left operand before those of the right one and each
as often as it occurs. It ends after one visit to each node, whenever it is resumed it goes
on with these visits, and its stack never holds more trees than the expression is deep. The
listed names are those of the variables, strictly rising by their bytes. -/
theorem walk_complete_and_names_sorted (e : Expression) :
    e.vars = e.leaves ∧
      Expression.visit^[e.size] [e] = [] ∧
      (∀ visits, ∀ found ∈ nextVariable (Expression.visit^[visits] [e]),
        ∃ later, visits < later ∧ found.2 = Expression.visit^[later] [e]) ∧
      (∀ visits, (Expression.visit^[visits] [e]).length ≤ e.depth) ∧
      (e.variableNames.Pairwise fun first second => Text.bytes first < Text.bytes second) ∧
      ∀ name, name ∈ e.variableNames ↔ ∃ x ∈ e.vars, x.name = name := by
  refine ⟨?_, ?_, ?_, ?_, e.variableNames_pairwise, fun name => mem_variableNames_iff⟩
  · rw [vars_eq, filterMap_inOrder]
  · apply eq_nil_of_pendingSize_eq_zero
    rw [pendingSize_iterate, pendingSize, pendingSize]
    omega
  · rintro visits ⟨x, rest⟩ hfound
    obtain ⟨more, -, hrest⟩ := exists_visits_of_nextVariable hfound
    refine ⟨more + 1 + visits, by omega, ?_⟩
    rw [Function.iterate_add_apply, hrest]
  · intro visits
    have hstart : StackWithin e.depth [e] := ⟨Nat.le_refl _, trivial⟩
    exact (hstart.iterate visits).length_le

/-- The first variable of `y*x + x*B` is found at the third visit, with as many trees on the
stack as there may be. -/
theorem walk_complete_and_names_sorted_first :
    let x := var ⟨"x", by decide⟩
    let right := binary .times x (var ⟨"B", by decide⟩)
    let e := binary .plus (binary .times (var ⟨"y", by decide⟩) x) right
    nextVariable [e] = some (⟨"y", by decide⟩, [x, right]) ∧
      (∃ later, 0 < later ∧ [x, right] = Expression.visit^[later] [e]) ∧
      (Expression.visit^[2] [e]).length = 3 ∧ 3 ≤ e.depth := by
  intro x right e
  have hfirst : nextVariable [e] = some (⟨"y", by decide⟩, [x, right]) := by
    simp [e, nextVariable, visit]
  obtain ⟨-, -, hresumed, hbound, -, -⟩ := walk_complete_and_names_sorted e
  exact ⟨hfirst, hresumed 0 _ hfirst, rfl, hbound 2⟩

end Expression

end SumProduct
