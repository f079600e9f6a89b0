import SumProduct.Expression.Basic

/-!
# Equality and hashing of expressions

Expressions are equal when they have the same shape and equal leaves; the order
and the grouping of operands count. Literals are compared by value, so the two
zeros are equal. What is fed to a hash is decided by the same comparison.
-/

namespace SumProduct.Expression

/-- The same tree, with literals compared by value. -/
def equal : Expression → Expression → Bool
  | lit a, lit b => a.value.sameValue b.value
  | var a, var b => a.name == b.name
  | binary op left right, binary op' left' right' =>
      op == op' && equal left left' && equal right right'
  | _, _ => false

instance : BEq Expression := ⟨equal⟩

/-- The words that a hash of the expression takes in, in preorder. The first word
of a node tells its kind; the letters of a name end in a word that is no letter. -/
def hashFeed : Expression → List UInt64
  | lit a => [0, a.value.dropZeroSign.toBits]
  | var a => 1 :: a.name.toList.map (fun letter => letter.toNat.toUInt64) ++ [0xff]
  | binary .plus left right => 2 :: left.hashFeed ++ right.hashFeed
  | binary .times left right => 3 :: left.hashFeed ++ right.hashFeed

instance : Hashable Expression :=
  ⟨fun e => e.hashFeed.foldl mixHash 7⟩

end SumProduct.Expression
