import Mathlib.Data.List.Basic
import SumProduct.Proofs.Expression.Equality
import SumProduct.Proofs.Token.Lexeme

/-!
# Hashing agrees with equality

The words of a hash can be taken apart again: they tell the tree up to the signs of its
zeros, and none of them are the front of the words of another tree. So two expressions
are equal exactly if no hasher can tell them apart.
-/

namespace SumProduct

/-! ## Hashers -/

/-- What takes in the parts of a value one by one: the number of a variant, a word, the
bytes of a text, and a single byte. -/
structure Hasher (State : Type) where
  variant : State → Nat → State
  word : State → UInt64 → State
  bytes : State → List UInt8 → State
  byte : State → UInt8 → State

/-- The hasher that writes down all that it takes in, and texts byte for byte. -/
def Hasher.recorder : Hasher (List UInt64) where
  variant words index := words ++ [index.toUInt64]
  word words next := words ++ [next]
  bytes words text := words ++ text.map UInt8.toUInt64
  byte words next := words ++ [next.toUInt64]

/-- The number of the variant of an operation. -/
def Operation.variant : Operation → Nat
  | .plus => 2
  | .times => 3

theorem Operation.variant_word_inj {op op' : Operation}
    (hword : op.variant.toUInt64 = op'.variant.toUInt64) : op = op' := by
  cases op with
  | plus =>
      cases op' with
      | plus => rfl
      | times => cases hword
  | times =>
      cases op' with
      | plus => cases hword
      | times => rfl

/-- The bytes of a name. -/
def Variable.bytes (x : Variable) : List UInt8 :=
  x.name.toUTF8.data.toList

/-- Hands an expression to a hasher: every node by its variant and then its fields, a name
by its bytes and a byte that ends it. -/
def Expression.feed {State : Type} (hasher : Hasher State) : Expression → State → State
  | lit literal, state => hasher.word (hasher.variant state 0) literal.value.dropZeroSign.toBits
  | var x, state => hasher.byte (hasher.bytes (hasher.variant state 1) x.bytes) 0xff
  | binary op left right, state =>
      right.feed hasher (left.feed hasher (hasher.variant state op.variant))

/-! ## Names -/

/-- The word of a character. -/
def letterWord (letter : Char) : UInt64 :=
  letter.toNat.toUInt64

theorem toNat_letterWord (letter : Char) : (letterWord letter).toNat = letter.toNat :=
  UInt64.toNat_ofNat_of_lt' (Nat.lt_trans letter.val.toNat_lt (by decide))

theorem letterWord_injective : Function.Injective letterWord := by
  intro first second hword
  apply Char.toNat_inj.mp
  rw [← toNat_letterWord, ← toNat_letterWord, hword]

/-- An ASCII letter is a single byte. -/
theorem map_utf8EncodeChar {letter : Char} (hletter : letter.isAlpha = true) :
    (String.utf8EncodeChar letter).map UInt8.toUInt64 = [letterWord letter] := by
  have hbounds := Token.Kind.toNat_of_isAlpha hletter
  have hencode : String.utf8EncodeChar letter = [UInt8.ofNat letter.toNat] :=
    if_pos (show letter.toNat ≤ 127 by omega)
  have hbyte : letter.toNat < UInt8.size := by
    rw [UInt8.size]
    omega
  have hword : (UInt8.ofNat letter.toNat).toUInt64 = letterWord letter := by
    apply UInt64.toNat_inj.mp
    rw [toNat_letterWord, UInt8.toNat_toUInt64, UInt8.toNat_ofNat_of_lt' hbyte]
  rw [hencode, List.map_singleton, hword]

namespace Variable

/-- The words of a name, one for each letter. -/
def words (x : Variable) : List UInt64 :=
  x.name.toList.map letterWord

theorem map_bytes (x : Variable) : x.bytes.map UInt8.toUInt64 = x.words := by
  have hname : x.name.toUTF8 = x.name.toList.utf8Encode := by
    rw [← String.toByteArray_ofList, String.ofList_toList]
    rfl
  rw [bytes, hname, List.utf8Encode, List.data_toByteArray, List.map_flatMap, words,
    List.map_eq_flatMap]
  exact List.flatMap_congr fun c hc => map_utf8EncodeChar (x.isAlpha_of_mem c hc)

/-- The word that ends a name is no letter. -/
theorem ne_end_of_mem_words (x : Variable) : ∀ word ∈ x.words, (word != 0xff) = true := by
  intro word hmem
  obtain ⟨c, hc, rfl⟩ := List.mem_map.mp hmem
  have hbounds := Token.Kind.toNat_of_isAlpha (x.isAlpha_of_mem c hc)
  rw [bne_iff_ne]
  intro hend
  have hnat : c.toNat = 0xff := (toNat_letterWord c).symm.trans (congrArg UInt64.toNat hend)
  omega

/-- The words of a name tell the name and where it ends. -/
theorem words_append_inj {x y : Variable} {rest rest' : List UInt64}
    (hwords : x.words ++ 0xff :: rest = y.words ++ 0xff :: rest') : x = y ∧ rest = rest' := by
  have hsplit : ∀ (z : Variable) (tail : List UInt64),
      (z.words ++ 0xff :: tail).takeWhile (· != 0xff) = z.words := by
    intro z tail
    rw [List.takeWhile_append_of_pos z.ne_end_of_mem_words, List.takeWhile_cons_of_neg (by decide),
      List.append_nil]
  have hsame : x.words = y.words := by
    rw [← hsplit x rest, hwords, hsplit]
  have hname : x.name = y.name :=
    String.toList_inj.mp (List.map_injective_iff.mpr letterWord_injective hsame)
  rw [hsame] at hwords
  cases x
  cases y
  cases hname
  exact ⟨rfl, (List.cons.inj (List.append_cancel_left hwords)).2⟩

end Variable

/-! ## Words of trees -/

namespace Expression

theorem hashFeed_var (x : Variable) : (var x).hashFeed = 1 :: (x.words ++ [0xff]) :=
  rfl

theorem hashFeed_binary (op : Operation) (left right : Expression) :
    (binary op left right).hashFeed =
      op.variant.toUInt64 :: (left.hashFeed ++ right.hashFeed) := by
  cases op <;> rfl

/-- The words of a tree tell it up to the signs of its zeros, and where they end. -/
theorem hashFeed_append_inj {a b : Expression} {rest rest' : List UInt64}
    (hfeed : a.hashFeed ++ rest = b.hashFeed ++ rest') :
    a.dropZeroSigns = b.dropZeroSigns ∧ rest = rest' := by
  induction a generalizing b rest rest' with
  | lit literal =>
      cases b with
      | lit other =>
          simp only [hashFeed, List.cons_append, List.nil_append, List.cons.injEq,
            true_and] at hfeed
          obtain ⟨hbits, hrest⟩ := hfeed
          have hvalue := congrArg Binary64.ofBits hbits
          rw [Binary64.ofBits_toBits, Binary64.ofBits_toBits] at hvalue
          exact ⟨by simp only [dropZeroSigns, Literal.dropZeroSign, hvalue], hrest⟩
      | var y => simp [hashFeed] at hfeed
      | binary op left right => cases op <;> simp [hashFeed] at hfeed
  | var x =>
      cases b with
      | lit other => simp [hashFeed] at hfeed
      | var y =>
          simp only [hashFeed_var, List.cons_append, List.append_assoc, List.nil_append,
            List.cons.injEq, true_and] at hfeed
          obtain ⟨rfl, hrest⟩ := Variable.words_append_inj hfeed
          exact ⟨rfl, hrest⟩
      | binary op left right => cases op <;> simp [hashFeed] at hfeed
  | binary op left right ihLeft ihRight =>
      cases b with
      | lit other => cases op <;> simp [hashFeed] at hfeed
      | var y => cases op <;> simp [hashFeed] at hfeed
      | binary op' left' right' =>
          simp only [hashFeed_binary, List.cons_append, List.append_assoc,
            List.cons.injEq] at hfeed
          obtain ⟨hvariant, hoperands⟩ := hfeed
          have hop := Operation.variant_word_inj hvariant
          obtain ⟨hleft, hrest⟩ := ihLeft hoperands
          obtain ⟨hright, hrest⟩ := ihRight hrest
          exact ⟨by simp only [dropZeroSigns, hop, hleft, hright], hrest⟩

/-- Zeros without a sign are what is hashed. -/
theorem feed_dropZeroSigns {State : Type} (hasher : Hasher State) (e : Expression)
    (state : State) : e.dropZeroSigns.feed hasher state = e.feed hasher state := by
  induction e generalizing state with
  | lit literal =>
      simp only [dropZeroSigns, feed, Literal.dropZeroSign, Binary64.dropZeroSign_dropZeroSign]
  | var x => rfl
  | binary op left right ihLeft ihRight => simp only [dropZeroSigns, feed, ihLeft, ihRight]

/-- The recorder writes down the words of the hash. -/
theorem feed_recorder (e : Expression) (words : List UInt64) :
    e.feed .recorder words = words ++ e.hashFeed := by
  induction e generalizing words with
  | lit literal => simp [feed, Hasher.recorder, hashFeed]
  | var x =>
      have hbytes := x.map_bytes
      simp [feed, Hasher.recorder, hashFeed_var, hbytes]
  | binary op left right ihLeft ihRight =>
      rw [feed, ihRight, ihLeft, hashFeed_binary]
      simp [Hasher.recorder]

/-- Equal trees are the same to every hasher. -/
theorem feed_eq_of_beq {State : Type} (hasher : Hasher State) {a b : Expression}
    (heq : (a == b) = true) (state : State) : a.feed hasher state = b.feed hasher state := by
  rw [← feed_dropZeroSigns, beq_iff_dropZeroSigns_eq.mp heq, feed_dropZeroSigns]

theorem beq_iff_hashFeed_eq {a b : Expression} : (a == b) = true ↔ a.hashFeed = b.hashFeed := by
  constructor
  · intro heq
    have hrecord := feed_eq_of_beq .recorder heq []
    rwa [feed_recorder, feed_recorder] at hrecord
  · intro hfeed
    exact beq_iff_dropZeroSigns_eq.mpr (hashFeed_append_inj (congrArg (· ++ []) hfeed)).1

instance : LawfulHashable Expression where
  hash_eq _ _ heq := congrArg (List.foldl mixHash 7) (beq_iff_hashFeed_eq.mp heq)

/-- Equality is an equivalence, and two trees are equal exactly if the same words are fed
to a hash, or the same parts to any hasher. -/
theorem beq_equivalence_and_hashed_alike :
    Equivalence (fun a b : Expression => (a == b) = true) ∧
      ∀ a b : Expression,
        ((a == b) = true ↔ a.hashFeed = b.hashFeed) ∧
        ((a == b) = true ↔ ∀ (State : Type) (hasher : Hasher State) (state : State),
          a.feed hasher state = b.feed hasher state) := by
  refine ⟨⟨fun _ => BEq.rfl, BEq.symm, BEq.trans⟩, fun a b => ⟨beq_iff_hashFeed_eq, ?_⟩⟩
  constructor
  · intro heq State hasher state
    exact feed_eq_of_beq hasher heq state
  · intro hfeed
    have hrecord := hfeed _ .recorder []
    rw [feed_recorder, feed_recorder] at hrecord
    exact beq_iff_hashFeed_eq.mpr hrecord

end Expression

end SumProduct
