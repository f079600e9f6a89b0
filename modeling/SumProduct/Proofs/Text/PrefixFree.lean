import Mathlib.Tactic.SplitIfs
import SumProduct.Proofs.Text.Runs
import SumProduct.Text.Quoted

/-!
# Writings that show their end

A writing that shows its end can be cut off a text, whatever follows it there. Words of which
none is the front of another one show their ends, and so do quoted characters. A number shows
its end in front of anything but a digit.
-/

namespace SumProduct.Text

/-- What is written is known from any text that starts with it, and so is what follows. -/
def PrefixFree {α : Type} (write : α → List Char) : Prop :=
  ∀ a b rest rest', write a ++ rest = write b ++ rest' → a = b ∧ rest = rest'

/-- Writings of which none is the front of another one. -/
theorem prefixFree_of_prefix {α : Type} {write : α → List Char}
    (hfronts : ∀ a b, write a <+: write b → a = b) : PrefixFree write := by
  intro a b rest rest' heq
  have hfirst : write a <+: write a ++ rest := List.prefix_append _ _
  have hsecond : write b <+: write a ++ rest := heq ▸ List.prefix_append _ _
  have hsame : a = b := by
    rcases List.prefix_or_prefix_of_prefix hfirst hsecond with hle | hle
    · exact hfronts a b hle
    · exact (hfronts b a hle).symm
  subst hsame
  exact ⟨rfl, List.append_cancel_left heq⟩

/-- Writings of one class of characters end at characters outside of the class. -/
theorem append_inj_of_stops {p : Char → Bool} {first second rest rest' : List Char}
    (hfirst : ∀ c ∈ first, p c = true) (hsecond : ∀ c ∈ second, p c = true)
    (hrest : Stops p rest) (hrest' : Stops p rest') (heq : first ++ rest = second ++ rest') :
    first = second ∧ rest = rest' := by
  have hsame : first = second := by
    have htake := congrArg (List.takeWhile p) heq
    rwa [takeWhile_append_of_stops hfirst hrest, takeWhile_append_of_stops hsecond hrest'] at htake
  rw [hsame] at heq
  exact ⟨hsame, List.append_cancel_left heq⟩

/-! ## Numbers -/

theorem digitChar_inj : ∀ m < 16, ∀ n < 16, m.digitChar = n.digitChar → m = n := by
  decide

/-- One digit is not the end of more digits. -/
theorem singleton_ne_toDigits_append (base n : Nat) (c d : Char) :
    [c] ≠ Nat.toDigits base n ++ [d] := by
  intro heq
  have hlength := congrArg List.length heq
  have hpos := List.length_pos_iff.mpr (Nat.toDigits_ne_nil (n := n) (b := base))
  simp only [List.length_append, List.length_singleton] at hlength
  omega

/-- Numbers are told apart by their digits. -/
theorem toDigits_injective {base : Nat} (hlow : 1 < base) (hhigh : base ≤ 16) :
    Function.Injective (Nat.toDigits base) := by
  intro m
  induction m using Nat.strongRecOn with
  | ind m ih =>
      intro n hdigits
      rw [Nat.toDigits_eq_if hlow, Nat.toDigits_eq_if (n := n) hlow] at hdigits
      split at hdigits <;> split at hdigits
      next hm hn =>
        exact digitChar_inj m (by omega) n (by omega) (List.singleton_inj.mp hdigits)
      next hm hn => exact absurd hdigits (singleton_ne_toDigits_append _ _ _ _)
      next hm hn => exact absurd hdigits.symm (singleton_ne_toDigits_append _ _ _ _)
      next hm hn =>
        -- The last digit is the remainder, and those before it are the digits of the quotient.
        have hbase : 0 < base := by omega
        obtain ⟨hfront, hlast⟩ := List.append_inj' hdigits rfl
        have hquotient := ih (m / base) (Nat.div_lt_self (by omega) hlow) hfront
        have hremainder := digitChar_inj (m % base) (by have := Nat.mod_lt m hbase; omega)
          (n % base) (by have := Nat.mod_lt n hbase; omega) (List.singleton_inj.mp hlast)
        rw [← Nat.div_add_mod m base, hquotient, hremainder, Nat.div_add_mod]

theorem isDigit_of_mem_repr (n : Nat) : ∀ c ∈ n.repr.toList, c.isDigit = true := by
  rw [Nat.repr_eq_ofList_toDigits, String.toList_ofList]
  exact fun c hmem => Nat.isDigit_of_mem_toDigits (by decide) (by decide) hmem

/-- A number ends where its digits do. -/
theorem repr_append_inj {m n : Nat} {rest rest' : List Char} (hrest : Stops Char.isDigit rest)
    (hrest' : Stops Char.isDigit rest') (heq : m.repr.toList ++ rest = n.repr.toList ++ rest') :
    m = n ∧ rest = rest' := by
  obtain ⟨hsame, hbehind⟩ :=
    append_inj_of_stops (isDigit_of_mem_repr m) (isDigit_of_mem_repr n) hrest hrest' heq
  rw [Nat.repr_eq_ofList_toDigits, Nat.repr_eq_ofList_toDigits, String.toList_ofList,
    String.toList_ofList] at hsame
  exact ⟨toDigits_injective (by decide) (by decide) hsame, hbehind⟩

theorem brace_not_mem_toDigits (n : Nat) : '\x7d' ∉ Nat.toDigits 16 n := by
  induction n using Nat.strongRecOn with
  | ind n ih =>
      have hlast : ∀ digit : Nat, '\x7d' ≠ digit.digitChar :=
        fun digit => (Nat.digitChar_ne '\x7d' (by decide)).symm
      rw [Nat.toDigits_eq_if (by decide)]
      split
      · exact fun hmem => hlast n (List.mem_singleton.mp hmem)
      next hlarge =>
        rw [List.mem_append, List.mem_singleton, not_or]
        exact ⟨ih (n / 16) (by omega), hlast _⟩

/-! ## Quoted characters -/

/-- The characters that are escaped by one more character between single quotes. -/
def shortEscapes : List (Char × Char) :=
  [('\x00', '0'), ('\t', 't'), ('\n', 'n'), ('\r', 'r'), ('\\', '\\'), ('\'', '\'')]

/-- A character between single quotes stands for itself, or it is escaped in short, or by
its number. -/
theorem escaped_cases (c : Char) :
    (c ≠ '\\' ∧ escaped '\'' c = [c]) ∨
      (∃ mark, (c, mark) ∈ shortEscapes ∧ escaped '\'' c = ['\\', mark]) ∨
      escaped '\'' c = '\\' :: 'u' :: '\x7b' :: (Nat.toDigits 16 c.toNat ++ ['\x7d']) := by
  unfold escaped
  split_ifs with hnull htab hfeed hreturn hslash hquote hshown
  · exact Or.inr (Or.inl ⟨'0', by simp [hnull, shortEscapes], rfl⟩)
  · exact Or.inr (Or.inl ⟨'t', by simp [htab, shortEscapes], rfl⟩)
  · exact Or.inr (Or.inl ⟨'n', by simp [hfeed, shortEscapes], rfl⟩)
  · exact Or.inr (Or.inl ⟨'r', by simp [hreturn, shortEscapes], rfl⟩)
  · exact Or.inr (Or.inl ⟨'\\', by simp [hslash, shortEscapes], rfl⟩)
  · exact Or.inr (Or.inl ⟨'\'', by simp [hquote, shortEscapes], rfl⟩)
  · exact Or.inl ⟨hslash, rfl⟩
  · exact Or.inr (Or.inr rfl)

/-- The number of a character ends at the brace behind it. -/
theorem number_append_inj {c d : Char} {rest rest' : List Char}
    (heq : Nat.toDigits 16 c.toNat ++ '\x7d' :: rest = Nat.toDigits 16 d.toNat ++ '\x7d' :: rest') :
    c = d ∧ rest = rest' := by
  have hinside : ∀ n, ∀ digit ∈ Nat.toDigits 16 n, (digit != '\x7d') = true := by
    intro n digit hmem
    rw [bne_iff_ne]
    rintro rfl
    exact brace_not_mem_toDigits n hmem
  have hstops : ∀ tail, Stops (· != '\x7d') ('\x7d' :: tail) := by simp [Stops]
  obtain ⟨hdigits, hbehind⟩ := append_inj_of_stops (p := (· != '\x7d')) (hinside _) (hinside _)
    (hstops rest) (hstops rest') heq
  have hnumber := toDigits_injective (by decide) (by decide) hdigits
  exact ⟨Char.toNat_inj.mp hnumber, (List.cons.inj hbehind).2⟩

theorem prefixFree_escaped : PrefixFree (escaped '\'') := by
  have hmarks : ∀ first ∈ shortEscapes, ∀ second ∈ shortEscapes,
      first.2 = second.2 → first.1 = second.1 := by decide
  have hletter : ∀ short ∈ shortEscapes, short.2 ≠ 'u' := by decide
  intro c d rest rest' heq
  -- The first two characters tell in which of the three ways both characters are written.
  rcases escaped_cases c with ⟨hc, hwritten⟩ | ⟨mark, hmark, hwritten⟩ | hwritten <;>
    rcases escaped_cases d with ⟨hd, hwritten'⟩ | ⟨mark', hmark', hwritten'⟩ | hwritten' <;>
    simp only [hwritten, hwritten', List.cons_append, List.nil_append, List.append_assoc,
      List.cons.injEq, true_and] at heq
  · exact heq
  · exact absurd heq.1 hc
  · exact absurd heq.1 hc
  · exact absurd heq.1.symm hd
  · exact ⟨hmarks _ hmark _ hmark' heq.1, heq.2⟩
  · exact absurd heq.1 (hletter _ hmark)
  · exact absurd heq.1.symm hd
  · exact absurd heq.1.symm (hletter _ hmark')
  · exact number_append_inj heq

/-- A quoted character shows its end, even if it is a quote. -/
theorem prefixFree_quotedChar : PrefixFree fun c => (quotedChar c).toList := by
  intro c d rest rest' heq
  simp only [quotedChar, String.toList_ofList, List.cons_append, List.append_assoc,
    List.nil_append, List.cons.injEq, true_and] at heq
  obtain ⟨hsame, hrest⟩ := prefixFree_escaped _ _ _ _ heq
  exact ⟨hsame, (List.cons.inj hrest).2⟩

end SumProduct.Text
