import Mathlib.Data.List.TakeWhile

/-!
# Runs of characters

A run of characters of one class ends where the class stops. Its length in bytes is the
sum of those of its parts.
-/

namespace SumProduct.Text

/-- The number of bytes of some characters. -/
def byteSize (chars : List Char) : Nat :=
  (String.ofList chars).utf8ByteSize

@[simp] theorem byteSize_nil : byteSize [] = 0 :=
  rfl

@[simp] theorem byteSize_append (first second : List Char) :
    byteSize (first ++ second) = byteSize first + byteSize second := by
  rw [byteSize, String.ofList_append, String.utf8ByteSize_append]
  rfl

theorem byteSize_cons (c : Char) (chars : List Char) :
    byteSize (c :: chars) = c.utf8Size + byteSize chars := by
  have hsingle : byteSize [c] = c.utf8Size := String.utf8ByteSize_singleton
  rw [← hsingle, ← byteSize_append, List.singleton_append]

theorem byteSize_pos {chars : List Char} (hne : chars ≠ []) : 0 < byteSize chars := by
  rw [Nat.pos_iff_ne_zero, byteSize, Ne, String.utf8ByteSize_eq_zero_iff]
  simpa using hne

theorem byteSize_toList (text : String) : byteSize text.toList = text.utf8ByteSize := by
  rw [byteSize, String.ofList_toList]

/-- No character of a class comes first. -/
def Stops (p : Char → Bool) (chars : List Char) : Prop :=
  ∀ c ∈ chars.head?, p c = false

theorem Stops.of_append {p : Char → Bool} {chars more : List Char}
    (hstops : Stops p (chars ++ more)) : Stops p chars := by
  cases chars with
  | nil => simp [Stops]
  | cons c chars => simpa [Stops] using hstops

theorem stops_dropWhile (p : Char → Bool) (chars : List Char) : Stops p (chars.dropWhile p) := by
  induction chars with
  | nil => simp [Stops]
  | cons c chars ih =>
      by_cases hc : p c = true
      · rwa [List.dropWhile_cons_of_pos hc]
      · rw [List.dropWhile_cons_of_neg hc]
        simpa [Stops] using hc

theorem takeWhile_eq_nil_of_stops {p : Char → Bool} {chars : List Char} (hstops : Stops p chars) :
    chars.takeWhile p = [] := by
  cases chars with
  | nil => rfl
  | cons c chars => simp [Stops] at hstops; simp [hstops]

theorem dropWhile_eq_self_of_stops {p : Char → Bool} {chars : List Char} (hstops : Stops p chars) :
    chars.dropWhile p = chars := by
  cases chars with
  | nil => rfl
  | cons c chars => simp [Stops] at hstops; simp [hstops]

/-- A run of a class ends where the class stops. -/
theorem takeWhile_append_of_stops {p : Char → Bool} {run rest : List Char}
    (hrun : ∀ c ∈ run, p c = true) (hstops : Stops p rest) : (run ++ rest).takeWhile p = run := by
  rw [List.takeWhile_append_of_pos hrun, takeWhile_eq_nil_of_stops hstops, List.append_nil]

theorem dropWhile_append_of_stops {p : Char → Bool} {run rest : List Char}
    (hrun : ∀ c ∈ run, p c = true) (hstops : Stops p rest) : (run ++ rest).dropWhile p = rest := by
  rw [List.dropWhile_append_of_pos hrun, dropWhile_eq_self_of_stops hstops]

end SumProduct.Text
