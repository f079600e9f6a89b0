import SumProduct.Text.Lines

/-!
# The bytes of a text

A text is told by its bytes, and they are the only ones that are decoded to it. A byte of
ASCII is the whole of a character, so it stands in the bytes exactly where the character
stands in the text.
-/

namespace SumProduct.Text

/-- The bytes of a text in UTF-8. -/
def bytes (text : String) : List UInt8 :=
  text.toUTF8.data.toList

theorem bytes_ofList (chars : List Char) :
    bytes (String.ofList chars) = chars.flatMap String.utf8EncodeChar := by
  rw [bytes, String.toUTF8_eq_toByteArray, String.toByteArray_ofList, List.utf8Encode,
    List.data_toByteArray]

theorem bytes_eq_flatMap (text : String) :
    bytes text = text.toList.flatMap String.utf8EncodeChar := by
  rw [← bytes_ofList, String.ofList_toList]

@[simp] theorem bytes_append (first second : String) :
    bytes (first ++ second) = bytes first ++ bytes second := by
  rw [bytes_eq_flatMap, bytes_eq_flatMap, bytes_eq_flatMap, String.toList_append,
    List.flatMap_append]

/-- A text is decoded from its own bytes and from no others. -/
theorem decode?_eq_some_iff {line : List UInt8} {text : String} :
    decode? line = some text ↔ line = bytes text := by
  rw [decode?, String.fromUTF8?]
  constructor
  · intro hdecode
    split at hdecode
    next hvalid =>
      obtain rfl : String.fromUTF8 line.toByteArray hvalid = text := by simpa using hdecode
      exact (congrArg Array.toList List.data_toByteArray).symm
    next => cases hdecode
  · rintro rfl
    have hbytes : (bytes text).toByteArray = text.toByteArray := ByteArray.ext List.data_toByteArray
    rw [dif_pos (hbytes ▸ text.isValidUTF8), Option.some.injEq, ← String.toByteArray_inj]
    exact hbytes

@[simp] theorem decode?_bytes (text : String) : decode? (bytes text) = some text :=
  decode?_eq_some_iff.mpr rfl

theorem bytes_injective : Function.Injective bytes := by
  intro first second hbytes
  rw [← Option.some.injEq, ← decode?_bytes first, hbytes, decode?_bytes]

/-! ## Bytes of ASCII -/

/-- All bytes of a character outside of ASCII are beyond those of ASCII. -/
theorem le_of_mem_utf8EncodeChar {c : Char} (hlarge : 0x7f < c.toNat) :
    ∀ byte ∈ String.utf8EncodeChar c, 0x80 ≤ byte.toNat := by
  have hval : ¬c.val.toNat ≤ 0x7f := Nat.not_le_of_lt hlarge
  intro byte hmem
  simp only [String.utf8EncodeChar, if_neg hval] at hmem
  split at hmem
  · simp only [List.mem_cons, List.not_mem_nil, or_false] at hmem
    rcases hmem with rfl | rfl <;> rw [UInt8.toNat_ofNat'] <;> omega
  · split at hmem
    · simp only [List.mem_cons, List.not_mem_nil, or_false] at hmem
      rcases hmem with rfl | rfl | rfl <;> rw [UInt8.toNat_ofNat'] <;> omega
    · simp only [List.mem_cons, List.not_mem_nil, or_false] at hmem
      rcases hmem with rfl | rfl | rfl | rfl <;> rw [UInt8.toNat_ofNat'] <;> omega

section Ascii

variable {ascii : Char} (hascii : ascii.toNat ≤ 0x7f)

include hascii

theorem utf8EncodeChar_ascii : String.utf8EncodeChar ascii = [ascii.toUInt8] :=
  if_pos hascii

theorem toNat_toUInt8 : ascii.toUInt8.toNat = ascii.toNat := by
  have hval : ascii.val.toNat ≤ 0x7f := hascii
  rw [Char.toUInt8, UInt32.toNat_toUInt8, Nat.mod_eq_of_lt (by omega)]
  rfl

/-- A byte of ASCII comes from its character alone. -/
theorem mem_utf8EncodeChar_iff {c : Char} :
    ascii.toUInt8 ∈ String.utf8EncodeChar c ↔ c = ascii := by
  constructor
  · intro hmem
    by_cases hc : c.toNat ≤ 0x7f
    · rw [utf8EncodeChar_ascii hc, List.mem_singleton] at hmem
      rw [← Char.toNat_inj, ← toNat_toUInt8 hc, ← hmem, toNat_toUInt8 hascii]
    · have hlarge := le_of_mem_utf8EncodeChar (Nat.lt_of_not_le hc) _ hmem
      rw [toNat_toUInt8 hascii] at hlarge
      omega
  · rintro rfl
    rw [utf8EncodeChar_ascii hascii]
    exact List.mem_singleton_self _

theorem mem_bytes_iff {text : String} : ascii.toUInt8 ∈ bytes text ↔ ascii ∈ text.toList := by
  rw [bytes_eq_flatMap, List.mem_flatMap]
  simp only [mem_utf8EncodeChar_iff hascii, exists_eq_right]

theorem getLast?_bytes_iff {text : String} :
    (bytes text).getLast? = some ascii.toUInt8 ↔ text.toList.getLast? = some ascii := by
  rw [bytes_eq_flatMap]
  rcases List.eq_nil_or_concat text.toList with hnil | ⟨front, c, hconcat⟩
  · simp [hnil]
  · rw [hconcat, List.concat_eq_append, List.flatMap_append, List.flatMap_singleton,
      List.getLast?_append, List.getLast?_concat, Option.some.injEq]
    constructor
    · intro hlast
      obtain ⟨last, hsome⟩ := Option.ne_none_iff_exists'.mp
        (mt List.getLast?_eq_none_iff.mp (String.utf8EncodeChar_ne_nil (c := c)))
      rw [hsome, Option.some_or, Option.some.injEq] at hlast
      rw [← mem_utf8EncodeChar_iff hascii, ← hlast]
      exact List.mem_of_getLast? hsome
    · rintro rfl
      rw [utf8EncodeChar_ascii hascii]
      rfl

end Ascii

end SumProduct.Text
