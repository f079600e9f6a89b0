import SumProduct.Proofs.Text.Bytes

/-!
# Cutting a stream into lines

The lines of a stream are found one by one, each up to the next line feed. Streams of
whole lines are cut one after the other, and no line feed is inside of a character, so the
lines of a text are texts.
-/

namespace SumProduct.Text

/-- The bytes are cut into the lines: at each line feed, with one carriage return before it
dropped. What is left behind the last line feed is a line unless it is empty. -/
inductive CutInto : List UInt8 → List (List UInt8) → Prop
  | empty : CutInto [] []
  | unterminated {line : List UInt8} (hline : lineFeed ∉ line) (hne : line ≠ []) :
      CutInto line [line]
  | terminated {line rest : List UInt8} {lines : List (List UInt8)} (hline : lineFeed ∉ line)
      (hreturn : line.getLast? ≠ some carriageReturn) (hrest : CutInto rest lines) :
      CutInto (line ++ lineFeed :: rest) (line :: lines)
  | returned {line rest : List UInt8} {lines : List (List UInt8)} (hline : lineFeed ∉ line)
      (hrest : CutInto rest lines) :
      CutInto (line ++ carriageReturn :: lineFeed :: rest) (line :: lines)

/-! ## Line by line -/

theorem dropCarriageReturn_of_ne {line : List UInt8}
    (hreturn : line.getLast? ≠ some carriageReturn) : dropCarriageReturn line = line :=
  if_neg hreturn

@[simp] theorem dropCarriageReturn_concat (line : List UInt8) :
    dropCarriageReturn (line ++ [carriageReturn]) = line := by
  rw [dropCarriageReturn, if_pos List.getLast?_concat, List.dropLast_concat]

@[simp] theorem lines_nil : lines [] = [] :=
  rfl

theorem lines_of_not_mem {line : List UInt8} (hline : lineFeed ∉ line) (hne : line ≠ []) :
    lines line = [line] := by
  rw [lines, List.splitOn_eq_singleton hline]
  simp [hne]

theorem lines_append_cons {line : List UInt8} (hline : lineFeed ∉ line) (rest : List UInt8) :
    lines (line ++ lineFeed :: rest) = dropCarriageReturn line :: lines rest := by
  have hpieces := List.splitOn_ne_nil lineFeed rest
  rw [lines, List.splitOn_append_cons_self_of_not_mem hline, lines]
  rw [List.dropLast_cons_of_ne_nil hpieces, List.map_cons, List.cons_append,
    List.getLast?_cons_of_ne_nil hpieces]

/-- Induction along the lines of a stream. -/
theorem lines_induction {motive : List UInt8 → Prop} (empty : motive [])
    (unterminated : ∀ line, lineFeed ∉ line → line ≠ [] → motive line)
    (terminated : ∀ line rest, lineFeed ∉ line → motive rest → motive (line ++ lineFeed :: rest))
    (stream : List UInt8) : motive stream := by
  by_cases hfeed : lineFeed ∈ stream
  · obtain ⟨line, rest, hsplit, hline⟩ := List.eq_append_cons_of_mem hfeed
    have hshorter : rest.length < stream.length := by
      rw [hsplit, List.length_append, List.length_cons]
      omega
    rw [hsplit]
    exact terminated line rest hline (lines_induction empty unterminated terminated rest)
  · by_cases hne : stream = []
    · rwa [hne]
    · exact unterminated stream hfeed hne
termination_by stream.length

theorem cutInto_lines (stream : List UInt8) : CutInto stream (lines stream) := by
  induction stream using lines_induction with
  | empty => exact .empty
  | unterminated line hline hne =>
      rw [lines_of_not_mem hline hne]
      exact .unterminated hline hne
  | terminated line rest hline ih =>
      rw [lines_append_cons hline]
      by_cases hreturn : line.getLast? = some carriageReturn
      · obtain ⟨front, rfl⟩ := List.getLast?_eq_some_iff.mp hreturn
        rw [dropCarriageReturn_concat, List.append_assoc, List.singleton_append]
        exact .returned (fun hmem => hline (List.mem_append_left _ hmem)) ih
      · rw [dropCarriageReturn_of_ne hreturn]
        exact .terminated hline hreturn ih

theorem CutInto.lines_eq {stream : List UInt8} {cut : List (List UInt8)}
    (hcut : CutInto stream cut) : lines stream = cut := by
  induction hcut with
  | empty => rfl
  | unterminated hline hne => exact lines_of_not_mem hline hne
  | terminated hline hreturn hrest ih =>
      rw [lines_append_cons hline, dropCarriageReturn_of_ne hreturn, ih]
  | @returned line rest cut hline hrest ih =>
      have hreturned : lineFeed ∉ line ++ [carriageReturn] := by
        rw [List.mem_append, not_or]
        exact ⟨hline, by decide⟩
      rw [← List.singleton_append (l := lineFeed :: rest), ← List.append_assoc,
        lines_append_cons hreturned, dropCarriageReturn_concat, ih]

/-- There is one way to cut a stream into lines. -/
theorem cutInto_iff {stream : List UInt8} {cut : List (List UInt8)} :
    CutInto stream cut ↔ lines stream = cut :=
  ⟨CutInto.lines_eq, fun hlines => hlines ▸ cutInto_lines stream⟩

/-- The lines of a stream of whole lines come before those of what follows. -/
theorem lines_append {front : List UInt8} (hfront : front = [] ∨ front.getLast? = some lineFeed)
    (back : List UInt8) : lines (front ++ back) = lines front ++ lines back := by
  induction front using lines_induction with
  | empty => rfl
  | unterminated line hline hne =>
      rcases hfront with rfl | hlast
      · exact absurd rfl hne
      · exact absurd (List.mem_of_getLast? hlast) hline
  | terminated line rest hline ih =>
      have hrest : rest = [] ∨ rest.getLast? = some lineFeed := by
        cases rest with
        | nil => exact .inl rfl
        | cons byte rest => simpa using hfront
      rw [List.append_assoc, List.cons_append, lines_append_cons hline, lines_append_cons hline,
        ih hrest, List.cons_append]

/-! ## Lines of texts -/

theorem lineFeed_mem_bytes_iff {text : String} : lineFeed ∈ bytes text ↔ '\n' ∈ text.toList := by
  have hascii : '\n'.toNat ≤ 0x7f := by decide
  exact mem_bytes_iff hascii

theorem getLast?_bytes_eq_carriageReturn_iff {text : String} :
    (bytes text).getLast? = some carriageReturn ↔ text.toList.getLast? = some '\r' := by
  have hascii : '\r'.toNat ≤ 0x7f := by decide
  exact getLast?_bytes_iff hascii

/-- The first line of a text ends with its first line feed. -/
theorem lines_bytes_append {line : String} (hline : '\n' ∉ line.toList) (rest : String) :
    lines (bytes (line ++ "\n" ++ rest)) =
      dropCarriageReturn (bytes line) :: lines (bytes rest) := by
  have hfeed : bytes "\n" = [lineFeed] := bytes_ofList ['\n']
  rw [bytes_append, bytes_append, hfeed, List.append_assoc, List.singleton_append]
  exact lines_append_cons (mt lineFeed_mem_bytes_iff.mp hline) (bytes rest)

/-- A text without the carriage return at its end is a text. -/
theorem exists_dropCarriageReturn_bytes (text : String) :
    ∃ line, dropCarriageReturn (bytes text) = bytes line := by
  by_cases hreturn : text.toList.getLast? = some '\r'
  · obtain ⟨front, hfront⟩ := List.getLast?_eq_some_iff.mp hreturn
    have hbytes : bytes text = bytes (String.ofList front) ++ [carriageReturn] := by
      rw [bytes_eq_flatMap, hfront, List.flatMap_append, ← bytes_ofList]
      rfl
    exact ⟨String.ofList front, by rw [hbytes, dropCarriageReturn_concat]⟩
  · exact ⟨text, dropCarriageReturn_of_ne (mt getLast?_bytes_eq_carriageReturn_iff.mp hreturn)⟩

/-- The lines of a text are texts. -/
theorem isSome_decode?_of_mem_lines (text : String) :
    ∀ line ∈ lines (bytes text), (decode? line).isSome = true := by
  by_cases hfeed : '\n' ∈ text.toList
  · obtain ⟨front, back, hsplit, hfront⟩ := List.eq_append_cons_of_mem hfeed
    have hshorter : (String.ofList back).toList.length < text.toList.length := by
      rw [hsplit, String.toList_ofList, List.length_append, List.length_cons]
      omega
    have htext : text = String.ofList front ++ "\n" ++ String.ofList back := by
      rw [← String.toList_inj, hsplit]
      simp
    have hline : '\n' ∉ (String.ofList front).toList := by rwa [String.toList_ofList]
    obtain ⟨line, hdrop⟩ := exists_dropCarriageReturn_bytes (String.ofList front)
    -- The first line is a text, and the lines behind it are those of a shorter text.
    rw [htext, lines_bytes_append hline, hdrop, List.forall_mem_cons, decode?_bytes]
    exact ⟨rfl, isSome_decode?_of_mem_lines (String.ofList back)⟩
  · by_cases hempty : bytes text = []
    · simp [hempty]
    · rw [lines_of_not_mem (mt lineFeed_mem_bytes_iff.mp hfeed) hempty, List.forall_mem_singleton,
        decode?_bytes]
      rfl
termination_by text.toList.length

/-- A text that stands in a stream as one line, with something in it besides blanks. -/
structure IsLine (text : String) : Prop where
  nonblank : ∃ c ∈ text.toList, isBlank c = false
  feed : '\n' ∉ text.toList
  ending : text.toList.getLast? ≠ some '\r'

theorem IsLine.isBlankLine_eq_false {text : String} (hline : IsLine text) :
    isBlankLine text = false := by
  obtain ⟨c, hmem, hblank⟩ := hline.nonblank
  rw [isBlankLine, List.all_eq_false]
  exact ⟨c, hmem, by rw [hblank]; exact Bool.false_ne_true⟩

theorem IsLine.dropCarriageReturn_bytes {text : String} (hline : IsLine text) :
    dropCarriageReturn (bytes text) = bytes text :=
  dropCarriageReturn_of_ne (mt getLast?_bytes_eq_carriageReturn_iff.mp hline.ending)

theorem IsLine.lines_bytes {text : String} (hline : IsLine text) :
    lines (bytes text) = [bytes text] := by
  refine lines_of_not_mem (mt lineFeed_mem_bytes_iff.mp hline.feed) ?_
  intro hempty
  obtain ⟨c, hmem, _⟩ := hline.nonblank
  have htext : text = "" := bytes_injective hempty
  rw [htext] at hmem
  cases hmem

/-- Joined lines are taken apart again, with or without a line feed at their end. -/
theorem lines_bytes_intercalate {texts : List String} (hne : texts ≠ [])
    (htexts : ∀ text ∈ texts, IsLine text) {ending : String}
    (hending : ending = "" ∨ ending = "\n") :
    lines (bytes ("\n".intercalate texts ++ ending)) = texts.map bytes := by
  induction texts with
  | nil => exact absurd rfl hne
  | cons text texts ih =>
      rw [List.forall_mem_cons] at htexts
      obtain ⟨hline, hlines⟩ := htexts
      cases texts with
      | nil =>
          rw [String.intercalate_singleton, List.map_singleton]
          rcases hending with rfl | rfl
          · rw [String.append_empty]
            exact hline.lines_bytes
          · rw [← String.append_empty (s := text ++ "\n"), lines_bytes_append hline.feed,
              hline.dropCarriageReturn_bytes]
            rfl
      | cons next texts =>
          rw [String.intercalate_cons_cons, String.append_assoc, lines_bytes_append hline.feed,
            hline.dropCarriageReturn_bytes, ih (List.cons_ne_nil next texts) hlines]
          rfl

end SumProduct.Text
