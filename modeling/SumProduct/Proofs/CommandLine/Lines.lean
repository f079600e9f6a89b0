import Mathlib.Data.List.ReduceOption
import SumProduct.Proofs.CommandLine.Printing
import SumProduct.Proofs.Text.Lines

/-!
# Runs over lines

A run over standard input handles its lines one by one, up to the first one that is not
UTF-8, and adds up the reports. A line is skipped if there is nothing to read in it.
-/

namespace SumProduct

open Text

/-! ## The lines that are handled -/

/-- A source with neither a token nor a character that starts none. -/
def Source.HoldsNothing (source : Source) : Prop :=
  source.tokens = [] ∧ source.stray? = none

instance (source : Source) : Decidable source.HoldsNothing :=
  inferInstanceAs (Decidable (_ ∧ _))

/-- There is nothing to read in blank lines, and in no other ones. -/
theorem Text.isBlankLine_iff {line : String} :
    isBlankLine line = true ↔ (Source.ofString line).HoldsNothing := by
  have hiff : isBlankLine line = true ↔ (Source.ofString line).head = .done := by
    rw [isBlankLine, List.all_eq_true, Source.head_eq_done_iff]
    rfl
  rw [hiff]
  constructor
  · exact fun hdone => ⟨Source.tokens_of_done hdone, Source.stray?_of_done hdone⟩
  · rintro ⟨htokens, hstray⟩
    cases hhead : (Source.ofString line).head with
    | done => rfl
    | stray character index =>
        rw [Source.stray?_of_stray hhead] at hstray
        cases hstray
    | token token rest =>
        rw [Source.tokens_of_token hhead] at htokens
        cases htokens

/-- The texts of the lines before the first one that is not UTF-8. -/
def Text.readableLines (lines : List (List UInt8)) : List String :=
  ((lines.map decode?).takeWhile Option.isSome).reduceOption

/-- The readable lines with something to read in them. -/
def Text.handledLines (lines : List (List UInt8)) : List String :=
  (readableLines lines).filter fun line => ¬(Source.ofString line).HoldsNothing

/-- The number of the sources that cannot be read as an expression. -/
def Text.failedSources (sources : List String) : Nat :=
  sources.countP fun source => !(Expression.parse source).isOk

/-- The number of the lines that are handled and fail. -/
def Text.failedLines (lines : List (List UInt8)) : Nat :=
  failedSources (handledLines lines)

section Readable

variable {line : List UInt8} {text : String}

theorem Text.readableLines_cons_of_none (hline : decode? line = none)
    (lines : List (List UInt8)) : readableLines (line :: lines) = [] := by
  rw [readableLines, List.map_cons, hline, List.takeWhile_cons_of_neg (by simp)]
  rfl

theorem Text.readableLines_cons_of_some (hline : decode? line = some text)
    (lines : List (List UInt8)) : readableLines (line :: lines) = text :: readableLines lines := by
  rw [readableLines, List.map_cons, hline, List.takeWhile_cons_of_pos (by simp),
    List.reduceOption_cons_of_some, ← readableLines]

end Readable

theorem Text.handledLines_eq (lines : List (List UInt8)) :
    handledLines lines = sourceLines lines := by
  induction lines with
  | nil => rfl
  | cons line lines ih =>
      rw [sourceLines]
      cases hline : decode? line with
      | none => rw [handledLines, readableLines_cons_of_none hline]; rfl
      | some text =>
          rw [handledLines, readableLines_cons_of_some hline]
          dsimp only
          split
          next hblank =>
            have hskipped := isBlankLine_iff.mp hblank
            rw [List.filter_cons_of_neg (by simpa using hskipped), ← handledLines, ih]
          next hblank =>
            have hhandled := mt isBlankLine_iff.mpr hblank
            rw [List.filter_cons_of_pos (by simpa using hhandled), ← handledLines, ih]

/-- All lines in front of others that are UTF-8 are handled before them. -/
theorem Text.handledLines_append {front : List (List UInt8)}
    (hfront : ∀ line ∈ front, (decode? line).isSome = true) (back : List (List UInt8)) :
    handledLines (front ++ back) = handledLines front ++ handledLines back := by
  have hall : ∀ text? ∈ front.map decode?, text?.isSome = true := by
    rwa [List.forall_mem_map]
  rw [handledLines, readableLines, List.map_append, List.takeWhile_append_of_pos hall,
    List.reduceOption_append, List.filter_append, handledLines, handledLines, readableLines,
    List.takeWhile_eq_self_iff.mpr hall]
  rfl

/-! ## Counting failures -/

@[simp] theorem Text.failedLines_nil : failedLines [] = 0 :=
  rfl

theorem Text.failedLines_append {front : List (List UInt8)}
    (hfront : ∀ line ∈ front, (decode? line).isSome = true) (back : List (List UInt8)) :
    failedLines (front ++ back) = failedLines front + failedLines back := by
  rw [failedLines, handledLines_append hfront]
  exact List.countP_append

/-- A line that fails is not empty. -/
theorem Text.failedLines_cons_le (line : List UInt8) (lines : List (List UInt8)) :
    failedLines (line :: lines) ≤ min line.length 1 + failedLines lines := by
  rw [failedLines, handledLines_eq, sourceLines]
  cases hline : decode? line with
  | none => exact Nat.zero_le _
  | some text =>
      dsimp only
      split
      next => rw [← handledLines_eq, ← failedLines]; omega
      next hblank =>
        have hne : line ≠ [] := by
          rintro rfl
          have hempty : bytes text = bytes "" := (decode?_eq_some_iff.mp hline).symm
          rw [bytes_injective hempty] at hblank
          exact hblank rfl
        have hlength := List.length_pos_iff.mpr hne
        rw [failedSources, List.countP_cons, ← failedSources, ← handledLines_eq, ← failedLines]
        split <;> omega

/-- Every line that fails takes a byte of its own and, but for the last line, a line feed.
So 32 bits can count the failures in any stream of less than four gibibytes. -/
theorem Text.two_mul_failedLines_le (stream : List UInt8) :
    2 * failedLines (lines stream) ≤ stream.length + 1 := by
  induction stream using lines_induction with
  | empty => exact Nat.zero_le _
  | unterminated line hline hne =>
      have hle := failedLines_cons_le line []
      have hlength := List.length_pos_iff.mpr hne
      rw [failedLines_nil] at hle
      rw [lines_of_not_mem hline hne]
      omega
  | terminated line rest hline ih =>
      have hle := failedLines_cons_le (dropCarriageReturn line) (lines rest)
      have hlength : (dropCarriageReturn line).length ≤ line.length := by
        rw [dropCarriageReturn]
        split
        · rw [List.length_dropLast]
          omega
        · exact Nat.le_refl _
      rw [lines_append_cons hline, List.length_append, List.length_cons]
      omega

/-! ## Reports on lines -/

theorem Text.join_eq_empty {texts : List String} (hempty : ∀ text ∈ texts, text = "") :
    String.join texts = "" := by
  induction texts with
  | nil => rfl
  | cons text texts ih =>
      rw [List.forall_mem_cons] at hempty
      rw [String.join_cons, hempty.1, ih hempty.2, String.empty_append]

namespace Options

open Expression

variable (options : Options)

/-- What is printed and logged for a source alone, whether it is read or not. -/
theorem report_cases (source : String) :
    (∃ e, parse source = .ok e ∧ options.report source =
      ⟨unlines (options.outputLines e), "", options.entries source, 0⟩) ∨
    ∃ error, parse source = .error error ∧ options.report source =
      ⟨"", unlines [refusal source error], options.entries source, 1⟩ := by
  cases hparse : parse source with
  | ok e => exact .inl ⟨e, rfl, options.report_of_ok hparse⟩
  | error error => exact .inr ⟨error, rfl, options.report_of_error hparse⟩

/-- The reports on sources are joined, and the sources that are not read are counted. -/
theorem reportAll_eq_join (sources : List String) :
    options.reportAll sources =
      ⟨String.join (sources.map fun source => (options.report source).stdout),
        String.join (sources.map fun source => (options.report source).stderr),
        sources.flatMap fun source => (options.report source).log,
        .ofNat (failedSources sources)⟩ := by
  induction sources with
  | nil => rfl
  | cons source sources ih =>
      have hfailures : (options.report source).failures =
          .ofNat (if !(parse source).isOk then 1 else 0) := by
        rcases options.report_cases source with ⟨e, hparse, hreport⟩ | ⟨error, hparse, hreport⟩ <;>
          rw [hreport, hparse] <;> rfl
      rw [reportAll_cons, ih, Report.append_eq, hfailures, List.map_cons, List.map_cons,
        List.flatMap_cons, String.join_cons, String.join_cons, failedSources, failedSources,
        List.countP_cons, Nat.add_comm, Int32.ofNat_add]

/-- What is told of the lines that are handled. -/
def told (lines : List (List UInt8)) : String :=
  String.join ((handledLines lines).map fun line => (options.report line).stderr)

/-- What a run over lines leaves behind, told by its lines. Each line that is handled adds what
is printed and logged for it alone, whatever the other lines are. The failures are counted in 32
bits with a sign, and the count is the verdict. It is the number of the lines that fail if these
are fewer than `2 ^ 31`, and is so on the way as well. -/
structure FoldsLines (lines : List (List UInt8)) (outcome : Outcome) : Prop where
  stdout : outcome.stdout =
    String.join ((handledLines lines).map fun line => (options.report line).stdout)
  log : outcome.log = (handledLines lines).flatMap fun line => (options.report line).log
  aborted : (∃ line ∈ lines, decode? line = none) →
    outcome.exitCode = 1 ∧
      outcome.stderr = options.told lines ++ "Error: stream did not contain valid UTF-8\n"
  failed : (∀ line ∈ lines, decode? line ≠ none) → 0 < failedLines lines →
    failedLines lines < 2 ^ 31 → outcome.exitCode = 1 ∧ outcome.stderr =
      options.told lines ++ "Error: " ++ (failedLines lines).repr ++ " expression(s) failed\n"
  succeeded : (∀ line ∈ lines, decode? line ≠ none) → failedLines lines = 0 →
    outcome.exitCode = 0 ∧ outcome.stderr = ""
  verdict : (∀ line ∈ lines, decode? line ≠ none) →
    (outcome.exitCode, outcome.stderr) =
      if 0 < Int32.ofNat (failedLines lines) then
        (1, options.told lines ++ "Error: " ++ (Int32.ofNat (failedLines lines)).toInt.repr ++
          " expression(s) failed\n")
      else (0, options.told lines)
  unwrapped : failedLines lines < 2 ^ 31 → ∀ sources, sources <+: handledLines lines →
    (options.reportAll sources).failures.toInt = failedSources sources

theorem run_eq_outcome_of_lines (hexprs : options.exprs = []) (stdin : List UInt8) :
    options.run stdin = Report.outcome
      ⟨String.join ((handledLines (lines stdin)).map fun line => (options.report line).stdout),
        options.told (lines stdin),
        (handledLines (lines stdin)).flatMap fun line => (options.report line).log,
        .ofNat (failedLines (lines stdin))⟩
      (anyUndecodable (lines stdin)) := by
  have hnone : options.exprs.isEmpty = true := by rw [hexprs]; rfl
  rw [run_eq, reportAll_eq_join, sources, if_pos hnone, cutShort, hnone, Bool.true_and,
    ← handledLines_eq, failedLines, told]

/-- Nothing is told of lines none of which fail. -/
theorem told_eq_empty {lines : List (List UInt8)} (hnone : failedLines lines = 0) :
    options.told lines = "" := by
  rw [failedLines, failedSources, List.countP_eq_zero] at hnone
  apply join_eq_empty
  rw [List.forall_mem_map]
  intro line hmem
  rcases options.report_cases line with ⟨e, _, hreport⟩ | ⟨error, hparse, _⟩
  · rw [hreport]
  · exact absurd (by rw [hparse]; rfl) (hnone line hmem)

/-- A number of sources that do not fill the word is counted exactly. -/
theorem toInt_failures_reportAll {sources : List String} (hlt : failedSources sources < 2 ^ 31) :
    (options.reportAll sources).failures.toInt = failedSources sources := by
  rw [reportAll_eq_join]
  exact Int32.toInt_ofNat_of_lt hlt

/-- A run over standard input leaves behind what its lines tell. -/
theorem foldsLines_run (hexprs : options.exprs = []) (stdin : List UInt8) :
    options.FoldsLines (lines stdin) (options.run stdin) := by
  rw [options.run_eq_outcome_of_lines hexprs]
  have hwhole : (∀ line ∈ lines stdin, decode? line ≠ none) →
      anyUndecodable (lines stdin) = false := by
    intro hall
    apply Bool.eq_false_of_not_eq_true
    intro hcut
    obtain ⟨line, hmem, hline⟩ := anyUndecodable_iff.mp hcut
    exact hall line hmem hline
  refine ⟨Report.stdout_outcome _ _, Report.log_outcome _ _, ?_, ?_, ?_, ?_, ?_⟩
  · intro hcut
    rw [anyUndecodable_iff.mpr hcut]
    exact ⟨rfl, rfl⟩
  · intro hall hfailed hlt
    have hcount := Int32.toInt_ofNat_of_lt hlt
    have hpositive : 0 < Int32.ofNat (failedLines (lines stdin)) := by
      rw [Int32.lt_iff_toInt_lt, hcount]
      exact Int.natCast_pos.mpr hfailed
    rw [hwhole hall, Report.outcome_of_failures_pos, hcount]
    · exact ⟨rfl, rfl⟩
    · exact hpositive
  · intro hall hnone
    have hcount : ¬0 < Int32.ofNat (failedLines (lines stdin)) := by
      rw [hnone]
      decide
    rw [hwhole hall, Report.outcome_of_failures_not_pos, options.told_eq_empty hnone]
    · exact ⟨rfl, rfl⟩
    · exact hcount
  · intro hall
    rw [hwhole hall]
    split
    next hpositive =>
      rw [Report.outcome_of_failures_pos]
      exact hpositive
    next hcount =>
      rw [Report.outcome_of_failures_not_pos]
      exact hcount
  · intro hlt sources hsources
    exact options.toInt_failures_reportAll (hsources.sublist.countP_le.trans_lt hlt)

end Options

end SumProduct
