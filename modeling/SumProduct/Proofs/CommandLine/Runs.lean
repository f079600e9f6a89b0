import SumProduct.CommandLine.Run

/-!
# Runs as reports on sources

A run reports on its sources in order: on the expressions among its options or, if there
are none, on the lines of standard input that are not blank, up to the first one that is
not UTF-8. What it leaves behind depends on nothing else.
-/

namespace SumProduct

/-! ## Joining reports -/

namespace Report

theorem append_eq (first second : Report) :
    first ++ second = ⟨first.stdout ++ second.stdout, first.stderr ++ second.stderr,
      first.log ++ second.log, first.failures + second.failures⟩ :=
  rfl

@[simp] theorem empty_append (report : Report) : empty ++ report = report := by
  simp only [append_eq, empty, String.empty_append, List.nil_append, Int32.zero_add]

@[simp] theorem append_empty (report : Report) : report ++ empty = report := by
  simp only [append_eq, empty, String.append_empty, List.append_nil, Int32.add_zero]

theorem append_assoc (first second third : Report) :
    first ++ second ++ third = first ++ (second ++ third) := by
  simp only [append_eq, String.append_assoc, List.append_assoc, Int32.add_assoc]

end Report

namespace Options

theorem foldl_report (options : Options) (sources : List String) (report : Report) :
    sources.foldl (fun report source => report ++ options.report source) report =
      report ++ options.reportAll sources := by
  rw [reportAll]
  induction sources generalizing report with
  | nil => exact report.append_empty.symm
  | cons source sources ih =>
      rw [List.foldl_cons, ih, List.foldl_cons, ih (.empty ++ _), Report.empty_append,
        Report.append_assoc]

@[simp] theorem reportAll_nil (options : Options) : options.reportAll [] = .empty :=
  rfl

theorem reportAll_cons (options : Options) (source : String) (sources : List String) :
    options.reportAll (source :: sources) = options.report source ++ options.reportAll sources := by
  rw [reportAll, List.foldl_cons, foldl_report, Report.empty_append]

end Options

/-! ## Sources -/

/-- The texts of some lines that are not blank, up to the first line that is not UTF-8. -/
def Text.sourceLines : List (List UInt8) → List String
  | [] => []
  | line :: lines =>
      match decode? line with
      | none => []
      | some source => if isBlankLine source then sourceLines lines else source :: sourceLines lines

/-- Whether some line is not UTF-8. -/
def Text.anyUndecodable (lines : List (List UInt8)) : Bool :=
  lines.any fun line => (decode? line).isNone

theorem Text.anyUndecodable_iff {lines : List (List UInt8)} :
    anyUndecodable lines = true ↔ ∃ line ∈ lines, decode? line = none := by
  simp only [anyUndecodable, List.any_eq_true, Option.isNone_iff_eq_none]

/-- What a run leaves behind after all of its reports, if it was cut short or not. -/
def Report.outcome (report : Report) (cut : Bool) : Outcome :=
  if cut then report.abort else report.conclude

/-- A run that has seen all of its sources fails if its count of failures is positive. -/
theorem Report.outcome_of_failures_pos {report : Report} (hfailures : 0 < report.failures) :
    report.outcome false = ⟨1, report.stdout,
      report.stderr ++ "Error: " ++ report.failures.toInt.repr ++ " expression(s) failed\n",
      report.log⟩ := by
  rw [outcome, if_neg Bool.false_ne_true, conclude, if_pos hfailures]

theorem Report.outcome_of_failures_not_pos {report : Report} (hfailures : ¬0 < report.failures) :
    report.outcome false = ⟨0, report.stdout, report.stderr, report.log⟩ := by
  rw [outcome, if_neg Bool.false_ne_true, conclude, if_neg hfailures]

namespace Options

/-- The sources on which a run reports. -/
def sources (options : Options) (stdin : List UInt8) : List String :=
  if options.exprs.isEmpty then Text.sourceLines (Text.lines stdin) else options.exprs

/-- Whether a run meets a line that is not UTF-8. -/
def cutShort (options : Options) (stdin : List UInt8) : Bool :=
  options.exprs.isEmpty && Text.anyUndecodable (Text.lines stdin)

theorem runLines_eq (options : Options) (lines : List (List UInt8)) (report : Report) :
    options.runLines report lines =
      (report ++ options.reportAll (Text.sourceLines lines)).outcome
        (Text.anyUndecodable lines) := by
  induction lines generalizing report with
  | nil =>
      rw [runLines, Text.sourceLines, reportAll_nil, Report.append_empty]
      rfl
  | cons line lines ih =>
      rw [runLines, Text.sourceLines, Text.anyUndecodable, List.any_cons, ← Text.anyUndecodable]
      cases hline : Text.decode? line with
      | none =>
          simp only [reportAll_nil, Report.append_empty, Option.isNone_none, Bool.true_or]
          rfl
      | some source =>
          simp only [Option.isNone_some, Bool.false_or]
          split
          · exact ih report
          · rw [ih, reportAll_cons, Report.append_assoc]

/-- A run reports on its sources and is cut short only by a line that is not UTF-8. -/
theorem run_eq (options : Options) (stdin : List UInt8) :
    options.run stdin =
      (options.reportAll (options.sources stdin)).outcome (options.cutShort stdin) := by
  rw [run, sources, cutShort]
  cases options.exprs.isEmpty with
  | true =>
      rw [if_pos rfl, if_pos rfl, runLines_eq, Report.empty_append, Bool.true_and]
  | false => rfl

end Options

end SumProduct
