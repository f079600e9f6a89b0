import SumProduct.CommandLine.Report
import SumProduct.Text.Lines

/-!
# A run of the program

The sources of a run are the expressions among its options or, if there are none,
the lines of standard input that are not blank. A line that is not UTF-8 ends
the run there.
-/

namespace SumProduct

/-- What a finished run leaves behind. -/
structure Outcome where
  exitCode : Nat
  stdout : String
  /-- What stands on the error stream besides the log. -/
  stderr : String
  log : List LogEntry
  deriving DecidableEq

/-- The end of a run that has seen all of its sources. -/
def Report.conclude (report : Report) : Outcome :=
  if 0 < report.failures then
    ⟨1, report.stdout,
      report.stderr ++ "Error: " ++ report.failures.toInt.repr ++ " expression(s) failed\n",
      report.log⟩
  else ⟨0, report.stdout, report.stderr, report.log⟩

/-- The end of a run that meets a line which is not UTF-8. -/
def Report.abort (report : Report) : Outcome :=
  ⟨1, report.stdout, report.stderr ++ "Error: stream did not contain valid UTF-8\n", report.log⟩

namespace Options

/-- The rest of a run over lines, after a report on the lines before. -/
def runLines (options : Options) (report : Report) : List (List UInt8) → Outcome
  | [] => report.conclude
  | line :: lines =>
      match Text.decode? line with
      | none => report.abort
      | some source =>
          if Text.isBlankLine source then options.runLines report lines
          else options.runLines (report ++ options.report source) lines

/-- The run that the options ask for, with the given bytes on standard input. -/
def run (options : Options) (stdin : List UInt8) : Outcome :=
  if options.exprs.isEmpty then options.runLines .empty (Text.lines stdin)
  else (options.reportAll options.exprs).conclude

end Options

end SumProduct
