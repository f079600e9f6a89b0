import SumProduct.CommandLine.Options
import SumProduct.Expression.Variables
import SumProduct.Parse.Run

/-!
# What a run prints

Every source is reported on by itself, and the reports are joined in order. A
failure is told on the error stream and counted; the run goes on after it. What is
logged stands on the error stream too, but every entry with the time of day.
-/

namespace SumProduct

/-- An entry of the log. All of them are for debugging, and none is a warning. -/
inductive LogEntry where
  /-- A text has been refused. -/
  | refused (text : String) (error : ParseError)
  /-- A canonical text has been read again and stands for its expression. -/
  | roundTrip (canonical : String)
  deriving DecidableEq

/-- What was printed and logged for some sources, and how many of them failed. -/
structure Report where
  stdout : String
  /-- What stands on the error stream besides the log. -/
  stderr : String
  log : List LogEntry
  /-- The count is a word of 32 bits with a sign, and wraps around. -/
  failures : Int32
  deriving DecidableEq

namespace Report

/-- The report on no sources. -/
def empty : Report :=
  ⟨"", "", [], 0⟩

/-- The report on more sources after others. -/
def append (first second : Report) : Report :=
  ⟨first.stdout ++ second.stdout, first.stderr ++ second.stderr, first.log ++ second.log,
    first.failures + second.failures⟩

instance : Append Report := ⟨append⟩

/-- A failed source, with the reason. -/
def failure (reason : String) : Report :=
  ⟨"", reason ++ "\n", [], 1⟩

/-- A line on the output stream. -/
def line (text : String) : Report :=
  ⟨text ++ "\n", "", [], 0⟩

end Report

namespace Expression

/-- The line that lists the variables of an expression. -/
def variablesLine (e : Expression) : String :=
  "  variables: " ++ ", ".intercalate e.variableNames

end Expression

namespace Options

/-- An entry of the log, which is written only if it is asked for. -/
def logged (options : Options) (entry : LogEntry) : Report :=
  if options.verbose then ⟨"", "", [entry], 0⟩ else .empty

/-- The report on the check that the canonical text of an expression stands for it. -/
def reportCheck (options : Options) (e : Expression) : Report :=
  match Expression.parse e.text with
  | .ok again =>
      if again == e then options.logged (.roundTrip e.text)
      else .failure ("\"" ++ e.text ++ "\" round-tripped to \"" ++ again.text ++ "\"")
  | .error error =>
      options.logged (.refused e.text error) ++
        .failure ("Unable to re-parse \"" ++ e.text ++ "\": " ++ error.message)

/-- The report on an expression that has been read. -/
def reportExpression (options : Options) (e : Expression) : Report :=
  let listing := if options.listVariables then Report.line e.variablesLine else .empty
  let checking := if options.check then options.reportCheck e else .empty
  .line e.text ++ listing ++ checking

/-- The report on one source. -/
def report (options : Options) (source : String) : Report :=
  match Expression.parse source with
  | .ok e => options.reportExpression e
  | .error error =>
      options.logged (.refused source error) ++
        .failure ("Unable to parse \"" ++ source ++ "\": " ++ error.message)

/-- The report on several sources, one after the other. -/
def reportAll (options : Options) (sources : List String) : Report :=
  sources.foldl (fun report source => report ++ options.report source) .empty

end Options

end SumProduct
