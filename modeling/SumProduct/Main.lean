import SumProduct.CommandLine.Run

/-!
# The program

Prints the canonical text of each expression on standard input, or of those given
with `--expr`. Wrong arguments end it with exit code 2.
-/

/-- Runs on the given arguments; standard input is read only if they give no expression. -/
def main (arguments : List String) : IO UInt32 := do
  match SumProduct.Options.ofArguments? arguments with
  | none =>
      IO.eprintln "usage: [-e EXPR]... [--check] [--variables] [--verbose]"
      return 2
  | some options =>
      let stdin ← if options.exprs.isEmpty then (← IO.getStdin).readBinToEnd else pure .empty
      let outcome := options.run stdin.toList
      IO.print outcome.stdout
      IO.eprint outcome.stderr
      return outcome.exitCode.toUInt32
