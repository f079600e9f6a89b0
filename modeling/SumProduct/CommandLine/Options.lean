/-!
# Command line options

The arguments are read from left to right. `-e V` and `--expr V` give an expression
and may be repeated, with the value attached or in the next argument, where it may
be a lone hyphen but not start like an option. The other options are flags that
may be given once. Short flags can be grouped before a last `-e`. There are no
other arguments.
-/

namespace SumProduct

/-- What a run of the program is asked to do. -/
structure Options where
  /-- Expressions to handle instead of the lines of standard input. -/
  exprs : List String
  /-- Whether each canonical text is read again and compared. -/
  check : Bool
  /-- Whether the variables of each expression are listed. -/
  listVariables : Bool
  /-- Whether the log is written for debugging as well as for warnings. -/
  verbose : Bool
  deriving DecidableEq, Repr

namespace Options

/-- The options of a run without arguments. -/
def empty : Options :=
  ⟨[], false, false, false⟩

/-- What the argument after those already read may be. -/
inductive Next where
  /-- An option. -/
  | option
  /-- The expression of the option before it. -/
  | value
  /-- No argument at all, after the end mark `--`. -/
  | nothing
  deriving DecidableEq, Repr

/-- Sets a flag that has not been given before. -/
def setCheck (options : Options) : Option Options :=
  if options.check then none else some { options with check := true }

/-- Sets a flag that has not been given before. -/
def setListVariables (options : Options) : Option Options :=
  if options.listVariables then none else some { options with listVariables := true }

/-- Sets a flag that has not been given before. -/
def setVerbose (options : Options) : Option Options :=
  if options.verbose then none else some { options with verbose := true }

/-- Adds an expression after those given before. -/
def addExpr (options : Options) (expr : String) : Options :=
  { options with exprs := options.exprs ++ [expr] }

/-- Reads a group of short options, the characters after a single hyphen. All that
follows an `e` is its value, of which a leading equals sign is no part. -/
def readShort (options : Options) : List Char → Option (Options × Next)
  | [] => some (options, .option)
  | 'v' :: rest => do (← options.setVerbose).readShort rest
  | ['e'] => some (options, .value)
  | 'e' :: '=' :: value => some (options.addExpr (String.ofList value), .option)
  | 'e' :: value => some (options.addExpr (String.ofList value), .option)
  | _ => none

/-- Reads a long option, the characters after two hyphens. -/
def readLong (options : Options) (chars : List Char) : Option (Options × Next) :=
  match String.ofList (chars.takeWhile (· != '=')), chars.dropWhile (· != '=') with
  | "", [] => some (options, .nothing)
  | "check", [] => options.setCheck.map (·, .option)
  | "variables", [] => options.setListVariables.map (·, .option)
  | "verbose", [] => options.setVerbose.map (·, .option)
  | "expr", [] => some (options, .value)
  | "expr", _ :: value => some (options.addExpr (String.ofList value), .option)
  | _, _ => none

/-- Reads one more argument. -/
def readArgument : Options × Next → String → Option (Options × Next)
  | (options, .option), argument =>
      match argument.toList with
      | '-' :: '-' :: long => options.readLong long
      | '-' :: first :: short => options.readShort (first :: short)
      -- A text that is no option; a lone hyphen is not one either.
      | _ => none
  | (options, .value), argument =>
      match argument.toList with
      | '-' :: _ :: _ => none
      | _ => some (options.addExpr argument, .option)
  | (_, .nothing), _ => none

/-- The options that the arguments spell, if they are well formed. -/
def ofArguments? (arguments : List String) : Option Options :=
  match arguments.foldlM readArgument (empty, .option) with
  | some (_, .value) => none
  | some (options, _) => some options
  | none => none

end Options

end SumProduct
