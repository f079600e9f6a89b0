import SumProduct.Proofs.CommandLine.Runs
import SumProduct.Proofs.Expression.RoundTrip
import SumProduct.Proofs.Expression.UniqueText
import SumProduct.Proofs.Expression.VariableNames

/-!
# What runs print

A run prints the lines of every source that is read and tells the reason for every other
one. Checking the canonical texts changes nothing, since all of them read back, and
listing the variables adds one line after each of them.
-/

namespace SumProduct

/-- Lines one after another, each with its line feed. -/
def Text.unlines (lines : List String) : String :=
  String.join (lines.map (· ++ "\n"))

@[simp] theorem Text.unlines_nil : unlines [] = "" :=
  rfl

theorem Text.unlines_cons (line : String) (lines : List String) :
    unlines (line :: lines) = line ++ "\n" ++ unlines lines := by
  rw [unlines, List.map_cons, String.join_cons, ← unlines]

@[simp] theorem Text.unlines_append (first second : List String) :
    unlines (first ++ second) = unlines first ++ unlines second := by
  rw [unlines, List.map_append, String.join_append, ← unlines, ← unlines]

namespace Expression

/-- The canonical text of a tree that has been read stands for it. -/
theorem parse_text_of_parse {source : String} {e : Expression} (hparse : parse source = .ok e) :
    parse e.text = .ok e := by
  obtain ⟨_, _, _, hdepth⟩ := spells_of_parse hparse
  have hspells : Spells .expression (Source.ofString e.text).tokens e := by
    rw [tokens_ofString_text]
    exact (e.spells_tokens 0).expression_of_factor
  have hwithin : BracketsWithin maxDepth 0 (Source.ofString e.text).tokens := by
    rw [tokens_ofString_text]
    exact e.bracketsWithin_tokens (by omega) 0
  exact parse_of_spells e.stray?_ofString_text hspells hwithin hdepth

/-- The trees of the sources that are read. -/
def parseAll (sources : List String) : List Expression :=
  sources.filterMap fun source => (parse source).toOption

/-- What is told of a source that is not read. -/
def refusal (source : String) (error : ParseError) : String :=
  "Unable to parse \"" ++ source ++ "\": " ++ error.message

/-- What is told of the sources that are not read. -/
def refusals (sources : List String) : List String :=
  sources.filterMap fun source =>
    match parse source with
    | .ok _ => none
    | .error error => some (refusal source error)

section Cons

variable {source : String} {sources : List String} {e : Expression} {error : ParseError}

theorem parseAll_cons_of_ok (hparse : parse source = .ok e) :
    parseAll (source :: sources) = e :: parseAll sources :=
  List.filterMap_cons_some (by rw [hparse]; rfl)

theorem parseAll_cons_of_error (hparse : parse source = .error error) :
    parseAll (source :: sources) = parseAll sources :=
  List.filterMap_cons_none (by rw [hparse]; rfl)

theorem refusals_cons_of_ok (hparse : parse source = .ok e) :
    refusals (source :: sources) = refusals sources :=
  List.filterMap_cons_none (by rw [hparse])

theorem refusals_cons_of_error (hparse : parse source = .error error) :
    refusals (source :: sources) = refusal source error :: refusals sources :=
  List.filterMap_cons_some (by rw [hparse])

end Cons

theorem exists_parse_of_mem_parseAll {sources : List String} {e : Expression}
    (hmem : e ∈ parseAll sources) : ∃ source ∈ sources, parse source = .ok e := by
  obtain ⟨source, hsource, hread⟩ := List.mem_filterMap.mp hmem
  cases hparse : parse source with
  | ok again =>
      rw [hparse] at hread
      cases hread
      exact ⟨source, hsource, hparse⟩
  | error error =>
      rw [hparse] at hread
      cases hread

end Expression

namespace Options

open Expression Text

/-- The lines that are printed for a tree. -/
def outputLines (options : Options) (e : Expression) : List String :=
  if options.listVariables then [e.text, "  variables: " ++ ", ".intercalate e.variableNames]
  else [e.text]

/-- What is logged for a source. -/
def entries (options : Options) (source : String) : List LogEntry :=
  if options.verbose then
    match parse source with
    | .ok e => if options.check then [.roundTrip e.text] else []
    | .error error => [.refused source error]
  else []

/-- Nothing is logged unless that is asked for. -/
theorem entries_of_quiet (options : Options) (hquiet : options.verbose = false) (source : String) :
    options.entries source = [] := by
  rw [entries, hquiet]
  rfl

/-- A tree that has been read stands the check. -/
theorem reportCheck_of_parse (options : Options) {source : String} {e : Expression}
    (hparse : parse source = .ok e) :
    options.reportCheck e = options.logged (.roundTrip e.text) := by
  have hself : (e == e) = true := BEq.rfl
  rw [reportCheck, parse_text_of_parse hparse]
  exact if_pos hself

theorem report_of_ok (options : Options) {source : String} {e : Expression}
    (hparse : parse source = .ok e) :
    options.report source =
      ⟨unlines (options.outputLines e), "", options.entries source, 0⟩ := by
  have hlines : (Report.line e.text ++
        if options.listVariables then Report.line e.variablesLine else .empty) =
      ⟨unlines (options.outputLines e), "", [], 0⟩ := by
    rw [outputLines]
    split
    · rw [unlines_cons, unlines_cons, unlines_nil, String.append_empty]
      rfl
    · rw [Report.append_empty, unlines_cons, unlines_nil, String.append_empty]
      rfl
  have hchecking : (if options.check then options.reportCheck e else .empty) =
      ⟨"", "", options.entries source, 0⟩ := by
    rw [reportCheck_of_parse options hparse, logged, entries, hparse]
    cases options.check <;> cases options.verbose <;> rfl
  simp only [report, hparse, reportExpression]
  rw [hlines, hchecking, Report.append_eq, String.append_empty]
  rfl

theorem report_of_error (options : Options) {source : String} {error : ParseError}
    (hparse : parse source = .error error) :
    options.report source =
      ⟨"", unlines [refusal source error], options.entries source, 1⟩ := by
  simp only [report, hparse]
  rw [unlines_cons, unlines_nil, String.append_empty, logged, entries, hparse]
  cases options.verbose <;> rfl

/-- The reports on sources: the lines of the trees that are read, and a reason for every
other source. -/
theorem reportAll_eq (options : Options) (sources : List String) :
    options.reportAll sources = ⟨unlines ((parseAll sources).flatMap options.outputLines),
      unlines (refusals sources), sources.flatMap options.entries,
      .ofNat (refusals sources).length⟩ := by
  induction sources with
  | nil => rfl
  | cons source sources ih =>
      rw [reportAll_cons, ih]
      cases hparse : parse source with
      | ok e =>
          rw [options.report_of_ok hparse, parseAll_cons_of_ok hparse, refusals_cons_of_ok hparse,
            List.flatMap_cons, List.flatMap_cons, unlines_append, Report.append_eq,
            String.empty_append, Int32.zero_add]
      | error error =>
          rw [options.report_of_error hparse, parseAll_cons_of_error hparse,
            refusals_cons_of_error hparse, unlines_cons, List.flatMap_cons, Report.append_eq,
            String.empty_append, List.length_cons, Int32.ofNat_add, Int32.add_comm, unlines_cons,
            unlines_nil, String.append_empty]
          rfl

end Options

/-! ## Lines -/

/-- A character of joined texts is in one of them or between them. -/
theorem Text.mem_of_mem_intercalate {separator : List Char} {parts : List (List Char)} {c : Char}
    (hmem : c ∈ separator.intercalate parts) : c ∈ separator ∨ ∃ part ∈ parts, c ∈ part := by
  induction parts with
  | nil => simp [List.intercalate] at hmem
  | cons part parts ih =>
      cases parts with
      | nil =>
          rw [List.intercalate_singleton] at hmem
          exact Or.inr ⟨part, List.mem_cons_self, hmem⟩
      | cons next parts =>
          rw [List.intercalate_cons_cons, List.mem_append, List.mem_append] at hmem
          rcases hmem with (hpart | hseparator) | hrest
          · exact Or.inr ⟨part, List.mem_cons_self, hpart⟩
          · exact Or.inl hseparator
          · rcases ih hrest with hseparator | ⟨other, hother, hc⟩
            · exact Or.inl hseparator
            · exact Or.inr ⟨other, List.mem_cons_of_mem _ hother, hc⟩

namespace Expression

theorem lineFeed_not_mem_variablesLine (e : Expression) :
    '\n' ∉ ("  variables: " ++ ", ".intercalate e.variableNames).toList := by
  rw [String.toList_append, String.toList_intercalate, List.mem_append]
  rintro (hlabel | hnames)
  · exact absurd hlabel (by decide)
  · rcases Text.mem_of_mem_intercalate hnames with hcomma | ⟨letters, hletters, hmem⟩
    · exact absurd hcomma (by decide)
    · obtain ⟨name, hname, rfl⟩ := List.mem_map.mp hletters
      exact absurd (isAlpha_of_mem_variableNames hname _ hmem) (by decide)

/-- Canonical texts are single lines. -/
theorem lineFeed_not_mem_text (e : Expression) : '\n' ∉ e.text.toList := by
  induction e with
  | lit literal =>
      have hdigits : '\n' ∉ literal.digits := fun hmem =>
        absurd (Numeral.isDigit_or_point_of_mem_pointedText _ _ hmem) (by decide)
      cases hsign : literal.value.negative with
      | false => rwa [text, literal.toList_text_of_positive hsign]
      | true =>
          rw [text, literal.toList_text_of_negative hsign, List.mem_cons, not_or]
          exact ⟨by decide, hdigits⟩
  | var x => exact fun hmem => absurd (x.isAlpha_of_mem _ hmem) (by decide)
  | binary op left right ihLeft ihRight =>
      have hsign : '\n' ∉ op.symbol.toList := by cases op <;> decide
      rw [toList_text_binary]
      simp [ihLeft, ihRight, hsign]

end Expression

/-! ## Options and verdicts -/

namespace Report

variable (report : Report) (cut : Bool)

@[simp] theorem stdout_outcome : (report.outcome cut).stdout = report.stdout := by
  cases cut with
  | true => rfl
  | false =>
      change (conclude _).stdout = _
      rw [conclude]
      split <;> rfl

@[simp] theorem log_outcome : (report.outcome cut).log = report.log := by
  cases cut with
  | true => rfl
  | false =>
      change (conclude _).log = _
      rw [conclude]
      split <;> rfl

/-- What was printed on the output and what was logged decide nothing else. -/
theorem verdict_outcome (stdout stdout' stderr : String) (log log' : List LogEntry)
    (failures : Int32) :
    (outcome ⟨stdout, stderr, log, failures⟩ cut).stderr =
        (outcome ⟨stdout', stderr, log', failures⟩ cut).stderr ∧
      (outcome ⟨stdout, stderr, log, failures⟩ cut).exitCode =
        (outcome ⟨stdout', stderr, log', failures⟩ cut).exitCode := by
  cases cut with
  | true => exact ⟨rfl, rfl⟩
  | false =>
      change (conclude _).stderr = (conclude _).stderr ∧
        (conclude _).exitCode = (conclude _).exitCode
      rw [conclude, conclude]
      split <;> exact ⟨rfl, rfl⟩

end Report

namespace Options

open Expression Text

variable (options : Options) (stdin : List UInt8)

/-- What a run leaves behind, told by the trees that it reads and the sources that it
refuses. -/
theorem run_eq_outcome :
    options.run stdin =
      Report.outcome ⟨unlines ((parseAll (options.sources stdin)).flatMap options.outputLines),
        unlines (refusals (options.sources stdin)), (options.sources stdin).flatMap options.entries,
        .ofNat (refusals (options.sources stdin)).length⟩
        (options.cutShort stdin) := by
  rw [run_eq, reportAll_eq]

/-- Nothing is logged in a run that is not asked to. -/
theorem log_run_of_quiet (hquiet : options.verbose = false) : (options.run stdin).log = [] := by
  rw [run_eq_outcome, Report.log_outcome, List.flatMap_eq_nil_iff]
  exact fun source _ => options.entries_of_quiet hquiet source

/-- Checking changes nothing that a run leaves behind but the log, if that is asked for, since
every tree that is read stands the check. Listing the variables changes no verdict and adds one
line to the output after each canonical text, which is a line itself. -/
theorem run_check_and_listing :
    (let checked := { options with check := true }.run stdin
      let unchecked := { options with check := false }.run stdin
      checked.stdout = unchecked.stdout ∧ checked.stderr = unchecked.stderr ∧
        checked.exitCode = unchecked.exitCode ∧
        (options.verbose = false → checked.log = [] ∧ unchecked.log = [])) ∧
    (∀ e ∈ parseAll (options.sources stdin), ∃ again, parse e.text = .ok again ∧
      (again == e) = true) ∧
    let plain := { options with listVariables := false }.run stdin
    let listing := { options with listVariables := true }.run stdin
    listing.stderr = plain.stderr ∧ listing.exitCode = plain.exitCode ∧
    listing.log = plain.log ∧
    plain.stdout = unlines ((parseAll (options.sources stdin)).map Expression.text) ∧
    listing.stdout = unlines ((parseAll (options.sources stdin)).flatMap fun e =>
      [e.text, "  variables: " ++ ", ".intercalate e.variableNames]) ∧
    ∀ e ∈ parseAll (options.sources stdin), '\n' ∉ e.text.toList ∧
      '\n' ∉ ("  variables: " ++ ", ".intercalate e.variableNames).toList := by
  refine ⟨?_, ?_, ?_⟩
  · intro checked unchecked
    have hchecked : checked = _ := run_eq_outcome _ stdin
    have hunchecked : unchecked = _ := run_eq_outcome _ stdin
    have hstdout : checked.stdout = unchecked.stdout := by
      rw [hchecked, hunchecked, Report.stdout_outcome, Report.stdout_outcome]
      rfl
    obtain ⟨hstderr, hexit⟩ : checked.stderr = unchecked.stderr ∧
        checked.exitCode = unchecked.exitCode := by
      rw [hchecked, hunchecked]
      exact Report.verdict_outcome _ _ _ _ _ _ _
    exact ⟨hstdout, hstderr, hexit, fun hquiet =>
      ⟨log_run_of_quiet _ stdin hquiet, log_run_of_quiet _ stdin hquiet⟩⟩
  · intro e hmem
    obtain ⟨source, _, hparse⟩ := exists_parse_of_mem_parseAll hmem
    exact ⟨e, parse_text_of_parse hparse, BEq.rfl⟩
  · intro plain listing
    have hplain : plain = _ := run_eq_outcome _ stdin
    have hlisting : listing = _ := run_eq_outcome _ stdin
    obtain ⟨hstderr, hexit⟩ := Report.verdict_outcome _ _ _ _ _ _ _
    rw [hplain, hlisting, Report.stdout_outcome, Report.stdout_outcome, Report.log_outcome,
      Report.log_outcome, List.map_eq_flatMap]
    exact ⟨hstderr, hexit, rfl, rfl, rfl,
      fun e _ => ⟨e.lineFeed_not_mem_text, e.lineFeed_not_mem_variablesLine⟩⟩

end Options

end SumProduct
