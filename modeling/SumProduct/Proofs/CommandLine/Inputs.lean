import SumProduct.Proofs.CommandLine.Runs
import SumProduct.Proofs.Text.Lines

/-!
# The two inputs of a run

Sources that are given among the options are handled as the lines of a stream are, as long
as each of them can stand there as a line.
-/

namespace SumProduct

open Text

/-! ## Sources as lines -/

/-- Lines with something in them are all sources. -/
theorem Text.sourceLines_map_bytes {texts : List String}
    (htexts : ∀ text ∈ texts, isBlankLine text = false) :
    sourceLines (texts.map bytes) = texts := by
  induction texts with
  | nil => rfl
  | cons text texts ih =>
      rw [List.forall_mem_cons] at htexts
      rw [List.map_cons, sourceLines, decode?_bytes]
      simp only [htexts.1, Bool.false_eq_true, if_false, ih htexts.2]

theorem Text.anyUndecodable_map_bytes (texts : List String) :
    anyUndecodable (texts.map bytes) = false := by
  rw [anyUndecodable, List.any_eq_false, List.forall_mem_map]
  intro text _
  rw [decode?_bytes]
  exact Bool.false_ne_true

namespace Options

/-- Sources that are given among the options are handled as the lines of a stream that holds
them, with or without a line feed at its end. Whatever stands on standard input beside them is
not looked at. -/
theorem run_exprs_eq_run_stdin (options : Options) {sources : List String} (hne : sources ≠ [])
    (hsources : ∀ source ∈ sources, IsLine source) {ending : String}
    (hending : ending = "" ∨ ending = "\n") (offered : List UInt8) :
    { options with exprs := sources }.run offered =
      { options with exprs := [] }.run (bytes ("\n".intercalate sources ++ ending)) := by
  have hgiven : sources.isEmpty = false := List.isEmpty_eq_false_iff.mpr hne
  have hread : sourceLines (sources.map bytes) = sources :=
    sourceLines_map_bytes fun source hmem => (hsources source hmem).isBlankLine_eq_false
  rw [run_eq, run_eq, Options.sources, Options.sources, cutShort, cutShort, hgiven,
    lines_bytes_intercalate hne hsources hending, hread, anyUndecodable_map_bytes]
  rfl

/-- A source that is read and one that fails, with the check and a line feed at the end. The
byte that is offered is not UTF-8. -/
theorem run_exprs_eq_run_stdin_pair :
    (run ⟨["x * 2", "1 +"], true, false, false⟩ [255]) =
      run ⟨[], true, false, false⟩ (bytes ("\n".intercalate ["x * 2", "1 +"] ++ "\n")) := by
  have hsources : ∀ source ∈ ["x * 2", "1 +"], IsLine source := by
    rw [List.forall_mem_cons, List.forall_mem_singleton]
    exact ⟨⟨⟨'x', by decide, by decide⟩, by decide, by decide⟩,
      ⟨⟨'1', by decide, by decide⟩, by decide, by decide⟩⟩
  exact run_exprs_eq_run_stdin ⟨[], true, false, false⟩ (by decide) hsources (.inr rfl) [255]

end Options

end SumProduct
