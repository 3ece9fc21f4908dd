import Memberwise.Command.Run
import Memberwise.Proofs.Diagnostic.Queue
import Memberwise.Proofs.Expansion.Phases

/-!
# Proofs/Command/Verdict — a run fails exactly if a file has an error

Whether a run fails is counted in what is left of the diagnostics of each file after a queue has
thinned them out, but no queue thins out all errors of a file (`errorCount_reportQueue`).  So:

* `expandFiles_verdict` — **the status of a run and the line that a check prints for each file are
  those that its own diagnostics call for.**
-/

namespace Memberwise.Command

open Diagnostic (Queue)

/-- What a check says about a file. -/
inductive Verdict where
  /-- Its characters or declarations are wrong, and it was not expanded. -/
  | skipped
  /-- Nothing is an error, and so many extensions were generated. -/
  | passed (extensions : Nat)
  /-- It was expanded, and something went wrong. -/
  | failed
  deriving DecidableEq, Repr

namespace Verdict

/-- The verdict that the diagnostics of a file call for. -/
def ofFile (options : Options) (file : File) : Verdict :=
  let e := SourceExpansion.ofSource options.registry options.rules file.text
  let r := Reading.ofSource file.text
  if e.hasErrors = false then passed e.count
  else if r.lexed.errors = [] ∧ r.file.errors = [] then failed
  else skipped

/-- The line for a verdict about the file of a path. -/
def line (path : String) : Verdict → String
  | skipped => s!"SKIPPED: {path} (not expanded: syntax errors)\n"
  | passed n => s!"OK: {path} ({n} extension" ++ (if n = 1 then "" else "s") ++ ")\n"
  | failed => ""

end Verdict

/-! ## One file -/

section File

variable {options : Options} {file : File}

/-- **The errors counted for a file are none exactly if none of its diagnostics is an error**,
however many the queue has refused. -/
theorem errorCount_reportQueue (registry : Registry) (rules : ExclusionRules) (source : String) :
    (reportQueue (SourceExpansion.ofSource registry rules source).diagnostics).errorCount = 0
      ↔ (SourceExpansion.ofSource registry rules source).hasErrors = false := by
  rw [reportQueue, Queue.errorCount_addAll (Queue.wellCounted_empty _), SourceExpansion.hasErrors,
    List.any_eq_false]
  · simp [Queue.empty]
  · simpa [Queue.empty] using fun d hd => SourceExpansion.severity_of_mem_diagnostics hd

/-- A text that cannot be read has an error. -/
theorem hasErrors_of_not_readable {registry : Registry} {rules : ExclusionRules} {source : String}
    (h : (Reading.ofSource source).diagnostics ≠ []) :
    (SourceExpansion.ofSource registry rules source).hasErrors = true := by
  obtain ⟨d, hmem⟩ := List.exists_mem_of_ne_nil _ h
  rw [SourceExpansion.hasErrors, List.any_eq_true, SourceExpansion.ofSource_of_not_readable h]
  exact ⟨d, hmem, by rw [Diagnostic.isError, (Reading.frontEnd_of_mem_diagnostics hmem).1]; rfl⟩

namespace Verdict

theorem ofFile_of_not_readable (h : (Reading.ofSource file.text).diagnostics ≠ []) :
    ofFile options file = skipped := by
  unfold ofFile
  dsimp only
  rw [if_neg (by simp [hasErrors_of_not_readable h]),
    if_neg (mt Reading.diagnostics_eq_nil_iff.mpr h)]

theorem ofFile_of_no_errors
    (h : (SourceExpansion.ofSource options.registry options.rules file.text).hasErrors = false) :
    ofFile options file
      = passed (SourceExpansion.ofSource options.registry options.rules file.text).count :=
  if_pos h

theorem ofFile_of_errors (hread : (Reading.ofSource file.text).diagnostics = [])
    (h : (SourceExpansion.ofSource options.registry options.rules file.text).hasErrors = true) :
    ofFile options file = failed := by
  unfold ofFile
  dsimp only
  rw [if_neg (by simp [h]), if_pos (Reading.diagnostics_eq_nil_iff.mp hread)]

/-- A file is skipped exactly if something is wrong with its characters or declarations. -/
theorem ofFile_eq_skipped_iff :
    ofFile options file = skipped ↔ (Reading.ofSource file.text).diagnostics ≠ [] := by
  refine ⟨fun h hread => ?_, ofFile_of_not_readable⟩
  cases herror : (SourceExpansion.ofSource options.registry options.rules file.text).hasErrors with
  | false => rw [ofFile_of_no_errors herror] at h; cases h
  | true => rw [ofFile_of_errors hread herror] at h; cases h

/-- A file passes exactly if it has no error. -/
theorem ofFile_eq_passed_iff {n : Nat} : ofFile options file = passed n
    ↔ (SourceExpansion.ofSource options.registry options.rules file.text).hasErrors = false
      ∧ (SourceExpansion.ofSource options.registry options.rules file.text).count = n := by
  cases herror : (SourceExpansion.ofSource options.registry options.rules file.text).hasErrors with
  | false => rw [ofFile_of_no_errors herror]; simp
  | true =>
    by_cases hread : (Reading.ofSource file.text).diagnostics = []
    · rw [ofFile_of_errors hread herror]; simp
    · rw [ofFile_of_not_readable hread]; simp

end Verdict

/-- **A check prints the line of the verdict.** -/
theorem checked_ofFile (options : Options) (colors : Bool) (file : File) :
    (FileResult.ofFile options colors file).checked
      = (Verdict.ofFile options file).line file.path := by
  have hread : (FileResult.ofFile options colors file).expansion.failedToRead = true
      ↔ (Reading.ofSource file.text).diagnostics ≠ [] := SourceExpansion.failedToRead_eq_true_iff
  have hcount : (FileResult.ofFile options colors file).report.errors = 0
      ↔ (SourceExpansion.ofSource options.registry options.rules file.text).hasErrors = false :=
    errorCount_reportQueue options.registry options.rules file.text
  unfold FileResult.checked
  dsimp only
  split
  case isTrue h =>
    rw [Verdict.ofFile_of_not_readable (hread.mp h)]
    rfl
  case isFalse h =>
    split
    case isTrue h' =>
      rw [Verdict.ofFile_of_no_errors (hcount.mp h')]
      rfl
    case isFalse h' =>
      rw [Verdict.ofFile_of_errors (by simpa using mt hread.mpr h)
        (by simpa using mt hcount.mpr h')]
      rfl

end File

/-! ## All files -/

theorem total_eq_zero_iff (count : FileResult → Nat) (results : List FileResult) :
    total count results = 0 ↔ ∀ r ∈ results, count r = 0 := by
  induction results with
  | nil => simp [total]
  | cons r results ih =>
    rw [List.forall_mem_cons, ← ih]
    exact Nat.add_eq_zero_iff

/-- **The verdict on files is that of their diagnostics.**  The errors counted for a file are none
exactly if it has none; a run over files ends with status one if one of them has an error, and else
with zero; and a check prints for each file in turn that it was skipped, exactly if something is
wrong with its characters or declarations, or that it is fine, exactly if it has no error, or
nothing. -/
theorem expandFiles_verdict (verb : Verb) (options : Options) (toTerminal : Bool)
    (files : List File) :
    let expanded (f : File) := SourceExpansion.ofSource options.registry options.rules f.text
    (∀ f : File, (reportQueue (expanded f).diagnostics).errorCount = 0
        ↔ (expanded f).hasErrors = false)
      ∧ (expandFiles verb options toTerminal files).status
        = (if ∃ f ∈ files, (expanded f).hasErrors = true then 1 else 0)
      ∧ (expandFiles .check options toTerminal files).out
        = String.join (files.map fun f => (Verdict.ofFile options f).line f.path)
      ∧ ∀ f : File,
        (Verdict.ofFile options f = .skipped ↔ (Reading.ofSource f.text).lexed.errors ≠ []
          ∨ (Reading.ofSource f.text).file.errors ≠ [])
        ∧ (Verdict.ofFile options f = .passed (expanded f).count
          ↔ (expanded f).hasErrors = false) := by
  dsimp only
  refine ⟨fun f => errorCount_reportQueue _ _ f.text, ?_, ?_, fun f => ⟨?_, ?_⟩⟩
  · have htotal : total (·.report.errors)
          (files.map (FileResult.ofFile options (options.color.usesColors toTerminal))) = 0
        ↔ ¬ ∃ f ∈ files, (SourceExpansion.ofSource options.registry options.rules f.text).hasErrors
          = true := by
      rw [total_eq_zero_iff, List.forall_mem_map]
      simp only [not_exists, not_and, Bool.not_eq_true]
      exact forall₂_congr fun f _ => errorCount_reportQueue _ _ f.text
    change (if 0 < total _ _ then 1 else 0) = _
    simp only [Nat.pos_iff_ne_zero, ne_eq, htotal, not_not]
  · change String.join ((files.map _).map _) = _
    rw [List.map_map]
    exact congrArg String.join (List.map_congr_left fun f _ => checked_ofFile options _ f)
  · rw [Verdict.ofFile_eq_skipped_iff, ne_eq, Reading.diagnostics_eq_nil_iff, not_and_or]
  · rw [Verdict.ofFile_eq_passed_iff, and_iff_left rfl]

end Memberwise.Command
