import Memberwise.Proofs.Expansion.Edits

/-!
# Proofs/Expansion/Phases — a code tells how far a text came

What is reported about a text is either all of what is wrong with its characters and declarations,
or all of what went wrong when it was expanded, never some of both.  Each kind of problem has a code
of its own phase (`LexError.phase_toDiagnostic`, `ParseError.phase_code`,
`Problem.isFrontEnd_code`), and its severity goes with the code (`Diagnostic.Code.severity`):

* `SourceExpansion.severity_of_mem_diagnostics` — **whatever is reported is as bad as its code**;
* `SourceExpansion.ofSource_gated` — **the codes tell whether a text was expanded**.
-/

namespace Memberwise

/-- How bad a problem with a code is: only a member that is left out is no error. -/
def Diagnostic.Code.severity : Diagnostic.Code → Severity
  | .malformedBinding => .warning
  | _ => .error

/-! ## Characters and declarations -/

namespace LexError

/-- What is wrong with characters is found by the lexer. -/
theorem phase_toDiagnostic (e : LexError) : e.toDiagnostic.code.phase = .lexer := by
  unfold toDiagnostic
  split <;> rfl

theorem severity_toDiagnostic (e : LexError) : e.toDiagnostic.severity = .error := by
  unfold toDiagnostic
  split <;> rfl

end LexError

namespace ParseError

@[simp] theorem code_toDiagnostic (e : ParseError) : e.toDiagnostic.code = e.code := by
  unfold toDiagnostic
  cases e.fault.related? <;> cases e.construct <;> rfl

theorem severity_toDiagnostic (e : ParseError) : e.toDiagnostic.severity = .error := by
  unfold toDiagnostic
  cases e.fault.related? <;> cases e.construct <;> rfl

end ParseError

namespace Reading

variable {r : Reading} {d : Diagnostic}

theorem diagnostics_eq_nil_iff :
    r.diagnostics = [] ↔ r.lexed.errors = [] ∧ r.file.errors = [] := by
  rw [diagnostics, List.append_eq_nil_iff, List.map_eq_nil_iff, List.map_eq_nil_iff]

/-- Whatever is wrong with characters or declarations is an error with a code of the front end. -/
theorem frontEnd_of_mem_diagnostics (h : d ∈ r.diagnostics) :
    d.severity = .error ∧ d.code.isFrontEnd = true := by
  rcases List.mem_append.mp h with h | h
  · obtain ⟨e, -, rfl⟩ := List.mem_map.mp h
    exact ⟨e.severity_toDiagnostic, by simp [Diagnostic.Code.isFrontEnd, e.phase_toDiagnostic]⟩
  · obtain ⟨e, -, rfl⟩ := List.mem_map.mp h
    exact ⟨e.severity_toDiagnostic, by simp [Diagnostic.Code.isFrontEnd, e.phase_code]⟩

end Reading

/-! ## Expansion -/

namespace Problem

/-- What goes wrong in an expansion is not the front end's. -/
theorem isFrontEnd_code (p : Problem) : p.code.isFrontEnd = false := by
  unfold code
  cases p.cause <;> rfl

theorem severity_toDiagnostic (p : Problem) : p.toDiagnostic.severity = p.code.severity := by
  unfold toDiagnostic code
  cases p.cause <;> rfl

/-- The codes of an expansion, each with its severity. -/
theorem code_cases (p : Problem) :
    p.code = .unsupportedDeclaration ∧ p.toDiagnostic.severity = .error
      ∨ p.code = .malformedBinding ∧ p.toDiagnostic.severity = .warning
      ∨ p.code = .assemblyFailure ∧ p.toDiagnostic.severity = .error := by
  rw [severity_toDiagnostic, code]
  cases p.cause with
  | unsupported => exact .inl ⟨rfl, rfl⟩
  | malformedBinding => exact .inr (.inl ⟨rfl, rfl⟩)
  | assembly => exact .inr (.inr ⟨rfl, rfl⟩)
  | readBack => exact .inr (.inr ⟨rfl, rfl⟩)

end Problem

/-! ## A text expanded -/

namespace SourceExpansion

variable {registry : Registry} {rules : ExclusionRules} {source : String}

/-- What is reported about a text that is expanded is what went wrong on the way. -/
theorem exists_problems_of_readable (registry : Registry) (rules : ExclusionRules)
    (h : (Reading.ofSource source).diagnostics = []) :
    ∃ problems : List Problem,
      (ofSource registry rules source).diagnostics = problems.map Problem.toDiagnostic := by
  simp only [ofSource, h]
  exact ⟨_, rfl⟩

/-- **Whatever is reported is as bad as its code.** -/
theorem severity_of_mem_diagnostics {d : Diagnostic}
    (hd : d ∈ (ofSource registry rules source).diagnostics) : d.severity = d.code.severity := by
  by_cases h : (Reading.ofSource source).diagnostics = []
  · obtain ⟨problems, hp⟩ := exists_problems_of_readable registry rules h
    rw [hp] at hd
    obtain ⟨p, -, rfl⟩ := List.mem_map.mp hd
    rw [p.severity_toDiagnostic, p.code_toDiagnostic]
  · rw [ofSource_of_not_readable h] at hd
    obtain ⟨hs, hc⟩ := Reading.frontEnd_of_mem_diagnostics hd
    rw [hs]
    -- The one code that is no error is not the front end's.
    cases hcode : d.code with
    | malformedBinding =>
      rw [hcode] at hc
      cases hc
    | _ => rfl

/-- **A text counts as unread exactly if something is wrong with its characters or
declarations.** -/
theorem failedToRead_eq_true_iff : (ofSource registry rules source).failedToRead = true
    ↔ (Reading.ofSource source).diagnostics ≠ [] := by
  rw [failedToRead, List.any_eq_true]
  constructor
  · rintro ⟨d, hd, hc⟩ h
    obtain ⟨problems, hp⟩ := exists_problems_of_readable registry rules h
    rw [hp] at hd
    obtain ⟨p, -, rfl⟩ := List.mem_map.mp hd
    rw [p.code_toDiagnostic, p.isFrontEnd_code] at hc
    cases hc
  · intro h
    obtain ⟨d, hmem⟩ := List.exists_mem_of_ne_nil _ h
    rw [ofSource_of_not_readable h]
    exact ⟨d, hmem, (Reading.frontEnd_of_mem_diagnostics hmem).2⟩

/-- **The codes tell whether a text was expanded.**  If nothing is wrong with its characters and
declarations, then these are expanded, and whatever is reported has a code of the expansion: an
error for a declaration of the wrong kind or an extension that cannot be built, a warning for a
member that is left out.  Otherwise the text comes back as it is with no extensions, and whatever is
reported is an error with a code of the front end, of which there is at least one. -/
theorem ofSource_gated (registry : Registry) (rules : ExclusionRules) (source : String) :
    let r := Reading.ofSource source
    let e := ofSource registry rules source
    (r.lexed.errors = [] ∧ r.file.errors = [] ∧ e.failedToRead = false
        ∧ e.expansion = (FileExpansion.ofDeclarations registry rules r.file.declarations).readable
        ∧ e.output.toList = e.expansion.apply source.toList
        ∧ ∀ d ∈ e.diagnostics, d.code.isFrontEnd = false
          ∧ (d.code = .unsupportedDeclaration ∧ d.severity = .error
            ∨ d.code = .malformedBinding ∧ d.severity = .warning
            ∨ d.code = .assemblyFailure ∧ d.severity = .error))
      ∨ ((r.lexed.errors ≠ [] ∨ r.file.errors ≠ []) ∧ e.failedToRead = true
        ∧ e.expansion = .empty ∧ e.output = source ∧ e.extensions = ""
        ∧ e.diagnostics = r.lexed.errors.map LexError.toDiagnostic
          ++ r.file.errors.map ParseError.toDiagnostic
        ∧ ∀ d ∈ e.diagnostics, d.severity = .error ∧ d.code.isFrontEnd = true) := by
  dsimp only
  by_cases h : (Reading.ofSource source).diagnostics = []
  · obtain ⟨hl, hf⟩ := Reading.diagnostics_eq_nil_iff.mp h
    have hread : (ofSource registry rules source).failedToRead = false := by
      rw [← Bool.not_eq_true, failedToRead_eq_true_iff]
      exact fun hne => hne h
    refine .inl ⟨hl, hf, hread, expansion_ofSource h, toList_output_ofSource registry rules source,
      fun d hd => ?_⟩
    obtain ⟨problems, hp⟩ := exists_problems_of_readable registry rules h
    rw [hp] at hd
    obtain ⟨p, -, rfl⟩ := List.mem_map.mp hd
    rw [p.code_toDiagnostic]
    exact ⟨p.isFrontEnd_code, p.code_cases⟩
  · have hwrong : (Reading.ofSource source).lexed.errors ≠ []
        ∨ (Reading.ofSource source).file.errors ≠ [] := by
      rwa [Reading.diagnostics_eq_nil_iff, not_and_or] at h
    refine .inr ⟨hwrong, failedToRead_eq_true_iff.mpr h, ?_⟩
    rw [ofSource_of_not_readable h]
    exact ⟨rfl, rfl, rfl, rfl, fun d hd => Reading.frontEnd_of_mem_diagnostics hd⟩

end SourceExpansion

end Memberwise
