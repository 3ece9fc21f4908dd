import Memberwise.Diagnostic.Queue
import Mathlib.Data.List.Count

/-!
# Proofs/Diagnostic/Queue — what a queue counts is what it was given, as far as errors go

A queue refuses errors past its limit, and what says the same as something it holds.  Neither makes
errors go unnoticed.  The limit is reached only after errors were counted, and if diagnostics are as
bad as their codes then what an error repeats is an error too (`isError_of_saysSame`).  A warning
with the code of an error could hide it, so that is a condition:

* `errorCount_add` — one diagnostic more leaves the count at zero exactly if it is no error;
* `errorCount_addAll` — **a queue counts no error exactly if it was given none**.
-/

namespace Memberwise.Diagnostic

variable {grade : Code → Severity} {d e : Diagnostic} {ds : List Diagnostic}

/-- What says the same is as bad, if each is as bad as its code. -/
theorem isError_of_saysSame (hd : d.severity = grade d.code) (he : e.severity = grade e.code)
    (h : e.saysSame d = true) : e.isError = d.isError := by
  simp only [saysSame, Bool.and_eq_true, beq_iff_eq] at h
  rw [isError, isError, hd, he, h.1.1]

namespace Queue

variable {q : Queue}

theorem mem_add (h : e ∈ (q.add d).diagnostics) : e ∈ q.diagnostics ∨ e = d := by
  unfold add at h
  split at h
  · simpa using h
  · exact .inl h

/-- A diagnostic is refused for one of two reasons: it is one error too many, or it is said
already. -/
theorem accepts_eq_false_iff : q.accepts d = false
    ↔ (d.isError = true ∧ 0 < q.config.errorLimit ∧ q.config.errorLimit ≤ q.errorCount)
      ∨ q.config.deduplicate = true ∧ ∃ e ∈ q.diagnostics, e.saysSame d = true := by
  simp only [accepts, Bool.and_eq_false_iff, Bool.not_eq_false', Bool.and_eq_true,
    decide_eq_true_eq, List.any_eq_true, and_assoc]

/-- An error held is counted. -/
theorem WellCounted.errorCount_pos (hq : q.WellCounted) (he : e ∈ q.diagnostics)
    (h : e.isError = true) : 0 < q.errorCount := by
  rw [hq.1]
  exact List.countP_pos_iff.mpr ⟨e, he, h⟩

/-- **An error is refused only by a queue that has counted one.** -/
theorem WellCounted.errorCount_pos_of_refused (hq : q.WellCounted) (hd : d.severity = grade d.code)
    (hheld : ∀ e ∈ q.diagnostics, e.severity = grade e.code) (h : q.accepts d = false)
    (he : d.isError = true) : 0 < q.errorCount := by
  rcases accepts_eq_false_iff.mp h with ⟨-, hpos, hle⟩ | ⟨-, e, hmem, hsame⟩
  · exact Nat.lt_of_lt_of_le hpos hle
  · exact hq.errorCount_pos hmem ((isError_of_saysSame hd (hheld e hmem) hsame).trans he)

/-- **One diagnostic more leaves the count at zero exactly if it is no error.** -/
theorem errorCount_add (hq : q.WellCounted) (hd : d.severity = grade d.code)
    (hheld : ∀ e ∈ q.diagnostics, e.severity = grade e.code) :
    (q.add d).errorCount = 0 ↔ q.errorCount = 0 ∧ d.isError = false := by
  cases ha : q.accepts d with
  | true =>
    rw [add, if_pos ha]
    cases d.isError <;> simp
  | false =>
    rw [add, if_neg (by simp [ha])]
    cases he : d.isError with
    | false => simp
    | true => simpa using Nat.ne_of_gt (hq.errorCount_pos_of_refused hd hheld ha he)

/-- **A queue counts no error exactly if it was given none**, whatever it refuses. -/
theorem errorCount_addAll (hq : q.WellCounted)
    (hg : ∀ d ∈ q.diagnostics ++ ds, d.severity = grade d.code) :
    (q.addAll ds).errorCount = 0 ↔ q.errorCount = 0 ∧ ∀ d ∈ ds, d.isError = false := by
  induction ds generalizing q with
  | nil => simp [addAll]
  | cons d ds ih =>
    have hstep := errorCount_add hq (hg d (by simp))
      fun e he => hg e (List.mem_append_left _ he)
    have hnext : ∀ e ∈ (q.add d).diagnostics ++ ds, e.severity = grade e.code := by
      intro e he
      rcases List.mem_append.mp he with he | he
      · rcases mem_add he with he | rfl
        · exact hg e (List.mem_append_left _ he)
        · exact hg e (by simp)
      · exact hg e (by simp [he])
    change ((q.add d).addAll ds).errorCount = 0 ↔ _
    rw [ih (hq.add d) hnext, hstep, List.forall_mem_cons, and_assoc]

end Queue

end Memberwise.Diagnostic
