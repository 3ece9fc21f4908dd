import Memberwise.Diagnostic.Basic

/-!
# Diagnostic/Queue — diagnostics collected, thinned out and put in order

A queue takes diagnostics one at a time.  It refuses errors past a limit, and what says the same as
a diagnostic it already holds: same code, same message, same place.  Taking everything out puts the
diagnostics in the order of the source, those without a place where the largest offset stands, and
leaves the queue empty.

**The counts are the numbers of what is held** (`WellCounted`, kept by `add`), and
**taking out loses nothing** (`flush_perm`).
-/

namespace Memberwise.Diagnostic

/-- How a queue thins out what it is given. -/
structure QueueConfig where
  /-- The number of errors after which errors are refused; zero for no limit. -/
  errorLimit : Nat
  /-- Whether what is said already is refused. -/
  deduplicate : Bool
  deriving DecidableEq, Repr, Inhabited

namespace QueueConfig

/-- Up to twenty errors, each once. -/
def standard : QueueConfig := ⟨20, true⟩

/-- Everything is kept. -/
def unlimited : QueueConfig := ⟨0, false⟩

end QueueConfig

/-- Diagnostics held, in the order they came. -/
structure Queue where
  config : QueueConfig
  diagnostics : List Diagnostic
  errorCount : Nat
  warningCount : Nat
  deriving DecidableEq, Repr, Inhabited

/-- Whether two diagnostics say the same: same code, same message, same place. -/
def saysSame (d e : Diagnostic) : Bool :=
  d.code == e.code && d.message == e.message && d.primarySpan? == e.primarySpan?

/-- Where a diagnostic is listed: by the start of its place, or at the largest offset if it has
none. -/
def sortKey (d : Diagnostic) : Nat := (d.primarySpan?.map (·.start)).getD Span.maxOffset

namespace Queue

/-- A queue with nothing in it. -/
def empty (config : QueueConfig) : Queue := ⟨config, [], 0, 0⟩

/-- Whether the queue takes a diagnostic. -/
def accepts (q : Queue) (d : Diagnostic) : Bool :=
  !(d.isError && 0 < q.config.errorLimit && q.config.errorLimit ≤ q.errorCount)
    && !(q.config.deduplicate && q.diagnostics.any (·.saysSame d))

/-- The queue with a diagnostic put in, unless it is refused. -/
def add (q : Queue) (d : Diagnostic) : Queue :=
  if q.accepts d then
    { q with
      diagnostics := q.diagnostics ++ [d]
      errorCount := if d.isError then q.errorCount + 1 else q.errorCount
      warningCount := if d.isWarning then q.warningCount + 1 else q.warningCount }
  else q

/-- The queue with diagnostics put in one after the other. -/
def addAll (q : Queue) (ds : List Diagnostic) : Queue := ds.foldl add q

/-- Whether the queue holds an error. -/
def hasErrors (q : Queue) : Bool := 0 < q.errorCount

/-- Whether the queue holds nothing. -/
def isEmpty (q : Queue) : Bool := q.diagnostics.isEmpty

/-- What the queue holds, in the order of the source; what stands at one place stays in the order
it came. -/
def sorted (q : Queue) : List Diagnostic :=
  q.diagnostics.mergeSort fun d e => decide (d.sortKey ≤ e.sortKey)

/-- Take everything out: what there was, and the queue after it. -/
def flush (q : Queue) : List Diagnostic × Queue := (q.sorted, .empty q.config)

/-! ## The counts -/

/-- The counts are the numbers of errors and warnings held. -/
def WellCounted (q : Queue) : Prop :=
  q.errorCount = q.diagnostics.countP isError ∧ q.warningCount = q.diagnostics.countP isWarning

theorem wellCounted_empty (config : QueueConfig) : (empty config).WellCounted := ⟨rfl, rfl⟩

/-- **Putting in keeps the counts right.** -/
theorem WellCounted.add {q : Queue} (h : q.WellCounted) (d : Diagnostic) :
    (q.add d).WellCounted := by
  unfold Queue.add
  split
  · refine ⟨?_, ?_⟩ <;> simp only [List.countP_append, List.countP_singleton, h.1, h.2] <;>
      split <;> rfl
  · exact h

/-! ## Taking out -/

/-- **Taking out loses nothing.** -/
theorem flush_perm (q : Queue) : q.flush.1.Perm q.diagnostics := List.mergeSort_perm _ _

/-- What is taken out is in the order of the source. -/
theorem pairwise_flush (q : Queue) :
    q.flush.1.Pairwise fun d e => d.sortKey ≤ e.sortKey := by
  refine (List.pairwise_mergeSort (fun a b c hab hbc => ?_) (fun a b => ?_) _).imp
    of_decide_eq_true
  · exact decide_eq_true (Nat.le_trans (of_decide_eq_true hab) (of_decide_eq_true hbc))
  · simpa using Nat.le_total a.sortKey b.sortKey

end Queue

end Memberwise.Diagnostic
