import Memberwise.Proofs.Diagnostic.Queue

/-!
# Proofs/Diagnostic/Calls — what holds of a queue after any calls

A queue is used by putting diagnostics in, with or without asking whether they were taken, and by
taking everything out.  Whatever the calls, the queue is **sound** (`Sound`): it counts what it
holds, holds no more errors than it may, and nothing twice.

* `Sound.add` — one diagnostic more keeps a queue sound, and so
* `Sound.run` — **any calls keep a queue sound**, by induction on them;
* `diagnostics_run` — a queue holds what was stored since everything was last taken out;
* `run_exact` — all of this of a queue that starts empty, with what the next call does to it.
-/

namespace Memberwise.Diagnostic

/-- What a diagnostic says, and where. -/
def gist (d : Diagnostic) : Code × String × Option Span := (d.code, d.message, d.primarySpan?)

variable {d e : Diagnostic}

theorem saysSame_iff : d.saysSame e = true ↔ d.gist = e.gist := by
  simp [saysSame, gist, and_assoc]

namespace Queue

variable {q : Queue}

/-! ## Soundness -/

/-- Whether a queue counts what it holds, and holds no more than its configuration allows. -/
structure Sound (q : Queue) : Prop where
  wellCounted : q.WellCounted
  /-- A limit, if there is one, is kept. -/
  limited : 0 < q.config.errorLimit → q.diagnostics.countP isError ≤ q.config.errorLimit
  /-- Nothing is said twice. -/
  distinct : q.config.deduplicate = true → (q.diagnostics.map gist).Nodup

theorem sound_empty (config : QueueConfig) : (empty config).Sound where
  wellCounted := wellCounted_empty config
  limited _ := Nat.zero_le _
  distinct _ := .nil

theorem add_of_accepts (h : q.accepts d = true) :
    (q.add d).diagnostics = q.diagnostics ++ [d] := by
  rw [add, if_pos h]

theorem add_of_refused (h : q.accepts d = false) : q.add d = q := by
  rw [add, if_neg (Bool.eq_false_iff.mp h)]

@[simp] theorem config_add (q : Queue) (d : Diagnostic) : (q.add d).config = q.config := by
  unfold add
  split <;> rfl

/-- **A diagnostic is taken exactly if it is put behind what is held.** -/
theorem accepts_iff : q.accepts d = true ↔ (q.add d).diagnostics = q.diagnostics ++ [d] := by
  cases h : q.accepts d with
  | true => simp [add_of_accepts h]
  | false => simp [add_of_refused h]

/-- **A diagnostic is refused only as one error too many or as said already**, so what is no error
is refused for the second reason only. -/
theorem Sound.refuses_iff (hq : q.Sound) : q.accepts d = false ↔
    (d.isError = true ∧ 0 < q.config.errorLimit
        ∧ q.config.errorLimit ≤ q.diagnostics.countP isError)
      ∨ q.config.deduplicate = true ∧ d.gist ∈ q.diagnostics.map gist := by
  simp only [accepts_eq_false_iff, hq.wellCounted.1, saysSame_iff, List.mem_map]

/-- **One diagnostic more keeps a queue sound.** -/
theorem Sound.add (hq : q.Sound) (d : Diagnostic) : (q.add d).Sound := by
  cases h : q.accepts d with
  | false => rwa [add_of_refused h]
  | true =>
    have hno : ¬ q.accepts d = false := by simp [h]
    rw [hq.refuses_iff, not_or] at hno
    obtain ⟨hlimit, hsaid⟩ := hno
    refine ⟨hq.wellCounted.add d, ?_, ?_⟩
    · intro hpos
      rw [config_add] at hpos ⊢
      have hle := hq.limited hpos
      rw [add_of_accepts h, List.countP_append, List.countP_singleton]
      split
      case isTrue he =>
        have hlt := Nat.lt_of_not_le fun hle => hlimit ⟨he, hpos, hle⟩
        omega
      case isFalse => exact hle
    · intro hdedup
      rw [config_add] at hdedup
      rw [add_of_accepts h, List.map_append, List.nodup_append]
      refine ⟨hq.distinct hdedup, by simp, ?_⟩
      rintro g hg g' hg' rfl
      obtain rfl := List.mem_singleton.mp hg'
      exact hsaid ⟨hdedup, hg⟩

/-! ## Calls -/

/-- A call on a queue. -/
inductive Call where
  | add (d : Diagnostic)
  /-- Putting in without asking whether the diagnostic was taken. -/
  | report (d : Diagnostic)
  | flush

/-- What a call comes to. -/
inductive Event where
  | stored (d : Diagnostic)
  | refused (d : Diagnostic)
  | flushed (ds : List Diagnostic)

/-- What a call comes to, and the queue after it. -/
def perform (q : Queue) : Call → Event × Queue
  | .add d | .report d => (if q.accepts d then .stored d else .refused d, q.add d)
  | .flush => (.flushed q.flush.1, q.flush.2)

/-- What calls come to, one after the other, and the queue after them. -/
def run (q : Queue) : List Call → List Event × Queue
  | [] => ([], q)
  | c :: cs =>
    let later := (q.perform c).2.run cs
    ((q.perform c).1 :: later.1, later.2)

/-- What is held after an event, by what was held before. -/
def Event.held (before : List Diagnostic) : Event → List Diagnostic
  | stored d => before ++ [d]
  | refused _ => before
  | flushed _ => []

/-- What was stored since everything was last taken out. -/
def storedSinceFlush (events : List Event) : List Diagnostic := events.foldl Event.held []

theorem config_perform (q : Queue) (c : Call) : (q.perform c).2.config = q.config := by
  cases c with
  | flush => rfl
  | _ => exact config_add q _

theorem config_run (q : Queue) (cs : List Call) : (q.run cs).2.config = q.config := by
  induction cs generalizing q with
  | nil => rfl
  | cons c cs ih => exact (ih _).trans (config_perform q c)

theorem Sound.perform (hq : q.Sound) (c : Call) : (q.perform c).2.Sound := by
  cases c with
  | flush => exact sound_empty _
  | _ => exact hq.add _

/-- **Any calls keep a queue sound.** -/
theorem Sound.run (hq : q.Sound) (cs : List Call) : (q.run cs).2.Sound := by
  induction cs generalizing q with
  | nil => exact hq
  | cons c cs ih => exact ih (hq.perform c)

theorem diagnostics_perform (q : Queue) (c : Call) :
    (q.perform c).2.diagnostics = (q.perform c).1.held q.diagnostics := by
  have hadd : ∀ d, (q.add d).diagnostics
      = (if q.accepts d then Event.stored d else .refused d).held q.diagnostics := by
    intro d
    cases h : q.accepts d with
    | true => exact add_of_accepts h
    | false => exact congrArg diagnostics (add_of_refused h)
  cases c with
  | flush => rfl
  | _ => exact hadd _

/-- **A queue holds what was stored since everything was last taken out.** -/
theorem diagnostics_run (q : Queue) (cs : List Call) :
    (q.run cs).2.diagnostics = (q.run cs).1.foldl Event.held q.diagnostics := by
  induction cs generalizing q with
  | nil => rfl
  | cons c cs ih =>
    change ((q.perform c).2.run cs).2.diagnostics = _
    rw [ih, diagnostics_perform]
    rfl

/-- **A queue after any calls, exactly.**  It counts the errors and the warnings it holds; holds no
more errors than its limit, if it has one, and nothing twice if it is to take things once; and holds
what was stored since everything was last taken out.  A diagnostic put in next is taken exactly if
it is put behind what is held; else nothing changes, and it is one error too many or said already.
Taking everything out gives what was stored in some order, and leaves the queue as it was at
first. -/
theorem run_exact (config : QueueConfig) (cs : List Call) :
    let events := ((empty config).run cs).1
    let q := ((empty config).run cs).2
    (q.errorCount = q.diagnostics.countP isError ∧ q.warningCount = q.diagnostics.countP isWarning)
      ∧ (0 < config.errorLimit → q.diagnostics.countP isError ≤ config.errorLimit)
      ∧ (config.deduplicate = true → (q.diagnostics.map gist).Nodup)
      ∧ q.diagnostics = storedSinceFlush events
      ∧ (∀ d, (q.accepts d = true ↔ (q.add d).diagnostics = q.diagnostics ++ [d])
        ∧ (q.accepts d = false → q.add d = q)
        ∧ (q.accepts d = false ↔
          (d.isError = true ∧ 0 < config.errorLimit
              ∧ config.errorLimit ≤ q.diagnostics.countP isError)
            ∨ config.deduplicate = true ∧ d.gist ∈ q.diagnostics.map gist))
      ∧ q.flush.1.Perm (storedSinceFlush events) ∧ q.flush.2 = empty config := by
  intro events q
  have hq : q.Sound := (sound_empty config).run cs
  have hconfig : q.config = config := config_run (empty config) cs
  have hheld : q.diagnostics = storedSinceFlush events := diagnostics_run (empty config) cs
  refine ⟨hq.wellCounted, hconfig ▸ hq.limited, hconfig ▸ hq.distinct, hheld, fun d => ?_, ?_, ?_⟩
  · exact ⟨accepts_iff, add_of_refused, hconfig ▸ hq.refuses_iff⟩
  · exact hheld ▸ flush_perm q
  · rw [flush, hconfig]

end Queue

end Memberwise.Diagnostic
