import Memberwise.Proofs.Diagnostic.Calls
import Memberwise.Proofs.Sorting

/-!
# Proofs/Diagnostic/Flush — the order in which diagnostics are taken out

What a queue holds is sorted by the start of its place, stably, and what has no place is sorted as if
it started at the largest offset there is.  So three orders always hold: by the start, by arrival
among what starts alike, and by arrival among what has no place.  That what has a place comes before
what has none is a matter of arrival at the largest offset, where the two are not told apart:

* `filter_flush` — **taking out keeps the order of arrival of what sorts alike**;
* `placedFirst_flush_iff` — **what has a place is listed first exactly if** nothing that starts at
  the largest offset arrived after something without a place;
* `flush_exact` — all of this for any diagnostics put into a queue that starts empty.
-/

namespace Memberwise.Diagnostic

variable {d e : Diagnostic} {ds : List Diagnostic} {n : Nat}

/-- Whether the labels of a diagnostic are at offsets of 32 bits. -/
def Fits (d : Diagnostic) : Prop :=
  ∀ l ∈ d.labels, l.span.start ≤ Span.maxOffset ∧ l.span.stop ≤ Span.maxOffset

instance (d : Diagnostic) : Decidable d.Fits :=
  inferInstanceAs (Decidable (∀ l ∈ d.labels, _))

/-- Whether a diagnostic has no place. -/
def isUnplaced (d : Diagnostic) : Bool := d.primarySpan?.isNone

/-- Whether a diagnostic has a place that starts at an offset. -/
def startsAt (n : Nat) (d : Diagnostic) : Bool := d.primarySpan?.any (·.start == n)

theorem isUnplaced_iff : d.isUnplaced = true ↔ d.primarySpan? = none := Option.isNone_iff_eq_none

theorem startsAt_iff : d.startsAt n = true ↔ ∃ s, d.primarySpan? = some s ∧ s.start = n := by
  simp [startsAt, Option.any_eq_true]

/-! ## The key that diagnostics are sorted by -/

theorem sortKey_of_isUnplaced (h : d.isUnplaced = true) : d.sortKey = Span.maxOffset := by
  rw [sortKey, isUnplaced_iff.mp h]
  rfl

theorem sortKey_of_startsAt (h : d.startsAt n = true) : d.sortKey = n := by
  obtain ⟨s, hs, rfl⟩ := startsAt_iff.mp h
  rw [sortKey, hs]
  rfl

/-- A diagnostic has no place, or starts at its key. -/
theorem isUnplaced_or_startsAt (d : Diagnostic) :
    d.isUnplaced = true ∨ d.startsAt d.sortKey = true := by
  cases h : d.primarySpan? with
  | none => exact .inl (isUnplaced_iff.mpr h)
  | some s => exact .inr (startsAt_iff.mpr ⟨s, h, by rw [sortKey, h]; rfl⟩)

theorem startsAt_of_not_isUnplaced (h : d.isUnplaced = false) : d.startsAt d.sortKey = true :=
  d.isUnplaced_or_startsAt.resolve_left (by simp [h])

/-- The key is at the largest offset at most. -/
theorem Fits.sortKey_le (h : d.Fits) : d.sortKey ≤ Span.maxOffset := by
  rcases d.isUnplaced_or_startsAt with hu | hs
  · exact Nat.le_of_eq (sortKey_of_isUnplaced hu)
  · obtain ⟨s, hspan, hstart⟩ := startsAt_iff.mp hs
    obtain ⟨l, hl, rfl⟩ := Option.map_eq_some_iff.mp hspan
    exact hstart ▸ (h l (List.mem_of_find?_eq_some hl)).1

/-! ## What is asked of the order -/

/-- Whether all that has a place comes before all that has none. -/
def PlacedFirst (ds : List Diagnostic) : Prop :=
  ds.Pairwise fun d e => d.isUnplaced = true → e.isUnplaced = true

/-- Whether what has a place comes in the order of the starts. -/
def Ascending (ds : List Diagnostic) : Prop :=
  ds.Pairwise fun d e => ∀ s t, d.primarySpan? = some s → e.primarySpan? = some t →
    s.start ≤ t.start

/-- Whether nothing that starts at the largest offset comes after something without a place. -/
def NoneOvertaken (ds : List Diagnostic) : Prop :=
  ds.Pairwise fun d e => d.isUnplaced = true → e.startsAt Span.maxOffset = false

instance (ds : List Diagnostic) : Decidable (NoneOvertaken ds) :=
  inferInstanceAs (Decidable (ds.Pairwise _))

namespace Queue

variable {q : Queue}

/-- **Taking out keeps the order of arrival of what sorts alike.** -/
theorem filter_flush (q : Queue) {p : Diagnostic → Bool} (h : ∀ d, p d = true → d.sortKey = n) :
    q.flush.1.filter p = q.diagnostics.filter p := by
  refine filter_mergeSort (fun a b c hab hbc => ?_) (fun a b => ?_) (fun a b ha hb => ?_) _
  · exact decide_eq_true (Nat.le_trans (of_decide_eq_true hab) (of_decide_eq_true hbc))
  · simpa using Nat.le_total a.sortKey b.sortKey
  · exact decide_eq_true (Nat.le_of_eq ((h a ha).trans (h b hb).symm))

/-- Two diagnostics that sort alike are taken out in the order they came. -/
theorem pair_sublist_flush_iff (h : d.sortKey = e.sortKey) :
    [d, e].Sublist q.flush.1 ↔ [d, e].Sublist q.diagnostics := by
  have hfilter : q.flush.1.filter (·.sortKey == e.sortKey)
      = q.diagnostics.filter (·.sortKey == e.sortKey) :=
    q.filter_flush fun _ => beq_iff_eq.mp
  have hiff (l : List Diagnostic) : [d, e].Sublist l
      ↔ [d, e].Sublist (l.filter (·.sortKey == e.sortKey)) := by
    refine ⟨fun hl => ?_, fun hl => hl.trans List.filter_sublist⟩
    simpa [h] using hl.filter (·.sortKey == e.sortKey)
  rw [hiff, hiff q.diagnostics, hfilter]

/-- What has a place is taken out in the order of the starts. -/
theorem ascending_flush (q : Queue) : Ascending q.flush.1 := by
  refine q.pairwise_flush.imp fun hkey s t hs ht => ?_
  rwa [sortKey_of_startsAt (startsAt_iff.mpr ⟨s, hs, rfl⟩),
    sortKey_of_startsAt (startsAt_iff.mpr ⟨t, ht, rfl⟩)] at hkey

/-- **What has a place is listed first exactly if nothing that starts at the largest offset arrived
after something without a place.** -/
theorem placedFirst_flush_iff (h : ∀ d ∈ q.diagnostics, d.Fits) :
    PlacedFirst q.flush.1 ↔ NoneOvertaken q.diagnostics := by
  rw [PlacedFirst, NoneOvertaken, List.pairwise_iff_forall_sublist,
    List.pairwise_iff_forall_sublist]
  constructor
  · intro hfirst d e hde hd
    by_contra he
    have he : e.startsAt Span.maxOffset = true := by simpa using he
    have hkey : d.sortKey = e.sortKey :=
      (sortKey_of_isUnplaced hd).trans (sortKey_of_startsAt he).symm
    have hnone := isUnplaced_iff.mp (hfirst ((pair_sublist_flush_iff hkey).mpr hde) hd)
    obtain ⟨s, hs, -⟩ := startsAt_iff.mp he
    rw [hnone] at hs
    cases hs
  · intro hlast d e hde hd
    by_contra he
    have he : e.isUnplaced = false := by simpa using he
    -- What comes after something without a place has a key as large, and no key is larger.
    have hle : d.sortKey ≤ e.sortKey :=
      List.pairwise_iff_forall_sublist.mp q.pairwise_flush hde
    have hmem : e ∈ q.diagnostics := q.flush_perm.mem_iff.mp (hde.subset (by simp))
    have hkey : d.sortKey = e.sortKey := by
      refine Nat.le_antisymm hle ?_
      rw [sortKey_of_isUnplaced hd]
      exact (h e hmem).sortKey_le
    have hno := hlast ((pair_sublist_flush_iff hkey).mp hde) hd
    rw [← sortKey_of_isUnplaced hd, hkey, startsAt_of_not_isUnplaced he] at hno
    cases hno

/-- A queue holds diagnostics in the order they were put in. -/
theorem addAll_sublist (q : Queue) (ds : List Diagnostic) :
    (q.addAll ds).diagnostics.Sublist (q.diagnostics ++ ds) := by
  induction ds generalizing q with
  | nil => simp [addAll]
  | cons d ds ih =>
    have hadd : (q.add d).diagnostics.Sublist (q.diagnostics ++ [d]) := by
      cases h : q.accepts d with
      | true => rw [add_of_accepts h]
      | false =>
        rw [add_of_refused h]
        exact List.sublist_append_left _ _
    change ((q.add d).addAll ds).diagnostics.Sublist _
    simpa using (ih (q.add d)).trans (hadd.append_right ds)

/-- **The order in which diagnostics are taken out, exactly.**  All that a queue holds is listed:
what has a place by its start, in the order it was put in where the starts are the same, and what has
none in the order it was put in; but what starts at the largest offset and what has no place are
listed together, in the order they were put in.  So what has a place comes before what has none
exactly if nothing that starts at the largest offset was put in after something without a place. -/
theorem flush_exact (config : QueueConfig) (h : ∀ d ∈ ds, d.Fits) :
    let q := (empty config).addAll ds
    q.diagnostics.Sublist ds ∧ q.flush.1.Perm q.diagnostics
      ∧ Ascending q.flush.1
      ∧ (∀ n, q.flush.1.filter (startsAt n) = q.diagnostics.filter (startsAt n))
      ∧ q.flush.1.filter isUnplaced = q.diagnostics.filter isUnplaced
      ∧ (∀ n, q.flush.1.filter (·.sortKey == n) = q.diagnostics.filter (·.sortKey == n))
      ∧ (PlacedFirst q.flush.1 ↔ NoneOvertaken q.diagnostics) := by
  intro q
  have hheld : q.diagnostics.Sublist ds := (empty config).addAll_sublist ds
  exact ⟨hheld, q.flush_perm, q.ascending_flush,
    fun n => q.filter_flush fun _ => sortKey_of_startsAt,
    q.filter_flush fun _ => sortKey_of_isUnplaced,
    fun n => q.filter_flush fun _ => beq_iff_eq.mp,
    placedFirst_flush_iff fun d hd => h d (hheld.subset hd)⟩

/-- A diagnostic without a place, put in first, is listed before one at the largest offset. -/
theorem flush_exact_overtaken :
    let ds := [⟨.assemblyFailure, .error, "no span", [], [], []⟩,
      Diagnostic.error .unexpectedToken "last" (.point Span.maxOffset) "here"]
    (∀ d ∈ ds, d.Fits) ∧ ¬ PlacedFirst ((empty .standard).addAll ds).flush.1 := by
  intro ds
  have h : ∀ d ∈ ds, d.Fits := by decide
  obtain ⟨-, -, -, -, -, -, hiff⟩ := flush_exact .standard h
  exact ⟨h, fun hfirst => absurd (hiff.mp hfirst) (by decide)⟩

end Queue

end Memberwise.Diagnostic
