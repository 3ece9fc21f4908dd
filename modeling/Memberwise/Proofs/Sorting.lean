import Mathlib.Data.List.Basic
import Mathlib.Data.List.Perm.Basic

/-!
# Proofs/Sorting — what sorting does to members that are no greater than one another

Sorting is stable.  Where the members of a list are all different, the order it answers is known by
comparing two of them at a time (`mergeSort_eq_of_pairwise`); where some are alike, those that are
stay in the order they came (`filter_mergeSort`).
-/

namespace Memberwise

variable {α : Type} {le : α → α → Bool}

/-! ## Members that are all different -/

/-- Of two members of a list without repetition only one comes first. -/
theorem not_pair_sublist_of_nodup {a b : α} {l : List α} (hl : l.Nodup) (hab : [a, b].Sublist l) :
    ¬ [b, a].Sublist l := by
  induction l with
  | nil => cases hab
  | cons c l ih =>
    obtain ⟨hc, hl⟩ := List.nodup_cons.mp hl
    intro hba
    rcases List.sublist_cons_iff.mp hab with hab' | ⟨_, hcons, hab'⟩
    · rcases List.sublist_cons_iff.mp hba with hba' | ⟨_, hcons, -⟩
      · exact ih hl hab' hba'
      · obtain ⟨rfl, -⟩ := List.cons.inj hcons
        exact hc (hab'.subset (by simp))
    · obtain ⟨rfl, rfl⟩ := List.cons.inj hcons
      rcases List.sublist_cons_iff.mp hba with hba' | ⟨_, hcons', -⟩
      · exact hc (hba'.subset (by simp))
      · obtain ⟨rfl, -⟩ := List.cons.inj hcons'
        exact hc (hab'.subset (by simp))

/-- One of two different members of a list comes first. -/
theorem pair_sublist_or {a b : α} {l : List α} (ha : a ∈ l) (hb : b ∈ l) (hne : a ≠ b) :
    [a, b].Sublist l ∨ [b, a].Sublist l := by
  induction l with
  | nil => cases ha
  | cons c l ih =>
    rcases List.mem_cons.mp ha with rfl | ha'
    · have hb' := (List.mem_cons.mp hb).resolve_left (Ne.symm hne)
      exact .inl ((List.singleton_sublist.mpr hb').cons_cons a)
    · rcases List.mem_cons.mp hb with rfl | hb'
      · exact .inr ((List.singleton_sublist.mpr ha').cons_cons b)
      · exact (ih ha' hb').imp (.cons c) (.cons c)

/-- **Sorting answers the one order** in which what comes first is no greater, and no smaller but
where it came first before. -/
theorem mergeSort_eq_of_pairwise {l l' : List α} (trans : ∀ a b c, le a b → le b c → le a c)
    (total : ∀ a b, le a b || le b a) (hp : l'.Perm l) (hl : l.Nodup)
    (hs : l'.Pairwise fun a b => le a b = true ∧ (le b a = true → [a, b].Sublist l)) :
    l.mergeSort le = l' := by
  have hperm : (l.mergeSort le).Perm l := List.mergeSort_perm l le
  refine List.Perm.eq_of_pairwise ?_ ?_ hs (hperm.trans hp.symm)
  · rintro a b ha hb ⟨hab, hab'⟩ ⟨hba, hba'⟩
    exact absurd (hba' hab) (not_pair_sublist_of_nodup hl (hab' hba))
  · rw [List.pairwise_iff_forall_sublist]
    intro a b hab
    have hle := List.pairwise_iff_forall_sublist.mp (List.pairwise_mergeSort trans total l) hab
    refine ⟨hle, fun hba => ?_⟩
    have hnd := hperm.nodup_iff.mpr hl
    have hne : a ≠ b := List.pairwise_iff_forall_sublist.mp hnd hab
    refine (pair_sublist_or (List.mem_mergeSort.mp (hab.subset (by simp)))
      (List.mem_mergeSort.mp (hab.subset (by simp))) hne).resolve_right fun h => ?_
    exact not_pair_sublist_of_nodup hnd hab (List.pair_sublist_mergeSort trans total hba h)

/-! ## Members that are alike -/

/-- **Members that are no greater than one another stay as they came.** -/
theorem filter_mergeSort (trans : ∀ a b c, le a b → le b c → le a c)
    (total : ∀ a b, le a b || le b a) {p : α → Bool} (h : ∀ a b, p a → p b → le a b) (l : List α) :
    (l.mergeSort le).filter p = l.filter p := by
  have halike : (l.filter p).Pairwise (le · ·) :=
    List.pairwise_of_forall_mem_list fun a ha b hb =>
      h a b (List.mem_filter.mp ha).2 (List.mem_filter.mp hb).2
  have hsub := (List.sublist_mergeSort trans total halike List.filter_sublist).filter p
  rw [List.filter_filter] at hsub
  simp only [Bool.and_self] at hsub
  exact (hsub.eq_of_length ((List.mergeSort_perm _ _).filter _).length_eq.symm).symm

end Memberwise
