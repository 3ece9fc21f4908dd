import Memberwise.Expansion.OfSource
import Memberwise.Proofs.Declaration.Sequence
import Memberwise.Proofs.Expansion.ComparedFields
import Memberwise.Proofs.Expansion.Removal
import Memberwise.Proofs.Expansion.Walk
import Memberwise.Proofs.Sorting
import Mathlib.Data.List.Basic
import Mathlib.Data.List.Flatten
import Mathlib.Data.List.Perm.Basic

/-!
# Proofs/Expansion/Edits — no edit is lost, and no other text changes

The edits of an expansion are sorted by their places, what is put in before what is cut out.  Since
declarations stand in order, that is the order of the declarations themselves, each with its
attributes first and its extensions after them (`edits_ofDeclarations`), and such edits reach
forward only (`spaced_edits`).  So every one of them is made, and

* `SourceExpansion.ofSource_exact` — **the expanded text is the source without the consumed
  attributes and with each extension put in once**, after the brace of the declaration it follows.
-/

namespace Memberwise

open Text Removal

/-! ## The edits of a declaration -/

namespace Declaration

/-- The extensions that follow a declaration and read back, if there are any. -/
def readableAddition? (registry : Registry) (rules : ExclusionRules) (d : Declaration) :
    Option Addition :=
  (d.addition? registry rules).bind Addition.readable?

/-- The edits that a declaration at the top asks for: its attributes are cut out, then its extensions
put in. -/
def edits (registry : Registry) (rules : ExclusionRules) (source : List Char) (d : Declaration) :
    List Edit :=
  (d.consumed registry).map .removal
    ++ (d.readableAddition? registry rules).toList.map fun a =>
      .insertion a.anchor.stop (a.text (.ofAnchor source a.anchor))

variable {registry : Registry} {rules : ExclusionRules} {d : Declaration}

/-- The attributes consumed are some of those in a declaration, in their order. -/
theorem consumed_sublist (registry : Registry) (d : Declaration) :
    (d.consumed registry).Sublist d.attributeSpans := by
  rw [attributeSpans, List.flatMap_cons]
  refine .append (List.filter_sublist.map _) (.flatMap_right _ fun e _ => ?_)
  exact List.filter_sublist.map _

/-- What follows a declaration stands behind it and is not empty, and the declaration has a block. -/
theorem readableAddition?_eq_some {a : Addition}
    (h : d.readableAddition? registry rules = some a) :
    a.anchor = d.span ∧ a.extensions ≠ [] ∧ d.members ≠ none := by
  obtain ⟨full, hfull, hread⟩ := Option.bind_eq_some_iff.mp h
  have hanchor : full.anchor = d.span
      ∧ (d.outcomes registry rules).filterMap (·.result) ≠ [] := by
    unfold addition? at hfull
    split at hfull
    · cases hfull
    · rename_i hne
      cases hfull
      exact ⟨rfl, hne⟩
  have hext : a.anchor = full.anchor ∧ a.extensions ≠ [] := by
    unfold Addition.readable? at hread
    split at hread
    · cases hread
    · rename_i hne
      cases hread
      exact ⟨rfl, hne⟩
  refine ⟨hext.1.trans hanchor.1, hext.2, ?_⟩
  intro hm
  -- A declaration without a block is no record, and nothing comes of it.
  have hrecord : ¬ d.IsRecord := by
    rintro ⟨-, -, block, hb⟩
    rw [hm] at hb
    cases hb
  obtain ⟨fault, hfault⟩ := expand_of_not_record rules hrecord
  refine hanchor.2 (List.filterMap_eq_nil_iff.mpr fun o ho => ?_)
  obtain ⟨_, -, rfl⟩ := List.mem_map.mp ho
  rw [hfault]

/-- Every extension that follows a declaration is what the declaration expands to. -/
theorem result_of_mem_readableAddition? {a : Addition}
    (h : d.readableAddition? registry rules = some a) :
    ∀ e ∈ a.extensions, (d.expand rules).result = some e := by
  obtain ⟨full, hfull, hread⟩ := Option.bind_eq_some_iff.mp h
  have hsub : ∀ e ∈ a.extensions, e ∈ full.extensions := by
    unfold Addition.readable? at hread
    split at hread
    · cases hread
    · cases hread
      exact fun e he => (List.mem_filter.mp he).1
  intro e he
  have hmem : e ∈ (d.outcomes registry rules).filterMap (·.result) := by
    rw [← FileExpansion.extensions_addition?, hfull]
    simpa using hsub e he
  obtain ⟨o, ho, hr⟩ := List.mem_filterMap.mp hmem
  obtain ⟨_, -, rfl⟩ := List.mem_map.mp ho
  exact hr

end Declaration

/-- Text that is put in ends with a closing brace. -/
theorem Addition.getLast?_text {a : Addition} (h : a.extensions ≠ []) (ending : LineEnding) :
    (a.text ending).getLast? = some '\x7d' := by
  obtain ⟨es, e, he⟩ := (List.eq_nil_or_concat' a.extensions).resolve_left h
  have hlast : ∃ s, ending.apply (chars e.fragments) = s ++ ['\x7d'] := by
    rw [Extension.fragments, chars_append, LineEnding.apply, List.flatMap_append]
    exact ⟨_, rfl⟩
  obtain ⟨s, hs⟩ := hlast
  rw [Addition.text, he, List.flatMap_append, List.flatMap_singleton, hs, ← List.append_assoc,
    ← List.append_assoc]
  exact List.getLast?_concat

/-! ## The edits of a file -/

namespace Removal

variable {source : List Char} {m n : Nat} {es : List Edit}

/-- Only a removal may stand at the very place from which edits reach forward. -/
theorem Spaced.position_cases (h : Spaced source n es) :
    ∀ e ∈ es, n < e.position ∨ n = e.position ∧ ∃ s, e = .removal s := by
  induction h with
  | nil => simp
  | insertion hs hn ht hes ih =>
    intro e he
    rcases List.mem_cons.mp he with rfl | he
    · exact .inl (Nat.lt_succ_of_le hn)
    · have := ih e he
      omega
  | removal hs hn hes ih =>
    intro e he
    rcases List.mem_cons.mp he with rfl | he
    · rcases Nat.lt_or_eq_of_le hn with hlt | heq
      · exact .inl hlt
      · exact .inr ⟨heq, _, rfl⟩
    · have hlt := ih e he
      rw [byteLength_cons] at hlt
      have := ('@' : Char).utf8Size_pos
      omega

/-- Edits that reach forward are in the order of their places, and of two at one place the first
puts in and the second cuts out. -/
theorem Spaced.pairwise (h : Spaced source n es) : es.Pairwise fun e e' =>
    e.position ≤ e'.position ∧ (e'.position ≤ e.position →
      (∃ offset text, e = .insertion offset text) ∧ ∃ s, e' = .removal s) := by
  induction h with
  | nil => exact .nil
  | @insertion n before after text es hs hn ht hes ih =>
    refine .cons (fun e' he' => ?_) ih
    change byteLength before + 1 ≤ _ ∧ (_ ≤ byteLength before + 1 → _)
    rcases hes.position_cases e' he' with hlt | ⟨heq, hrem⟩
    · exact ⟨Nat.le_of_lt hlt, fun hle => absurd hle (Nat.not_le.mpr hlt)⟩
    · exact ⟨Nat.le_of_eq heq, fun _ => ⟨⟨_, _, rfl⟩, hrem⟩⟩
  | @removal n before text after es hs hn hes ih =>
    refine .cons (fun e' he' => ?_) ih
    have hlt : byteLength before < e'.position := by
      have := hes.position_cases e' he'
      have := ('@' : Char).utf8Size_pos
      rw [byteLength_cons] at *
      omega
    exact ⟨Nat.le_of_lt hlt, fun hle => absurd hle (Nat.not_le.mpr hlt)⟩

/-- Attributes that stand in order are cut out going forward. -/
theorem spaced_removals {as : List Span} (has : Between source m as n) (hes : Spaced source n es) :
    Spaced source m (as.map .removal ++ es) := by
  induction has with
  | nil h => exact hes.of_le h
  | cons hs hm has ih => exact .removal hs hm (ih hes)

end Removal

/-- **The edits of declarations in order reach forward.** -/
theorem Sequence.spaced (registry : Registry) (rules : ExclusionRules) {source : List Char}
    {m n : Nat} {ds : List Declaration} (h : Sequence source m ds n) :
    Spaced source m (ds.flatMap (Declaration.edits registry rules source)) := by
  induction h with
  | nil => exact .nil _
  | @cons l m n d ds hd hds ih =>
    rw [List.flatMap_cons, Declaration.edits, List.append_assoc]
    cases ha : d.readableAddition? registry rules with
    | none => exact spaced_removals (hd.between.sublist (d.consumed_sublist registry)) ih
    | some a =>
      obtain ⟨hanchor, hne, hblock⟩ := Declaration.readableAddition?_eq_some ha
      cases hd with
      | line hm => exact absurd hm hblock
      | block hs has hstop hn =>
        refine spaced_removals (has.sublist (d.consumed_sublist registry)) ?_
        rw [Option.toList_some, List.map_singleton, hanchor, hstop]
        exact .insertion hs (Nat.le_refl _) (a.getLast?_text hne _) (ih.of_le (hstop ▸ hn))

namespace FileExpansion

variable (registry : Registry) (rules : ExclusionRules) (source : List Char)
  {ds : List Declaration} {n : Nat}

theorem additions_readable (ds : List Declaration) : (ofDeclarations registry rules ds).readable.additions
    = ds.filterMap (Declaration.readableAddition? registry rules) := by
  rw [readable, ofDeclarations_eq, List.filterMap_filterMap]
  rfl

/-- The attributes consumed are those of the declarations, which are in order already. -/
theorem consumed_readable {source : List Char} (h : Sequence source 0 ds n) :
    (ofDeclarations registry rules ds).readable.consumed = ds.flatMap (·.consumed registry) := by
  have hbetween := h.between.sublist
    (List.Sublist.flatMap_right ds fun d _ => d.consumed_sublist registry)
  rw [readable, ofDeclarations_eq]
  refine List.mergeSort_of_pairwise (hbetween.pairwise.imp fun hst => ?_)
  simp only [decide_eq_true_eq]
  omega

/-- **The edits of a file are those of its declarations**, one after the other. -/
theorem edits_ofDeclarations {source : List Char} (h : Sequence source 0 ds n) :
    (ofDeclarations registry rules ds).readable.edits source
      = ds.flatMap (Declaration.edits registry rules source) := by
  rw [edits, additions_readable, consumed_readable registry rules h]
  have hspaced := h.spaced registry rules
  generalize hins : (ds.filterMap (Declaration.readableAddition? registry rules)).map
    (fun a => Edit.insertion a.anchor.stop (a.text (.ofAnchor source a.anchor))) = ins
  generalize hrem : (ds.flatMap (·.consumed registry)).map Edit.removal = rem
  have hperm : (ds.flatMap (Declaration.edits registry rules source)).Perm (ins ++ rem) := by
    rw [← hins, ← hrem, List.map_flatMap, List.filterMap_eq_flatMap_toList, List.map_flatMap]
    exact (List.flatMap_append_perm ds _ _).symm.trans List.perm_append_comm
  refine mergeSort_eq_of_pairwise ?_ ?_ hperm ?_ ?_
  · intro e e' e'' he he'
    simp only [decide_eq_true_eq] at he he' ⊢
    omega
  · intro e e'
    simp only [Bool.or_eq_true, decide_eq_true_eq]
    omega
  · refine hperm.nodup_iff.mp (hspaced.pairwise.imp fun {e e'} he => ?_)
    rintro rfl
    obtain ⟨⟨_, _, rfl⟩, _, hcontra⟩ := he.2 (Nat.le_refl _)
    cases hcontra
  · refine hspaced.pairwise.imp_of_mem fun {e e'} he he' hee => ?_
    refine ⟨decide_eq_true hee.1, fun hle => ?_⟩
    obtain ⟨⟨offset, text, rfl⟩, s, rfl⟩ := hee.2 (of_decide_eq_true hle)
    have hfirst : Edit.insertion offset text ∈ ins := by
      refine (List.mem_append.mp (hperm.mem_iff.mp he)).resolve_right fun h => ?_
      rw [← hrem] at h
      simp at h
    have hsecond : Edit.removal s ∈ rem := by
      refine (List.mem_append.mp (hperm.mem_iff.mp he')).resolve_left fun h => ?_
      rw [← hins] at h
      simp at h
    exact .append (List.singleton_sublist.mpr hfirst) (List.singleton_sublist.mpr hsecond)

theorem spans_edits (ds : List Declaration) : spans (ds.flatMap (Declaration.edits registry rules source))
    = ds.flatMap (·.consumed registry) := by
  rw [spans, List.filterMap_flatMap]
  refine List.flatMap_congr fun d _ => ?_
  simp [Declaration.edits, List.filterMap_append, List.filterMap_map]

/-- The edits of declarations put in what is added, in its order. -/
theorem additions_sublist_edits (ds : List Declaration) :
    ((ofDeclarations registry rules ds).readable.additions.map fun a =>
        Edit.insertion a.anchor.stop (a.text (.ofAnchor source a.anchor))).Sublist
    (ds.flatMap (Declaration.edits registry rules source)) := by
  rw [additions_readable, List.filterMap_eq_flatMap_toList, List.map_flatMap]
  exact .flatMap_right ds fun d _ => List.sublist_append_right _ _

/-- What an expansion puts in at an offset: the extensions that follow the declaration ending
there. -/
def insertedAt (source : List Char) (f : FileExpansion) (n : Nat) : List Char :=
  f.additions.flatMap fun a =>
    if a.anchor.stop = n then a.text (.ofAnchor source a.anchor) else []

theorem insertedAt_edits (ds : List Declaration) (n : Nat) :
    Removal.insertedAt (ds.flatMap (Declaration.edits registry rules source)) n
      = (ofDeclarations registry rules ds).readable.insertedAt source n := by
  rw [insertedAt, additions_readable, Removal.insertedAt, List.filterMap_eq_flatMap_toList,
    List.flatMap_assoc, List.flatMap_assoc]
  refine List.flatMap_congr fun d _ => ?_
  simp [Declaration.edits, List.flatMap_append, List.flatMap_map]

end FileExpansion

namespace SourceExpansion

variable {registry : Registry} {rules : ExclusionRules} {source : String}

theorem expansion_ofSource (h : (Reading.ofSource source).diagnostics = []) :
    (ofSource registry rules source).expansion = (FileExpansion.ofDeclarations registry rules
      (Reading.ofSource source).file.declarations).readable := by
  simp only [ofSource, h]

/-- The expanded text is the source with the edits of the expansion. -/
theorem toList_output_ofSource (registry : Registry) (rules : ExclusionRules) (source : String) :
    (ofSource registry rules source).output.toList
      = (ofSource registry rules source).expansion.apply source.toList := by
  by_cases h : (Reading.ofSource source).diagnostics = []
  · simp only [ofSource, h, String.toList_ofList]
  · rw [ofSource_of_not_readable h, FileExpansion.apply_empty]

/-- **No edit is lost and no other text changes.**  A source that can be read is edited as its
declarations expand, as far as the extensions read back, and one that cannot be read is not edited.
Every edit is made; the expanded text is the source, character by character and in order, without
those in the region of a consumed attribute, and with what is put in behind the characters where it
belongs; and that is behind the closing brace of a declaration, which is left, at a place of its own
for each addition. -/
theorem ofSource_exact (registry : Registry) (rules : ExclusionRules) (source : String) :
    let e := ofSource registry rules source
    let r := Reading.ofSource source
    let s := source.toList
    let removed := removedBy s e.expansion.consumed
    (r.diagnostics = [] → e.expansion
        = (FileExpansion.ofDeclarations registry rules r.file.declarations).readable)
      ∧ (r.diagnostics ≠ [] → e.expansion = .empty)
      ∧ (∀ es₁ edit es₂, e.expansion.edits s = es₁ ++ edit :: es₂ →
        isMade s (es₁.foldl (Splice.edit s) .start) edit = true)
      ∧ e.output.toList = (located 0 s).flatMap (fun (o, c) =>
          (if removed o then [] else [c]) ++ e.expansion.insertedAt s (o + c.utf8Size))
      ∧ (∃ n, Between s 0 e.expansion.consumed n)
      ∧ (e.expansion.additions.map (·.anchor.stop)).Pairwise (· < ·)
      ∧ ∀ a ∈ e.expansion.additions, ∃ before after, s = before ++ '\x7d' :: after
          ∧ a.anchor.stop = byteLength before + 1 ∧ removed (byteLength before) = false := by
  dsimp only
  refine ⟨expansion_ofSource, fun hd => by rw [ofSource_of_not_readable hd], ?_⟩
  rw [toList_output_ofSource]
  by_cases hd : (Reading.ofSource source).diagnostics = []
  · obtain ⟨n, hseq⟩ := exists_sequence_ofSource source
    rw [expansion_ofSource hd, FileExpansion.apply]
    generalize (Reading.ofSource source).file.declarations = ds at hseq
    generalize source.toList = s at hseq
    have hspaced := hseq.spaced registry rules
    have hspans := FileExpansion.spans_edits registry rules s ds
    have hadded := FileExpansion.additions_sublist_edits registry rules s ds
    rw [FileExpansion.edits_ofDeclarations registry rules hseq,
      FileExpansion.consumed_readable registry rules hseq, ← hspans]
    refine ⟨fun es₁ edit es₂ hes => isMade_of_spaced (hes ▸ hspaced), ?_, ?_, ?_, ?_⟩
    · rw [applyEdits_of_spaced hspaced,
        funext (FileExpansion.insertedAt_edits registry rules s ds)]
      rfl
    · rw [hspans]
      exact ⟨n, hseq.between.sublist (.flatMap_right ds fun d _ => d.consumed_sublist registry)⟩
    · rw [List.pairwise_map]
      refine (List.pairwise_map.mp (hspaced.pairwise.sublist hadded)).imp fun {a b} hab => ?_
      -- Of two edits at one place the second puts nothing in.
      refine Nat.lt_of_le_of_ne hab.1 fun heq => ?_
      obtain ⟨-, _, hcontra⟩ := hab.2 (Nat.le_of_eq heq.symm)
      cases hcontra
    · intro a ha
      have hmem := hadded.subset (List.mem_map_of_mem ha)
      obtain ⟨before, after, hs, hstop, -⟩ := hspaced.exists_brace hmem
      rw [hstop] at hmem
      exact ⟨before, after, hs, hstop, removedBy_brace_of_spaced hspaced hmem hs⟩
  · -- A text that cannot be read comes back as it is.
    rw [ofSource_of_not_readable hd]
    refine ⟨?_, ?_, ⟨0, .nil (Nat.le_refl 0)⟩, .nil, by simp [FileExpansion.empty]⟩
    · intro es₁ edit es₂ hes
      simp [FileExpansion.edits, FileExpansion.empty] at hes
    · rw [FileExpansion.apply_empty]
      exact (marked_of_untouched (fun _ _ _ => rfl) fun _ _ _ => rfl).symm

end SourceExpansion

end Memberwise
