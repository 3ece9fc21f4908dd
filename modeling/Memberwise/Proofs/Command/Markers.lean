import Memberwise.Command.Options
import Memberwise.Proofs.Expansion.ComparedFields
import Memberwise.Proofs.Expansion.Dispatch
import Memberwise.Proofs.Expansion.ReadBack
import Mathlib.Data.List.Nodup

/-!
# Proofs/Command/Markers — the marker cut out and the marker heeded

The name of the marker is kept in two places: in the registry, which says what is cut out of a
member, and in the rules, which say what keeps a member out of comparison.  Every argument changes
one of the two.

* `Declaration.expand_without` — **a property that is not admitted might as well not be there**;
* `SourceExpansion.result_of_anchor_eq` — an extension is told from others by the declaration it
  follows, since no two blocks end at the same place;
* `Command.Options.keepsNames_ofArguments` — **no argument gives the marker of the registry another
  name**, by induction on the arguments;
* `Command.Options.marksAlike_iff` — **whatever loses a marker is not compared, exactly if the rules
  know the registry's marker**.
-/

namespace Memberwise

/-! ## A property that is not admitted -/

namespace Declaration

variable {rules : ExclusionRules} {d property : Declaration} {before after : List Declaration}

theorem fst_of_mem_ownBindings {q : Declaration × Binding} (h : q ∈ property.ownBindings) :
    q.1 = property := by
  unfold ownBindings at h
  split at h
  · cases h
  · obtain ⟨b, -, rfl⟩ := List.mem_map.mp h
    rfl

theorem blockBindings_insert (hm : d.members = some (before ++ property :: after)) :
    d.blockBindings = before.flatMap ownBindings ++ property.ownBindings
      ++ after.flatMap ownBindings := by
  rw [blockBindings, hm, Option.getD_some, List.flatMap_append, List.flatMap_cons,
    List.append_assoc]

theorem blockBindings_without (d : Declaration) (before after : List Declaration) :
    { d with members := some (before ++ after) }.blockBindings
      = before.flatMap ownBindings ++ after.flatMap ownBindings :=
  List.flatMap_append

/-- What nothing is made of in a property, is made of the block without it. -/
theorem filterMap_without {α : Type} {f : Declaration × Binding → Option α}
    (hm : d.members = some (before ++ property :: after))
    (h : ∀ b, f (property, b) = none) :
    { d with members := some (before ++ after) }.blockBindings.filterMap f
      = d.blockBindings.filterMap f := by
  have hnone : property.ownBindings.filterMap f = [] := by
    refine List.filterMap_eq_nil_iff.mpr fun q hq => ?_
    rw [← fst_of_mem_ownBindings hq] at h
    exact h q.2
  rw [blockBindings_insert hm, blockBindings_without, List.filterMap_append, List.filterMap_append,
    List.filterMap_append, hnone, List.append_nil]

/-- **A property that is not admitted might as well not be there.** -/
theorem expand_without (hd : d.IsRecord) (hm : d.members = some (before ++ property :: after))
    (h : ¬ rules.Admits property) :
    { d with members := some (before ++ after) }.expand rules = d.expand rules := by
  obtain ⟨hk, ⟨name, hn, hne⟩, -⟩ := hd
  have hnames : { d with members := some (before ++ after) }.eligibleNames rules
      = d.eligibleNames rules :=
    filterMap_without hm fun b => by simp [ExclusionRules.Eligible, h]
  have hmalformed : { d with members := some (before ++ after) }.malformedBindings rules
      = d.malformedBindings rules := by
    rw [malformedBindings, malformedBindings, ← List.filterMap_eq_filter,
      filterMap_without hm fun b => by simp [h]]
  rw [expand_of_record (d := { d with members := some (before ++ after) }) hk hn hne rfl,
    expand_of_record hk hn hne hm, hnames, hmalformed]
  rfl

/-- What follows a declaration that is expanded once, and whose type is no reserved word. -/
theorem readableAddition?_of_result {registry : Registry} {x : Extension}
    (hone : d.outcomes registry rules = [d.expand rules]) (hx : (d.expand rules).result = some x)
    (htype : Text.isReserved x.extendedType = false) :
    d.readableAddition? registry rules = some ⟨d.span, [x]⟩ := by
  have hread : x.readBackFault? = none := by
    obtain ⟨c, hc, rfl⟩ := exists_comparison hx
    rw [Comparison.readBackFault?_eq hc]
    exact if_neg (Bool.eq_false_iff.mp htype)
  have hadd : d.addition? registry rules = some ⟨d.span, [x]⟩ := by
    rw [addition?, hone, List.filterMap_cons_some hx]
    rfl
  rw [readableAddition?, hadd, Option.bind_some, Addition.readable?, List.filter_cons_of_pos]
  · rfl
  · simp [hread]

end Declaration

/-! ## Which declaration an extension follows -/

/-- The blocks of declarations in order end behind where they may begin. -/
theorem Sequence.lt_stop {source : List Char} {m n : Nat} {ds : List Declaration}
    (h : Sequence source m ds n) : ∀ d ∈ ds.filter (·.members.isSome), m < d.span.stop := by
  induction h with
  | nil => simp
  | cons hd hds ih =>
    intro e he
    rcases List.mem_cons.mp (List.mem_filter.mp he).1 with rfl | hlater
    · cases hd with
      | line hm => simp [hm] at he
      | block hs has hstop hn =>
        have := has.le
        omega
    · refine Nat.lt_of_le_of_lt hd.between.le (ih e ?_)
      exact List.mem_filter.mpr ⟨hlater, (List.mem_filter.mp he).2⟩

/-- No two blocks end at the same place. -/
theorem Sequence.pairwise_stop {source : List Char} {m n : Nat} {ds : List Declaration}
    (h : Sequence source m ds n) :
    (ds.filter (·.members.isSome)).Pairwise fun d e => d.span.stop < e.span.stop := by
  induction h with
  | nil => exact .nil
  | cons hd hds ih =>
    rw [List.filter_cons]
    split
    case isTrue hm =>
      refine .cons (fun e he => ?_) ih
      cases hd with
      | line hnone => simp [hnone] at hm
      | block hs has hstop hn => exact Nat.lt_of_le_of_lt hn (hds.lt_stop e he)
    case isFalse => exact ih

namespace SourceExpansion

variable {registry : Registry} {rules : ExclusionRules} {source : String} {d : Declaration}

/-- **What is put in at a declaration is what that declaration expands to.** -/
theorem result_of_anchor_eq {a : Addition} {x : Extension}
    (hd : d ∈ (Reading.ofSource source).file.declarations) (hm : d.members ≠ none)
    (ha : a ∈ (ofSource registry rules source).expansion.additions) (hanchor : a.anchor = d.span)
    (hx : x ∈ a.extensions) : (d.expand rules).result = some x := by
  have hread : (Reading.ofSource source).diagnostics = [] := by
    by_contra hne
    rw [ofSource_of_not_readable hne] at ha
    cases ha
  rw [expansion_ofSource hread, FileExpansion.additions_readable] at ha
  obtain ⟨e, he, hea⟩ := List.mem_filterMap.mp ha
  obtain ⟨hspan, -, hem⟩ := Declaration.readableAddition?_eq_some hea
  obtain ⟨n, hseq⟩ := exists_sequence_ofSource source
  have hnodup := (List.pairwise_map.mpr hseq.pairwise_stop).imp Nat.ne_of_lt
  obtain rfl : e = d := by
    refine List.inj_on_of_nodup_map hnodup ?_ ?_ (congrArg Span.stop (hspan.symm.trans hanchor))
    · exact List.mem_filter.mpr ⟨he, Option.isSome_iff_ne_none.mpr hem⟩
    · exact List.mem_filter.mpr ⟨hd, Option.isSome_iff_ne_none.mpr hm⟩
  exact Declaration.result_of_mem_readableAddition? hea x hx

end SourceExpansion

/-! ## The registry of an argument list -/

/-- What the names of a registry stand for if no argument could say otherwise. -/
structure Registry.KeepsNames (registry : Registry) : Prop where
  equatable : registry.find? "Equatable" = some .equatable
  /-- A marker has no other name than its own. -/
  marker : ∀ name, registry.find? name = some .skipEquatable → name = "SkipEquatable"

theorem Registry.keepsNames_standard : Registry.standard.KeepsNames where
  equatable := by decide
  marker name h := by
    rw [standard, register, register, find?_insert, find?_insert, find?_empty] at h
    split at h
    · assumption
    · split at h <;> cases h

/-- A further name for what generates extensions is no marker. -/
theorem Registry.KeepsNames.insert {registry : Registry} (h : registry.KeepsNames) (name : String) :
    (registry.insert name .equatable).KeepsNames where
  equatable := by rw [find?_insert, h.equatable, ite_self]
  marker other ho := by
    rw [find?_insert] at ho
    split at ho
    · cases ho
    · exact h.marker other ho

namespace Command.Options

variable {o : Options}

theorem keepsNames_apply (h : o.registry.KeepsNames) (a : Argument) :
    (o.apply a).registry.KeepsNames := by
  cases a with
  | «alias» name => exact h.insert name
  | _ => exact h

theorem keepsNames_foldl (as : List Argument) (h : o.registry.KeepsNames) :
    (as.foldl apply o).registry.KeepsNames := by
  induction as generalizing o with
  | nil => exact h
  | cons a as ih => exact ih (keepsNames_apply h a)

/-- **No argument gives the marker another name.** -/
theorem keepsNames_ofArguments {arguments files : List String}
    (h : ofArguments arguments = .ok (o, files)) : o.registry.KeepsNames := by
  unfold ofArguments at h
  cases hread : Argument.readAll arguments with
  | error e => rw [hread] at h; cases h
  | ok as =>
    rw [hread] at h
    obtain ⟨rfl, -⟩ := Prod.mk.inj (Except.ok.inj h)
    exact keepsNames_foldl as Registry.keepsNames_standard

end Command.Options

/-! ## Agreement -/

/-- In the expansion of a source, the extension `x` follows a struct at the top, and a marker is cut
out of one of the struct's members. -/
structure SourceExpansion.CutsMarker (registry : Registry) (rules : ExclusionRules)
    (source : String) (d : Declaration) (before : List Declaration) (property : Declaration)
    (after : List Declaration) (x : Extension) : Prop where
  mem : d ∈ (Reading.ofSource source).file.declarations
  kind : d.kind = .struct
  members : d.members = some (before ++ property :: after)
  exists_addition : ∃ a ∈ (ofSource registry rules source).expansion.additions,
    a.anchor = d.span ∧ x ∈ a.extensions
  exists_marker : ∃ a ∈ property.attributes, registry.role? a.name = some .peer
    ∧ a.span ∈ (ofSource registry rules source).expansion.consumed

/-- Whatever loses a marker is not compared: no binding of it is eligible, and the extension is the
one that the struct has without it. -/
def Command.Options.MarksAlike (o : Options) : Prop :=
  ∀ source d before property after x,
    SourceExpansion.CutsMarker o.registry o.rules source d before property after x →
      (∀ b name, (property, b) ∈ property.ownBindings →
          ¬ o.rules.Eligible d.inherited property b name)
        ∧ ({ d with members := some (before ++ after) }.expand o.rules).result = some x

/-- A member with a name that keeps members out of comparison is not admitted. -/
theorem ExclusionRules.not_admits_of_mem {rules : ExclusionRules} {property : Declaration}
    {a : Attribute} (ha : a ∈ property.attributes)
    (h : a.name = rules.skipMarker ∨ a.name ∈ rules.wrappers) : ¬ rules.Admits property :=
  fun hadmits => h.elim (hadmits.2 a ha).2 (hadmits.2 a ha).1

namespace Command.Options

variable {o : Options}

theorem marksAlike_of_names (hnames : o.registry.KeepsNames)
    (h : o.registry.role? "SkipEquatable" = some .peer →
      o.rules.skipMarker = "SkipEquatable" ∨ "SkipEquatable" ∈ o.rules.wrappers) :
    o.MarksAlike := by
  intro source d before property after x hcuts
  obtain ⟨a, ha, hrole, -⟩ := hcuts.exists_marker
  obtain ⟨addition, hadd, hanchor, hx⟩ := hcuts.exists_addition
  have hname : a.name = "SkipEquatable" := by
    obtain ⟨e, he, hpeer⟩ := Option.map_eq_some_iff.mp hrole
    cases e with
    | equatable => cases hpeer
    | skipEquatable => exact hnames.marker _ he
  have hadmits : ¬ o.rules.Admits property := by
    refine ExclusionRules.not_admits_of_mem ha ?_
    rw [hname] at hrole ⊢
    exact (h hrole).imp_left Eq.symm
  have hresult : (d.expand o.rules).result = some x :=
    SourceExpansion.result_of_anchor_eq hcuts.mem (by simp [hcuts.members]) hadd hanchor hx
  have hrecord : d.IsRecord := by
    by_contra hno
    obtain ⟨fault, hfault⟩ := Declaration.expand_of_not_record o.rules hno
    rw [hfault] at hresult
    cases hresult
  refine ⟨fun b name _ heligible => hadmits heligible.1, ?_⟩
  rw [Declaration.expand_without hrecord hcuts.members hadmits, hresult]

end Command.Options

/-! ## Disagreement -/

/-- What a property with the marker binds. -/
def markedBinding : Binding := ⟨.name "x", some "Int", false, false, ⟨41, 47⟩⟩

/-- A property with the marker. -/
def markedProperty : Declaration :=
  ⟨.property ⟨.let, [markedBinding]⟩, none, [⟨"SkipEquatable", none, ⟨22, 36⟩⟩], [], [], none,
    ⟨22, 47⟩⟩

/-- A struct that is made comparable and has a property with the marker. -/
def markedStruct : Declaration :=
  ⟨.struct, some "S", [⟨"Equatable", none, ⟨0, 10⟩⟩], [], [], some [markedProperty], ⟨0, 49⟩⟩

/-- The text of the struct. -/
def markedSource : String := "@Equatable struct S \x7b @SkipEquatable let x: Int \x7d\n"

theorem reading_markedSource : (Reading.ofSource markedSource).diagnostics = []
    ∧ (Reading.ofSource markedSource).file.declarations = [markedStruct] := by
  exact ⟨by decide +kernel, by with_unfolding_all rfl⟩

/-- With another marker and no wrapper of that name the property is compared. -/
theorem result_markedStruct {rules : ExclusionRules} (hmarker : rules.skipMarker ≠ "SkipEquatable")
    (hwrapper : "SkipEquatable" ∉ rules.wrappers) :
    (markedStruct.expand rules).result = some (.equatable "S" none (.fieldEqual "x")) := by
  have hadmits : rules.Admits markedProperty := by
    simp [ExclusionRules.Admits, markedProperty, hmarker.symm, hwrapper]
  have heligible : rules.Eligible markedStruct.inherited markedProperty markedBinding "x" :=
    ⟨hadmits, rfl, by simp [markedStruct]⟩
  have hblock : markedStruct.blockBindings = [(markedProperty, markedBinding)] := rfl
  have hnames : markedStruct.eligibleNames rules = ["x"] := by
    have hone : (markedBinding.pattern.name?.filter
        fun name => rules.Eligible markedStruct.inherited markedProperty markedBinding name)
          = some "x" := by
      rw [show markedBinding.pattern.name? = some "x" from rfl, Option.filter_some,
        if_pos (decide_eq_true heligible)]
    rw [Declaration.eligibleNames, hblock]
    exact List.filterMap_cons_some hone
  have hproper : markedStruct.HasProperNames rules := by
    rw [Declaration.HasProperNames, hnames]
    refine ⟨fun name hname => ?_, fun name hname => ?_⟩
    · obtain rfl := Option.some.inj hname
      decide
    · obtain rfl := List.mem_singleton.mp hname
      decide
  rw [Declaration.expand_of_proper_names ⟨rfl, ⟨"S", rfl, by decide⟩, _, rfl⟩ rfl hnames hproper]
  rfl

namespace Command.Options

variable {o : Options}

/-- **The property is compared, and its marker cut out.** -/
theorem not_marksAlike (hequatable : o.registry.find? "Equatable" = some .equatable)
    (hpeer : o.registry.role? "SkipEquatable" = some .peer)
    (hmarker : o.rules.skipMarker ≠ "SkipEquatable")
    (hwrapper : "SkipEquatable" ∉ o.rules.wrappers) : ¬ o.MarksAlike := by
  have hresult := result_markedStruct hmarker hwrapper
  obtain ⟨hread, hdecls⟩ := reading_markedSource
  intro h
  have hcuts : SourceExpansion.CutsMarker o.registry o.rules markedSource markedStruct []
      markedProperty [] (.equatable "S" none (.fieldEqual "x")) := by
    have hown : markedStruct.outcomes o.registry o.rules = [markedStruct.expand o.rules] := by
      simp [Declaration.outcomes, Declaration.attributesOfRole, markedStruct, hequatable,
        Expander.role]
    have hadd := Declaration.readableAddition?_of_result hown hresult (by decide)
    refine ⟨by rw [hdecls]; exact List.mem_singleton_self _, rfl, rfl, ?_, ?_⟩
    · rw [SourceExpansion.expansion_ofSource hread, hdecls, FileExpansion.additions_readable,
        List.filterMap_cons_some hadd]
      exact ⟨_, List.mem_cons_self, rfl, List.mem_cons_self⟩
    · refine ⟨_, List.mem_cons_self, hpeer, ?_⟩
      obtain ⟨n, hseq⟩ := exists_sequence_ofSource markedSource
      rw [hdecls] at hseq
      rw [SourceExpansion.expansion_ofSource hread, hdecls,
        FileExpansion.consumed_readable o.registry o.rules hseq, List.flatMap_singleton]
      refine List.mem_append_right _ (List.mem_flatMap.mpr ⟨markedProperty, List.mem_cons_self, ?_⟩)
      refine List.mem_map_of_mem (List.mem_filter.mpr ⟨List.mem_cons_self, ?_⟩)
      rw [Registry.any_role_beq, hpeer]
      rfl
  have hnone : ({ markedStruct with members := some ([] ++ []) }.expand o.rules).result = none := by
    rw [Declaration.expand_of_no_names ⟨rfl, ⟨"S", rfl, by decide⟩, _, rfl⟩ rfl]
  have hsome := (h _ _ _ _ _ _ hcuts).2
  rw [hnone] at hsome
  cases hsome

/-- **Whatever loses a marker is not compared, exactly if the rules know the registry's marker**, as
their own or as a wrapper, or the registry has none any more, its name being one more for what
generates extensions. -/
theorem marksAlike_iff {arguments files : List String}
    (h : ofArguments arguments = .ok (o, files)) :
    o.MarksAlike ↔ (o.registry.role? "SkipEquatable" = some .peer →
      o.rules.skipMarker = "SkipEquatable" ∨ "SkipEquatable" ∈ o.rules.wrappers) := by
  have hnames := keepsNames_ofArguments h
  refine ⟨fun hmarks hpeer => ?_, marksAlike_of_names hnames⟩
  by_contra hno
  obtain ⟨hmarker, hwrapper⟩ := not_or.mp hno
  exact not_marksAlike hnames.equatable hpeer hmarker hwrapper hmarks

/-- Another marker is enough for one that is cut out and not heeded. -/
theorem marksAlike_iff_renamed :
    ofArguments ["--skip-marker=Ignore", "a.swift"]
        = .ok ({ standard with rules.skipMarker := "Ignore" }, ["a.swift"])
      ∧ ¬ MarksAlike { standard with rules.skipMarker := "Ignore" } := by
  have h : ofArguments ["--skip-marker=Ignore", "a.swift"]
      = .ok ({ standard with rules.skipMarker := "Ignore" }, ["a.swift"]) := by rfl
  refine ⟨h, fun hmarks => ?_⟩
  exact absurd ((marksAlike_iff h).mp hmarks (by decide)) (by decide)

end Command.Options

end Memberwise
