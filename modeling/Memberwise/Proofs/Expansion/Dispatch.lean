import Memberwise.Proofs.Expansion.Walk
import Memberwise.Proofs.Sorting

/-!
# Proofs/Expansion/Dispatch — what becomes of each attribute of a file

An attribute is looked up by its name; what becomes of it depends on what the name stands for and on
how deep the attribute stands.  `AttributeSite` is an attribute with its declaration and its depth,
and `allSites` lists those of a whole file, each declaration's before those inside it.

* `FileExpansion.ofDeclarations_dispatch` — **an attribute has its declaration expanded just if it
  stands at the top and its name generates extensions**, and those attributes are cut out together
  with the markers of any depth.
-/

namespace Memberwise

/-- An attribute in a tree of declarations. -/
structure AttributeSite where
  «attribute» : Attribute
  /-- The declaration it is attached to. -/
  owner : Declaration
  /-- The number of blocks around that declaration. -/
  depth : Nat
  deriving Repr

mutual

/-- The attributes of a declaration and of everything inside it, in the order of the source. -/
def Declaration.sites (depth : Nat) (d : Declaration) : List AttributeSite :=
  match d with
  | ⟨kind, name, attributes, modifiers, inherited, members, span⟩ =>
    (attributes.map fun a =>
        ⟨a, ⟨kind, name, attributes, modifiers, inherited, members, span⟩, depth⟩)
      ++ blockSites (depth + 1) members

/-- The attributes of everything in a block, if there is one. -/
def blockSites (depth : Nat) : Option (List Declaration) → List AttributeSite
  | none => []
  | some ds => allSites depth ds

/-- The attributes of declarations and of everything inside them. -/
def allSites (depth : Nat) : List Declaration → List AttributeSite
  | [] => []
  | d :: ds => d.sites depth ++ allSites depth ds

end

/-! ## The attributes of a tree -/

theorem Declaration.sites_eq (depth : Nat) (d : Declaration) : d.sites depth
    = (d.attributes.map fun a => ⟨a, d, depth⟩) ++ blockSites (depth + 1) d.members := by
  cases d
  rw [sites]

theorem allSites_eq_flatMap (depth : Nat) (ds : List Declaration) :
    allSites depth ds = ds.flatMap (·.sites depth) := by
  induction ds with
  | nil => rfl
  | cons d ds ih => rw [allSites, ih, List.flatMap_cons]

mutual

/-- Every attribute of a tree stands at least as deep as the tree. -/
theorem Declaration.le_depth_of_mem_sites {depth : Nat} {s : AttributeSite} :
    ∀ d : Declaration, s ∈ d.sites depth → depth ≤ s.depth
  | ⟨kind, name, attributes, modifiers, inherited, members, span⟩, h => by
    rw [Declaration.sites, List.mem_append] at h
    rcases h with h | h
    · obtain ⟨a, -, rfl⟩ := List.mem_map.mp h
      exact Nat.le_refl _
    · exact Nat.le_of_succ_le (le_depth_of_mem_blockSites members h)

theorem le_depth_of_mem_blockSites {depth : Nat} {s : AttributeSite} :
    ∀ ds : Option (List Declaration), s ∈ blockSites depth ds → depth ≤ s.depth
  | none, h => nomatch h
  | some ds, h => le_depth_of_mem_allSites ds h

theorem le_depth_of_mem_allSites {depth : Nat} {s : AttributeSite} :
    ∀ ds : List Declaration, s ∈ allSites depth ds → depth ≤ s.depth
  | [], h => nomatch h
  | d :: ds, h => by
    rw [allSites, List.mem_append] at h
    rcases h with h | h
    · exact d.le_depth_of_mem_sites h
    · exact le_depth_of_mem_allSites ds h

end

mutual

/-- Without their depths they are the attributes of the declarations in the tree. -/
theorem Declaration.map_attribute_sites (depth : Nat) : ∀ d : Declaration,
    (d.sites depth).map (·.attribute) = d.withDescendants.flatMap (·.attributes)
  | ⟨kind, name, attributes, modifiers, inherited, members, span⟩ => by
    rw [Declaration.sites, Declaration.withDescendants, List.flatMap_cons, List.map_append,
      List.map_map, map_attribute_blockSites (depth + 1) members]
    exact congrArg (· ++ _) (List.map_id _)

theorem map_attribute_blockSites (depth : Nat) : ∀ ds : Option (List Declaration),
    (blockSites depth ds).map (·.attribute) = (blockDescendants ds).flatMap (·.attributes)
  | none => rfl
  | some ds => map_attribute_allSites depth ds

theorem map_attribute_allSites (depth : Nat) : ∀ ds : List Declaration,
    (allSites depth ds).map (·.attribute) = (allWithDescendants ds).flatMap (·.attributes)
  | [] => rfl
  | d :: ds => by
    rw [allSites, allWithDescendants, List.map_append, List.flatMap_append,
      d.map_attribute_sites depth, map_attribute_allSites depth ds]

end

/-! ## What an attribute stands for -/

/-- The role of what a name stands for, if it stands for anything. -/
def Registry.role? (registry : Registry) (name : String) : Option ExpanderRole :=
  (registry.find? name).map (·.role)

namespace Registry

variable (registry : Registry) (name : String)

theorem any_role_beq (role : ExpanderRole) :
    (registry.find? name).any (·.role == role) = (registry.role? name == some role) := by
  rw [role?]
  cases registry.find? name <;> simp

/-- A name that stands for anything has one of the two roles. -/
theorem contains_eq : registry.contains name
    = (registry.role? name == some .peer || registry.role? name == some .extension) := by
  rw [contains, role?]
  cases registry.find? name with
  | none => rfl
  | some e => cases e <;> rfl

end Registry

namespace AttributeSite

/-- Whether the attribute has its declaration expanded. -/
def expands (registry : Registry) (s : AttributeSite) : Bool :=
  s.depth == 0 && registry.role? s.attribute.name == some .extension

/-- Whether the attribute is cut out. -/
def isConsumed (registry : Registry) (s : AttributeSite) : Bool :=
  registry.role? s.attribute.name == some .peer || s.expands registry

variable {registry : Registry} {s : AttributeSite}

theorem expands_of_pos (h : 0 < s.depth) : s.expands registry = false := by
  rw [expands, beq_eq_false_iff_ne.mpr (Nat.ne_of_gt h), Bool.false_and]

theorem isConsumed_of_pos (h : 0 < s.depth) :
    s.isConsumed registry = (registry.role? s.attribute.name == some .peer) := by
  rw [isConsumed, expands_of_pos h, Bool.or_false]

end AttributeSite

/-! ## One declaration at the top -/

namespace Declaration

variable (registry : Registry) (rules : ExclusionRules) (d : Declaration)

/-- **Nothing inside a declaration is expanded.** -/
theorem filter_expands_sites : (d.sites 0).filter (·.expands registry)
    = (d.attributesOfRole registry .extension).map fun a => ⟨a, d, 0⟩ := by
  have hinner : (blockSites 1 d.members).filter (·.expands registry) = [] :=
    List.filter_eq_nil_iff.mpr fun s hs =>
      Bool.eq_false_iff.mp (AttributeSite.expands_of_pos (le_depth_of_mem_blockSites _ hs))
  rw [sites_eq, List.filter_append, hinner, List.append_nil, List.filter_map, attributesOfRole]
  refine congrArg _ (List.filter_congr fun a _ => ?_)
  rw [registry.any_role_beq]
  rfl

/-- Every expansion that a declaration asks for is its own, once for each attribute. -/
theorem outcomes_eq : d.outcomes registry rules
    = ((d.sites 0).filter (·.expands registry)).map (·.owner.expand rules) := by
  rw [filter_expands_sites, List.map_map, outcomes]
  rfl

theorem extensions_outcomes : (d.outcomes registry rules).filterMap (·.result)
    = ((d.sites 0).filter (·.expands registry)).filterMap fun s =>
        (s.owner.expand rules).result := by
  rw [outcomes_eq, List.filterMap_map]
  rfl

theorem diagnostics_outcomes :
    ((d.outcomes registry rules).flatMap (·.problems)).map Problem.toDiagnostic
      = ((d.sites 0).filter (·.expands registry)).flatMap fun s =>
          (s.owner.expand rules).diagnostics := by
  rw [outcomes_eq, List.flatMap_map, List.map_flatMap]
  rfl

/-- What is cut out of a declaration: its own attributes that stand for anything, and the markers
inside. -/
theorem consumed_eq : d.consumed registry
    = ((d.sites 0).filter (·.isConsumed registry)).map (·.attribute.span) := by
  have hown : d.attributes.filter (fun a => registry.contains a.name)
      = d.attributes.filter ((·.isConsumed registry) ∘ fun a => (⟨a, d, 0⟩ : AttributeSite)) :=
    List.filter_congr fun a _ => registry.contains_eq a.name
  have hinner : ((blockSites 1 d.members).filter (·.isConsumed registry)).map (·.attribute)
      = d.descendants.flatMap (·.attributesOfRole registry .peer) := by
    have hpeer : ∀ s ∈ blockSites 1 d.members, s.isConsumed registry
        = ((fun a => (registry.find? a.name).any (·.role == .peer)) ∘ (·.attribute)) s :=
      fun s hs => (AttributeSite.isConsumed_of_pos (le_depth_of_mem_blockSites _ hs)).trans
        (registry.any_role_beq _ _).symm
    rw [List.filter_congr hpeer, ← List.filter_map, map_attribute_blockSites, List.filter_flatMap]
    rfl
  rw [consumed, sites_eq, List.filter_append, List.map_append, List.filter_map, List.map_map, hown,
    ← List.map_flatMap, ← hinner, List.map_map]
  rfl

/-- What is added after a declaration, in case its expansions come to anything. -/
theorem toList_addition? : (d.addition? registry rules).toList
    = [(⟨d.span, (d.outcomes registry rules).filterMap (·.result)⟩ : Addition)].filter
        (!·.extensions.isEmpty) := by
  unfold addition?
  split
  · rename_i h
    simp [h]
  · rename_i h
    rw [List.filter_cons_of_pos (by simpa using h)]
    rfl

end Declaration

/-! ## A whole file -/

/-- Whether a span starts no later than another. -/
def Span.startsBy (s t : Span) : Bool := decide (s.start ≤ t.start)

theorem Span.startsBy_trans (s t u : Span) (hst : s.startsBy t) (htu : t.startsBy u) :
    s.startsBy u :=
  decide_eq_true (Nat.le_trans (of_decide_eq_true hst) (of_decide_eq_true htu))

theorem Span.startsBy_total (s t : Span) : s.startsBy t || t.startsBy s := by
  simpa [startsBy] using Nat.le_total s.start t.start

/-- Sorting keeps the order of spans that start alike. -/
theorem filter_mergeSort_startsBy (spans : List Span) (n : Nat) :
    (spans.mergeSort Span.startsBy).filter (·.start == n) = spans.filter (·.start == n) := by
  refine filter_mergeSort Span.startsBy_trans Span.startsBy_total (fun s t hs ht => ?_) spans
  exact decide_eq_true (Nat.le_of_eq ((beq_iff_eq.mp hs).trans (beq_iff_eq.mp ht).symm))

namespace FileExpansion

/-- **An attribute has its declaration expanded just if it stands at the top and its name generates
extensions.**  Those are the declarations' own attributes, in order; the extensions and what is
reported are those of their expansions, in that order.  After each declaration there is at most one
addition, at its place and never empty.  What is cut out are the attributes that were expanded and
the markers of any depth, each once, in the order they start, and in the order of the tree where
they start alike. -/
theorem ofDeclarations_dispatch (registry : Registry) (rules : ExclusionRules)
    (ds : List Declaration) :
    let expanded := (allSites 0 ds).filter (·.expands registry)
    let spans := ((allSites 0 ds).filter (·.isConsumed registry)).map (·.attribute.span)
    let f := ofDeclarations registry rules ds
    expanded = (ds.flatMap fun d =>
        (d.attributes.filter fun a => registry.role? a.name == some .extension).map fun a =>
          ⟨a, d, 0⟩)
      ∧ f.extensions = expanded.filterMap (fun s => (s.owner.expand rules).result)
      ∧ (expansionProblems registry rules ds).map Problem.toDiagnostic
        = expanded.flatMap (fun s => (s.owner.expand rules).diagnostics)
      ∧ f.additions = (ds.map fun d => (⟨d.span, ((d.sites 0).filter (·.expands registry)).filterMap
          fun s => (s.owner.expand rules).result⟩ : Addition)).filter (!·.extensions.isEmpty)
      ∧ f.consumed.Perm spans
      ∧ f.consumed.Pairwise (fun s t => s.start ≤ t.start)
      ∧ ∀ n, f.consumed.filter (·.start == n) = spans.filter (·.start == n) := by
  have hspans : ((allSites 0 ds).filter (·.isConsumed registry)).map (·.attribute.span)
      = ds.flatMap (·.consumed registry) := by
    rw [allSites_eq_flatMap, List.filter_flatMap, List.map_flatMap]
    exact List.flatMap_congr fun d _ => (d.consumed_eq registry).symm
  dsimp only
  rw [hspans, allSites_eq_flatMap, List.filter_flatMap, List.filterMap_flatMap, List.flatMap_assoc]
  refine ⟨?_, ?_, ?_, ?_, consumed_perm ds, ?_, ?_⟩
  · refine List.flatMap_congr fun d _ => ?_
    rw [d.filter_expands_sites, Declaration.attributesOfRole]
    simp only [registry.any_role_beq]
  · rw [additions_eq]
    exact List.flatMap_congr fun d _ => d.extensions_outcomes registry rules
  · rw [expansionProblems_eq, List.map_flatMap]
    exact List.flatMap_congr fun d _ => d.diagnostics_outcomes registry rules
  · rw [← List.flatMap_singleton' ds, List.map_flatMap, List.filter_flatMap, ofDeclarations_eq,
      List.flatMap_singleton', List.filterMap_eq_flatMap_toList]
    refine List.flatMap_congr fun d _ => ?_
    rw [d.toList_addition?, d.extensions_outcomes, List.map_singleton]
  · rw [ofDeclarations_eq]
    exact (List.pairwise_mergeSort Span.startsBy_trans Span.startsBy_total _).imp
      of_decide_eq_true
  · rw [ofDeclarations_eq]
    exact filter_mergeSort_startsBy _

end FileExpansion

end Memberwise
