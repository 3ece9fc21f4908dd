import Memberwise.Declaration.Descendants
import Memberwise.Expansion.OfFile
import Mathlib.Data.List.Basic

/-!
# Proofs/Expansion/Walk — what a walk gathers, declaration by declaration

A walk keeps what it has gathered and adds to it: first by one attribute (`dispatch_eq`), and so by
the attributes of a declaration (`foldl_dispatch`).  A declaration inside another adds its markers,
and those further in, to what is consumed, and nothing else (`gather_false`).  One at the top adds
what its own attributes make of it, and consumes those that stand for anything along with the markers
inside (`gather_true`).

* `FileExpansion.ofDeclarations_eq`, `expansionProblems_eq` — **so a file expands to what its
  declarations expand to one by one**.
-/

namespace Memberwise

/-! ## What a declaration comes to -/

namespace Declaration

/-- The attributes of a declaration that stand for an expander of a role. -/
def attributesOfRole (registry : Registry) (role : ExpanderRole) (d : Declaration) :
    List Attribute :=
  d.attributes.filter fun a => (registry.find? a.name).any (·.role == role)

/-- What a declaration at the top expands to, once for each attribute that generates extensions. -/
def outcomes (registry : Registry) (rules : ExclusionRules) (d : Declaration) : List Expanded :=
  (d.attributesOfRole registry .extension).map fun _ => d.expand rules

/-- What is added after a declaration at the top, if anything is. -/
def addition? (registry : Registry) (rules : ExclusionRules) (d : Declaration) :
    Option Addition :=
  match (d.outcomes registry rules).filterMap (·.result) with
  | [] => none
  | extensions => some ⟨d.span, extensions⟩

/-- The attributes consumed from a declaration at the top and from everything inside it. -/
def consumed (registry : Registry) (d : Declaration) : List Span :=
  (d.attributes.filter fun a => registry.contains a.name).map (·.span)
    ++ d.descendants.flatMap fun e => (e.attributesOfRole registry .peer).map (·.span)

end Declaration

/-- Those of some attributes whose expander is called: at the top all that stand for one. -/
def Registry.called (registry : Registry) (topLevel : Bool) (as : List Attribute) :
    List Attribute :=
  as.filter fun a => (registry.find? a.name).any fun e => topLevel || e.role == .peer

section Walk

variable (registry : Registry) (rules : ExclusionRules)

namespace Declaration

variable (d : Declaration) (generated : List Extension) (out : Gathered)

/-! ## The attributes of a declaration -/

/-- What a declaration expands to for each of some attributes that has it expanded: none but at the
top. -/
def made (topLevel : Bool) (as : List Attribute) : List Expanded :=
  (as.filter fun a => topLevel && (registry.find? a.name).any (·.role == .extension)).map
    fun _ => d.expand rules

/-- **One attribute**: what it makes of its declaration goes behind what those before it have made, and
its place behind theirs if it is called. -/
theorem dispatch_eq (topLevel : Bool) (a : Attribute) :
    d.dispatch registry rules topLevel (generated, out) a
      = (generated ++ (d.made registry rules topLevel [a]).filterMap (·.result),
          ⟨out.additions, out.consumed ++ (registry.called topLevel [a]).map (·.span),
            out.problems ++ (d.made registry rules topLevel [a]).flatMap (·.problems)⟩) := by
  unfold dispatch made Registry.called
  cases h : registry.find? a.name with
  | none => simp [h]
  | some e =>
    cases e with
    | skipEquatable => simp [h, Expander.role, Expander.expand]
    | equatable =>
      cases topLevel with
      | false => simp [h, Expander.role]
      | true => cases hr : (d.expand rules).result <;> simp [h, hr, Expander.role, Expander.expand]

/-- **The attributes of a declaration**, one after the other. -/
theorem foldl_dispatch (topLevel : Bool) (as : List Attribute) :
    as.foldl (d.dispatch registry rules topLevel) (generated, out)
      = (generated ++ (d.made registry rules topLevel as).filterMap (·.result),
          ⟨out.additions, out.consumed ++ (registry.called topLevel as).map (·.span),
            out.problems ++ (d.made registry rules topLevel as).flatMap (·.problems)⟩) := by
  induction as generalizing generated out with
  | nil => simp [made, Registry.called]
  | cons a as ih =>
    rw [List.foldl_cons, dispatch_eq, ih, ← List.singleton_append (x := a) (l := as)]
    simp only [made, Registry.called, List.filter_append, List.map_append, List.filterMap_append,
      List.flatMap_append, List.append_assoc]

/-- What a declaration inside another adds: the markers among its attributes. -/
theorem gatherOwn_false : gatherOwn registry rules false out d
    = ⟨out.additions, out.consumed ++ (d.attributesOfRole registry .peer).map (·.span),
        out.problems⟩ := by
  have hmade : d.made registry rules false d.attributes = [] := by simp [made]
  have hcalled : registry.called false d.attributes = d.attributesOfRole registry .peer := by
    simp [Registry.called, attributesOfRole]
  rw [gatherOwn, foldl_dispatch, hmade, hcalled]
  simp

/-- What a declaration at the top adds by its own attributes. -/
theorem gatherOwn_true : gatherOwn registry rules true out d
    = ⟨out.additions ++ (d.addition? registry rules).toList,
        out.consumed ++ (d.attributes.filter fun a => registry.contains a.name).map (·.span),
        out.problems ++ (d.outcomes registry rules).flatMap (·.problems)⟩ := by
  have hmade : d.made registry rules true d.attributes = d.outcomes registry rules := by
    simp [made, outcomes, attributesOfRole]
  have hcalled : registry.called true d.attributes
      = d.attributes.filter fun a => registry.contains a.name := by
    simp [Registry.called, Registry.contains]
  rw [gatherOwn, foldl_dispatch, hmade, hcalled, List.nil_append, addition?]
  cases (d.outcomes registry rules).filterMap (·.result) with
  | nil => simp
  | cons e es => rfl

end Declaration

/-! ## Everything inside a declaration -/

mutual

/-- **A declaration inside another, with everything inside it, adds its markers to what is
consumed.** -/
theorem Declaration.gather_false (out : Gathered) : ∀ d : Declaration,
    d.gather registry rules false out = ⟨out.additions,
      out.consumed ++ d.withDescendants.flatMap fun e =>
        (e.attributesOfRole registry .peer).map (·.span),
      out.problems⟩
  | ⟨kind, name, attributes, modifiers, inherited, members, span⟩ => by
    rw [Declaration.gather, gatherOwn_false, gatherBlock_eq, withDescendants, List.flatMap_cons,
      List.append_assoc]

theorem Declaration.gatherBlock_eq (out : Gathered) : ∀ ds : Option (List Declaration),
    gatherBlock registry rules out ds = ⟨out.additions,
      out.consumed ++ (blockDescendants ds).flatMap fun e =>
        (e.attributesOfRole registry .peer).map (·.span),
      out.problems⟩
  | none => by rw [gatherBlock, blockDescendants, List.flatMap_nil, List.append_nil]
  | some ds => by rw [gatherBlock, gatherAll_false, blockDescendants]

theorem Declaration.gatherAll_false (out : Gathered) : ∀ ds : List Declaration,
    gatherAll registry rules false out ds = ⟨out.additions,
      out.consumed ++ (allWithDescendants ds).flatMap fun e =>
        (e.attributesOfRole registry .peer).map (·.span),
      out.problems⟩
  | [] => by rw [gatherAll, allWithDescendants, List.flatMap_nil, List.append_nil]
  | d :: ds => by
    rw [gatherAll, d.gather_false, gatherAll_false, allWithDescendants, List.flatMap_append,
      List.append_assoc]

end

/-! ## The declarations of a file -/

/-- **A declaration at the top, with everything inside it, adds what it comes to.** -/
theorem Declaration.gather_true (out : Gathered) (d : Declaration) :
    d.gather registry rules true out
      = ⟨out.additions ++ (d.addition? registry rules).toList,
          out.consumed ++ d.consumed registry,
          out.problems ++ (d.outcomes registry rules).flatMap (·.problems)⟩ := by
  have hgather : d.gather registry rules true out
      = gatherBlock registry rules (gatherOwn registry rules true out d) d.members := by
    cases d
    rw [gather]
  rw [hgather, gatherOwn_true, gatherBlock_eq, consumed, ← List.append_assoc]
  rfl

theorem Declaration.gatherAll_true (out : Gathered) (ds : List Declaration) :
    gatherAll registry rules true out ds
      = ⟨out.additions ++ ds.filterMap (·.addition? registry rules),
          out.consumed ++ ds.flatMap (·.consumed registry),
          out.problems ++ ds.flatMap fun d => (d.outcomes registry rules).flatMap (·.problems)⟩ := by
  induction ds generalizing out with
  | nil => simp [gatherAll]
  | cons d ds ih =>
    rw [gatherAll, gather_true, ih]
    simp only [List.filterMap_eq_flatMap_toList, List.flatMap_cons, List.append_assoc]

variable (ds : List Declaration)

/-- What is gathered from a file is what its declarations come to one by one. -/
theorem gatherFile_eq : gatherFile registry rules ds
    = ⟨ds.filterMap (·.addition? registry rules), ds.flatMap (·.consumed registry),
        ds.flatMap fun d => (d.outcomes registry rules).flatMap (·.problems)⟩ :=
  Declaration.gatherAll_true registry rules ⟨[], [], []⟩ ds

/-- **A file expands to what its declarations expand to one by one.** -/
theorem FileExpansion.ofDeclarations_eq : ofDeclarations registry rules ds
    = ⟨ds.filterMap (·.addition? registry rules),
        (ds.flatMap (·.consumed registry)).mergeSort fun s t => decide (s.start ≤ t.start)⟩ := by
  rw [ofDeclarations, gatherFile_eq]

/-- What goes wrong in a file is what goes wrong with its declarations, one after the other. -/
theorem expansionProblems_eq : expansionProblems registry rules ds
    = ds.flatMap fun d => (d.outcomes registry rules).flatMap (·.problems) := by
  rw [expansionProblems, gatherFile_eq]

namespace FileExpansion

/-! ## What is added -/

variable {registry rules}

theorem extensions_addition? (d : Declaration) :
    (d.addition? registry rules).toList.flatMap (·.extensions)
      = (d.outcomes registry rules).filterMap (·.result) := by
  unfold Declaration.addition?
  split <;> simp_all

/-- **Nothing but a declaration at the top adds extensions**, and each adds what its attributes
make of it. -/
theorem additions_eq : (ofDeclarations registry rules ds).extensions
    = ds.flatMap fun d => (d.outcomes registry rules).filterMap (·.result) := by
  rw [extensions, ofDeclarations_eq, List.filterMap_eq_flatMap_toList, List.flatMap_assoc]
  exact List.flatMap_congr fun d _ => extensions_addition? d

/-- The attributes consumed are those of the declarations, in the order they start. -/
theorem consumed_perm :
    (ofDeclarations registry rules ds).consumed.Perm (ds.flatMap (·.consumed registry)) := by
  rw [ofDeclarations_eq]
  exact List.mergeSort_perm _ _

end FileExpansion

end Walk

end Memberwise
