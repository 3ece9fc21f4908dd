import Memberwise.Record.ExclusionRules

/-!
# Record/Classification — which members are compared

Every member of a record is either compared or kept out for one reason.  The rules are asked in a
fixed order and the first that applies gives the reason: a static member; one with a wrapper
attribute, of which the first counts; one with the skip marker; one whose pattern is no plain name;
and the role member of a record that inherits from the view marker.

**Each member is judged alone**: the verdict depends on the member, the rules and whether the record
has the view role, so `classify_append` splits a record's members at any point.
-/

namespace Memberwise

/-- Why a member is kept out of comparison. -/
inductive ExclusionReason where
  | static
  /-- The first wrapper attribute it carries. -/
  | wrapper (name : String)
  | skipMarker
  | viewBody
  /-- The pattern is no plain name. -/
  | malformedBinding
  deriving DecidableEq, Repr

/-- The wording of a reason. -/
def ExclusionReason.describe : ExclusionReason → String
  | .static => "type-scoped member"
  | wrapper name => s!"`@{name}` wrapper"
  | skipMarker => "explicit skip marker"
  | viewBody => "view body"
  | malformedBinding => "binding has no simple name"

/-- A member kept out of comparison. -/
structure Exclusion where
  member : Member
  reason : ExclusionReason
  deriving Repr

/-- A record's members, sorted into those compared and those kept out. -/
structure Classification where
  /-- The members compared, in the order of the record. -/
  included : List Member
  excluded : List Exclusion
  deriving Repr

namespace ExclusionRules

/-- Whether a record has the role that the view marker stands for. -/
def hasViewRole (rules : ExclusionRules) (r : Record) : Bool :=
  rules.viewMarker.any r.inherits

/-- The reason a member is kept out of a record with or without the view role, if there is one. -/
def reason? (rules : ExclusionRules) (hasViewRole : Bool) (m : Member) : Option ExclusionReason :=
  if m.isStatic then some .static
  else match m.attributes.find? rules.isWrapper with
    | some name => some (.wrapper name)
    | none =>
      if m.hasAttribute rules.skipMarker then some .skipMarker
      else match m.name? with
        | none => some .malformedBinding
        | some name => if hasViewRole && name == rules.roleMember then some .viewBody else none

/-- Sort members into those compared and those kept out. -/
def classifyMembers (rules : ExclusionRules) (hasViewRole : Bool) (ms : List Member) :
    Classification :=
  ⟨ms.filter fun m => (rules.reason? hasViewRole m).isNone,
    ms.filterMap fun m => (rules.reason? hasViewRole m).map (⟨m, ·⟩)⟩

/-- Sort the members of a record into those compared and those kept out. -/
def classify (rules : ExclusionRules) (r : Record) : Classification :=
  rules.classifyMembers (rules.hasViewRole r) r.members

end ExclusionRules

namespace Classification

/-- Nothing to classify. -/
def empty : Classification := ⟨[], []⟩

/-- Two classifications, one after the other. -/
def append (a b : Classification) : Classification :=
  ⟨a.included ++ b.included, a.excluded ++ b.excluded⟩

/-- The names of the members compared. -/
def includedNames (c : Classification) : List String := c.included.filterMap Member.name?

/-- The reason the first member of a name was kept out, if one was. -/
def reasonFor? (c : Classification) (name : String) : Option ExclusionReason :=
  (c.excluded.find? fun e => e.member.name? == some name).map (·.reason)

/-- Whether nothing is compared. -/
def isEmpty (c : Classification) : Bool := c.included.isEmpty

/-- The members kept out because their pattern is no plain name. -/
def malformed (c : Classification) : List Member :=
  (c.excluded.filter (·.reason == .malformedBinding)).map (·.member)

end Classification

namespace ExclusionRules

/-! ## Each member is judged alone -/

/-- **Each member is judged alone.** -/
theorem classifyMembers_append (rules : ExclusionRules) (v : Bool) (ms ns : List Member) :
    rules.classifyMembers v (ms ++ ns)
      = (rules.classifyMembers v ms).append (rules.classifyMembers v ns) := by
  simp [classifyMembers, Classification.append]

theorem classify_append (rules : ExclusionRules) (r : Record) (ms ns : List Member) :
    rules.classify { r with members := ms ++ ns }
      = (rules.classify { r with members := ms }).append
          (rules.classify { r with members := ns }) :=
  classifyMembers_append rules (rules.hasViewRole r) ms ns

/-- A compared member has a name. -/
theorem name?_isSome_of_reason?_eq_none {rules : ExclusionRules} {v : Bool} {m : Member}
    (h : rules.reason? v m = none) : m.name?.isSome = true := by
  unfold reason? at h
  split at h
  · cases h
  · split at h
    · cases h
    · split at h
      · cases h
      · split at h
        · cases h
        · rename_i hn
          simp [hn]

end ExclusionRules

end Memberwise
