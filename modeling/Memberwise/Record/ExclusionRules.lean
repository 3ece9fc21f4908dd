import Memberwise.Record.Basic

/-!
# Record/ExclusionRules — the names that keep a member out of comparison

A member stays out of comparison when it carries one of the wrapper attributes, whose values are
managed from outside, or the marker that asks for it, or when it is the role member of a record that
inherits from the view marker.  All names are matched exactly: a dotted name is not its last part.

**Adding a wrapper adds just that one** (`isWrapper_addWrapper`).
-/

namespace Memberwise

/-- The names that keep a member out of comparison. -/
structure ExclusionRules where
  /-- The wrapper attributes, each once. -/
  wrappers : List String
  skipMarker : String
  /-- The inherited type that singles out the role member, if any does. -/
  viewMarker : Option String
  roleMember : String
  deriving DecidableEq, Repr, Inhabited

namespace ExclusionRules

/-- The wrapper attributes known from the start. -/
def standardWrappers : List String :=
  ["State", "Environment", "ObservedObject", "EnvironmentObject", "Binding", "FocusState"]

/-- The rules known from the start. -/
def standard : ExclusionRules := ⟨standardWrappers, "SkipEquatable", some "View", "body"⟩

/-- Whether an attribute is a wrapper. -/
def isWrapper (rules : ExclusionRules) (name : String) : Bool := rules.wrappers.contains name

/-- The rules with a further wrapper. -/
def addWrapper (rules : ExclusionRules) (name : String) : ExclusionRules :=
  if rules.isWrapper name then rules else { rules with wrappers := rules.wrappers ++ [name] }

/-- The rules without any wrapper. -/
def clearWrappers (rules : ExclusionRules) : ExclusionRules := { rules with wrappers := [] }

/-- The wrappers in alphabetical order. -/
def sortedWrappers (rules : ExclusionRules) : List String :=
  rules.wrappers.mergeSort fun a b => decide (a ≤ b)

/-! ## Adding a wrapper -/

/-- **Adding a wrapper adds just that one.** -/
@[simp] theorem isWrapper_addWrapper (rules : ExclusionRules) (a b : String) :
    (rules.addWrapper a).isWrapper b = (rules.isWrapper b || b == a) := by
  unfold addWrapper
  split
  · rename_i h
    by_cases hb : b = a
    · subst hb; simp [h]
    · simp [hb]
  · rw [Bool.eq_iff_iff]; simp [isWrapper]

@[simp] theorem isWrapper_clearWrappers (rules : ExclusionRules) (a : String) :
    rules.clearWrappers.isWrapper a = false := by
  simp [isWrapper, clearWrappers]

end ExclusionRules

end Memberwise
