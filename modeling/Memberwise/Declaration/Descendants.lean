import Memberwise.Declaration.Basic

/-!
# Declaration/Descendants — the declarations inside a declaration

The descendants of a declaration are the members of its block and their descendants, each before its
own, in the order of the source.
-/

namespace Memberwise

mutual

/-- A declaration and everything declared inside it. -/
def Declaration.withDescendants (d : Declaration) : List Declaration :=
  match d with
  | ⟨kind, name, attributes, modifiers, inherited, members, span⟩ =>
    ⟨kind, name, attributes, modifiers, inherited, members, span⟩ :: blockDescendants members

/-- Everything declared in a block, if there is one. -/
def blockDescendants : Option (List Declaration) → List Declaration
  | none => []
  | some ds => allWithDescendants ds

/-- Declarations and everything declared inside them. -/
def allWithDescendants : List Declaration → List Declaration
  | [] => []
  | d :: ds => d.withDescendants ++ allWithDescendants ds

end

/-- Everything declared inside a declaration. -/
def Declaration.descendants (d : Declaration) : List Declaration := blockDescendants d.members

theorem Declaration.withDescendants_eq (d : Declaration) :
    d.withDescendants = d :: d.descendants := by
  cases d
  rw [withDescendants]
  rfl

theorem allWithDescendants_eq_flatMap (ds : List Declaration) :
    allWithDescendants ds = ds.flatMap fun d => d :: d.descendants := by
  induction ds with
  | nil => rfl
  | cons d ds ih => rw [allWithDescendants, ih, d.withDescendants_eq]; rfl

/-- The descendants of a declaration are its members, each with its own descendants. -/
theorem Declaration.descendants_eq (d : Declaration) :
    d.descendants = (d.members.getD []).flatMap fun m => m :: m.descendants := by
  rw [descendants]
  cases d.members with
  | none => rfl
  | some ms => exact allWithDescendants_eq_flatMap ms

end Memberwise
