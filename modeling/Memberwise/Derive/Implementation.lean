import Memberwise.Derive.Lowering
import Memberwise.Expansion.OfDeclaration

/-!
# Derive/Implementation — the equality of an item

The equality of a struct compares the fields that its declaration compares, each under the name it
is written with.  Nothing here warns: whatever is wrong with the declaration, a warning too, is an
error, and then there is no implementation.  A struct without a field to compare has none either.
-/

namespace Memberwise.Derive

/-- The rules for the fields of an item: no wrappers, and names of their own for the skip marker and
the role. -/
def fieldRules : ExclusionRules := ⟨[], "skip_equatable", some viewRole, "body"⟩

/-- Why an item has no implementation, and where. -/
structure DeriveError where
  message : String
  place : Nat
  deriving DecidableEq, Repr

/-- What deriving comes to. -/
inductive Derived where
  /-- The text is not one item. -/
  | notItem
  /-- The roles of the struct are wrong. -/
  | badRoles (error : RoleError)
  /-- The declaration cannot be expanded. -/
  | rejected (declaration : Declaration) (errors : List DeriveError)
  /-- The implementation, empty if there is nothing to compare. -/
  | implemented (declaration : Declaration) (text : List Printed)
  deriving Repr

/-- The name a field is written with, by its name without the mark of a raw one. -/
def Item.writtenName (item : Item) (name : String) : String :=
  ((item.data.fields.filterMap (·.name)).find? fun written => unraw written == name).getD name

/-- The comparison of one field. -/
def compareField (written : String) : List Printed :=
  Printed.texts ["self", ".", written, "==", "other", ".", written]

/-- Comparisons joined by "and". -/
def joinComparisons : List (List Printed) → List Printed
  | [] => []
  | [row] => row
  | row :: rows => row ++ .text "&&" :: joinComparisons rows

/-- The implementation of an item's equality by the fields compared. -/
def Item.implementation (item : Item) (fields : List String) : List Printed :=
  let body := joinComparisons (fields.map fun f => compareField (item.writtenName f))
  [.text "#", .group .bracket [.text "automatically_derived"], .text "impl"]
    ++ item.generics.declared
    ++ Printed.texts ["::", "core", "::", "cmp", "::", "PartialEq", "for", item.name]
    ++ item.generics.arguments
    ++ item.generics.whereClause
    ++ [.group .brace [.text "fn", .text "eq",
      .group .parenthesis (Printed.texts ["&", "self", ",", "other", ":", "&", "Self"]),
      .text "->", .text "bool", .group .brace body]]

/-- What is reported about a problem, and where in the text. -/
def Lowered.error (l : Lowered) (p : Problem) : DeriveError :=
  let d := p.toDiagnostic
  ⟨s!"{d.code.render}: {d.message}", l.places.getD p.span.start 0⟩

/-- Derive the equality of an item. -/
def Item.derive (item : Item) : Derived :=
  match item.roles with
  | .error e => .badRoles e
  | .ok roles =>
    let l := item.lower roles
    let e := l.declaration.expand fieldRules
    match e.problems, e.result with
    | [], none => .implemented l.declaration []
    | [], some x => .implemented l.declaration (item.implementation x.comparedFields)
    | ps, _ => .rejected l.declaration (ps.map l.error)

/-- Derive the equality of the item that a text is. -/
def derive (source : String) : Derived :=
  match Item.ofText? source.toList with
  | none => .notItem
  | some item => item.derive

/-! ## Places -/

/-- The line of a character offset, counted from one, and its column, counted from zero. -/
def lineColumn (source : String) (offset : Nat) : Nat × Nat :=
  let before := source.toList.take offset
  (before.count '\n' + 1, (before.reverse.takeWhile (· != '\n')).length)

end Memberwise.Derive
