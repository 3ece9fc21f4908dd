import Memberwise.Declaration.Basic
import Memberwise.Equality.Expr
import Memberwise.Text.Name

/-!
# Equality/Extension — the declaration that makes a type comparable

An extension adds a conformance to a type and, in its block, the function that compares two values
of it.  Not every value of these types is such a declaration: a well-formed one extends and compares
a single type, conforms to `Equatable` alone, and its body compares one field of the left operand
with the same field of the right in each of its conjuncts.  `fault?` names the first thing that is
wrong.
-/

namespace Memberwise

open Text

/-- The function that compares two values of a type. -/
structure EqualityFunction where
  /-- The access level written before it, if one is. -/
  access : Option Access
  operandType : String
  body : Expr
  deriving DecidableEq, Repr

/-- An extension of a type by its equality function. -/
structure Extension where
  extendedType : String
  conformances : List String
  function : EqualityFunction
  deriving DecidableEq, Repr

/-- What is wrong with a declaration put together. -/
inductive AssemblyFault where
  /-- A member to compare has no plain name. -/
  | unnamedMember (pattern : Pattern)
  | invalidTypeName (name : String)
  | operandMismatch (operand extended : String)
  | wrongConformances (conformances : List String)
  /-- A field that is compared with nothing. -/
  | bareField
  | differentFields
  | invalidFieldName (name : String)
  /-- A comparison whose operands are not the two values in order. -/
  | wrongOperands (name : String)
  deriving Repr

/-- The wording of what is wrong. -/
def AssemblyFault.message : AssemblyFault → String
  | unnamedMember pattern => s!"member `{pattern.render}` has no simple name"
  | invalidTypeName name => s!"`{name}` is not a valid type name"
  | operandMismatch operand extended =>
    s!"operand type `{operand}` does not match extended type `{extended}`"
  | wrongConformances conformances =>
    "unexpected conformance list `" ++ String.intercalate ", " conformances ++ "`"
  | bareField => "equality body contains a bare field access"
  | differentFields => "equality body contains a comparison of different fields"
  | invalidFieldName name => s!"`{name}` is not a valid field name"
  | wrongOperands name => s!"comparison of `{name}` does not read `lhs` then `rhs`"

namespace Expr

/-- What keeps a conjunct from being the comparison of one field of both operands. -/
def comparisonFault? (e : Expr) : Option AssemblyFault :=
  match e with
  | .field .. => some .bareField
  | .binary .. =>
    match e.comparedField? with
    | none => some .differentFields
    | some name =>
      if !isIdentifier name then some (.invalidFieldName name)
      else if e = fieldEqual name then none
      else some (.wrongOperands name)

end Expr

namespace Extension

/-- The conformance that an extension adds. -/
def conformance : String := "Equatable"

/-- The extension of a type by an equality function of its own values. -/
def equatable (type : String) (access : Option Access) (body : Expr) : Extension :=
  ⟨type, [conformance], ⟨access, type, body⟩⟩

/-- The fields compared, in the order of evaluation. -/
def comparedFields (e : Extension) : List String := e.function.body.comparedFields

/-- The first thing that keeps an extension from being well formed.  A body without any conjunct would
be another, but there is none (`Expr.conjuncts_ne_nil`), so it is not asked for. -/
def fault? (e : Extension) : Option AssemblyFault :=
  if !isIdentifier e.extendedType then some (.invalidTypeName e.extendedType)
  else if e.function.operandType ≠ e.extendedType then
    some (.operandMismatch e.function.operandType e.extendedType)
  else if e.conformances ≠ [conformance] then some (.wrongConformances e.conformances)
  else e.function.body.conjuncts.findSome? Expr.comparisonFault?

end Extension

namespace Expr

/-! ## Well-formed comparisons -/

/-- A conjunct has no fault exactly when it compares one identifier field of both operands. -/
theorem comparisonFault?_eq_none {e : Expr} :
    e.comparisonFault? = none ↔ ∃ name, isIdentifier name = true ∧ e = fieldEqual name := by
  constructor
  · intro h
    unfold comparisonFault? at h
    split at h
    · cases h
    · split at h
      · cases h
      · rename_i name _
        split at h
        · cases h
        · rename_i hn
          split at h
          · rename_i he
            exact ⟨name, by simpa using hn, he⟩
          · cases h
  · rintro ⟨name, hn, rfl⟩
    simp [comparisonFault?, fieldEqual, comparedField?, hn]

end Expr

end Memberwise
