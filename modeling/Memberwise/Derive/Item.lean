import Memberwise.Derive.Grammar
import Memberwise.Derive.TokenReader

/-!
# Derive/Item — the items that can ask for an equality

An item is a struct, an enum or a union with attributes, a visibility, a name, generic parameters
and perhaps a where clause.  Only the fields of a struct are kept; what stands in an enum or a union
only has to be read.  A text that is not exactly one item is no item.
-/

namespace Memberwise.Derive

/-- A field of a struct; a field of a tuple has no name. -/
structure Field where
  name : Option String
  attributes : List ItemAttribute
  type : List Printed
  /-- Where the field starts, its attributes included. -/
  start : Nat
  deriving Repr, Inhabited

/-- Who can see an item. -/
inductive ItemVisibility where
  | inherited
  | «public»
  /-- Visible within a path, as it is printed. -/
  | restricted (path : List Printed)
  deriving Repr, Inhabited

/-- What an item is. -/
inductive ItemData where
  | struct (fields : List Field)
  | «enum»
  | union
  deriving Repr, Inhabited

/-- The generic parameters of an item. -/
structure Generics where
  /-- Each parameter, and whether a comma follows it. -/
  parameters : List (Parameter × Bool)
  /-- The where clause, empty if it says nothing. -/
  whereClause : List Printed
  deriving Repr, Inhabited

/-- An item. -/
structure Item where
  attributes : List ItemAttribute
  visibility : ItemVisibility
  /-- Where the visibility stands, or what comes next if there is none. -/
  visibilityStart : Nat
  name : String
  /-- Where the name stands. -/
  nameStart : Nat
  generics : Generics
  data : ItemData
  deriving Repr, Inhabited

open Reader

/-- The visibility that comes next.  A group after `pub` belongs to it only if it names a place. -/
def readVisibility : Reader ItemVisibility := do
  if !(← look (startsKeyword "pub")) then return .inherited
  let _ ← anyWord
  match ← get with
  | .group .parenthesis content _ _ :: ts =>
    match content with
    | [.word w n] =>
      if startsAnyKeyword ["crate", "self", "super"] [.word w n] then
        set ts
        return .restricted [.text w]
      else return .public
    | .word "in" _ :: path =>
      let (_, _, text) ← within path readPlainPath
      set ts
      return .restricted text
    | _ => return .public
  | _ => return .public

/-- A field with a name. -/
def readNamedField : Reader Field := do
  let start ← place
  let attributes ← withBudget readAttributes
  let _ ← readVisibility
  let name ← if ← look (startsKeyword "_") then anyWord else name
  let _ ← operator ":"
  let type ← withBudget (readType · true)
  return ⟨some name, attributes, type.text, start⟩

/-- A field of a tuple. -/
def readTupleField : Reader Field := do
  let start ← place
  let attributes ← withBudget readAttributes
  let _ ← readVisibility
  let type ← withBudget (readType · true)
  return ⟨none, attributes, type.text, start⟩

/-- Fields in braces. -/
def readNamedFields : Reader (List Field) := do
  return (← grouped .brace (commaListToEnd readNamedField)).map (·.1)

/-- Fields in parentheses. -/
def readTupleFields : Reader (List Field) := do
  return (← grouped .parenthesis (commaListToEnd readTupleField)).map (·.1)

/-- A variant of an enum: its fields, if it has any, and its number, if one is given. -/
def readVariant : Reader Unit := do
  let _ ← withBudget readAttributes
  let _ ← readVisibility
  let _ ← name
  if ← look (startsGroup .brace) then
    let _ ← readNamedFields
  else if ← look (startsGroup .parenthesis) then
    let _ ← readTupleFields
  if ← eatOperator "=" then
    let _ ← withBudget readExpr

/-- The parameters in angles, if there are any. -/
def readParameters : Reader (List (Parameter × Bool)) := do
  if ← eatOperator "<" then
    let ps ← commaList (startsOperator ">") (withBudget readParameter)
    let _ ← operator ">"
    return ps
  return []

/-- Whether parameters in angles begin here, where a path with a self type could. -/
def startsParameters (ts : List TokenTree) : Bool :=
  let after := ts.drop 1
  startsOperator "<" ts
    && (startsAnyOperator [">", "#"] after || startsKeyword "const" after
      || ((startsLifetime after || startsName after)
        && (startsAnyOperator [">", ",", "="] (after.drop 1)
          || (startsOperator ":" (after.drop 1) && !startsOperator "::" (after.drop 1)))))

/-- A predicate of a where clause. -/
def readPredicate : Reader (List Printed) := do
  if ← look fun ts => startsLifetime ts && startsOperator ":" (ts.drop 1) then
    let region ← lifetime
    let _ ← operator ":"
    let bounds ← plusList predicateEnd (do return [Printed.text (← lifetime)])
    return .text region :: .text ":" :: bounds
  let binder ← withBudget readBinder
  let type ← withBudget (readType · true)
  let _ ← operator ":"
  let bounds ← plusList predicateEnd (withBudget readBound)
  return binder ++ type.text ++ .text ":" :: bounds

/-- The predicates of a where clause, at most `n`, with commas between them. -/
def readPredicates : Nat → Reader (List Printed)
  | 0 => failure
  | n + 1 => do
    if ← look predicateEnd then return []
    let p ← readPredicate
    if ← eatOperator "," then return p ++ .text "," :: (← readPredicates n)
    return p

/-- The where clause, if there is one; it prints nothing if it has no predicates. -/
def readWhere : Reader (List Printed) := do
  if !(← look (startsKeyword "where")) then return []
  let word ← keyword "where"
  if ← look startsParameters then failure
  let ps ← readPredicates ((← get).length + 1)
  return if ps.isEmpty then [] else word ++ ps

/-- The where clause and the fields of a struct. -/
def readStruct : Reader (List Printed × List Field) := do
  if ← look (startsGroup .parenthesis) then
    let fields ← readTupleFields
    let clause ← readWhere
    let _ ← operator ";"
    return (clause, fields)
  let clause ← readWhere
  if ← eatOperator ";" then return (clause, [])
  return (clause, ← readNamedFields)

/-- An item. -/
def readItem : Reader Item := do
  let attributes ← withBudget readAttributes
  let visibilityStart ← place
  let visibility ← readVisibility
  require (startsAnyKeyword ["struct", "enum", "union"])
  let kind ← anyWord
  let nameStart ← place
  let name ← name
  let parameters ← readParameters
  let item := Item.mk attributes visibility visibilityStart name nameStart
  match kind with
  | "struct" =>
    let (clause, fields) ← readStruct
    return item ⟨parameters, clause⟩ (.struct fields)
  | "enum" =>
    let clause ← readWhere
    let _ ← grouped .brace (commaListToEnd readVariant)
    return item ⟨parameters, clause⟩ .enum
  | _ =>
    let clause ← readWhere
    let _ ← readNamedFields
    return item ⟨parameters, clause⟩ .union

/-- The item a text is. -/
def Item.ofText? (s : List Char) : Option Item := do
  let ts ← readTrees? s
  match readItem.run ts with
  | some (item, []) => some item
  | _ => none

/-! ## Parameters in an implementation -/

namespace Generics

/-- Parameters in angles, lifetimes first, as they are printed one by one. -/
def print (g : Generics) (one : Parameter → List Printed) : List Printed :=
  if g.parameters.isEmpty then []
  else .text "<" :: printReordered (·.kind == .lifetime) one g.parameters ++ [.text ">"]

/-- The parameters as an implementation declares them, without defaults. -/
def declared (g : Generics) : List Printed := g.print Parameter.declared

/-- The parameters as the arguments of the item's type. -/
def arguments (g : Generics) : List Printed := g.print fun p => [.text p.name]

end Generics

/-! ## Names -/

/-- A name without the mark of a raw one. -/
def unraw (name : String) : String :=
  match name.toList with
  | 'r' :: '#' :: s => String.ofList s
  | _ => name

end Memberwise.Derive
