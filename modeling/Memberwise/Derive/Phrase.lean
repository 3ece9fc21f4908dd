import Memberwise.Derive.TokenTree

/-!
# Derive/Phrase — what is kept of types, paths, parameters and attributes

Of a phrase its printed text is kept, with the little that later choices depend on.  Lifetimes come
before other arguments in print, wherever they are written.
-/

namespace Memberwise.Derive

/-! ## Types and paths -/

/-- What a type turned out to be, as far as it matters for what may follow. -/
inductive TypeShape where
  /-- A path; a lone one is a single segment that may be the name of an argument. -/
  | path (lone : Bool)
  /-- A single bound that stands for a type. -/
  | bound
  | parenthesized
  | other
  deriving DecidableEq, Repr

/-- A type as it is printed. -/
structure TypeText where
  text : List Printed
  shape : TypeShape
  deriving Repr

/-- A path as it is printed. -/
structure PathText where
  text : List Printed
  /-- Whether it is a single segment, not after colons. -/
  lone : Bool
  /-- Whether no segment has arguments. -/
  plain : Bool
  /-- Whether its last segment has no arguments. -/
  bareEnd : Bool
  deriving Repr

/-! ## Parameters -/

/-- What a generic parameter stands for. -/
inductive ParameterKind where
  | lifetime
  | type
  | const
  deriving DecidableEq, Repr

/-- A generic parameter. -/
structure Parameter where
  kind : ParameterKind
  attributes : List Printed
  name : String
  /-- The bounds after the name, or the type of a constant, with the colon before them. -/
  bounds : List Printed
  /-- The default, with the equals sign before it. -/
  default : List Printed
  deriving Repr

namespace Parameter

/-- The name, after `const` for a constant. -/
def head (p : Parameter) : List Printed :=
  if p.kind = .const then [.text "const", .text p.name] else [.text p.name]

/-- The parameter without its default. -/
def declared (p : Parameter) : List Printed := p.attributes ++ p.head ++ p.bounds

/-- The whole parameter. -/
def full (p : Parameter) : List Printed := p.declared ++ p.default

end Parameter

/-! ## Attributes -/

/-- What follows the path of an attribute. -/
inductive AttributeArguments where
  | none
  /-- A group, and where it is closed. -/
  | list (content : List TokenTree) (close : Nat)
  /-- A value after an equals sign, and where that stands. -/
  | value (equals : Nat)
  deriving Repr, Inhabited

/-- An attribute of an item, a field or a parameter. -/
structure ItemAttribute where
  start : Nat
  /-- Whether the path begins with colons. -/
  rooted : Bool
  /-- The words of the path, and where each stands. -/
  path : List (String × Nat)
  arguments : AttributeArguments
  text : List Printed
  deriving Repr, Inhabited

/-- Whether an attribute has this one word for its path. -/
def ItemAttribute.isNamed (a : ItemAttribute) (word : String) : Bool :=
  !a.rooted && a.path.map (·.1) == [word]

/-! ## Lists in print -/

/-- A list as it is printed: its items, each with the comma that follows it. -/
def printItems (items : List (List Printed × Bool)) : List Printed :=
  items.flatMap fun (text, comma) => if comma then text ++ [.text ","] else text

/-- Items as they are printed after something that a comma may be missing after: each with the comma
that follows it, and with one before it where none stands yet. -/
def printSeparated : (separated : Bool) → List (List Printed × Bool) → List Printed
  | _, [] => []
  | separated, (text, comma) :: items =>
    (if separated then [] else [.text ","]) ++ text ++ (if comma then [.text ","] else [])
      ++ printSeparated comma items

/-- Items as they are printed, those that come first wherever they are written before the others. -/
def printReordered (comesFirst : α → Bool) (print : α → List Printed) (items : List (α × Bool)) :
    List Printed :=
  let ordered := items.filter (comesFirst ·.1) ++ items.filter (!comesFirst ·.1)
  printSeparated true (ordered.map fun (a, comma) => (print a, comma))

end Memberwise.Derive
