import Memberwise.Span

/-!
# Declaration/Basic — what a source file declares

The model is the same for every host language: a declaration has a kind, a name where it has one,
attributes, modifiers, the list of types it inherits from, and, if it has a block, the declarations
inside it.  Only properties carry more, the patterns they bind.  Types and attribute arguments are
kept as text.

Access is a modifier among others, and may be written more than once; `Declaration.access?` is the
widest level written.  **The widest level is one of those written, and none is wider**
(`widest?_mem`, `widest?_le`).
-/

namespace Memberwise

/-- An explicit access level, the widest first. -/
inductive Access where
  | «public»
  | package
  | internal
  | filePrivate
  | «private»
  deriving DecidableEq, Repr, Inhabited

namespace Access

/-- Every level, the widest first. -/
def all : List Access := [.public, .package, .internal, .filePrivate, .private]

/-- The keyword of a level. -/
def keyword : Access → String
  | .public => "public"
  | .package => "package"
  | .internal => "internal"
  | .filePrivate => "fileprivate"
  | .private => "private"

/-- The name a declaration listing gives a level. -/
def listingName : Access → String
  | .public => "Public"
  | .package => "Package"
  | .internal => "Internal"
  | .filePrivate => "FilePrivate"
  | .private => "Private"

/-- The level a keyword stands for. -/
def ofKeyword? (word : String) : Option Access := all.find? (·.keyword == word)

/-- How narrow a level is. -/
def rank : Access → Nat
  | .public => 0
  | .package => 1
  | .internal => 2
  | .filePrivate => 3
  | .private => 4

/-- The wider one of two levels. -/
def wider (a b : Access) : Access := if a.rank ≤ b.rank then a else b

/-- The widest level of a list. -/
def widest? : List Access → Option Access
  | [] => none
  | a :: as => some (as.foldl wider a)

end Access

/-- An attribute: `@Name` or `@Name(arguments)`. -/
structure Attribute where
  /-- The name as written, its dots included. -/
  name : String
  /-- The text between the parentheses, if there are any. -/
  arguments : Option String
  span : Span
  deriving DecidableEq, Repr, Inhabited

/-- What a modifier says. -/
inductive ModifierKind where
  | access (level : Access)
  /-- Access of the setter alone, which leaves the declaration's own access as it is. -/
  | setterAccess (level : Access)
  | static
  /-- The word `class` before a member. -/
  | «class»
  | other (word : String)
  deriving DecidableEq, Repr, Inhabited

/-- A modifier and where it stands. -/
structure Modifier where
  kind : ModifierKind
  span : Span
  deriving DecidableEq, Repr, Inhabited

namespace Modifier

/-- Whether the modifier places a member at the type instead of its values. -/
def isTypeScope (m : Modifier) : Bool :=
  match m.kind with
  | .static | .class => true
  | _ => false

/-- The access level the modifier gives the declaration itself. -/
def access? (m : Modifier) : Option Access :=
  match m.kind with
  | .access level => some level
  | _ => none

end Modifier

/-- Whether a property is constant. -/
inductive Introducer where
  | «let»
  | «var»
  deriving DecidableEq, Repr, Inhabited

/-- The keyword of an introducer. -/
def Introducer.keyword : Introducer → String
  | .let => "let"
  | .var => "var"

/-- What stands to the left in a binding. -/
inductive Pattern where
  | name (name : String)
  | wildcard
  | tuple (elements : List Pattern)
  /-- An unnamed field, by its place. -/
  | position (index : Nat)
  deriving Repr, Inhabited

namespace Pattern

/-- The name bound, if the pattern is a plain one. -/
def name? : Pattern → Option String
  | name n => some n
  | _ => none

mutual

/-- A pattern as written. -/
def render : Pattern → String
  | name n => n
  | wildcard => "_"
  | position i => toString i
  | tuple [] => "()"
  | tuple (p :: ps) => "(" ++ render p ++ renderRest ps

/-- The later elements of a tuple, each after a comma, and its closing parenthesis. -/
def renderRest : List Pattern → String
  | [] => ")"
  | p :: ps => ", " ++ render p ++ renderRest ps

end

end Pattern

/-- One entry of a property declaration. -/
structure Binding where
  pattern : Pattern
  /-- The text of the type, if one is written. -/
  type : Option String
  hasInitializer : Bool
  /-- Whether a block of accessors or observers follows. -/
  hasAccessors : Bool
  span : Span
  deriving Repr, Inhabited

/-- A property declaration. -/
structure Property where
  introducer : Introducer
  bindings : List Binding
  deriving Repr, Inhabited

/-- What a declaration declares. -/
inductive DeclarationKind where
  | struct
  | «class»
  | «enum»
  | protocol
  | actor
  | «extension»
  | function
  | initializer
  | deinitializer
  | «subscript»
  | property (bindings : Property)
  | enumCase
  | typeAlias
  | associatedType
  | importLine
  | operator
  /-- A kind that matters to its host language alone. -/
  | other (word : String)
  deriving Repr, Inhabited

/-- What a message calls a declaration of this kind. -/
def DeclarationKind.describe : DeclarationKind → String
  | struct => "struct"
  | .class => "class"
  | .enum => "enum"
  | protocol => "protocol"
  | actor => "actor"
  | .extension => "extension"
  | function => "function"
  | initializer => "initializer"
  | deinitializer => "deinitializer"
  | .subscript => "subscript"
  | property _ => "variable"
  | enumCase => "enum case"
  | typeAlias => "typealias"
  | associatedType => "associatedtype"
  | importLine => "import"
  | operator => "operator"
  | other word => word

/-- A declaration with everything attached to it. -/
structure Declaration where
  kind : DeclarationKind
  /-- The name declared; a property has none, its names are in the bindings. -/
  name : Option String
  attributes : List Attribute
  modifiers : List Modifier
  /-- The text of each type it inherits from. -/
  inherited : List String
  /-- The declarations in its block, if it has a block. -/
  members : Option (List Declaration)
  /-- From the first attribute to the end of the declaration. -/
  span : Span
  deriving Repr, Inhabited

namespace Declaration

/-- A declaration of a kind with nothing attached. -/
def ofKind (kind : DeclarationKind) (span : Span) : Declaration :=
  ⟨kind, none, [], [], [], none, span⟩

/-- Whether an attribute has exactly this name. -/
def hasAttribute (d : Declaration) (name : String) : Bool := d.attributes.any (·.name == name)

/-- Whether the declaration belongs to the type instead of its values. -/
def isTypeScope (d : Declaration) : Bool := d.modifiers.any (·.isTypeScope)

/-- The declaration's access level: the widest of those written. -/
def access? (d : Declaration) : Option Access :=
  Access.widest? (d.modifiers.filterMap (·.access?))

/-- The bindings of a property declaration. -/
def property? (d : Declaration) : Option Property :=
  match d.kind with
  | .property p => some p
  | _ => none

end Declaration

namespace Access

/-! ## The widest level -/

theorem ofKeyword?_keyword (a : Access) : ofKeyword? a.keyword = some a := by cases a <;> decide

theorem rank_injective {a b : Access} (h : a.rank = b.rank) : a = b := by
  cases a <;> cases b <;> first | rfl | cases h

theorem rank_wider (a b : Access) : (wider a b).rank = min a.rank b.rank := by
  unfold wider
  split <;> omega

theorem wider_eq (a b : Access) : wider a b = a ∨ wider a b = b := by
  unfold wider
  split <;> simp

theorem foldl_wider_mem (a : Access) (as : List Access) : as.foldl wider a ∈ a :: as := by
  induction as generalizing a with
  | nil => simp
  | cons b as ih =>
    rw [List.foldl_cons]
    rcases List.mem_cons.1 (ih (wider a b)) with h | h
    · rcases wider_eq a b with hw | hw <;> rw [h, hw] <;> simp
    · exact List.mem_cons_of_mem _ (List.mem_cons_of_mem _ h)

/-- **The widest level is one of those written.** -/
theorem widest?_mem {as : List Access} {a : Access} (h : widest? as = some a) : a ∈ as := by
  cases as with
  | nil => cases h
  | cons b as =>
    obtain rfl := Option.some.inj h
    exact foldl_wider_mem b as

theorem foldl_wider_le (a : Access) (as : List Access) :
    ∀ b ∈ a :: as, (as.foldl wider a).rank ≤ b.rank := by
  induction as generalizing a with
  | nil => simp
  | cons c as ih =>
    intro b hb
    rw [List.foldl_cons]
    have hw := ih (wider a c) (wider a c) (List.mem_cons_self ..)
    rw [rank_wider] at hw
    rcases List.mem_cons.1 hb with rfl | hb
    · omega
    · rcases List.mem_cons.1 hb with rfl | hb
      · omega
      · exact ih (wider a c) b (List.mem_cons_of_mem _ hb)

/-- **No level written is wider.** -/
theorem widest?_le {as : List Access} {a b : Access} (h : widest? as = some a) (hb : b ∈ as) :
    a.rank ≤ b.rank := by
  cases as with
  | nil => cases h
  | cons c as =>
    obtain rfl := Option.some.inj h
    exact foldl_wider_le c as b hb

end Access

end Memberwise
