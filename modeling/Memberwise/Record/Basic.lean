import Memberwise.Declaration.Basic

/-!
# Record/Basic — a type as its properties

A record is what comparison works on: a type's name, its access level, the types it inherits from,
and its properties in the order they are written.  A member is one bound pattern; a property
declaration that binds several patterns is several members.
-/

namespace Memberwise

/-- One property of a record. -/
structure Member where
  pattern : Pattern
  /-- Whether the property belongs to the type instead of its values. -/
  isStatic : Bool
  /-- The names of the attributes, in the order written. -/
  attributes : List String
  /-- The text of the type, if one is written. -/
  type : Option String
  span : Span
  deriving Repr, Inhabited

namespace Member

/-- A property of a value with a plain name and nothing else said about it. -/
def named (name : String) (span : Span) : Member := ⟨.name name, false, [], none, span⟩

/-- The member with a further attribute. -/
def withAttribute (m : Member) (name : String) : Member :=
  { m with attributes := m.attributes ++ [name] }

/-- The member with a written type. -/
def withType (m : Member) (type : String) : Member := { m with type := some type }

/-- The member moved to the type. -/
def asStatic (m : Member) : Member := { m with isStatic := true }

/-- The member's name, if its pattern is a plain one. -/
def name? (m : Member) : Option String := m.pattern.name?

/-- Whether an attribute has exactly this name. -/
def hasAttribute (m : Member) (name : String) : Bool := m.attributes.contains name

@[simp] theorem name?_named (name : String) (span : Span) : (named name span).name? = some name :=
  rfl

@[simp] theorem name?_withAttribute (m : Member) (name : String) :
    (m.withAttribute name).name? = m.name? := rfl

@[simp] theorem name?_withType (m : Member) (type : String) : (m.withType type).name? = m.name? :=
  rfl

@[simp] theorem name?_asStatic (m : Member) : m.asStatic.name? = m.name? := rfl

@[simp] theorem hasAttribute_withAttribute (m : Member) (a b : String) :
    (m.withAttribute a).hasAttribute b = (m.hasAttribute b || b == a) := by
  rw [Bool.eq_iff_iff]; simp [hasAttribute, withAttribute]

end Member

/-- A type as its properties. -/
structure Record where
  name : String
  /-- The access level written, if one is. -/
  access : Option Access
  /-- The text of each type it inherits from. -/
  inherited : List String
  /-- The properties, in the order written, which is the order they are compared in. -/
  members : List Member
  span : Span
  deriving Repr, Inhabited

namespace Record

/-- A record with a name and nothing else. -/
def named (name : String) (span : Span) : Record := ⟨name, none, [], [], span⟩

/-- The record with an access level. -/
def withAccess (r : Record) (level : Access) : Record := { r with access := some level }

/-- The record with a further type to inherit from. -/
def inheriting (r : Record) (type : String) : Record :=
  { r with inherited := r.inherited ++ [type] }

/-- The record with a further member. -/
def withMember (r : Record) (m : Member) : Record := { r with members := r.members ++ [m] }

/-- Whether exactly this type is among those inherited from. -/
def inherits (r : Record) (type : String) : Bool := r.inherited.contains type

@[simp] theorem inherits_inheriting (r : Record) (a b : String) :
    (r.inheriting a).inherits b = (r.inherits b || b == a) := by
  rw [Bool.eq_iff_iff]; simp [inherits, inheriting]

end Record

end Memberwise
