import Memberwise.Declaration.Basic
import Memberwise.Derive.Item

/-!
# Derive/Lowering — an item as a declaration

An item is expanded as the declaration it lowers to.  Places in that declaration are numbers: the
name is the first place, then the visibility if there is one, then each field followed by its
attributes.  `Lowered.places` says where each of them is in the text, so a diagnostic about the
declaration can point there.

The struct attribute `equatable` takes a list of roles, of which there is one; a role becomes an
inherited type.

A list of roles is read as nested arguments of any attribute are (`readRoles`), by the documented
rules of the reader that the tool hands them to.  Arguments are separated by commas, and one may
follow the last.  Each is a path: words, reserved ones among them, with `::` between and perhaps
before them, and no type arguments.  A literal, a mark and the end of the list each have a message of
their own where a path should begin.  The tool itself decides only which path is a role.
-/

namespace Memberwise.Derive

/-! ## Roles -/

/-- What is wrong with the roles of a struct. -/
inductive RoleFault where
  /-- The attribute has no list. -/
  | noList
  /-- The attribute has a value in place of a list. -/
  | valueForList
  | unknownRole
  /-- The list ends where a role should stand. -/
  | missingRole
  | literalForRole
  | markForRole
  | missingComma
  /-- Something else stands where a path should go on, or the list ends there. -/
  | missingWord (atEnd : Bool)
  deriving DecidableEq, Repr

/-- The wording of what is wrong with roles. -/
def RoleFault.message : RoleFault → String
  | noList => "expected attribute arguments in parentheses: #[equatable(...)]"
  | valueForList => "expected parentheses: #[equatable(...)]"
  | unknownRole => "unsupported equatable argument, expected `view`"
  | missingRole => "unexpected end of input, expected nested attribute"
  | literalForRole => "unexpected literal in nested attribute, expected ident"
  | markForRole => "unexpected token in nested attribute, expected ident"
  | missingComma => "expected `,`"
  | missingWord true => "unexpected end of input, expected ident"
  | missingWord false => "expected ident"

/-- What is wrong with the roles of a struct, and where. -/
structure RoleError where
  fault : RoleFault
  place : Nat
  deriving DecidableEq, Repr

/-- The one role there is: its struct has a body that is not compared. -/
def viewRole : String := "view"

/-- Where the first of some trees starts, or where their list is closed. -/
def placeOr (close : Nat) : List TokenTree → Nat
  | [] => close
  | t :: _ => t.start

/-- The end of a path in a list of roles, at most `n` words long: what is left after it. -/
def afterRolePath (close : Nat) : Nat → List TokenTree → Except RoleError (List TokenTree)
  | 0, ts => .ok ts
  | n + 1, ts =>
    if startsOperator "::" ts then
      match ts.drop 2 with
      | .word .. :: rest => afterRolePath close n rest
      | rest => .error ⟨.missingWord rest.isEmpty, placeOr close rest⟩
    else .ok ts

/-- The roles in a list that is closed at a place, at most `n` of them. -/
def readRoles (close : Nat) : Nat → List TokenTree → Except RoleError (List String)
  | 0, _ => .ok []
  | _, [] => .ok []
  | n + 1, ts =>
    let rooted := startsOperator "::" ts
    match if rooted then ts.drop 2 else ts with
    | .word w start :: rest =>
      match afterRolePath close rest.length rest with
      | .error e => .error e
      | .ok left =>
        if rooted || w != viewRole || left.length != rest.length then
          .error ⟨.unknownRole, start⟩
        else match left with
          | [] => .ok [viewRole]
          | t :: more =>
            if startsOperator "," (t :: more) then
              (readRoles close n more).map (viewRole :: ·)
            else .error ⟨.missingComma, t.start⟩
    | [] => .error ⟨.missingRole, close⟩
    | ts =>
      let fault := if startsConstant ts then .literalForRole else .markForRole
      .error ⟨fault, placeOr close ts⟩

/-- The roles that an attribute gives. -/
def attributeRoles (a : ItemAttribute) : Except RoleError (List String) :=
  match a.arguments with
  | .none => .error ⟨.noList, (a.path.head?.map (·.2)).getD a.start⟩
  | .value equals => .error ⟨.valueForList, equals⟩
  | .list content close => readRoles close (content.length + 1) content

/-- The roles that attributes give; the first that is wrong is the error. -/
def allRoles : List ItemAttribute → Except RoleError (List String)
  | [] => .ok []
  | a :: as =>
    match attributeRoles a with
    | .error e => .error e
    | .ok roles => (allRoles as).map (roles ++ ·)

/-- The roles of an item. -/
def Item.roles (item : Item) : Except RoleError (List String) :=
  allRoles (item.attributes.filter (·.isNamed "equatable"))

/-! ## Lowering -/

/-- The span that stands for a numbered place. -/
def placeSpan (n : Nat) : Span := ⟨n, n + 1⟩

/-- The access level of a visibility. -/
def ItemVisibility.access? : ItemVisibility → Option Access
  | inherited => none
  | .public => some .public
  | restricted path =>
    match Printed.renderAll path with
    | "crate" => some .package
    | "self" => some .private
    | _ => some .internal

/-- The name of an attribute: the words of its path. -/
def ItemAttribute.name (a : ItemAttribute) : String :=
  String.intercalate "::" (a.path.map fun w => unraw w.1)

/-- The attributes of a field, the first at a numbered place. -/
def lowerAttributes : (place : Nat) → List ItemAttribute → List Attribute
  | _, [] => []
  | n, a :: as => ⟨a.name, none, placeSpan n⟩ :: lowerAttributes (n + 1) as

/-- A field of a struct, by its index, at a numbered place. -/
def Field.lower (f : Field) (index place : Nat) : Declaration :=
  let pattern : Pattern := match f.name with
    | some name => .name (unraw name)
    | none => .position index
  let binding : Binding :=
    ⟨pattern, some (Printed.renderAll f.type), false, false, placeSpan place⟩
  { Declaration.ofKind (.property ⟨.let, [binding]⟩) (placeSpan place) with
    attributes := lowerAttributes (place + 1) f.attributes }

/-- The fields of a struct, from an index and a numbered place on. -/
def lowerFields : (index place : Nat) → List Field → List Declaration
  | _, _, [] => []
  | i, n, f :: fs => f.lower i n :: lowerFields (i + 1) (n + 1 + f.attributes.length) fs

/-- Where a field and its attributes are in the text. -/
def Field.places (f : Field) : List Nat := f.start :: f.attributes.map (·.start)

/-- What kind of declaration an item is. -/
def ItemData.kind : ItemData → DeclarationKind
  | struct _ => .struct
  | .enum => .enum
  | union => .other "union"

/-- The fields of an item; only a struct has any. -/
def ItemData.fields : ItemData → List Field
  | struct fields => fields
  | .enum | union => []

/-- A declaration, and where its numbered places are in the text. -/
structure Lowered where
  declaration : Declaration
  places : List Nat
  deriving Repr

/-- An item as a declaration with some roles. -/
def Item.lower (item : Item) (roles : List String) : Lowered :=
  let modifiers : List Modifier := match item.visibility.access? with
    | some level => [⟨.access level, placeSpan 1⟩]
    | none => []
  let fields := item.data.fields
  ⟨⟨item.data.kind, some (unraw item.name), [], modifiers, roles,
      some (lowerFields 0 (1 + modifiers.length) fields), placeSpan 0⟩,
    item.nameStart :: modifiers.map (fun _ => item.visibilityStart) ++ fields.flatMap Field.places⟩

end Memberwise.Derive
