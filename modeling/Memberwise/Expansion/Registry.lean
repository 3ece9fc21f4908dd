import Memberwise.Text.Quoted

/-!
# Expansion/Registry — which attributes are expanded, and as what

There are two expanders: one generates an extension beside a type, the other is a marker that
generates nothing.  A registry says by which attribute names they are called; each has its own name,
and aliases can be added.  A name stands for one expander at a time, the one given last.

The tool would let a program that is built on it register expanders of its own.  Those are not
modelled: a registry here has names for these two only.

**Adding a name changes what that name stands for, and nothing else** (`find?_insert`).
-/

namespace Memberwise

/-- Where what an expander generates would stand. -/
inductive ExpanderRole where
  /-- After a declaration at the top of the file. -/
  | «extension»
  /-- Beside a member, wherever it is. -/
  | peer
  deriving DecidableEq, Repr

/-- What an attribute can be expanded as: one of the two expanders that come with the tool. -/
inductive Expander where
  /-- Generates the extension that makes a type comparable. -/
  | equatable
  /-- Marks a member that is not compared. -/
  | skipEquatable
  deriving DecidableEq, Repr

namespace Expander

/-- The name an expander has of its own. -/
def name : Expander → String
  | equatable => "Equatable"
  | skipEquatable => "SkipEquatable"

/-- The role of an expander. -/
def role : Expander → ExpanderRole
  | equatable => .extension
  | skipEquatable => .peer

/-- The expander with a name of its own. -/
def ofName? (name : String) : Option Expander := [equatable, skipEquatable].find? (·.name == name)

end Expander

/-- Attribute names, each with the expander of the tool that it stands for. -/
structure Registry where
  entries : List (String × Expander)
  deriving DecidableEq, Repr, Inhabited

namespace Registry

/-- No names. -/
def empty : Registry := ⟨[]⟩

/-- The expander a name stands for. -/
def find? (r : Registry) (name : String) : Option Expander := r.entries.lookup name

/-- Whether a name stands for an expander. -/
def contains (r : Registry) (name : String) : Bool := (r.find? name).isSome

/-- The registry with a name for an expander, in place of what it stood for. -/
def insert (r : Registry) (name : String) (e : Expander) : Registry :=
  ⟨(name, e) :: r.entries.filter (·.1 != name)⟩

/-- The registry with an expander under its own name. -/
def register (r : Registry) (e : Expander) : Registry := r.insert e.name e

/-- Both expanders under their own names. -/
def standard : Registry := (empty.register .equatable).register .skipEquatable

/-- The registry with a further name for what has the name `target` of its own; there has to be
such an expander. -/
def alias? (r : Registry) (name target : String) : Option Registry :=
  (Expander.ofName? target).map (r.insert name)

/-- The number of names. -/
def size (r : Registry) : Nat := r.entries.length

/-- Whether there are no names. -/
def isEmpty (r : Registry) : Bool := r.entries.isEmpty

/-- The names in alphabetical order. -/
def names (r : Registry) : List String :=
  (r.entries.map (·.1)).mergeSort fun a b => decide (a ≤ b)

/-- A registry as a line for its developers: its names, quoted. -/
def render (r : Registry) : String :=
  "MacroRegistry \x7b names: [" ++ String.intercalate ", " (r.names.map Text.quote) ++ "] \x7d"

/-! ## Looking up -/

@[simp] theorem find?_empty (name : String) : empty.find? name = none := rfl

theorem lookup_filter_ne (entries : List (String × Expander)) {a b : String} (h : a ≠ b) :
    (entries.filter (·.1 != a)).lookup b = entries.lookup b := by
  induction entries with
  | nil => rfl
  | cons e entries ih =>
    obtain ⟨n, x⟩ := e
    by_cases hn : n = a
    · subst hn
      simp [List.lookup_cons, ih, beq_eq_false_iff_ne.2 (Ne.symm h)]
    · simp [List.lookup_cons, hn, ih]

/-- **Adding a name changes what that name stands for, and nothing else.** -/
theorem find?_insert (r : Registry) (a b : String) (e : Expander) :
    (r.insert a e).find? b = if b = a then some e else r.find? b := by
  by_cases h : b = a
  · subst h; simp [find?, insert]
  · simp [find?, insert, List.lookup_cons, h, beq_eq_false_iff_ne.2 h,
      lookup_filter_ne _ (Ne.symm h)]

end Registry

end Memberwise
