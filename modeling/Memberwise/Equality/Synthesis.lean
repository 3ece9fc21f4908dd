import Memberwise.Equality.Extension
import Memberwise.Record.Basic

/-!
# Equality/Synthesis — the extension of a record

Given the members to compare, the extension of a record compares them one after the other.  With no
member to compare there is no extension at all, since an equality that always holds would be no use.
What is put together is checked before it is handed out.
-/

namespace Memberwise

/-- The names of members, or the pattern of the first that has none. -/
def Member.names : List Member → Except AssemblyFault (List String)
  | [] => .ok []
  | m :: ms =>
    match m.name? with
    | none => .error (.unnamedMember m.pattern)
    | some name => (names ms).map (name :: ·)

/-- The extension of a record that compares the members given. -/
def Record.equality? (r : Record) (compared : List Member) :
    Except AssemblyFault (Option Extension) :=
  match Member.names compared with
  | .error fault => .error fault
  | .ok names =>
    match Expr.conjunction? (names.map Expr.fieldEqual) with
    | none => .ok none
    | some body =>
      let e := Extension.equatable r.name r.access body
      match e.fault? with
      | some fault => .error fault
      | none => .ok (some e)

namespace Member

/-- The names of members that all have one. -/
theorem names_eq_ok {ms : List Member} {names : List String} :
    Member.names ms = .ok names ↔ ms.map Member.name? = names.map some := by
  induction ms generalizing names with
  | nil => cases names <;> simp [Member.names]
  | cons m ms ih =>
    unfold Member.names
    cases hm : m.name? with
    | none => cases names <;> simp [hm]
    | some name =>
      cases names with
      | nil => cases hms : Member.names ms <;> simp [Except.map]
      | cons n names =>
        cases hms : Member.names ms with
        | error e =>
          have := @ih names
          simp [hms] at this
          simp [Except.map, hm, this]
        | ok names' =>
          have := @ih names
          simp only [hms, Except.ok.injEq] at this
          simp [Except.map, hm, this]

end Member

end Memberwise
