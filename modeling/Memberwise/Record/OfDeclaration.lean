import Memberwise.Record.Basic

/-!
# Record/OfDeclaration — which declarations are records

A struct with a name and a member block is a record; no other declaration is.  Its members are the
bindings of the property declarations in its block, and every binding of a declaration shares that
declaration's attributes.

**A declaration is a record exactly when it is a named struct with a block**
(`ofDeclaration_eq_ok`).
-/

namespace Memberwise

/-- Why a declaration is no record. -/
inductive RecordFault where
  | notStruct (kind : DeclarationKind)
  | unnamed
  /-- A struct without a block. -/
  | noBlock
  deriving Repr

/-- What a message calls a declaration that is no record. -/
def RecordFault.describe : RecordFault → String
  | notStruct kind => kind.describe
  | unnamed => "unnamed struct"
  | noBlock => "struct without a member block"

/-- The members that a declaration in a block gives: one for each pattern a property binds. -/
def Member.ofDeclaration (d : Declaration) : List Member :=
  match d.property? with
  | none => []
  | some p => p.bindings.map fun b =>
    ⟨b.pattern, d.isTypeScope, d.attributes.map (·.name), b.type, b.span⟩

namespace Record

/-- The record a declaration declares. -/
def ofDeclaration (d : Declaration) : Except RecordFault Record :=
  match d.kind with
  | .struct =>
    match d.name, d.members with
    | none, _ => .error .unnamed
    | some name, members =>
      if name.isEmpty then .error .unnamed
      else match members with
        | none => .error .noBlock
        | some block =>
          .ok ⟨name, d.access?, d.inherited, block.flatMap Member.ofDeclaration, d.span⟩
  | kind => .error (.notStruct kind)

/-- **A declaration is a record exactly when it is a named struct with a block.** -/
theorem ofDeclaration_eq_ok {d : Declaration} {r : Record} :
    ofDeclaration d = .ok r ↔
      d.kind = .struct ∧ ∃ name block, d.name = some name ∧ name.isEmpty = false
        ∧ d.members = some block
        ∧ r = ⟨name, d.access?, d.inherited, block.flatMap Member.ofDeclaration, d.span⟩ := by
  constructor
  · intro h
    unfold ofDeclaration at h
    split at h
    · rename_i hk
      split at h
      · cases h
      · rename_i name hn
        split at h
        · cases h
        · rename_i he
          split at h
          · cases h
          · rename_i block hb
            exact ⟨hk, name, block, hn, by simpa using he, hb, (Except.ok.inj h).symm⟩
    · cases h
  · rintro ⟨hk, name, block, hn, he, hb, rfl⟩
    simp [ofDeclaration, hk, hn, hb, he]

end Record

end Memberwise
