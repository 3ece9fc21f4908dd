import Memberwise.Proofs.Declaration.Phrases

/-!
# Proofs/Record/Plain — records in the plain layout

In the plain layout the attribute that asks for a record's extension has a line of its own.  Then
come the header, one line for each property with its attributes before it, and the closing brace
(`PlainRecord.source`).  All names are identifiers, which a plain record carries the proofs of;
reserved words among them stand between backticks.

* `PlainRecord.text_row` — the text is put together of words, names, marks and spaces;
* `PlainRecord.isRow_row` — **and is cut up into just these**.
-/

namespace Memberwise

open Text Token
open Memberwise.Parser

/-! ## The layout -/

/-- A property on a line of its own, with one name and its type. -/
structure PlainMember where
  /-- The attributes before the property, in the order written. -/
  attributes : List String
  isStatic : Bool
  introducer : Introducer
  name : String
  type : String
  isIdentifier_attributes : ∀ a ∈ attributes, isIdentifier a = true
  isIdentifier_name : isIdentifier name = true
  name_ne : name ≠ "_"
  isIdentifier_type : isIdentifier type = true

/-- The line of a property. -/
def PlainMember.text (m : PlainMember) : String :=
  "    " ++ String.join (m.attributes.map fun a => "@" ++ escape a ++ " ")
    ++ (if m.isStatic then "static " else "") ++ m.introducer.keyword ++ " "
    ++ escape m.name ++ ": " ++ escape m.type ++ "\n"

/-- A struct with one property a line. -/
structure PlainRecord where
  name : String
  access : Option Access
  supertypes : List String
  members : List PlainMember
  isIdentifier_name : isIdentifier name = true
  not_isReserved_name : isReserved name = false
  isIdentifier_supertypes : ∀ type ∈ supertypes, isIdentifier type = true

/-- An access level and a space after it, if there is one. -/
def accessText : Option Access → String
  | none => ""
  | some level => level.keyword ++ " "

namespace PlainRecord

/-- What is written before the block of a record. -/
def header (r : PlainRecord) : String :=
  accessText r.access ++ "struct " ++ r.name
    ++ (match r.supertypes with
      | [] => ""
      | types => ": " ++ String.intercalate ", " (types.map escape))
    ++ " "

/-- The declaration of a record, up to its closing brace. -/
def text (r : PlainRecord) : String :=
  r.header ++ "\x7b\n" ++ String.join (r.members.map PlainMember.text) ++ "\x7d"

/-- The source that declares a record and asks for its extension. -/
def source (r : PlainRecord) : String := "@Equatable\n" ++ r.text ++ "\n"

end PlainRecord

/-! ## The layout, piece by piece -/

/-- The pieces of attributes, each with a space after it. -/
def attributesRow (as : List String) : List Piece :=
  as.flatMap fun a => [mark '@', nameOf a, space 0]

/-- The pieces of `static` and the space after it. -/
def staticRow (isStatic : Bool) : List Piece :=
  if isStatic then [bare "static", space 0] else []

theorem text_accessRow (access : Option Access) :
    (Comparison.accessRow access).flatMap Piece.text = (accessText access).toList := by
  cases access with
  | none => rfl
  | some level => simp [Comparison.accessRow, accessText]

section Attributes

variable {as : List String} {s : List Char}

theorem attributesRow_cons (a : String) (as : List String) :
    attributesRow (a :: as) = [mark '@', nameOf a, space 0] ++ attributesRow as := rfl

theorem text_attributesRow (as : List String) : (attributesRow as).flatMap Piece.text
    = (String.join (as.map fun a => "@" ++ escape a ++ " ")).toList := by
  rw [String.toList_join, List.flatMap_map, attributesRow, List.flatMap_assoc]
  refine List.flatMap_congr fun a _ => ?_
  simp [nameOf]

theorem isRow_attributesRow (h : ∀ a ∈ as, isIdentifier a = true) (hs : IsSolid s) :
    IsRow (attributesRow as) s ∧ IsSolid ((attributesRow as).flatMap Piece.text ++ s) := by
  induction as with
  | nil => exact ⟨trivial, hs⟩
  | cons a as ih =>
    obtain ⟨hrow, hsolid⟩ := ih fun b hb => h b (List.mem_cons_of_mem _ hb)
    have ha := h a List.mem_cons_self
    rw [attributesRow_cons]
    simp +decide [hrow, hsolid, fits_mark, fits_space, fits_nameOf ha]

end Attributes

namespace PlainMember

/-- The pieces of a property's line, up to its line end. -/
def row (m : PlainMember) : List Piece :=
  space 3 :: (attributesRow m.attributes
    ++ (staticRow m.isStatic ++ propertyRow m.introducer m.name m.type))

/-- A property is written as its row. -/
theorem text_row (m : PlainMember) : m.row.flatMap Piece.text ++ ['\n'] = m.text.toList := by
  have hstatic : (staticRow m.isStatic).flatMap Piece.text
      = (if m.isStatic then "static " else "").toList := by
    cases m.isStatic <;> rfl
  simp only [row, text, List.flatMap_cons, List.flatMap_append, text_attributesRow, hstatic,
    String.toList_append]
  simp [propertyRow, bindingRow, nameOf, List.replicate_succ]

theorem isRow_row (m : PlainMember) {s : List Char} (hs : IsBounded s) : IsRow m.row s := by
  have hkeyword : isIdentifier m.introducer.keyword = true := by cases m.introducer <;> decide
  have hproperty : IsRow (propertyRow m.introducer m.name m.type) s
      ∧ IsSolid ((propertyRow m.introducer m.name m.type).flatMap Piece.text ++ s) := by
    refine ⟨?_, by cases hi : m.introducer <;> simp +decide [propertyRow, Introducer.keyword]⟩
    simp +decide [propertyRow, bindingRow, fits_bare hkeyword, fits_mark, fits_space,
      fits_nameOf m.isIdentifier_name, fits_nameOf m.isIdentifier_type, m.isIdentifier_name,
      m.isIdentifier_type, hs]
  have hstatic : IsRow (staticRow m.isStatic)
        ((propertyRow m.introducer m.name m.type).flatMap Piece.text ++ s)
      ∧ IsSolid ((staticRow m.isStatic).flatMap Piece.text
        ++ ((propertyRow m.introducer m.name m.type).flatMap Piece.text ++ s)) := by
    cases m.isStatic with
    | false => exact ⟨trivial, hproperty.2⟩
    | true => simp +decide [staticRow, fits_bare, fits_space, hproperty.2]
  obtain ⟨hrow, hsolid⟩ := isRow_attributesRow m.isIdentifier_attributes hstatic.2
  rw [row]
  simp only [isRow_cons, isRow_append, List.flatMap_append, List.append_assoc]
  exact ⟨fits_space 3 hsolid, hrow, hstatic.1, hproperty.1⟩

theorem isSound_row (m : PlainMember) : m.row.all (·.lexeme.isSound) = true := by
  cases hs : m.isStatic <;>
    simp [row, attributesRow, staticRow, hs, propertyRow, bindingRow, List.all_flatMap]

end PlainMember

/-- The pieces of properties, each on a line after what is written before it. -/
def bodyRow (ms : List PlainMember) : List Piece := ms.flatMap fun m => mark '\n' :: m.row

theorem bodyRow_cons (m : PlainMember) (ms : List PlainMember) :
    bodyRow (m :: ms) = mark '\n' :: m.row ++ bodyRow ms := rfl

theorem text_bodyRow (ms : List PlainMember) : (bodyRow ms).flatMap Piece.text ++ ['\n']
    = '\n' :: (String.join (ms.map PlainMember.text)).toList := by
  rw [String.toList_join, List.flatMap_map]
  induction ms with
  | nil => rfl
  | cons m ms ih =>
    rw [bodyRow_cons, List.flatMap_append, List.append_assoc, ih, List.flatMap_cons,
      List.flatMap_cons, ← m.text_row]
    simp

theorem isRow_bodyRow {s : List Char} (hs : IsBounded s) (ms : List PlainMember) :
    IsRow (bodyRow ms) s ∧ IsBounded ((bodyRow ms).flatMap Piece.text ++ s) := by
  induction ms with
  | nil => exact ⟨trivial, hs⟩
  | cons m ms ih =>
    rw [bodyRow_cons]
    refine ⟨isRow_append.mpr ⟨⟨fits_mark (by decide) _, m.isRow_row ih.2⟩, ih.1⟩, ?_⟩
    simp +decide

namespace PlainRecord

variable (r : PlainRecord)

/-- The pieces of a record's header after its access level. -/
def structRow : List Piece :=
  [bare "struct", space 0, nameOf r.name] ++ (inheritanceRow r.supertypes ++ [space 0])

/-- The pieces of a record's header. -/
def headerRow : List Piece := Comparison.accessRow r.access ++ r.structRow

/-- The pieces of a record's declaration. -/
def declarationRow : List Piece :=
  r.headerRow ++ mark '\x7b' :: (bodyRow r.members ++ [mark '\n', mark '\x7d'])

/-- The pieces of a record's source. -/
def row : List Piece := [mark '@', nameOf "Equatable", mark '\n'] ++ r.declarationRow ++ [mark '\n']

theorem text_inheritanceRow (types : List String) : (inheritanceRow types).flatMap Piece.text
    = (match types with
      | [] => ""
      | types => ": " ++ String.intercalate ", " (types.map escape)).toList := by
  cases types with
  | nil => rfl
  | cons type later =>
    rw [inheritanceRow, List.flatMap_append, String.toList_append, toList_intercalate_cons,
      laterTypesRow, List.flatMap_assoc]
    simp [nameOf]

theorem text_headerRow : r.headerRow.flatMap Piece.text = r.header.toList := by
  simp only [headerRow, structRow, header, List.flatMap_append, text_accessRow, text_inheritanceRow,
    String.toList_append]
  simp [nameOf, escape, r.not_isReserved_name]

/-- A record's declaration is written as its row. -/
theorem text_declarationRow : r.declarationRow.flatMap Piece.text = r.text.toList := by
  have hbody := text_bodyRow r.members
  simp only [declarationRow, text, List.flatMap_append, List.flatMap_cons, List.flatMap_nil,
    text_headerRow, String.toList_append, text_mark]
  rw [show ['\n'] ++ (['\x7d'] ++ []) = ['\n'] ++ ['\x7d'] from rfl,
    ← List.append_assoc _ ['\n'], hbody]
  simp

/-- **A record is written as its row.** -/
theorem text_row : r.row.flatMap Piece.text = r.source.toList := by
  have hname : escape "Equatable" = "Equatable" := by decide
  simp only [row, source, List.flatMap_append, text_declarationRow, String.toList_append]
  simp [nameOf, hname]

theorem isRow_inheritanceRow {types : List String} {s : List Char}
    (h : ∀ type ∈ types, isIdentifier type = true) (hs : IsBounded s) :
    IsRow (inheritanceRow types) s
      ∧ IsBounded ((inheritanceRow types).flatMap Piece.text ++ s) := by
  have hlater : ∀ later : List String, (∀ type ∈ later, isIdentifier type = true) →
      IsRow (laterTypesRow later) s
        ∧ IsBounded ((laterTypesRow later).flatMap Piece.text ++ s) := by
    intro later hl
    induction later with
    | nil => exact ⟨trivial, hs⟩
    | cons type later ih =>
      obtain ⟨hrow, hb⟩ := ih fun t ht => hl t (List.mem_cons_of_mem _ ht)
      have ht := hl type List.mem_cons_self
      rw [laterTypesRow, List.flatMap_cons, ← laterTypesRow]
      simp +decide [hrow, hb, fits_mark, fits_space, fits_nameOf ht, ht]
  cases types with
  | nil => exact ⟨trivial, hs⟩
  | cons type later =>
    obtain ⟨hrow, hb⟩ := hlater later fun t ht => h t (List.mem_cons_of_mem _ ht)
    have ht := h type List.mem_cons_self
    simp +decide [inheritanceRow, hrow, hb, fits_mark, fits_space, fits_nameOf ht, ht]

theorem isRow_headerRow {s : List Char} (hs : IsSolid s) : IsRow r.headerRow s := by
  obtain ⟨hrow, hb⟩ := isRow_inheritanceRow (s := ' ' :: s) r.isIdentifier_supertypes
    (isBounded_cons.mpr (by decide))
  have hstruct : IsRow r.structRow s := by
    simp +decide [structRow, hrow, hb, hs, fits_bare, fits_space, fits_nameOf r.isIdentifier_name,
      r.isIdentifier_name]
  have haccess := Comparison.isRow_accessRow r.access (s := 's' :: ("truct ".toList
    ++ ((nameOf r.name).text ++ ((inheritanceRow r.supertypes).flatMap Piece.text ++ ' ' :: s))))
    (isSolid_cons.mpr (by decide))
  refine isRow_append.mpr ⟨?_, hstruct⟩
  simpa [structRow] using haccess.1

/-- **A record's source is cut up into its pieces.** -/
theorem isRow_row : IsRow r.row [] := by
  have hbody := isRow_bodyRow (s := ['\n', '\x7d', '\n']) (isBounded_cons.mpr (by decide))
    r.members
  have hheader := r.isRow_headerRow (s := '\x7b' :: ((bodyRow r.members).flatMap Piece.text
    ++ ['\n', '\x7d', '\n'])) (isSolid_cons.mpr (by decide))
  have hname : isIdentifier "Equatable" = true := by decide
  simp +decide [row, declarationRow, fits_mark, fits_nameOf hname, hbody, hheader]

theorem isSound_row : ∀ p ∈ r.row, p.lexeme.isSound = true := by
  have haccess : (Comparison.accessRow r.access).all (·.lexeme.isSound) = true := by
    cases r.access <;> simp [Comparison.accessRow]
  have htypes : (inheritanceRow r.supertypes).all (·.lexeme.isSound) = true := by
    cases r.supertypes <;> simp [inheritanceRow, laterTypesRow, List.all_flatMap]
  have hbody : (bodyRow r.members).all (·.lexeme.isSound) = true := by
    simp [bodyRow, List.all_flatMap, PlainMember.isSound_row]
  refine List.all_eq_true.mp ?_
  simp [row, declarationRow, headerRow, structRow, haccess, htypes, hbody]

end PlainRecord

end Memberwise
