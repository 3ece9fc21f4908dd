import Memberwise.Proofs.Declaration.ReadBlock
import Memberwise.Proofs.Record.Plain

/-!
# Proofs/Record/ReadPlain — a record in the plain layout is read as it was written

Each line of a plain record is read as the declaration of its property, and where an attribute ends
up is told by the pieces before it (`attributesAt`).

* `PlainMember.exists_reads_head` — **a line is read as the one property on it**;
* `PlainRecord.exists_declaration` — **a record's source declares that record and nothing else**,
  without errors.
-/

namespace Memberwise

open Text Token Cursor
open Memberwise.Parser

variable {A B : List Piece}

/-! ## Attributes -/

/-- The attributes that are written after some pieces, one after the other. -/
def attributesAt (A : List Piece) : List String → List Attribute
  | [] => []
  | a :: as => attributeAt A a :: attributesAt (A ++ [mark '@', nameOf a, space 0]) as

theorem nextKind_attributesRow (as : List String)
    (hB : nextKind B ∈ [.staticKw, .letKw, .varKw]) :
    nextKind (attributesRow as ++ B) ∈ [.atSign, .staticKw, .letKw, .varKw] := by
  cases as with
  | nil => exact List.mem_cons_of_mem _ hB
  | cons a as =>
    rw [attributesRow_cons, List.append_assoc, List.cons_append, nextKind_mark]
    decide

/-- **Attributes before a property are read one by one.** -/
theorem reads_attributesRow {as : List String} (h : ∀ a ∈ as, isIdentifier a = true)
    (hB : nextKind B ∈ [.staticKw, .letKw, .varKw]) (A : List Piece) :
    Reads attributes A (attributesRow as) B (attributesAt A as) := by
  induction as generalizing A with
  | nil => exact reads_attributes_nil (by rintro hk; rw [hk] at hB; revert hB; decide) A
  | cons a as ih =>
    have hread := ih (fun b hb => h b (List.mem_cons_of_mem _ hb))
      (A ++ [mark '@', nameOf a] ++ [space 0])
    have hk := nextKind_attributesRow as hB
    have hne : ∀ k ∉ [TokenKind.atSign, .staticKw, .letKw, .varKw],
        nextKind (attributesRow as ++ B) ≠ k := by
      rintro k hnot rfl
      exact hnot hk
    have hcons := reads_attributes_cons (h a List.mem_cons_self)
      (by simpa using hne .dot (by decide)) (by simpa using hne .leftParen (by decide))
      (reads_skipNewlines_space (hne .newline (by decide)) _ 0) hread
    rw [List.append_assoc A] at hcons
    exact hcons

/-! ## Properties -/

namespace PlainMember

variable (m : PlainMember)

/-- A declaration declares the property on a line that is written after some pieces. -/
structure IsDeclaredBy (A : List Piece) (d : Declaration) : Prop where
  kind : ∃ A', d.kind = .property ⟨m.introducer, [bindingAt A' m.name m.type]⟩
  attributes : d.attributes = attributesAt (A ++ [space 3]) m.attributes
  modifiers : d.modifiers.map (·.kind) = if m.isStatic then [.static] else []
  members : d.members = none

theorem nextKind_propertyRow (B : List Piece) :
    nextKind (propertyRow m.introducer m.name m.type ++ B) ∈ [.letKw, .varKw] := by
  rw [propertyRow, List.append_assoc, List.cons_append, nextKind_bare]
  cases m.introducer <;> decide

theorem nextKind_staticRow (B : List Piece) :
    nextKind (staticRow m.isStatic ++ (propertyRow m.introducer m.name m.type ++ B))
      ∈ [.staticKw, .letKw, .varKw] := by
  cases m.isStatic with
  | false => exact List.mem_cons_of_mem _ (m.nextKind_propertyRow B)
  | true =>
    rw [staticRow, if_pos rfl, List.cons_append, nextKind_bare]
    decide

theorem exists_reads_modifiers (A B : List Piece) : ∃ ms : List Modifier,
    ms.map (·.kind) = (if m.isStatic then [.static] else [])
      ∧ Reads modifiers A (staticRow m.isStatic) (propertyRow m.introducer m.name m.type ++ B) ms := by
  have hk := m.nextKind_propertyRow B
  have hnone : ∀ A, Reads modifiers A [] (propertyRow m.introducer m.name m.type ++ B) [] := by
    refine reads_modifiers_nil fun hmem => ?_
    generalize nextKind _ = k at hk hmem
    revert k
    decide
  cases m.isStatic with
  | false => exact ⟨[], rfl, hnone A⟩
  | true =>
    have hne : nextKind ([] ++ (propertyRow m.introducer m.name m.type ++ B)) ≠ .newline := by
      rintro h
      rw [List.nil_append] at h
      rw [h] at hk
      revert hk
      decide
    exact ⟨[staticModifier A], rfl, reads_modifiers_static hne (hnone _)⟩

/-- **A line is read as the one property on it.** -/
theorem exists_reads_head (hB : nextKind B = .newline) (A : List Piece) :
    ∃ d, m.IsDeclaredBy A d ∧ Reads head A m.row B (.complete d) := by
  obtain ⟨ms, hms, hmods⟩ := m.exists_reads_modifiers
    (A ++ [space 3] ++ attributesRow m.attributes) B
  have hattrs := reads_attributesRow m.isIdentifier_attributes (m.nextKind_staticRow B)
    (A ++ [space 3])
  have hproperty : Reads property _ (Parser.propertyRow m.introducer m.name m.type) B _ :=
    reads_property m.isIdentifier_name m.name_ne m.isIdentifier_type hB
      (A ++ [space 3] ++ attributesRow m.attributes ++ staticRow m.isStatic)
  have hk := m.nextKind_propertyRow B
  refine ⟨_, ⟨⟨_, rfl⟩, rfl, hms, rfl⟩, .blank_cons rfl
    (reads_head_property hattrs hmods (by simpa using hk) hproperty)⟩

theorem nextKind_row (B : List Piece) :
    nextKind (m.row ++ B) ∈ [.atSign, .staticKw, .letKw, .varKw] := by
  rw [row, List.cons_append, nextKind_space, List.append_assoc, List.append_assoc]
  exact nextKind_attributesRow _ (m.nextKind_staticRow B)

theorem kinds_row : kinds m.row ≠ [] := by simp [row, propertyRow]

end PlainMember

/-- Declarations declare the properties that are written after some pieces, one a line. -/
inductive DeclareBody : List Piece → List PlainMember → List Declaration → Prop
  | nil (A : List Piece) : DeclareBody A [] []
  | cons {A : List Piece} {m : PlainMember} {ms : List PlainMember} {d : Declaration}
      {ds : List Declaration} (hd : m.IsDeclaredBy (A ++ [mark '\n']) d)
      (hds : DeclareBody (A ++ mark '\n' :: m.row) ms ds) : DeclareBody A (m :: ms) (d :: ds)

/-- **Properties are read line by line.** -/
theorem exists_readsAll_bodyRow (hB : nextKind B = .rightBrace) (ms : List PlainMember)
    (A : List Piece) : ∃ ds, DeclareBody A ms ds
      ∧ ReadsAll true A (bodyRow ms ++ [mark '\n']) B ds := by
  have hnl : ∀ p ∈ [mark '\n'], p = mark '\n' := by simp
  induction ms generalizing A with
  | nil => exact ⟨[], .nil A, .done_of_brace hnl hB⟩
  | cons m ms ih =>
    obtain ⟨ds, hds, hlater⟩ := ih (A ++ mark '\n' :: m.row)
    have hnext : nextKind (bodyRow ms ++ [mark '\n'] ++ B) = .newline := by
      cases ms with
      | nil =>
        rw [bodyRow, List.flatMap_nil, List.nil_append, List.singleton_append, nextKind_mark]
        rfl
      | cons n ns =>
        rw [bodyRow_cons, List.append_assoc, List.append_assoc, List.cons_append, nextKind_mark]
        rfl
    obtain ⟨d, hd, hhead⟩ := m.exists_reads_head hnext (A ++ [mark '\n'])
    have hfirst : nextKind (m.row ++ (bodyRow ms ++ [mark '\n'] ++ B))
        ∉ [.newline, .semicolon, .rightBrace, .endOfFile] := by
      have hk := m.nextKind_row (bodyRow ms ++ [mark '\n'] ++ B)
      intro hmem
      generalize nextKind _ = k at hk hmem
      revert k
      decide
    have hall := ReadsAll.complete hnl hfirst hhead m.kinds_row (by simpa using hlater)
    refine ⟨d :: ds, .cons hd hds, ?_⟩
    rw [bodyRow_cons, List.append_assoc, List.cons_append]
    exact hall

/-! ## Records -/

namespace PlainRecord

variable (r : PlainRecord)

/-- The pieces before the block of a record's source. -/
def front : List Piece := [mark '@', nameOf "Equatable", mark '\n'] ++ r.headerRow

/-- A declaration declares a record in the plain layout. -/
structure IsDeclaredBy (d : Declaration) : Prop where
  kind : d.kind = .struct
  name : d.name = some r.name
  attributes : d.attributes = [attributeAt [] "Equatable"]
  access : d.access? = r.access
  inherited : d.inherited = r.supertypes.map escape
  members : ∃ ds, d.members = some ds ∧ DeclareBody (r.front ++ [mark '\x7b']) r.members ds
  span : d.span = ⟨0, width ([mark '@', nameOf "Equatable", mark '\n'] ++ r.declarationRow)⟩

theorem reads_head (hB : nextKind B = .leftBrace) : Reads head [] r.front B (.type
    { Declaration.ofKind .struct .none with
      name := some r.name, inherited := r.supertypes.map escape,
      attributes := [attributeAt [] "Equatable"],
      modifiers := accessModifiers [mark '@', nameOf "Equatable", mark '\n'] r.access,
      span := ⟨0, 1⟩ }) := by
  have hstruct : ∀ C, nextKind (r.structRow ++ C) = .structKw := by
    intro C
    rw [structRow, List.append_assoc, List.cons_append, nextKind_bare]
    decide
  have hmods := reads_modifiers_access (A := [mark '@', nameOf "Equatable", mark '\n']) r.access
    (X := []) (B := r.structRow ++ B) (by rw [List.nil_append, hstruct]; decide)
    (reads_modifiers_nil (by rw [hstruct]; decide) _)
  rw [List.append_nil, List.append_nil] at hmods
  have hnext : nextKind (Comparison.accessRow r.access ++ (r.structRow ++ B))
      ∈ [.ident, .structKw] := by
    rw [nextKind_accessRow, hstruct]
    split <;> decide
  have hne : ∀ k ∉ [TokenKind.ident, .structKw],
      nextKind ([] ++ (Comparison.accessRow r.access ++ (r.structRow ++ B))) ≠ k := by
    rintro k hnot rfl
    exact hnot hnext
  have hattrs : Reads attributes [] [mark '@', nameOf "Equatable", mark '\n']
      (Comparison.accessRow r.access ++ (r.structRow ++ B)) [attributeAt [] "Equatable"] :=
    reads_attributes_cons (X := []) (by decide) (by rw [List.cons_append, nextKind_mark]; decide)
      (by rw [List.cons_append, nextKind_mark]; decide)
      (reads_skipNewlines_newline (hne .newline (by decide)) _)
      (reads_attributes_nil (hne .atSign (by decide)) _)
  have ho : ∀ A, (amid A (r.structRow ++ B)).opening? = some (.type .struct) := by
    intro A
    rw [Cursor.opening?, kind_amid_eq, hstruct]
  exact reads_head_type hattrs hmods (ho _)
    (reads_structHeader r.isIdentifier_name r.isIdentifier_supertypes hB)

/-- **A record's source declares that record and nothing else**, without errors. -/
theorem exists_declaration : ∃ d, r.IsDeclaredBy d
    ∧ (Reading.ofSource r.source).diagnostics = []
    ∧ (Reading.ofSource r.source).file.declarations = [d] := by
  have hnone : ∀ p ∈ ([] : List Piece), p = mark '\n' := by simp
  have hnl : ∀ p ∈ [mark '\n'], p = mark '\n' := by simp
  obtain ⟨ds, hds, hinner⟩ := exists_readsAll_bodyRow (B := mark '\x7d' :: ([mark '\n'] ++ []))
    (by rw [nextKind_mark]; rfl) r.members (r.front ++ [mark '\x7b'])
  have hfirst : nextKind (r.front ++ mark '\x7b' :: (bodyRow r.members ++ [mark '\n']
      ++ mark '\x7d' :: ([mark '\n'] ++ []))) ∉ [.newline, .semicolon, .rightBrace, .endOfFile] := by
    rw [front, List.append_assoc, List.cons_append, nextKind_mark]
    decide
  have hread : ReadsAll false _ _ _ _ := .block (A := []) (Z := [mark '\n']) (B := []) hnone hfirst
    (r.reads_head (by rw [nextKind_mark]; rfl)) hinner (.done_of_end hnl)
  have hrow : [] ++ (r.front ++ mark '\x7b' :: (bodyRow r.members ++ [mark '\n']
      ++ mark '\x7d' :: [mark '\n'])) = r.row := by
    simp [front, row, declarationRow]
  rw [hrow] at hread
  obtain ⟨hlex, hfile⟩ := ofSource_of_row r.text_row.symm r.isRow_row r.isSound_row hread
  refine ⟨_, ⟨rfl, rfl, rfl, ?_, rfl, ⟨ds, rfl, hds⟩, ?_⟩, ?_, by rw [hfile]⟩
  · cases r.access <;> rfl
  · have hwidth : r.front ++ [mark '\x7b'] ++ (bodyRow r.members ++ [mark '\n']) ++ [mark '\x7d']
        = [mark '@', nameOf "Equatable", mark '\n'] ++ r.declarationRow := by
      simp [front, declarationRow]
    have hpos : 1 ≤ width ([mark '@', nameOf "Equatable", mark '\n'] ++ r.declarationRow) := by
      rw [List.cons_append, width_cons]
      exact Nat.le_add_right _ _
    rw [← hwidth] at hpos ⊢
    exact Span.merge_of_le (Nat.zero_le _) hpos
  · rw [Reading.diagnostics, hlex, hfile]
    rfl

end PlainRecord

end Memberwise
