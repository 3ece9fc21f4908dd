import Memberwise.Proofs.Expansion.ReadBack
import Memberwise.Proofs.Record.ReadPlain

/-!
# Proofs/Expansion/PlainRecord — what a record in the plain layout expands to

Edits that are made from front to back copy the source up to each of them, so what is written can be
told from how far the source would have been copied (`Splice.Writes`).  Cutting out an attribute
leaves it as it is, and putting in an extension adds its text.

* `SourceExpansion.ofSource_plain` — **the expansion of a plain record, to the letter**: the record
  without the attributes consumed, and after it the extension that compares the eligible members.
-/

namespace Memberwise

open Text Token

/-! ## Copying and cutting -/

namespace Splice

variable {s : Splice} {source before after out : List Char}

/-- What is written when the source is copied up to the end of a text that it begins with. -/
def Writes (s : Splice) (before out : List Char) : Prop :=
  ∃ front mid, before = front ++ mid ∧ s.position = byteLength front ∧ out = s.written ++ mid

theorem writes_start : start.Writes [] [] := ⟨[], [], rfl, rfl, rfl⟩

/-- Copying on writes what is copied. -/
theorem Writes.copy (h : s.Writes before out) (text : List Char) :
    s.Writes (before ++ text) (out ++ text) := by
  obtain ⟨front, mid, rfl, hp, rfl⟩ := h
  exact ⟨front, mid ++ text, List.append_assoc .., hp, List.append_assoc ..⟩

theorem Writes.exists_slice? (h : s.Writes before out) (hs : source = before ++ after) :
    ∃ mid, slice? s.position (byteLength before) source = some mid ∧ out = s.written ++ mid := by
  obtain ⟨front, mid, rfl, hp, rfl⟩ := h
  exact ⟨mid, by rw [hs, hp, byteLength_append, slice?_append], rfl⟩

/-- Copying to the end writes the rest of the source. -/
theorem Writes.finish (h : s.Writes before out) (hs : source = before ++ after) :
    s.finish source = out ++ after := by
  obtain ⟨front, mid, rfl, hp, rfl⟩ := h
  rw [Splice.finish, hp, hs, List.append_assoc, drop?_byteLength_append, Option.getD_some,
    List.append_assoc]

/-- Putting in a text writes it. -/
theorem Writes.insertion (h : s.Writes before out) (hs : source = before ++ after)
    (text : List Char) :
    (edit source s (.insertion (byteLength before) text)).Writes before (out ++ text) := by
  obtain ⟨mid, hslice, rfl⟩ := h.exists_slice? hs
  refine ⟨before, [], (List.append_nil _).symm, ?_, ?_⟩ <;> simp only [edit, Edit.position, hslice]
  exact (List.append_nil _).symm

/-- What begins with no blank and no line end is left alone after an attribute. -/
theorem skip_ink (h : after.head?.all (!Removal.isGap ·) = true) :
    after.takeWhile isInlineSpace = [] ∧ after.dropWhile isInlineSpace = after
      ∧ lineEndLength after = 0 := by
  cases after with
  | nil => exact ⟨rfl, rfl, rfl⟩
  | cons c after =>
    simp only [List.head?_cons, Option.all_some, Removal.isGap, Bool.not_eq_true',
      Bool.or_eq_false_iff, beq_eq_false_iff_ne] at h
    obtain ⟨⟨hspace, hreturn⟩, hnewline⟩ := h
    refine ⟨List.takeWhile_cons_of_neg (by simp [hspace]),
      List.dropWhile_cons_of_neg (by simp [hspace]), ?_⟩
    unfold lineEndLength
    split
    case h_1 h => exact absurd (List.cons.inj h).1 hreturn
    case h_2 h => exact absurd (List.cons.inj h).1 hnewline
    case h_3 => rfl

/-- **Cutting out an attribute writes nothing**, and the space after it is gone with it. -/
theorem Writes.removal (h : s.Writes before out) (attr : List Char)
    (hs : source = before ++ attr ++ ' ' :: after)
    (hafter : after.head?.all (!Removal.isGap ·) = true) :
    (edit source s (.removal ⟨byteLength before, byteLength (before ++ attr)⟩)).Writes
      (before ++ attr ++ [' ']) out := by
  obtain ⟨mid, hslice, rfl⟩ := h.exists_slice? (hs.trans (List.append_assoc ..))
  obtain ⟨htake, hdrop, hline⟩ := skip_ink hafter
  have hrest : (drop? (byteLength (before ++ attr)) source).getD [] = ' ' :: after := by
    rw [hs, drop?_byteLength_append, Option.getD_some]
  have hskip : skipAttribute source (byteLength (before ++ attr)) (s.written ++ mid)
      = ⟨s.written ++ mid, byteLength (before ++ attr) + byteLength [' ']⟩ := by
    rw [skipAttribute, hrest, List.takeWhile_cons_of_pos rfl, List.dropWhile_cons_of_pos rfl, htake,
      hdrop, hline]
    cases dropIndent? (s.written ++ mid) <;> rfl
  refine ⟨before ++ attr ++ [' '], [], (List.append_nil _).symm, ?_, ?_⟩ <;>
    simp only [edit, Edit.position, hslice, hskip]
  · rw [byteLength_append (before ++ attr)]
  · exact (List.append_nil _).symm

/-- **An attribute on a line of its own is cut out with the line**, at the beginning of a source. -/
theorem removal_line {attr : List Char} (hs : source = attr ++ '\n' :: after) :
    (edit source .start (.removal ⟨0, byteLength attr⟩)).Writes (attr ++ ['\n']) [] := by
  obtain ⟨mid, hslice, hmid⟩ := writes_start.exists_slice? (show source = [] ++ source from rfl)
  have hrest : (drop? (byteLength attr) source).getD [] = '\n' :: after := by
    rw [hs, drop?_byteLength_append, Option.getD_some]
  have hskip : skipAttribute source (byteLength attr) ([] ++ [])
      = ⟨[], byteLength attr + byteLength ['\n']⟩ := by
    rw [skipAttribute, hrest, List.takeWhile_cons_of_neg (by decide),
      List.dropWhile_cons_of_neg (by decide)]
    rfl
  obtain rfl : mid = [] := hmid.symm
  change slice? 0 0 source = some [] at hslice
  refine ⟨attr ++ ['\n'], [], (List.append_nil _).symm, ?_, ?_⟩ <;>
    simp only [edit, Edit.position, start, hslice, hskip]
  · rw [byteLength_append]
  · rfl

end Splice

/-! ## The expected text -/

/-- The property without the markers that keep it out. -/
def PlainMember.unmarked (m : PlainMember) : PlainMember :=
  { m with
    attributes := m.attributes.filter (· != "SkipEquatable")
    isIdentifier_attributes := fun a ha => m.isIdentifier_attributes a (List.mem_filter.mp ha).1 }

/-- Whether nothing at a property keeps it out: it is not static, and none of its attributes is a
wrapper or the marker. -/
def PlainMember.isAdmitted (m : PlainMember) : Bool :=
  !m.isStatic && m.attributes.all fun a =>
    !ExclusionRules.standardWrappers.contains a && a != "SkipEquatable"

namespace PlainRecord

variable (r : PlainRecord)

/-- The record without the markers of its properties. -/
def unmarked : PlainRecord := { r with members := r.members.map PlainMember.unmarked }

/-- Whether a property is compared: it is admitted, and is not the body of a view. -/
def compares (m : PlainMember) : Bool :=
  m.isAdmitted && !(r.supertypes.contains "View" && m.name == "body")

/-- The names compared, in the order of the properties. -/
def comparedNames : List String := (r.members.filter r.compares).map (·.name)

/-- The extension that compares some names, as it is printed. -/
def extensionText (names : List String) : String :=
  "extension " ++ r.name ++ ": Equatable \x7b\n    " ++ accessText r.access
    ++ "static func ==(lhs: " ++ r.name ++ ", rhs: " ++ r.name ++ ") -> Bool \x7b\n        return "
    ++ String.intercalate " && " (names.map fun name =>
      "lhs." ++ escape name ++ " == rhs." ++ escape name)
    ++ "\n    \x7d\n\x7d"

/-- What is put in after the declaration. -/
def additionText : String :=
  match r.comparedNames with
  | [] => ""
  | names => "\n\n" ++ r.extensionText names

/-- What the source expands to. -/
def expanded : String := r.unmarked.text ++ r.additionText ++ "\n"

/-! ## The extension -/

/-- The extension that compares some names of a record. -/
def comparison (first : String) (later : List String) : Comparison :=
  ⟨r.name, r.access, first, later⟩

theorem isIdentifier_comparedNames : ∀ name ∈ r.comparedNames, isIdentifier name = true := by
  intro name hname
  obtain ⟨m, -, rfl⟩ := List.mem_map.mp hname
  exact m.isIdentifier_name

theorem isProper_comparison {r : PlainRecord} {first : String} {later : List String}
    (hnames : r.comparedNames = first :: later) : (r.comparison first later).IsProper := by
  have hall := r.isIdentifier_comparedNames
  rw [hnames] at hall
  exact ⟨r.isIdentifier_name, hall first List.mem_cons_self,
    fun name hname => hall name (List.mem_cons_of_mem _ hname)⟩

/-- The extension is printed to the letter. -/
theorem render_comparison (first : String) (later : List String) :
    (r.comparison first later).extension.render.toList
      = (r.extensionText (first :: later)).toList := by
  have hfield : ∀ name, (Comparison.fieldRow name).flatMap Piece.text
      = ("lhs." ++ escape name ++ " == rhs." ++ escape name).toList := by
    intro name
    simp [Comparison.fieldRow, nameOf]
  have hname : (nameOf r.name).text = r.name.toList := by
    simp [nameOf, escape, r.not_isReserved_name]
  have hbody : (r.comparison first later).bodyRow.flatMap Piece.text
      = (String.intercalate " && " ((first :: later).map fun name =>
        "lhs." ++ escape name ++ " == rhs." ++ escape name)).toList := by
    rw [toList_intercalate_cons, Comparison.bodyRow, List.flatMap_append, List.flatMap_assoc, hfield]
    simp only [List.flatMap_append, hfield]
    rfl
  have htype : (r.comparison first later).type = r.name := rfl
  have haccess : (r.comparison first later).access = r.access := rfl
  rw [Extension.render, toList_layOut, Comparison.chars_fragments]
  unfold extensionText
  simp only [Comparison.row, Extension.printedRow, Comparison.signatureRow, List.flatMap_append, List.flatMap_cons,
    List.flatMap_nil, hbody, htype, haccess, hname, text_accessRow, String.toList_append]
  simp [LineEnding.row, List.replicate_succ]

end PlainRecord

/-! ## What is compared -/

theorem names_attributesAt (A : List Piece) (as : List String) :
    (attributesAt A as).map (·.name) = as := by
  induction as generalizing A with
  | nil => rfl
  | cons a as ih => rw [attributesAt, List.map_cons, ih]; rfl

namespace PlainMember

variable {m : PlainMember} {A : List Piece} {d : Declaration}

theorem IsDeclaredBy.exists_ownBindings (h : m.IsDeclaredBy A d) :
    ∃ b : Binding, b.pattern = .name m.name ∧ d.ownBindings = [(d, b)] := by
  obtain ⟨A', hk⟩ := h.kind
  refine ⟨Parser.bindingAt A' m.name m.type, rfl, ?_⟩
  rw [Declaration.ownBindings, Declaration.property?, hk]
  rfl

theorem IsDeclaredBy.admits_iff (h : m.IsDeclaredBy A d) :
    ExclusionRules.standard.Admits d ↔ m.isAdmitted = true := by
  have hmodifiers : (∀ x ∈ d.modifiers, x.kind ≠ .static ∧ x.kind ≠ .class)
      ↔ m.isStatic = false := by
    have hall : (∀ x ∈ d.modifiers, x.kind ≠ .static ∧ x.kind ≠ .class)
        ↔ ∀ k ∈ d.modifiers.map (·.kind), k ≠ .static ∧ k ≠ .class := by simp
    rw [hall, h.modifiers]
    cases m.isStatic <;> simp
  have hattributes : (∀ a ∈ d.attributes, a.name ∉ ExclusionRules.standardWrappers
        ∧ a.name ≠ "SkipEquatable")
      ↔ ∀ a ∈ m.attributes, a ∉ ExclusionRules.standardWrappers ∧ a ≠ "SkipEquatable" := by
    rw [h.attributes, ← List.forall_mem_map (f := Attribute.name)
      (P := fun a => a ∉ ExclusionRules.standardWrappers ∧ a ≠ "SkipEquatable"), names_attributesAt]
  refine (and_congr hmodifiers hattributes).trans ?_
  simp [isAdmitted]

end PlainMember

namespace PlainRecord

variable {r : PlainRecord} {d : Declaration}

/-- A name is written as the view marker only if it is that. -/
theorem escape_eq_view_iff {name : String} : escape name = "View" ↔ name = "View" := by
  constructor
  · intro h
    cases hr : isReserved name with
    | false => rwa [escape, hr] at h
    | true =>
      have htext := congrArg String.toList h
      change (nameOf name).text = _ at htext
      rw [text_nameOf_of_isReserved hr] at htext
      cases (List.cons.inj htext).1
  · rintro rfl
    decide

theorem eligible_iff {m : PlainMember} {A : List Piece} (h : m.IsDeclaredBy A d) {b : Binding}
    (hb : b.pattern = .name m.name) :
    ExclusionRules.standard.Eligible (r.supertypes.map escape) d b m.name
      ↔ r.compares m = true := by
  have hview : (∃ marker ∈ r.supertypes.map escape,
        ExclusionRules.standard.viewMarker = some marker) ↔ "View" ∈ r.supertypes := by
    simp [ExclusionRules.standard, escape_eq_view_iff]
  rw [ExclusionRules.Eligible, h.admits_iff, hb, hview, compares]
  have hrole : ExclusionRules.standard.roleMember = "body" := rfl
  simp [Pattern.name?, hrole, imp_iff_not_or, or_comm]

/-- **The names eligible in a record's declaration are those compared.** -/
theorem filterMap_eligible {A : List Piece} {ms : List PlainMember} {ds : List Declaration}
    (h : DeclareBody A ms ds) : ((ds.flatMap Declaration.ownBindings).filterMap fun (p, b) =>
      b.pattern.name?.filter fun name =>
        ExclusionRules.standard.Eligible (r.supertypes.map escape) p b name)
      = (ms.filter r.compares).map (·.name) := by
  induction h with
  | nil => rfl
  | @cons A m ms d ds hd hds ih =>
    obtain ⟨b, hb, hown⟩ := hd.exists_ownBindings
    have helig := eligible_iff (r := r) hd hb
    rw [List.flatMap_cons, List.filterMap_append, ih, hown, List.filter_cons]
    by_cases hc : r.compares m = true
    · rw [if_pos hc, List.map_cons]
      simp [hb, Pattern.name?, Option.filter, helig.mpr hc]
    · rw [if_neg hc]
      simp [hb, Pattern.name?, Option.filter, mt helig.mp hc]

theorem IsDeclaredBy.eligibleNames (h : r.IsDeclaredBy d) :
    d.eligibleNames .standard = r.comparedNames := by
  obtain ⟨ds, hds, hbody⟩ := h.members
  rw [Declaration.eligibleNames, Declaration.blockBindings, hds, h.inherited]
  exact filterMap_eligible hbody

/-- Every property has a plain name. -/
theorem filter_malformed {A : List Piece} {ms : List PlainMember} {ds : List Declaration}
    (h : DeclareBody A ms ds) : ((ds.flatMap Declaration.ownBindings).filter fun (p, b) =>
      ExclusionRules.standard.Admits p ∧ b.pattern.name? = none) = [] := by
  induction h with
  | nil => rfl
  | cons hd hds ih =>
    obtain ⟨b, hb, hown⟩ := hd.exists_ownBindings
    rw [List.flatMap_cons, List.filter_append, ih, hown]
    simp [hb, Pattern.name?]

theorem IsDeclaredBy.bindingProblems (h : r.IsDeclaredBy d) :
    d.bindingProblems .standard = [] := by
  obtain ⟨ds, hds, hbody⟩ := h.members
  rw [Declaration.bindingProblems, Declaration.malformedBindings, Declaration.blockBindings, hds,
    Option.getD_some, filter_malformed hbody]
  rfl

/-- **A record in the plain layout expands to the extension that compares its eligible names**, and
nothing is reported. -/
theorem IsDeclaredBy.expand (h : r.IsDeclaredBy d) : d.expand .standard
    = ⟨match r.comparedNames with
        | [] => none
        | first :: later => some (r.comparison first later).extension, []⟩ := by
  have hne : r.name ≠ "" := by
    intro hname
    have hident := r.isIdentifier_name
    rw [hname] at hident
    cases hident
  obtain ⟨ds, hds, -⟩ := h.members
  have hrecord : d.IsRecord := ⟨h.kind, ⟨r.name, h.name, hne⟩, ds, hds⟩
  have hproper : d.HasProperNames .standard := by
    refine ⟨fun name hname => ?_, by rw [h.eligibleNames]; exact r.isIdentifier_comparedNames⟩
    obtain rfl := Option.some.inj (h.name.symm.trans hname)
    exact r.isIdentifier_name
  have heligible := h.eligibleNames
  cases hnames : r.comparedNames with
  | nil =>
    rw [Declaration.expand_of_no_names hrecord (heligible.trans hnames), h.bindingProblems]
  | cons first later =>
    rw [Declaration.expand_of_proper_names hrecord h.name (heligible.trans hnames) hproper,
      h.bindingProblems, h.access]
    rfl

end PlainRecord

/-! ## The edits -/

theorem find?_standard (name : String) : Registry.standard.find? name
    = if name = "SkipEquatable" then some .skipEquatable
      else if name = "Equatable" then some .equatable else none := by
  rw [Registry.standard, Registry.register, Registry.find?_insert, Registry.register,
    Registry.find?_insert, Registry.find?_empty]
  rfl

/-- The markers among attributes that are written after some pieces. -/
def markerSpans (A : List Piece) (as : List String) : List Span :=
  ((attributesAt A as).filter (·.name == "SkipEquatable")).map (·.span)

theorem PlainMember.IsDeclaredBy.markers {m : PlainMember} {A : List Piece} {d : Declaration}
    (h : m.IsDeclaredBy A d) : (d.attributesOfRole .standard .peer).map (·.span)
      = markerSpans (A ++ [space 3]) m.attributes := by
  rw [Declaration.attributesOfRole, h.attributes, markerSpans]
  refine congrArg (List.map _) (List.filter_congr fun a _ => ?_)
  rw [find?_standard]
  split_ifs with hskip hequatable <;> simp_all [Expander.role]

theorem markerSpans_cons (A : List Piece) (a : String) (as : List String) :
    markerSpans A (a :: as)
      = (if a = "SkipEquatable" then [⟨width A, width (A ++ [mark '@', nameOf a])⟩] else [])
        ++ markerSpans (A ++ [mark '@', nameOf a, space 0]) as := by
  rw [markerSpans, attributesAt]
  by_cases ha : a = "SkipEquatable"
  · rw [List.filter_cons_of_pos (by simp [Parser.attributeAt, ha]), if_pos ha]
    rfl
  · rw [List.filter_cons_of_neg (by simp [Parser.attributeAt, ha]), if_neg ha]
    rfl

namespace Splice

variable {s : Splice} {source : List Char} {A B K : List Piece}

/-- What is written of a row of pieces when the source is copied up to the end of a row. -/
def WritesRow (s : Splice) (A K : List Piece) : Prop :=
  s.Writes (A.flatMap Piece.text) (K.flatMap Piece.text)

theorem WritesRow.copy (h : s.WritesRow A K) (X : List Piece) : s.WritesRow (A ++ X) (K ++ X) := by
  rw [WritesRow, List.flatMap_append, List.flatMap_append]
  exact Writes.copy h _

theorem WritesRow.removal (h : s.WritesRow A K) (X : List Piece)
    (hs : source = (A ++ X ++ [space 0] ++ B).flatMap Piece.text)
    (hB : (B.flatMap Piece.text).head?.all (!Removal.isGap ·) = true) :
    (edit source s (.removal ⟨width A, width (A ++ X)⟩)).WritesRow (A ++ X ++ [space 0]) K := by
  have hsource : source = A.flatMap Piece.text ++ X.flatMap Piece.text
      ++ ' ' :: B.flatMap Piece.text := by
    rw [hs]
    simp
  have hcut := Writes.removal h _ hsource hB
  rw [← List.flatMap_append] at hcut
  have hsplit : (A ++ X ++ [space 0]).flatMap Piece.text
      = (A ++ X).flatMap Piece.text ++ [' '] := List.flatMap_append
  rw [WritesRow, hsplit]
  exact hcut

/-- **Markers are cut out**, the other attributes are copied. -/
theorem WritesRow.markers {as : List String} (h : s.WritesRow A K)
    (hs : source = (A ++ attributesRow as ++ B).flatMap Piece.text)
    (hB : (B.flatMap Piece.text).head?.all (!Removal.isGap ·) = true) :
    (((markerSpans A as).map Edit.removal).foldl (edit source) s).WritesRow
      (A ++ attributesRow as) (K ++ attributesRow (as.filter (· != "SkipEquatable"))) := by
  induction as generalizing A K s with
  | nil => simpa [markerSpans, attributesAt, attributesRow] using h
  | cons a as ih =>
    have hrow : A ++ attributesRow (a :: as)
        = A ++ [mark '@', nameOf a, space 0] ++ attributesRow as := by
      rw [attributesRow_cons, List.append_assoc]
    have hlater : ((attributesRow as ++ B).flatMap Piece.text).head?.all (!Removal.isGap ·)
        = true := by
      cases as with
      | nil => exact hB
      | cons b bs => simp +decide [attributesRow_cons]
    rw [hrow] at hs ⊢
    rw [markerSpans_cons]
    by_cases ha : a = "SkipEquatable"
    · have hsplit : source = (A ++ [mark '@', nameOf a] ++ [space 0]
          ++ (attributesRow as ++ B)).flatMap Piece.text := by
        rw [hs]
        simp
      have hcut := h.removal _ hsplit hlater
      rw [List.append_assoc] at hcut
      rw [if_pos ha, List.filter_cons_of_neg (by simp [ha])]
      exact ih hcut hs
    · have hkept := ih (h.copy [mark '@', nameOf a, space 0]) hs
      rw [List.append_assoc K] at hkept
      rw [if_neg ha, List.filter_cons_of_pos (by simpa using ha)]
      exact hkept

end Splice

/-- The pieces of a line after its attributes. -/
def PlainMember.propertyRow (m : PlainMember) : List Piece :=
  staticRow m.isStatic ++ Parser.propertyRow m.introducer m.name m.type

theorem PlainMember.row_eq (m : PlainMember) :
    m.row = [space 3] ++ attributesRow m.attributes ++ m.propertyRow := by
  simp [row, propertyRow]

/-- What comes after the attributes of a line begins with no blank and no line end. -/
theorem PlainMember.isInk_propertyRow (m : PlainMember) (B : List Piece) :
    ((m.propertyRow ++ B).flatMap Piece.text).head?.all (!Removal.isGap ·) = true := by
  cases hs : m.isStatic <;> cases hi : m.introducer <;>
    simp +decide [propertyRow, hs, hi, staticRow, Parser.propertyRow, Introducer.keyword]

/-- **A body is copied without its markers.** -/
theorem Splice.WritesRow.body {s : Splice} {source : List Char} {A B K : List Piece}
    {ms : List PlainMember} {ds : List Declaration} (hds : DeclareBody A ms ds)
    (h : s.WritesRow A K) (hs : source = (A ++ bodyRow ms ++ B).flatMap Piece.text) :
    (((ds.flatMap fun d => (d.attributesOfRole .standard .peer).map (·.span)).map
        Edit.removal).foldl (edit source) s).WritesRow
      (A ++ bodyRow ms) (K ++ bodyRow (ms.map PlainMember.unmarked)) := by
  induction hds generalizing s K with
  | nil => simpa [bodyRow] using h
  | @cons A m ms d ds hd hds ih =>
    have hrow : A ++ bodyRow (m :: ms) = A ++ mark '\n' :: m.row ++ bodyRow ms := by
      rw [bodyRow_cons, List.append_assoc]
    have hline : A ++ mark '\n' :: m.row = A ++ [mark '\n'] ++ [space 3]
        ++ attributesRow m.attributes ++ m.propertyRow := by
      simp [m.row_eq]
    rw [hrow] at hs ⊢
    have hline' : source = (A ++ [mark '\n'] ++ [space 3] ++ attributesRow m.attributes
        ++ (m.propertyRow ++ (bodyRow ms ++ B))).flatMap Piece.text := by
      rw [hs, hline]
      simp only [List.append_assoc]
    have hmarkers := WritesRow.markers ((h.copy [mark '\n']).copy [space 3]) hline'
      (m.isInk_propertyRow (bodyRow ms ++ B))
    have hproperty := hmarkers.copy m.propertyRow
    rw [← hline] at hproperty
    have hlater := ih hproperty hs
    have hkept : K ++ [mark '\n'] ++ [space 3]
        ++ attributesRow (m.attributes.filter (· != "SkipEquatable")) ++ m.propertyRow
        = K ++ mark '\n' :: m.unmarked.row := by
      simp [PlainMember.row_eq, PlainMember.unmarked, PlainMember.propertyRow]
    rw [hkept, List.append_assoc K] at hlater
    rw [List.flatMap_cons, List.map_append, List.foldl_append, hd.markers]
    exact hlater

/-- Nothing is declared inside a property. -/
theorem DeclareBody.descendants {A : List Piece} {ms : List PlainMember}
    {ds : List Declaration} (h : DeclareBody A ms ds) :
    (ds.flatMap fun m => m :: m.descendants) = ds := by
  induction h with
  | nil => rfl
  | cons hd hds ih =>
    rw [List.flatMap_cons, ih, Declaration.descendants_eq, hd.members]
    rfl

namespace PlainRecord

variable {r : PlainRecord} {d : Declaration}

theorem IsDeclaredBy.outcomes (h : r.IsDeclaredBy d) :
    d.outcomes .standard .standard = [d.expand .standard] := by
  rw [Declaration.outcomes, Declaration.attributesOfRole, h.attributes]
  rfl

theorem IsDeclaredBy.consumed (h : r.IsDeclaredBy d) {ds : List Declaration}
    (hds : d.members = some ds) (hbody : DeclareBody (r.front ++ [mark '\x7b']) r.members ds) :
    d.consumed .standard = (Parser.attributeAt [] "Equatable").span
      :: ds.flatMap fun m => (m.attributesOfRole .standard .peer).map (·.span) := by
  rw [Declaration.consumed, h.attributes, Declaration.descendants_eq, hds, Option.getD_some,
    hbody.descendants]
  rfl

theorem IsDeclaredBy.addition? (h : r.IsDeclaredBy d) :
    d.addition? .standard .standard = match r.comparedNames with
      | [] => none
      | first :: later => some ⟨d.span, [(r.comparison first later).extension]⟩ := by
  rw [Declaration.addition?, h.outcomes, h.expand]
  cases r.comparedNames <;> rfl

/-- The extension of a record reads back, since its name is not reserved. -/
theorem readBackFault?_comparison {first : String} {later : List String}
    (hnames : r.comparedNames = first :: later) :
    (r.comparison first later).extension.readBackFault? = none := by
  rw [Comparison.readBackFault?_eq (isProper_comparison hnames)]
  exact if_neg (by simp [comparison, r.not_isReserved_name])

theorem IsDeclaredBy.readBackProblems (h : r.IsDeclaredBy d) :
    (FileExpansion.ofDeclarations .standard .standard [d]).additions.flatMap
      (·.readBackProblems) = [] := by
  have hadded := h.addition?
  rw [FileExpansion.ofDeclarations_eq]
  cases hnames : r.comparedNames with
  | nil => simp [hadded, hnames]
  | cons first later =>
    simp [hadded, hnames, Addition.readBackProblems, readBackFault?_comparison hnames]

theorem IsDeclaredBy.readableAddition? (h : r.IsDeclaredBy d) :
    d.readableAddition? .standard .standard = match r.comparedNames with
      | [] => none
      | first :: later => some ⟨d.span, [(r.comparison first later).extension]⟩ := by
  rw [Declaration.readableAddition?, h.addition?]
  cases hnames : r.comparedNames with
  | nil => rfl
  | cons first later => simp [Addition.readable?, readBackFault?_comparison hnames]

/-- The text put in is the extension after an empty line. -/
theorem text_addition {first : String} {later : List String}
    (hnames : r.comparedNames = first :: later) (anchor : Span) :
    Addition.text .newline ⟨anchor, [(r.comparison first later).extension]⟩
      = r.additionText.toList := by
  have hrow := Comparison.apply_fragments (isProper_comparison hnames) .newline
  rw [← Comparison.chars_fragments, ← toList_layOut] at hrow
  rw [Addition.text, List.flatMap_singleton, ← toList_layOut, hrow]
  change _ ++ (r.comparison first later).extension.render.toList = _
  rw [render_comparison, additionText, hnames, String.toList_append]
  rfl

/-- The lines of a record's source end as its first one does. -/
theorem ofAnchor_source (stop : Nat) : LineEnding.ofAnchor r.source.toList ⟨0, stop⟩ = .newline := by
  rw [source, String.toList_append, String.toList_append, List.append_assoc]
  rfl

/-- What is put in after the declaration. -/
theorem IsDeclaredBy.insertions (h : r.IsDeclaredBy d) :
    ((d.readableAddition? .standard .standard).toList.map fun a =>
      Edit.insertion a.anchor.stop (a.text (.ofAnchor r.source.toList a.anchor)))
      = if r.comparedNames = [] then []
        else [.insertion d.span.stop r.additionText.toList] := by
  rw [h.readableAddition?]
  cases hnames : r.comparedNames with
  | nil => rfl
  | cons first later =>
    have hending : LineEnding.ofAnchor r.source.toList d.span = .newline := by
      rw [h.span]
      exact r.ofAnchor_source _
    dsimp only
    rw [if_neg (List.cons_ne_nil _ _), Option.toList_some, List.map_singleton, hending,
      text_addition hnames]

/-- **The edits of a record, made to its source**, come to the expected text. -/
theorem IsDeclaredBy.applyEdits (h : r.IsDeclaredBy d) :
    Memberwise.applyEdits r.source.toList (d.edits .standard .standard r.source.toList)
      = r.expanded.toList := by
  obtain ⟨ds, hds, hbody⟩ := h.members
  -- The first line is cut out, and the source is copied up to the body.
  have hsource : r.source.toList = (r.front ++ [mark '\x7b'] ++ bodyRow r.members
      ++ ([mark '\n', mark '\x7d'] ++ [mark '\n'])).flatMap Piece.text := by
    rw [← r.text_row, row, declarationRow, front]
    simp only [List.append_assoc, List.cons_append, List.nil_append]
  have hfirst : r.source.toList = ([mark '@', nameOf "Equatable"]).flatMap Piece.text
      ++ '\n' :: (r.declarationRow ++ [mark '\n']).flatMap Piece.text := by
    rw [← r.text_row, row]
    simp
  have hline : (Splice.edit r.source.toList .start
      (.removal (Parser.attributeAt [] "Equatable").span)).WritesRow
        [mark '@', nameOf "Equatable", mark '\n'] [] := Splice.removal_line hfirst
  have hfront := hline.copy (r.headerRow ++ [mark '\x7b'])
  rw [← List.append_assoc, ← front] at hfront
  -- The markers of the properties are cut out, and the rest of the declaration is copied.
  have hcut := (Splice.WritesRow.body hbody hfront hsource).copy [mark '\n', mark '\x7d']
  rw [Declaration.edits, h.consumed hds hbody, h.insertions, List.map_cons, List.cons_append,
    Memberwise.applyEdits, List.foldl_cons, List.foldl_append]
  generalize (List.map Edit.removal _).foldl _ _ = s at hcut ⊢
  have hkept : ([] ++ (r.headerRow ++ [mark '\x7b']) ++ bodyRow (r.members.map PlainMember.unmarked)
      ++ [mark '\n', mark '\x7d']).flatMap Piece.text = r.unmarked.text.toList := by
    rw [← r.unmarked.text_declarationRow, declarationRow]
    simp [unmarked, headerRow, structRow]
  have hstop : d.span.stop = byteLength ((r.front ++ [mark '\x7b'] ++ bodyRow r.members
      ++ [mark '\n', mark '\x7d']).flatMap Piece.text) := by
    rw [h.span, declarationRow, front, width]
    simp only [List.append_assoc, List.cons_append, List.nil_append]
  rw [← List.append_assoc, List.flatMap_append] at hsource
  rw [Splice.WritesRow, hkept] at hcut
  have hexpanded : r.expanded.toList
      = r.unmarked.text.toList ++ r.additionText.toList ++ [mark '\n'].flatMap Piece.text := by
    rw [expanded, String.toList_append, String.toList_append]
    rfl
  rw [hexpanded]
  split
  case isTrue hnone =>
    rw [List.foldl_nil, hcut.finish hsource, additionText, hnone]
    simp
  case isFalse =>
    have hput := hcut.insertion hsource r.additionText.toList
    rw [List.foldl_cons, List.foldl_nil, hstop, hput.finish hsource]

end PlainRecord

namespace SourceExpansion

/-- **The expansion of a record in the plain layout, to the letter.**  Nothing is reported.  The
expanded text is the source without the line of the attribute that asks for the extension and
without the markers of the properties; directly after the closing brace come an empty line and the
extension that compares exactly the eligible properties, in the order of the source and with the
access level of the record, unless no property is eligible. -/
theorem ofSource_plain (r : PlainRecord) :
    (ofSource .standard .standard r.source).diagnostics = []
      ∧ (ofSource .standard .standard r.source).output = r.expanded
      ∧ (ofSource .standard .standard r.source).count
        = if r.comparedNames = [] then 0 else 1 := by
  obtain ⟨d, hdecl, hdiag, hfile⟩ := r.exists_declaration
  obtain ⟨n, hseq⟩ := exists_sequence_ofSource r.source
  rw [hfile] at hseq
  have hadded := hdecl.readableAddition?
  have hexpand := hdecl.expand
  -- Nothing goes wrong in the expansion, and the extension reads back.
  have hproblems : expansionProblems .standard .standard [d] = [] := by
    simp [expansionProblems_eq, hdecl.outcomes, hexpand]
  have hcount : (FileExpansion.ofDeclarations .standard .standard [d]).readable.extensions.length
      = if r.comparedNames = [] then 0 else 1 := by
    rw [FileExpansion.extensions, FileExpansion.additions_readable]
    cases hnames : r.comparedNames <;> simp [hadded, hnames]
  have houtput : (FileExpansion.ofDeclarations .standard .standard [d]).readable.apply
      r.source.toList = r.expanded.toList := by
    rw [FileExpansion.apply, FileExpansion.edits_ofDeclarations _ _ hseq, List.flatMap_singleton]
    exact hdecl.applyEdits
  simp only [ofSource, hdiag, hfile, count, hproblems, hdecl.readBackProblems, hcount, houtput]
  simp

end SourceExpansion

end Memberwise
