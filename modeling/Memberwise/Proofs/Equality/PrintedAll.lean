import Memberwise.Expansion.OfFile
import Memberwise.Proofs.Equality.ReadBack
import Mathlib.Data.List.Forall2

/-!
# Proofs/Equality/PrintedAll — well-formed extensions, printed one after the other

Extensions that have no fault are printed with an empty line between two of them.  Whatever their
names and however their comparisons are joined, the text is a row of pieces (`rowAll`), and read
along that row it gives one declaration for each:

* `Extension.exists_readsAll_rowAll` — by induction on the extensions, each read before those after
  it, and so
* `FileExpansion.ofSource_renderAll` — **what is printed reads back, extension by extension**.
-/

namespace Memberwise

open Text Token Cursor
open Memberwise.Parser

/-! ## Well-formed extensions -/

namespace Expr

/-- An expression with no fault in any conjunct compares fields by their names. -/
theorem isNamed_of_conjuncts {e : Expr} (h : ∀ c ∈ e.conjuncts, c.comparisonFault? = none) :
    e.IsNamed := by
  induction e with
  | field base name => cases h (.field base name) (by simp)
  | binary op l r ihl ihr =>
    cases op with
    | equal =>
      obtain ⟨name, hn, he⟩ := comparisonFault?_eq_none.mp (h (.binary .equal l r) (by simp))
      rw [he]
      exact Comparison.isNamed_fieldEqual hn
    | and =>
      rw [conjuncts_and] at h
      exact ⟨ihl fun c hc => h c (List.mem_append_left _ hc),
        ihr fun c hc => h c (List.mem_append_right _ hc)⟩

end Expr

namespace Extension

/-- An extension of a type by a comparison of its own values, with identifiers for names. -/
structure IsProper (e : Extension) : Prop where
  type : isIdentifier e.extendedType = true
  body : e.function.body.IsNamed
  eq_equatable : e = .equatable e.extendedType e.function.access e.function.body

/-- **An extension without a fault is proper.** -/
theorem isProper_of_fault? {e : Extension} (h : e.fault? = none) : e.IsProper := by
  rw [fault?] at h
  split at h
  · cases h
  rename_i ht
  split at h
  · cases h
  rename_i ho
  split at h
  · cases h
  rename_i hc
  refine ⟨by simpa using ht, Expr.isNamed_of_conjuncts (List.findSome?_eq_none_iff.mp h), ?_⟩
  obtain ⟨type, conformances, access, operand, body⟩ := e
  simp only [ne_eq, Decidable.not_not] at ho hc
  subst ho hc
  rfl

/-- The pieces of an extension as it is printed. -/
def pieces (e : Extension) : List Piece :=
  printedRow .newline e.extendedType e.function.access e.function.body.row

/-- The pieces after those of an extension: the end of its line and the extensions after it, each
between an empty line and the end of its own. -/
def laterRow (es : List Extension) : List Piece :=
  mark '\n' :: es.flatMap fun e => mark '\n' :: (e.pieces ++ [mark '\n'])

/-- The pieces of extensions as they are printed. -/
def rowAll : List Extension → List Piece
  | [] => []
  | e :: es => e.pieces ++ laterRow es

variable {e : Extension} {es : List Extension}

/-! ## The row is what is printed -/

theorem IsProper.text_pieces (h : e.IsProper) :
    e.render.toList = e.pieces.flatMap Piece.text := by
  rw [render, toList_layOut, h.eq_equatable, text_printedRow]
  rfl

/-- **Extensions are printed as their row.** -/
theorem text_rowAll (h : ∀ e ∈ es, e.IsProper) :
    (renderAll es).toList = (rowAll es).flatMap Piece.text := by
  cases es with
  | nil => rfl
  | cons e es =>
    have hlater : es.flatMap (fun e => "\n".toList ++ (e.render ++ "\n").toList)
        = es.flatMap fun e => (mark '\n' :: (e.pieces ++ [mark '\n'])).flatMap Piece.text := by
      refine List.flatMap_congr fun e he => ?_
      have htext := (h e (List.mem_cons_of_mem _ he)).text_pieces
      simp [String.toList_append, htext]
    rw [renderAll, toList_intercalate_cons, hlater, String.toList_append,
      (h e List.mem_cons_self).text_pieces, rowAll, laterRow, ← List.flatMap_assoc]
    simp

theorem isRow_pieces (h : e.IsProper) (s : List Char) : IsRow e.pieces s :=
  isRow_printedRow h.type h.body .newline _ s

/-- **The printed text is cut up into its pieces.** -/
theorem isRow_rowAll (h : ∀ e ∈ es, e.IsProper) (s : List Char) : IsRow (rowAll es) s := by
  cases es with
  | nil => trivial
  | cons e es =>
    have hnl : ∀ s, (mark '\n').Fits s := fits_mark (by decide)
    have hlater : IsRow (es.flatMap fun e => mark '\n' :: (e.pieces ++ [mark '\n'])) s := by
      replace h := fun e he => h e (List.mem_cons_of_mem _ he)
      clear e
      induction es with
      | nil => trivial
      | cons e es ih =>
        rw [List.flatMap_cons]
        refine isRow_append.mpr ⟨⟨hnl _, isRow_append.mpr ⟨?_, hnl _, trivial⟩⟩, ?_⟩
        · exact isRow_pieces (h e List.mem_cons_self) _
        · exact ih fun x hx => h x (List.mem_cons_of_mem _ hx)
    exact isRow_append.mpr ⟨isRow_pieces (h e List.mem_cons_self) _, hnl _, hlater⟩

theorem isSound_rowAll (es : List Extension) : ∀ p ∈ rowAll es, p.lexeme.isSound = true := by
  have hone : ∀ e : Extension, ∀ p ∈ e.pieces, p.lexeme.isSound = true := fun e =>
    isSound_printedRow e.extendedType e.function.access e.function.body.isSound_row
  cases es with
  | nil => simp [rowAll]
  | cons e es =>
    simp only [rowAll, laterRow, List.mem_append, List.mem_cons, List.mem_flatMap]
    rintro p (hp | rfl | ⟨e', -, rfl | hp | rfl | hp⟩)
    · exact hone e p hp
    · rfl
    · rfl
    · exact hone e' p hp
    · rfl
    · cases hp

/-! ## The row is read extension by extension -/

/-- **Extensions are read one by one**: the first, after the line ends before it, and then those
after it. -/
theorem exists_readsAll_laterRow (he : e.IsProper) (hes : ∀ x ∈ es, x.IsProper) {sep : List Piece}
    (hsep : ∀ p ∈ sep, p = mark '\n') (A : List Piece) : ∃ ds : List Declaration,
      List.Forall₂ IsReadAs (e :: es) ds
        ∧ ReadsAll false A (sep ++ (e.pieces ++ laterRow es)) [] ds := by
  have hbody : ∀ e : Extension, IsBalanced e.function.body.row := fun e =>
    e.function.body.isBalanced_row
  have hrow : ∀ e : Extension, e.pieces
      = row e.extendedType e.function.access e.function.body.row := fun e =>
    (row_eq_printedRow _ _ _).symm
  induction es generalizing e sep A with
  | nil =>
    have hend : ∀ p ∈ laterRow [], p = mark '\n' := by simp [laterRow]
    obtain ⟨d, hd, hread⟩ := exists_readsAll_row he.type (hbody e) hsep (A := A) (.done_of_end hend)
    exact ⟨[d], .cons hd .nil, by rw [hrow]; exact hread⟩
  | cons f es ih =>
    have hlines : ∀ p ∈ [mark '\n', mark '\n'], p = mark '\n' := by simp
    obtain ⟨ds, hds, hlater⟩ := ih (hes f List.mem_cons_self)
      (fun x hx => hes x (List.mem_cons_of_mem _ hx)) hlines (A ++ sep ++ row _ _ _)
    have hsplit : laterRow (f :: es) = [mark '\n', mark '\n'] ++ (f.pieces ++ laterRow es) := by
      simp [laterRow]
    obtain ⟨d, hd, hread⟩ := exists_readsAll_row he.type (hbody e) hsep hlater
    exact ⟨d :: ds, .cons hd hds, by rw [hrow, hsplit]; exact hread⟩

theorem exists_readsAll_rowAll (h : ∀ e ∈ es, e.IsProper) : ∃ ds : List Declaration,
    List.Forall₂ IsReadAs es ds ∧ ReadsAll false [] (rowAll es) [] ds := by
  have hnone : ∀ p ∈ ([] : List Piece), p = mark '\n' := by simp
  cases es with
  | nil => exact ⟨[], .nil, .done_of_end hnone⟩
  | cons e es =>
    exact exists_readsAll_laterRow (h e List.mem_cons_self)
      (fun x hx => h x (List.mem_cons_of_mem _ hx)) hnone []

end Extension

/-- **What is printed of well-formed extensions reads back, extension by extension**: without an
error, and in order, as one declaration for each. -/
theorem FileExpansion.ofSource_renderAll {f : FileExpansion}
    (h : ∀ e ∈ f.extensions, e.fault? = none) :
    (Reading.ofSource (Extension.renderAll f.extensions)).lexed.errors = []
      ∧ (Reading.ofSource (Extension.renderAll f.extensions)).file.errors = []
      ∧ List.Forall₂ Extension.IsReadAs f.extensions
          (Reading.ofSource (Extension.renderAll f.extensions)).file.declarations := by
  have hproper : ∀ e ∈ f.extensions, e.IsProper := fun e he => Extension.isProper_of_fault? (h e he)
  obtain ⟨ds, hds, hread⟩ := Extension.exists_readsAll_rowAll hproper
  obtain ⟨hlex, hfile⟩ := ofSource_of_row (Extension.text_rowAll hproper)
    (Extension.isRow_rowAll hproper []) (Extension.isSound_rowAll _) hread
  rw [hfile]
  exact ⟨hlex, rfl, hds⟩

/-- A type and a field with reserved names, a conjunction joined from the right, and a second type. -/
theorem FileExpansion.ofSource_renderAll_nested :
    let class' : Extension := .equatable "class" (some .public)
      (.binary .and (.fieldEqual "in") (.binary .and (.fieldEqual "a") (.fieldEqual "b")))
    let point : Extension := .equatable "Point" none (.fieldEqual "x")
    let f : FileExpansion := ⟨[⟨.none, [class', point]⟩], []⟩
    (∀ e ∈ f.extensions, e.fault? = none)
      ∧ (Reading.ofSource (Extension.renderAll f.extensions)).file.errors = []
      ∧ (Reading.ofSource (Extension.renderAll f.extensions)).file.declarations.map (·.name)
          = [some "\x60class\x60", some "Point"] := by
  intro class' point f
  have hfault : ∀ e ∈ f.extensions, e.fault? = none := by
    have hclass : class'.fault? = none := by decide +kernel
    have hpoint : point.fault? = none := by decide +kernel
    intro e he
    obtain rfl | rfl : e = class' ∨ e = point := by simpa [FileExpansion.extensions, f] using he
    · exact hclass
    · exact hpoint
  obtain ⟨-, herrors, hread⟩ := FileExpansion.ofSource_renderAll hfault
  refine ⟨hfault, herrors, ?_⟩
  rw [show f.extensions = [class', point] from rfl] at hread ⊢
  generalize (Reading.ofSource (Extension.renderAll [class', point])).file.declarations = ds at hread
  obtain ⟨d, later, hd, hlater, rfl⟩ := List.forall₂_cons_left_iff.mp hread
  obtain ⟨d', none, hd', hnone, rfl⟩ := List.forall₂_cons_left_iff.mp hlater
  obtain rfl := List.forall₂_nil_left_iff.mp hnone
  have hescape : escape "class" = "\x60class\x60" ∧ escape "Point" = "Point" := by decide
  rw [List.map_cons, List.map_cons, hd.name, hd'.name]
  change [some (escape "class"), some (escape "Point")] = _
  rw [hescape.1, hescape.2]

end Memberwise
