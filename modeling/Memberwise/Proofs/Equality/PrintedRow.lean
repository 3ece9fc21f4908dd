import Memberwise.Expansion.Splice
import Memberwise.Proofs.Equality.PrintedExpr
import Memberwise.Proofs.Expansion.ComparedFields

/-!
# Proofs/Equality/PrintedRow — a printed extension, piece by piece

An extension is printed as a row of words, names, marks and spaces around those of its body
(`Extension.printedRow`), with line ends of either kind:

* `Extension.text_printedRow` — the printed text is that row;
* `Extension.isRow_printedRow` — and is cut up into it.

The extensions that declarations expand to compare some fields one after the other (`Comparison`), so

* `Comparison.words_append` — **it says the same with either kind of line end, before any text**.
-/

namespace Memberwise

open Text Token

/-! ## Line ends -/

namespace LineEnding

/-- The pieces of a line end. -/
def row : LineEnding → List Piece
  | newline => [mark '\n']
  | returnNewline => [carriageReturn, mark '\n']

theorem text_row (ending : LineEnding) : ending.row.flatMap Piece.text = ending.chars := by
  cases ending <;> rfl

theorem word?_row (ending : LineEnding) : ending.row.filterMap Piece.word? = [] := by
  cases ending <;> rfl

theorem isRow_row (ending : LineEnding) (s : List Char) : IsRow ending.row s := by
  cases ending with
  | newline => exact ⟨fits_mark (by decide) _, trivial⟩
  | returnNewline =>
    exact ⟨fits_carriageReturn (isSolid_cons.mpr (by decide)), fits_mark (by decide) _, trivial⟩

theorem isBounded_row (ending : LineEnding) (s : List Char) :
    IsBounded (ending.row.flatMap Piece.text ++ s) := by
  cases ending <;> exact isBounded_cons.mpr (by decide)

theorem apply_append (ending : LineEnding) (s t : List Char) :
    ending.apply (s ++ t) = ending.apply s ++ ending.apply t := List.flatMap_append

theorem apply_newline (ending : LineEnding) : ending.apply ['\n'] = ending.chars := by
  simp [apply]

theorem apply_of_not_mem (ending : LineEnding) {s : List Char} (h : '\n' ∉ s) :
    ending.apply s = s := by
  induction s with
  | nil => rfl
  | cons c s ih =>
    rw [List.mem_cons, not_or] at h
    have hc : c ≠ '\n' := fun hc => h.1 hc.symm
    rw [apply, List.flatMap_cons, if_neg hc, ← apply, ih h.2]
    rfl

theorem apply_text (ending : LineEnding) {ps : List Piece} (h : ∀ p ∈ ps, '\n' ∉ p.text) :
    ending.apply (ps.flatMap Piece.text) = ps.flatMap Piece.text := by
  refine ending.apply_of_not_mem fun hmem => ?_
  obtain ⟨p, hp, hc⟩ := List.mem_flatMap.mp hmem
  exact h p hp hc

end LineEnding

/-! ## The row of an extension -/

/-- The extension that compares some fields of a type, by what it is made of. -/
structure Comparison where
  type : String
  access : Option Access
  first : String
  later : List String

namespace Comparison

/-- The comparisons joined from the left. -/
def body (c : Comparison) : Expr :=
  c.later.foldl (fun body name => .binary .and body (.fieldEqual name)) (.fieldEqual c.first)

/-- The extension itself. -/
def extension (c : Comparison) : Extension := .equatable c.type c.access c.body

/-- Whether all names are identifiers. -/
structure IsProper (c : Comparison) : Prop where
  type : isIdentifier c.type = true
  first : isIdentifier c.first = true
  later : ∀ name ∈ c.later, isIdentifier name = true

/-- The pieces of one comparison. -/
def fieldRow (name : String) : List Piece :=
  [bare "lhs", mark '.', nameOf name, space 0, pair '=' '=', space 0, bare "rhs", mark '.',
    nameOf name]

/-- The pieces of the comparisons. -/
def bodyRow (c : Comparison) : List Piece :=
  fieldRow c.first ++ c.later.flatMap fun name => [space 0, pair '&' '&', space 0] ++ fieldRow name

/-- The pieces of an access level and the space after it. -/
def accessRow (access : Option Access) : List Piece :=
  match access with
  | none => []
  | some level => [bare level.keyword, space 0]

/-- The pieces of the parameters, from the function's name to its brace. -/
def signatureRow (type : String) : List Piece :=
  [pair '=' '=', mark '(', bare "lhs", mark ':', space 0, nameOf type, mark ',', space 0,
    bare "rhs", mark ':', space 0, nameOf type, mark ')', space 0, pair '-' '>', space 0,
    bare "Bool", space 0, mark '\x7b']

end Comparison

/-- The pieces of a printed extension, around those of what its operator returns. -/
def Extension.printedRow (ending : LineEnding) (type : String) (access : Option Access)
    (body : List Piece) : List Piece :=
  [bare "extension", space 0, nameOf type, mark ':', space 0, bare "Equatable", space 0,
    mark '\x7b'] ++ ending.row
  ++ ([space 3] ++ Comparison.accessRow access ++ [bare "static", space 0, bare "func", space 0]
    ++ Comparison.signatureRow type) ++ ending.row
  ++ ([space 7, bare "return", space 0] ++ body) ++ ending.row
  ++ [space 3, mark '\x7d'] ++ ending.row ++ [mark '\x7d']

namespace Comparison

/-- The pieces of the printed extension. -/
def row (ending : LineEnding) (c : Comparison) : List Piece :=
  Extension.printedRow ending c.type c.access c.bodyRow

end Comparison

/-! ## The row is what is printed -/

/-- **An extension is printed as its row.** -/
theorem Extension.text_printedRow (type : String) (access : Option Access) (body : Expr) :
    chars (equatable type access body).fragments
      = (printedRow .newline type access body.row).flatMap Piece.text := by
  have hconf : String.intercalate ", " (List.map escape ["Equatable"]) = "Equatable" := by decide
  have hid : ∀ s : String, toString s = s := fun _ => rfl
  change chars (Extension.fragments ⟨type, ["Equatable"], ⟨access, type, body⟩⟩) = _
  simp only [Extension.fragments, Extension.header, EqualityFunction.fragments,
    EqualityFunction.header, chars_append, chars_cons, chars_nil, hconf, hid, printedRow,
    List.flatMap_append, LineEnding.text_row, Expr.text_row]
  cases access <;>
    simp [Fragment.chars, bare, mark, pair, space, Comparison.signatureRow, Comparison.accessRow,
      nameOf, LineEnding.chars, BinaryOp.symbol, Expr.leftOperand, Expr.rightOperand,
      Fragment.indentWidth, List.replicate_succ]

namespace Comparison

theorem row_fieldEqual (name : String) : (Expr.fieldEqual name).row = fieldRow name := by
  have hl : nameOf "lhs" = bare "lhs" := nameOf_of_not_isReserved (by decide)
  have hr : nameOf "rhs" = bare "rhs" := nameOf_of_not_isReserved (by decide)
  simp [Expr.fieldEqual, Expr.row, Expr.encloseRow, Expr.needsParentheses, fieldRow,
    Expr.leftOperand, Expr.rightOperand, BinaryOp.piece, hl, hr]

/-- Comparisons joined from the left are printed without parentheses. -/
theorem row_body (c : Comparison) : c.body.row = c.bodyRow := by
  have key : ∀ (later : List String) (e : Expr),
      (later.foldl (fun body name => .binary .and body (.fieldEqual name)) e).row
        = e.row ++ later.flatMap fun name => [space 0, pair '&' '&', space 0] ++ fieldRow name := by
    intro later
    induction later with
    | nil => simp
    | cons name later ih =>
      intro e
      have hl : Expr.needsParentheses .and false e = false := by
        cases e <;> simp [Expr.needsParentheses]
      have hr : Expr.needsParentheses .and true (.fieldEqual name) = false := rfl
      rw [List.foldl_cons, ih, Expr.row, hl, hr]
      simp [Expr.encloseRow, row_fieldEqual, BinaryOp.piece]
  rw [body, key, row_fieldEqual, bodyRow]

theorem isNamed_fieldEqual {name : String} (h : isIdentifier name = true) :
    (Expr.fieldEqual name).IsNamed :=
  ⟨⟨by decide, h⟩, by decide, h⟩

theorem isNamed_body {c : Comparison} (h : c.IsProper) : c.body.IsNamed := by
  have key : ∀ (later : List String), (∀ name ∈ later, isIdentifier name = true) →
      ∀ e : Expr, e.IsNamed →
        (later.foldl (fun body name => .binary .and body (.fieldEqual name)) e).IsNamed := by
    intro later hl
    induction later with
    | nil => exact fun _ he => he
    | cons name later ih =>
      intro e he
      exact ih (fun n hn => hl n (List.mem_cons_of_mem _ hn)) _
        ⟨he, isNamed_fieldEqual (hl name List.mem_cons_self)⟩
  exact key c.later h.later _ (isNamed_fieldEqual h.first)

/-- An extension is printed as its row. -/
theorem chars_fragments (c : Comparison) :
    chars c.extension.fragments = (c.row .newline).flatMap Piece.text := by
  rw [extension, Extension.text_printedRow, row_body, row]

section Proper

variable {c : Comparison}

theorem not_mem_bodyRow (h : c.IsProper) : ∀ p ∈ c.bodyRow, '\n' ∉ p.text :=
  row_body c ▸ Expr.not_mem_row (isNamed_body h)

theorem not_mem_accessRow (access : Option Access) : ∀ p ∈ accessRow access, '\n' ∉ p.text := by
  rcases access with _ | level
  · simp [accessRow]
  · cases level <;> simp [accessRow, Access.keyword]

theorem text_row (h : c.IsProper) (ending : LineEnding) :
    (c.row ending).flatMap Piece.text = ending.apply ((c.row .newline).flatMap Piece.text) := by
  have hsig : ∀ p ∈ signatureRow c.type, '\n' ∉ p.text := by
    simp [signatureRow, not_mem_nameOf h.type]
  simp only [row, Extension.printedRow, List.flatMap_append, LineEnding.apply_append, LineEnding.text_row,
    LineEnding.apply_text ending (not_mem_accessRow c.access),
    LineEnding.apply_text ending hsig, LineEnding.apply_text ending (not_mem_bodyRow h)]
  have hn : ending.apply LineEnding.newline.chars = ending.chars := ending.apply_newline
  rw [hn, ending.apply_text, ending.apply_text, ending.apply_text, ending.apply_text,
    ending.apply_text, ending.apply_text]
  all_goals simp [not_mem_nameOf h.type]

/-- **The printed text is the row**, with line ends of either kind. -/
theorem apply_fragments (h : c.IsProper) (ending : LineEnding) :
    ending.apply (chars c.extension.fragments) = (c.row ending).flatMap Piece.text := by
  rw [chars_fragments, ← text_row h ending]

/-! ## The row is cut up into its pieces -/

theorem isRow_accessRow (access : Option Access) {s : List Char} (hs : IsSolid s) :
    IsRow (accessRow access) s ∧ IsSolid ((accessRow access).flatMap Piece.text ++ s) := by
  rcases access with _ | level
  · exact ⟨trivial, hs⟩
  · cases level <;> simp +decide [accessRow, Access.keyword, fits_bare, fits_space, hs]

end Proper

end Comparison

/-- **A printed extension is cut up into its pieces**, whatever comes after it. -/
theorem Extension.isRow_printedRow {type : String} {body : Expr} (ht : isIdentifier type = true)
    (hbody : body.IsNamed) (ending : LineEnding) (access : Option Access) (s : List Char) :
    IsRow (printedRow ending type access body.row) s := by
  have hb : ∀ s, IsBounded (ending.row.flatMap Piece.text ++ s) := ending.isBounded_row
  have hr := ending.isRow_row
  have hacc := fun s hs => Comparison.isRow_accessRow access (s := s) hs
  have hrow := fun s => Expr.isRow_row hbody (hb s)
  simp +decide [printedRow, Comparison.signatureRow, fits_mark, fits_pair, fits_bare, fits_space,
    fits_nameOf ht, isSolid_nameOf ht, hrow, hr, hacc]

namespace Comparison

section Proper

variable {c : Comparison}

theorem isRow (h : c.IsProper) (ending : LineEnding) (s : List Char) : IsRow (c.row ending) s := by
  rw [row, ← row_body]
  exact Extension.isRow_printedRow h.type (isNamed_body h) ending c.access s

/-- **A printed extension says the same with either kind of line end**, before any text. -/
theorem words_append (h : c.IsProper) (ending : LineEnding) (s : List Char) :
    words (ending.chars ++ ending.chars ++ ending.apply (chars c.extension.fragments) ++ s)
      = words (chars c.extension.fragments) ++ words s := by
  have hwords : ∀ ending : LineEnding, (c.row ending).filterMap Piece.word?
      = (c.row .newline).filterMap Piece.word? := by
    intro ending
    simp only [row, Extension.printedRow, List.filterMap_append, LineEnding.word?_row]
  have hrow : IsRow (ending.row ++ ending.row ++ c.row ending) s :=
    isRow_append.mpr ⟨isRow_append.mpr ⟨ending.isRow_row _, ending.isRow_row _⟩, isRow h ending s⟩
  have hplain := words_row (isRow h .newline [])
  rw [List.append_nil] at hplain
  rw [apply_fragments h, ← ending.text_row, ← List.flatMap_append, ← List.flatMap_append,
    words_row hrow, chars_fragments, hplain, List.filterMap_append, List.filterMap_append,
    LineEnding.word?_row, hwords ending]
  simp [words_eq, pieces]

end Proper

end Comparison

/-- **What a declaration expands to is such an extension**, of the declaration's type. -/
theorem Declaration.exists_comparison {rules : ExclusionRules} {d : Declaration} {e : Extension}
    (h : (d.expand rules).result = some e) : ∃ c : Comparison, c.IsProper ∧ e = c.extension := by
  by_cases hr : d.IsRecord
  case neg =>
    obtain ⟨fault, he⟩ := expand_of_not_record rules hr
    rw [he] at h
    cases h
  by_cases hns : d.eligibleNames rules = []
  · rw [expand_of_no_names hr hns] at h
    cases h
  by_cases hp : d.HasProperNames rules
  case neg =>
    obtain ⟨fault, he⟩ := expand_of_improper_names hr hns hp
    rw [he] at h
    cases h
  obtain ⟨name, hn, -⟩ := hr.2.1
  obtain ⟨first, later, hc⟩ := List.exists_cons_of_ne_nil hns
  rw [expand_of_proper_names hr hn hc hp] at h
  obtain rfl := Option.some.inj h
  have hall := hp.2
  rw [hc] at hall
  exact ⟨⟨name, d.access?, first, later⟩, ⟨hp.1 name hn, hall first (by simp),
    fun n hm => hall n (List.mem_cons_of_mem _ hm)⟩, rfl⟩

end Memberwise
