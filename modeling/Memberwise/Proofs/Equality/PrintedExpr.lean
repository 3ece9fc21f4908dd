import Memberwise.Equality.Printer
import Memberwise.Proofs.Token.Row

/-!
# Proofs/Equality/PrintedExpr — a printed expression, piece by piece

An expression is printed as a row of names, marks and spaces (`Expr.row`), with parentheses where an
operand would be grouped otherwise.

* `Expr.text_row` — the printed text is that row;
* `Expr.isRow_row` — **and is cut up into it**, if all names in it are identifiers.
-/

namespace Memberwise

open Text Token

/-- An operator as a piece. -/
def BinaryOp.piece : BinaryOp → Piece
  | equal => pair '=' '='
  | and => pair '&' '&'

theorem BinaryOp.text_piece (op : BinaryOp) : op.piece.text = op.symbol.toList := by
  cases op <;> rfl

theorem BinaryOp.fits_piece (op : BinaryOp) (s : List Char) : op.piece.Fits s := by
  cases op <;> exact fits_pair (by decide) s

theorem BinaryOp.isSolid_piece (op : BinaryOp) (s : List Char) : IsSolid (op.piece.text ++ s) := by
  cases op <;> exact isSolid_cons.mpr (by decide)

namespace Expr

/-- Whether all names in an expression are identifiers. -/
def IsNamed : Expr → Prop
  | field base name => isIdentifier base = true ∧ isIdentifier name = true
  | binary _ l r => l.IsNamed ∧ r.IsNamed

/-- A row in parentheses, if they are needed. -/
def encloseRow (needed : Bool) (row : List Piece) : List Piece :=
  if needed then mark '(' :: row ++ [mark ')'] else row

/-- The pieces of a printed expression. -/
def row : Expr → List Piece
  | field base name => [nameOf base, mark '.', nameOf name]
  | binary op l r =>
    encloseRow (needsParentheses op false l) (row l) ++ [space 0, op.piece, space 0]
      ++ encloseRow (needsParentheses op true r) (row r)

/-! ## The row is what is printed -/

theorem chars_enclose {printed : List Fragment} {ps : List Piece}
    (h : chars printed = ps.flatMap Piece.text) (needed : Bool) :
    chars (enclose needed printed) = (encloseRow needed ps).flatMap Piece.text := by
  cases needed with
  | false => exact h
  | true => simp [enclose, encloseRow, h, Fragment.chars]

/-- **An expression is printed as its row.** -/
theorem text_row (e : Expr) : chars e.fragments = e.row.flatMap Piece.text := by
  induction e with
  | field base name => simp [fragments, row, Fragment.chars, nameOf]
  | binary op l r ihl ihr =>
    simp [fragments, row, chars_enclose ihl, chars_enclose ihr, Fragment.chars, op.text_piece]

/-! ## The row is cut up into its pieces -/

theorem isRow_encloseRow {ps : List Piece}
    (h : ∀ s, IsBounded s → IsRow ps s ∧ IsSolid (ps.flatMap Piece.text ++ s)) (needed : Bool)
    {s : List Char} (hs : IsBounded s) : IsRow (encloseRow needed ps) s
      ∧ IsSolid ((encloseRow needed ps).flatMap Piece.text ++ s) := by
  cases needed with
  | false => exact h s hs
  | true =>
    have hinner := (h (')' :: s) (isBounded_cons.mpr (by decide))).1
    simp +decide [encloseRow, fits_mark, hinner]

/-- **A printed expression is cut up into its pieces**, before whatever goes on with no name. -/
theorem isRow_row {e : Expr} (h : e.IsNamed) {s : List Char} (hs : IsBounded s) :
    IsRow e.row s ∧ IsSolid (e.row.flatMap Piece.text ++ s) := by
  induction e generalizing s with
  | field base name =>
    simp +decide [row, fits_mark, fits_nameOf h.1, fits_nameOf h.2, isSolid_nameOf h.1, hs]
  | binary op l r ihl ihr =>
    obtain ⟨hright, hsolid⟩ := isRow_encloseRow (fun _ => ihr h.2) (needsParentheses op true r) hs
    have hbefore : ∀ s, IsBounded (' ' :: s) := fun s => isBounded_cons.mpr (by decide)
    obtain ⟨hleft, hfirst⟩ := isRow_encloseRow (fun _ => ihl h.1) (needsParentheses op false l)
      (hbefore (op.piece.text ++ ' ' :: ((encloseRow (needsParentheses op true r)
        (row r)).flatMap Piece.text ++ s)))
    refine ⟨?_, by simpa [row] using hfirst⟩
    simp [row, fits_space, op.fits_piece, op.isSolid_piece, hleft, hright, hsolid]

/-! ## What the pieces are -/

theorem isSound_encloseRow {ps : List Piece} (h : ps.all (·.lexeme.isSound) = true)
    (needed : Bool) : (encloseRow needed ps).all (·.lexeme.isSound) = true := by
  cases needed with
  | false => exact h
  | true => simpa [encloseRow] using List.all_eq_true.mp h

theorem isSound_row (e : Expr) : e.row.all (·.lexeme.isSound) = true := by
  induction e with
  | field => simp [row]
  | binary op l r ihl ihr =>
    have hop : op.piece.lexeme.isSound = true := by cases op <;> rfl
    simp only [row, List.all_append, isSound_encloseRow ihl, isSound_encloseRow ihr]
    simp [hop]

theorem not_mem_encloseRow {ps : List Piece} (h : ∀ p ∈ ps, '\n' ∉ p.text) (needed : Bool) :
    ∀ p ∈ encloseRow needed ps, '\n' ∉ p.text := by
  cases needed with
  | false => exact h
  | true => simpa [encloseRow, or_imp, forall_and] using h

/-- An expression is printed in one line. -/
theorem not_mem_row {e : Expr} (h : e.IsNamed) : ∀ p ∈ e.row, '\n' ∉ p.text := by
  induction e with
  | field => simp [row, not_mem_nameOf h.1, not_mem_nameOf h.2]
  | binary op l r ihl ihr =>
    have hop : '\n' ∉ op.piece.text := by cases op <;> decide
    have hleft := not_mem_encloseRow (ihl h.1) (needsParentheses op false l)
    have hright := not_mem_encloseRow (ihr h.2) (needsParentheses op true r)
    simpa [row, or_imp, forall_and, hop] using ⟨hleft, hright⟩

end Expr

end Memberwise
