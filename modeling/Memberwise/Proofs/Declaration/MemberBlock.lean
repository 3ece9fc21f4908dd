import Memberwise.Proofs.Declaration.Concatenation
import Memberwise.Proofs.Declaration.ReadBlock

/-!
# Proofs/Declaration/MemberBlock — a member block is read like a file

A block ends at a line end and a closing brace where a file just ends.  What is read of a text
without errors comes to the same at both: everything that is left open at the end of the file stops
at the brace, and nothing that is read looks further back than the block begins.

* `exists_readsAll_block` — the declarations of a text are read in a block as in a file, so
* `Reading.ofSource_memberBlock` — **a text in the braces of a struct declares its members**.
-/

namespace Memberwise

open Text Token Cursor
open Memberwise.Parser

/-- **Pieces are read the same wherever they stand.** -/
theorem declarations_amid (inBlock : Bool) (A B : List Piece) : declarations inBlock (amid A B)
    = mapSpans (.move (width A)) (declarations inBlock (amid [] B)) := by
  refine declarations_moved (c := amid [] B) inBlock ?_ ?_ fun s => ?_
  · have hrest := rowTokens_add 0 (width A) B
    rwa [Nat.zero_add] at hrest
  · change width (A ++ B) = width B + width A
    rw [width_append, Nat.add_comm]
  · have hslice := slice?_append_right (A.flatMap Piece.text) (B.flatMap Piece.text) s.start s.stop
    rw [← List.flatMap_append] at hslice
    exact congrArg (Option.getD · []) hslice

/-- A block has no declarations left where only line ends come before its brace. -/
theorem declarations_of_brace {c : Cursor} {N : List Token} {t : Token}
    (hN : ∀ u ∈ N, u.kind = .newline) (hrest : c.rest = N ++ [t]) (ht : t.kind = .rightBrace) :
    declarations true c = .nothing N.length := by
  have hsep : c.separators = N.length := by
    rw [Cursor.separators, Cursor.countWhile, hrest,
      List.takeWhile_append_of_pos fun u hu => by simp [hN u hu]]
    simp [ht]
  have hends : (c.skip c.separators).Ends true := by
    refine .inr ⟨rfl, ?_⟩
    have hlast : (c.skip N.length).rest = [t] := by simp [hrest]
    rw [hsep, Cursor.kind, Cursor.current_of_rest hlast, ht]
  rw [declarations_of_ends hends, hsep]

theorem pieces_brace : pieces ['\x7d'] = [mark '\x7d'] := by
  have hfits : IsRow [mark '\x7d'] [] := ⟨fits_mark (by decide) _, trivial⟩
  have hrow := pieces_row hfits
  rwa [pieces] at hrow

/-- **A text without errors is read in a block as in a file**, up to the brace on the line after it. -/
theorem exists_readsAll_block {body : List Char} (hlex : (lexText body).errors = [])
    (h : (declarations false (.start body (lexText body).tokens)).errors = []) (A : List Piece) :
    ∃ ds, unplaced ds
        = unplaced (declarations false (.start body (lexText body).tokens)).declarations
      ∧ ReadsAll true A (mark '\n' :: (pieces body ++ [mark '\n'])) [mark '\x7d'] ds := by
  have hending := exists_ending hlex (b := ['\x7d'])
  rw [start_eq_amid, pieces_brace] at hending
  obtain ⟨q, hending⟩ := hending (by decide)
  have hend : ((amid [] [mark '\x7d']).skip (amid [] [mark '\x7d']).newlines).rest
      = [⟨.rightBrace, ⟨0, 1⟩⟩] := by decide
  rw [hend] at hending
  obtain ⟨j, N, ds, hN, hrest, hds, hd⟩ :=
    declarations_ending true hending h fun p _ _ => .inr rfl
  rw [declarations_of_brace hN hrest rfl, Parsed.behind, Parsed.nothing, List.append_nil] at hd
  have hrow : pieces (body ++ ['\n', '\x7d']) = pieces body ++ [mark '\n', mark '\x7d'] :=
    pieces_brace ▸ pieces_append_newline hlex ['\x7d']
  rw [start_eq_amid, hrow] at hrest hd
  have htaken : j + N.length = (kinds (pieces body)).length + 1 := by
    have hlen := congrArg List.length hrest
    rw [Cursor.length_rest_skip, length_rest_amid] at hlen
    simp only [kinds_append, kinds_mark, kinds_nil, List.length_append, List.length_cons,
      List.length_nil, List.length_map] at hlen
    omega
  refine ⟨mapSpans (.move (width (A ++ [mark '\n']))) ds, by rw [unplaced_mapSpans, hds],
    (kinds (mark '\n' :: (pieces body ++ [mark '\n']))).length, ?_, skip_row _ _ _⟩
  have hsep : 1 ≤ (amid A (mark '\n' :: (pieces body ++ [mark '\n']) ++ [mark '\x7d'])).separators := by
    have hnewline : (mark '\n').lexeme = .token .newline := rfl
    rw [Cursor.separators, Cursor.countWhile, List.cons_append, rest_amid hnewline,
      List.takeWhile_cons_of_pos rfl]
    exact Nat.le_add_left 1 _
  have hbody : pieces body ++ [mark '\n'] ++ [mark '\x7d']
      = pieces body ++ [mark '\n', mark '\x7d'] := by simp
  rw [declarations_separators true hsep, List.cons_append, skip_amid rfl, declarations_amid, hbody,
    hd]
  have hlen : (kinds (mark '\n' :: (pieces body ++ [mark '\n']))).length = 1 + (j + N.length) := by
    simp only [htaken, kinds_mark, kinds_append, kinds_nil, List.length_cons, List.length_append,
      List.length_nil]
    omega
  rw [hlen]
  rfl

/-- The pieces of the header of a struct called `S`. -/
def structHeader : List Piece :=
  [bare "struct", space 0, nameOf "S"] ++ (inheritanceRow [] ++ [space 0])

/-- The source of a struct is cut up into its header, its braces and the pieces between them. -/
theorem pieces_memberBlock {body : List Char} (hlex : (lexText body).errors = []) :
    pieces ("struct S \x7b\n".toList ++ body ++ "\n\x7d".toList)
      = structHeader ++ mark '\x7b' :: (mark '\n' :: (pieces body ++ [mark '\n']) ++ [mark '\x7d']) := by
  have hfront : pieces "struct S \x7b".toList = structHeader ++ [mark '\x7b'] := by
    have hrow : IsRow (structHeader ++ [mark '\x7b']) [] := by
      simp +decide [structHeader, inheritanceRow, fits_mark, fits_bare, fits_space, fits_nameOf]
    have hpieces := pieces_row hrow
    rwa [pieces, List.append_nil, List.append_nil] at hpieces
  have hsound : (lexText "struct S \x7b".toList).errors = [] := by
    rw [errors_eq_nil_iff, hfront]
    simp [structHeader, inheritanceRow]
  have htext : "struct S \x7b\n".toList ++ body ++ "\n\x7d".toList
      = "struct S \x7b".toList ++ '\n' :: (body ++ '\n' :: ['\x7d']) := by simp
  rw [htext, pieces_append_newline hsound, pieces_append_newline hlex, pieces_brace, hfront]
  simp

/-- **A text in the braces of a struct declares its members**, those that it declares as a file, and
without errors, if it has none. -/
theorem Reading.ofSource_memberBlock {body : String} (h : (Reading.ofSource body).diagnostics = []) :
    (Reading.ofSource ("struct S \x7b\n" ++ body ++ "\n\x7d")).diagnostics = []
      ∧ unplaced (Reading.ofSource ("struct S \x7b\n" ++ body ++ "\n\x7d")).file.declarations
        = [{ Declaration.ofKind .struct .none with
            name := some "S"
            members := some (unplaced (Reading.ofSource body).file.declarations) }] := by
  rw [Reading.diagnostics, List.append_eq_nil_iff, List.map_eq_nil_iff, List.map_eq_nil_iff] at h
  obtain ⟨hlex, hfile⟩ := h
  change (lexText body.toList).errors = [] at hlex
  change (declarations false (.start body.toList (lexText body.toList).tokens)).errors = [] at hfile
  obtain ⟨ds, hds, hinner⟩ := exists_readsAll_block hlex hfile (structHeader ++ [mark '\x7b'])
  have hnone : ∀ p ∈ ([] : List Piece), p = mark '\n' := by simp
  have hhead := reads_head_type (A := []) (X := []) (Y := []) (Z := structHeader)
    (B := mark '\x7b' :: (mark '\n' :: (pieces body.toList ++ [mark '\n']) ++ [mark '\x7d']))
    (reads_attributes_nil (by simp +decide [structHeader]) _)
    (reads_modifiers_nil (by simp +decide [structHeader]) _)
    (opening?_struct _ _) (reads_structHeader (by decide) (by simp) (by simp +decide))
  have hread : ReadsAll false _ _ _ _ := .block (A := []) (X := structHeader) (Z := []) (B := [])
    hnone (by simp +decide [structHeader]) hhead hinner (.done_of_end hnone)
  have htext : ("struct S \x7b\n" ++ body ++ "\n\x7d").toList
      = "struct S \x7b\n".toList ++ body.toList ++ "\n\x7d".toList := by
    rw [String.toList_append, String.toList_append]
  have hpieces := pieces_memberBlock hlex
  have hsound : ∀ p ∈ structHeader ++ mark '\x7b' :: (mark '\n' :: (pieces body.toList ++ [mark '\n'])
      ++ [mark '\x7d']), p.lexeme.isSound = true := by
    simpa [structHeader, inheritanceRow, or_imp, forall_and] using errors_eq_nil_iff.mp hlex
  obtain ⟨herrors, hstruct⟩ := ofSource_of_row (htext.trans (by rw [← hpieces, flatMap_text_pieces]))
    (hpieces ▸ isRow_pieces _) hsound hread
  refine ⟨by rw [Reading.diagnostics, herrors, hstruct]; rfl, ?_⟩
  rw [hstruct]
  change [(⟨_, _, _, _, _, some (Declaration.mapSpansAll _ ds), _⟩ : Declaration)] = _
  rw [Declaration.mapSpansAll_eq_map]
  exact congrArg (fun members => [{ Declaration.ofKind .struct .none with
    name := some "S", members := some members }]) hds

/-- The last initializer is left open at the end of the file, and stops at the brace in the block. -/
theorem Reading.ofSource_memberBlock_open :
    (Reading.ofSource "@Wrapped(1) var a: Int\nlet b = a +\n").diagnostics = []
      ∧ (Reading.ofSource ("struct S \x7b\n" ++ "@Wrapped(1) var a: Int\nlet b = a +\n"
        ++ "\n\x7d")).diagnostics = []
      ∧ unplaced (Reading.ofSource ("struct S \x7b\n" ++ "@Wrapped(1) var a: Int\nlet b = a +\n"
          ++ "\n\x7d")).file.declarations
        = [{ Declaration.ofKind .struct .none with
            name := some "S"
            members := some (unplaced
              (Reading.ofSource "@Wrapped(1) var a: Int\nlet b = a +\n").file.declarations) }] := by
  have h : (Reading.ofSource "@Wrapped(1) var a: Int\nlet b = a +\n").diagnostics = [] := by decide +kernel
  exact ⟨h, Reading.ofSource_memberBlock h⟩

end Memberwise
