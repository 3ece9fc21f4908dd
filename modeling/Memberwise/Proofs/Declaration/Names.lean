import Memberwise.Proofs.Declaration.Reads
import Memberwise.Proofs.Token.Partition
import Memberwise.Proofs.Token.Slices

/-!
# Proofs/Declaration/Names — what a name is, wherever the question is asked

Four places settle what a name is, each with a table of its own: the pieces of a text with the
keywords, the predicate `isIdentifier`, the reserved words that `escape` puts between backticks, and
`Parser.identifier`, which takes the backticks off.  They agree on every text:

* `lexText_eq_soleName_iff` — a text is read as one name exactly if it is one piece, and that a name;
* `lexText_bare_iff` — **a text is read as one bare name exactly if it is an identifier and no
  keyword**;
* `lex_name` — and besides, **every identifier, written as `escape` writes it, is read as one name**,
  and that name as the identifier.
-/

namespace Memberwise

open Text Token

namespace Token

/-! ## Texts of one piece -/

/-- What a text is read as that is one name and nothing else. -/
def soleName (text : List Char) : Lexed :=
  ⟨⟨[⟨.ident, ⟨0, byteLength text⟩⟩], byteLength text⟩, []⟩

/-- Pieces without a byte are none. -/
theorem eq_nil_of_width {A : List Piece} {s : List Char} (h : IsRow A s) (hw : width A = 0) :
    A = [] := by
  cases A with
  | nil => rfl
  | cons p A =>
    have hfits : p.Fits (A.flatMap Piece.text ++ s) := h.1
    have hpos := hfits.byteLength_pos
    rw [width, List.flatMap_cons, byteLength_append] at hw
    omega

/-- **A text is read as one name exactly if it is one piece, and that a name.** -/
theorem lexText_eq_soleName_iff {s : List Char} :
    lexText s = soleName s ↔ pieces s = [⟨.token .ident, s⟩] := by
  constructor
  · intro h
    have htokens : rowTokens 0 (pieces s) = [] ++ ⟨.ident, ⟨0, byteLength s⟩⟩ :: [] :=
      congrArg (·.tokens.tokens) h
    obtain ⟨A, p, B, hps, -, hp, -⟩ := exists_piece_of_rowTokens htokens
    obtain ⟨hspan, hl⟩ := span_of_rowTokens_singleton hp (by rintro ⟨⟩)
    obtain ⟨hstart, hstop⟩ := Span.mk.inj hspan
    have htext := flatMap_text_pieces s
    have hlength := congrArg byteLength htext
    have hrow := isRow_pieces s
    rw [hps, isRow_append] at hrow
    rw [hps, List.flatMap_append, List.flatMap_cons, byteLength_append, byteLength_append] at hlength
    obtain rfl := eq_nil_of_width hrow.1 (by rw [width]; omega)
    obtain rfl := eq_nil_of_width hrow.2.2 (by rw [width]; omega)
    have hl := hl.resolve_right (by rintro ⟨h, -⟩; cases h)
    rw [hps] at htext
    rw [hps, List.nil_append, ← hl]
    congr 1
    rw [← htext]
    simp
  · intro h
    rw [lexText, h]
    simp [placed, Placed.tokens, Placed.errors, soleName]

/-! ## Bare names -/

/-- A word that stands alone is a name exactly if it is no keyword. -/
theorem wordKind_eq_ident_iff {word : List Char} :
    wordKind word none = .ident ↔ String.ofList word ∉ keywords.map (·.1) := by
  have hkinds : ∀ p ∈ keywords, p.2 ≠ .ident := by decide
  change (keywords.lookup (String.ofList word)).getD .ident = .ident ↔ _
  cases hl : keywords.lookup (String.ofList word) with
  | none =>
    have hnone := List.lookup_eq_none_iff.mp hl
    simp only [Option.getD_none, true_iff, List.mem_map, not_exists, not_and]
    exact fun p hp he => by simpa [he] using hnone p hp
  | some k =>
    obtain ⟨l₁, l₂, hk, -⟩ := List.lookup_eq_some_iff.mp hl
    have hmem : (String.ofList word, k) ∈ keywords := by rw [hk]; simp
    simp only [Option.getD_some, hkinds _ hmem, false_iff, not_not]
    exact List.mem_map_of_mem hmem

/-- A name that stands alone and has no mark in front is an identifier and no keyword. -/
theorem isIdentifierText_of_fits {s : List Char} (h : (⟨.token .ident, s⟩ : Piece).Fits [])
    (hb : s.head? ≠ some backtick) (hd : s.head? ≠ some '$') :
    isIdentifierText s = true ∧ wordKind s none = .ident := by
  have hsoft : (⟨.token .ident, s⟩ : Piece).isHard = false := by
    simp only [Piece.isHard]
    simpa [endsItself, TokenKind.isClose] using hb
  obtain ⟨c, x, rfl, hrun, ⟨hc, hk⟩ | ⟨rfl, -⟩⟩ := h.exists_run rfl hsoft
  · have hall := forall_mem_of_run_append hrun
    refine ⟨?_, hk⟩
    rw [isIdentifierText, hc, Bool.true_and, List.all_eq_true]
    exact hall
  · exact absurd rfl hd

/-- **A text is read as one bare name exactly if it is an identifier and no keyword.** -/
theorem lexText_bare_iff {s : List Char} :
    lexText s = soleName s ∧ s.head? ≠ some backtick ∧ s.head? ≠ some '$'
      ↔ isIdentifierText s = true ∧ String.ofList s ∉ keywords.map (·.1) := by
  rw [lexText_eq_soleName_iff, ← wordKind_eq_ident_iff]
  constructor
  · rintro ⟨hs, hb, hd⟩
    have hrow := isRow_pieces s
    rw [hs] at hrow
    exact isIdentifierText_of_fits hrow.1 hb hd
  · rintro ⟨hs, hk⟩
    have hn : isIdentifier (String.ofList s) = true := by rwa [isIdentifier, String.toList_ofList]
    have hrow : IsRow [bare (String.ofList s)] [] := ⟨fits_bare hn isBounded_nil, trivial⟩
    have hpieces := pieces_row hrow
    obtain ⟨c, x, hc, hstart, -⟩ := exists_of_isIdentifier hn
    rw [String.toList_ofList] at hc
    subst hc
    refine ⟨?_, ?_, ?_⟩
    · simpa [bare, hk, pieces] using hpieces
    · rintro ⟨⟩
      revert hstart
      decide
    · rintro ⟨⟩
      revert hstart
      decide

end Token

/-- **All four agree on every text**: it is read as one bare name exactly if it is an identifier and
no keyword, and every identifier, reserved or not, is read as one name where it is written as it has
to be, and that name as the identifier again. -/
theorem lex_name (s : String) :
    (lex s = soleName s.toList ∧ s.toList.head? ≠ some backtick ∧ s.toList.head? ≠ some '$'
        ↔ isIdentifier s = true ∧ s ∉ keywords.map (·.1))
      ∧ (isIdentifier s = true → lex (escape s) = soleName (escape s).toList
        ∧ Parser.identifier (Cursor.start (escape s).toList (lex (escape s)).tokens)
          = ⟨.ok (s, ⟨0, byteLength (escape s).toList⟩), 1⟩) := by
  refine ⟨?_, fun hn => ?_⟩
  · have hbare := lexText_bare_iff (s := s.toList)
    rwa [String.ofList_toList] at hbare
  · have hpieces : pieces (escape s).toList = [nameOf s] := by
      have hrow : IsRow [nameOf s] [] := ⟨fits_nameOf hn isBounded_nil, trivial⟩
      simpa [nameOf, pieces] using pieces_row hrow
    refine ⟨lexText_eq_soleName_iff.mpr hpieces, ?_⟩
    rw [lex, Cursor.start_eq_amid, hpieces]
    obtain ⟨n, hread, -⟩ := Parser.reads_identifier hn [] []
    obtain ⟨-, -, rfl⟩ := Parser.identifier_eq_ok hread
    have htext : (nameOf s).text = (escape s).toList := rfl
    simpa [htext] using hread

/-- A keyword is read as a name between backticks. -/
theorem lex_name_keyword : isIdentifier "class" = true
    ∧ lex (escape "class") = soleName "`class`".toList
    ∧ Parser.identifier (Cursor.start "`class`".toList (lex (escape "class")).tokens)
      = ⟨.ok ("class", ⟨0, 7⟩), 1⟩ := by
  have h : isIdentifier "class" = true := by decide +kernel
  exact ⟨h, (lex_name "class").2 h⟩

end Memberwise
