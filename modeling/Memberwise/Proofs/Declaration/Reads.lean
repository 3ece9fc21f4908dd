import Memberwise.Proofs.Declaration.Sequence
import Memberwise.Proofs.Token.Row

/-!
# Proofs/Declaration/Reads — reading along a row of pieces

A cursor in a row of pieces stands between the pieces passed and those to come (`Cursor.amid`).  A
parser reads some pieces of the row if it succeeds before them and ends up behind them
(`Parser.Reads`); reading joins as the pieces do (`Reads.bind`), and blanks belong to either side.

* `reads_identifier`, `reads_typeText` — **a name is read as it was before it was written**;
* `reads_attributes_cons`, `reads_modifiers_cons` — attributes and modifiers are read one by one.
-/

namespace Memberwise

open Text Token

/-! ## Cursors in a row -/

namespace Cursor

/-- The cursor between two parts of a row of pieces. -/
def amid (A B : List Piece) : Cursor :=
  ⟨(A ++ B).flatMap Piece.text, width (A ++ B), (rowTokens 0 A).reverse, rowTokens (width A) B⟩

variable {A B : List Piece} {p : Piece} {k : TokenKind}

theorem start_eq_amid (source : List Char) :
    Cursor.start source (lexText source).tokens = amid [] (pieces source) := by
  rw [amid, List.nil_append, flatMap_text_pieces, width, flatMap_text_pieces]
  rfl

theorem rowTokens_cons (n : Nat) (p : Piece) (B : List Piece) :
    rowTokens n (p :: B) = rowTokens n [p] ++ rowTokens (n + byteLength p.text) B := by
  rw [← List.singleton_append, rowTokens_append, List.flatMap_singleton]

/-- A blank belongs to either side of a cursor. -/
theorem amid_blank (h : p.lexeme = .blank) (A B : List Piece) :
    amid A (p :: B) = amid (A ++ [p]) B := by
  have hp : ∀ n, rowTokens n [p] = [] := fun n => by
    rw [rowTokens, placed, placed, List.flatMap_singleton, Placed.tokens, h]
  rw [amid, amid, rowTokens_append, rowTokens_cons, hp, hp, width_concat, List.append_assoc]
  simp

theorem rowTokens_token (h : p.lexeme = .token k) (n : Nat) :
    rowTokens n [p] = [⟨k, ⟨n, n + byteLength p.text⟩⟩] := by
  rw [rowTokens, placed, placed, List.flatMap_singleton, Placed.tokens, h]

/-- The tokens to come after a token are those of the pieces to come. -/
theorem rest_amid (h : p.lexeme = .token k) (A B : List Piece) : (amid A (p :: B)).rest
    = ⟨k, ⟨width A, width A + byteLength p.text⟩⟩ :: (amid (A ++ [p]) B).rest := by
  rw [amid, amid, rowTokens_cons, rowTokens_token h, width_concat]
  rfl

/-- **Passing a token passes its piece.** -/
theorem skip_amid (h : p.lexeme = .token k) (A B : List Piece) :
    (amid A (p :: B)).skip 1 = amid (A ++ [p]) B := by
  have hr := rest_amid h A B
  rw [skip, hr, amid, amid, rowTokens_append, rowTokens_token h, List.append_assoc]
  simp [width]

theorem current_amid (h : p.lexeme = .token k) (A B : List Piece) :
    (amid A (p :: B)).current = ⟨k, ⟨width A, width A + byteLength p.text⟩⟩ :=
  current_of_rest (rest_amid h A B)

theorem kind_amid (h : p.lexeme = .token k) (A B : List Piece) : (amid A (p :: B)).kind = k := by
  rw [kind, current_amid h]

theorem span_amid (h : p.lexeme = .token k) (A B : List Piece) :
    (amid A (p :: B)).span = ⟨width A, width A + byteLength p.text⟩ := by
  rw [span, current_amid h]

theorem previousSpan_amid (h : p.lexeme = .token k) (A B : List Piece) :
    (amid (A ++ [p]) B).previousSpan = ⟨width A, width A + byteLength p.text⟩ := by
  rw [previousSpan, amid, rowTokens_append, rowTokens_token h]
  simp [width]

/-- The text of a piece is found at its place. -/
theorem text_amid (A B : List Piece) (p : Piece) (C D : List Piece) (h : C ++ D = A ++ p :: B) :
    (amid C D).text ⟨width A, width A + byteLength p.text⟩ = p.text := by
  have hs : (C ++ D).flatMap Piece.text
      = A.flatMap Piece.text ++ p.text ++ B.flatMap Piece.text := by
    rw [h, List.flatMap_append, List.flatMap_cons, List.append_assoc]
  rw [text, amid, Span.slice?, hs, width, slice?_append]
  rfl

theorem currentText_amid (h : p.lexeme = .token k) (A B : List Piece) :
    (amid A (p :: B)).currentText = p.text := by
  rw [currentText, span_amid h, text_amid A B p A (p :: B) rfl]

/-! ### What comes next -/

/-- The kinds of the tokens of a row. -/
def kinds (B : List Piece) : List TokenKind := (rowTokens 0 B).map (·.kind)

@[simp] theorem kinds_nil : kinds [] = [] := rfl

theorem map_kind_rowTokens (n : Nat) (B : List Piece) :
    (rowTokens n B).map (·.kind) = kinds B := by
  have key : ∀ m n, (rowTokens m B).map (·.kind) = (rowTokens n B).map (·.kind) := by
    induction B with
    | nil => exact fun _ _ => rfl
    | cons p B ih =>
      intro m n
      rw [rowTokens_cons, rowTokens_cons n, List.map_append, List.map_append,
        ih _ (n + byteLength p.text)]
      congr 1
      simp only [rowTokens, placed, List.flatMap_singleton, Placed.tokens]
      cases p.lexeme with
      | blockComment =>
        dsimp only
        split <;> rfl
      | _ => rfl
  exact key n 0

@[simp] theorem kinds_append (A B : List Piece) : kinds (A ++ B) = kinds A ++ kinds B := by
  rw [kinds, rowTokens_append, List.map_append, map_kind_rowTokens, map_kind_rowTokens]

theorem kinds_token (h : p.lexeme = .token k) (B : List Piece) : kinds (p :: B) = k :: kinds B := by
  rw [kinds, rowTokens_cons, rowTokens_token h, List.map_append, map_kind_rowTokens]
  rfl

theorem kinds_blank (h : p.lexeme = .blank) (B : List Piece) : kinds (p :: B) = kinds B := by
  rw [← List.singleton_append, kinds_append]
  simp [kinds, rowTokens, placed, Placed.tokens, h]

theorem ahead_amid (A B : List Piece) (n : Nat) :
    ((amid A B).ahead n).kind = (kinds B).getD n .endOfFile := by
  rw [← map_kind_rowTokens (width A), ahead, List.getD_eq_getElem?_getD, List.getD_eq_getElem?_getD,
    List.getElem?_map]
  change ((rowTokens (width A) B)[n]?.getD _).kind = _
  cases (rowTokens (width A) B)[n]? <;> rfl

theorem length_rest_amid (A B : List Piece) : (amid A B).rest.length = (kinds B).length := by
  rw [← map_kind_rowTokens (width A), List.length_map]
  rfl

/-- Pieces are passed by as many steps as they have tokens. -/
theorem skip_row (A G B : List Piece) :
    (amid A (G ++ B)).skip (kinds G).length = amid (A ++ G) B := by
  have hlen : (kinds G).length = (rowTokens (width A) G).length := by
    rw [← map_kind_rowTokens (width A), List.length_map]
  rw [hlen, Cursor.skip, amid, amid, rowTokens_append, rowTokens_append, Nat.zero_add]
  simp [width]

/-- Passing pieces among which there is a token takes one. -/
theorem pos_of_skip_amid {A X B : List Piece} {n : Nat} (hX : kinds X ≠ [])
    (h : (amid A (X ++ B)).skip n = amid (A ++ X) B) : 0 < n := by
  refine Nat.pos_of_ne_zero fun hn => ?_
  subst hn
  have hlen := congrArg (·.rest.length) h
  have hpos := List.length_pos_iff.mpr hX
  simp only [Cursor.skip_zero, length_rest_amid, kinds_append, List.length_append] at hlen
  omega

/-- The kind of the first token of a row, or of the end. -/
def nextKind (B : List Piece) : TokenKind := (kinds B).headD .endOfFile

theorem kind_amid_eq (A B : List Piece) : (amid A B).kind = nextKind B := by
  rw [kind, current, ahead_amid, nextKind]
  cases kinds B <;> rfl

/-- The kind of the next token is that of the first token to come. -/
theorem kind_of_rest {t : Token} {ts : List Token} (h : (amid A B).rest = t :: ts) :
    t.kind = nextKind B := by
  rw [← kind_amid_eq A, Cursor.kind, current_of_rest h]

theorem exists_rest (h : nextKind B ≠ .endOfFile) (A : List Piece) :
    ∃ t ts, (amid A B).rest = t :: ts ∧ t.kind = nextKind B := by
  cases hr : (amid A B).rest with
  | nil =>
    rw [← kind_amid_eq A, kind, current, ahead, hr] at h
    exact absurd rfl h
  | cons t ts => exact ⟨t, ts, rfl, kind_of_rest hr⟩

theorem nextKind_token (h : p.lexeme = .token k) (B : List Piece) : nextKind (p :: B) = k := by
  rw [nextKind, kinds_token h]
  rfl

/-- No token of a class comes next where the next token is none. -/
theorem countWhile_amid {f : TokenKind → Bool} (A : List Piece) {B : List Piece}
    (h : f (nextKind B) = false) : (amid A B).countWhile f = 0 := by
  rw [← kind_amid_eq A] at h
  rw [countWhile]
  cases hr : (amid A B).rest with
  | nil => rfl
  | cons t ts =>
    rw [kind, current_of_rest hr] at h
    rw [List.takeWhile_cons_of_neg (by simp [h])]
    rfl

theorem newlines_amid (A : List Piece) {B : List Piece} (h : nextKind B ≠ .newline) :
    (amid A B).newlines = 0 :=
  countWhile_amid A (by simpa using h)

/-- A line end before a token that is none comes next alone. -/
theorem newlines_amid_newline (A : List Piece) {B : List Piece} (h : nextKind B ≠ .newline) :
    (amid A (mark '\n' :: B)).newlines = 1 := by
  have hl : (mark '\n').lexeme = .token .newline := rfl
  have hB : (amid (A ++ [mark '\n']) B).newlines = 0 := newlines_amid _ h
  rw [newlines, countWhile] at hB ⊢
  rw [rest_amid hl, List.takeWhile_cons_of_pos rfl, List.length_cons, hB]

/-! ### The kinds of words, names and marks -/

@[simp] theorem nextKind_nil : nextKind [] = .endOfFile := rfl

@[simp] theorem kinds_mark (c : Char) (B : List Piece) :
    kinds (mark c :: B) = (markKind? c).getD .operator :: kinds B := kinds_token rfl B

@[simp] theorem kinds_pair (c d : Char) (B : List Piece) :
    kinds (pair c d :: B) = (markPairKind? c d).getD .operator :: kinds B := kinds_token rfl B

@[simp] theorem kinds_bare (word : String) (B : List Piece) :
    kinds (bare word :: B) = wordKind word.toList none :: kinds B := kinds_token rfl B

@[simp] theorem kinds_nameOf (name : String) (B : List Piece) :
    kinds (nameOf name :: B) = .ident :: kinds B := kinds_token rfl B

@[simp] theorem kinds_space (n : Nat) (B : List Piece) : kinds (space n :: B) = kinds B :=
  kinds_blank rfl B

@[simp] theorem nextKind_mark (c : Char) (B : List Piece) :
    nextKind (mark c :: B) = (markKind? c).getD .operator := nextKind_token rfl B

@[simp] theorem nextKind_pair (c d : Char) (B : List Piece) :
    nextKind (pair c d :: B) = (markPairKind? c d).getD .operator := nextKind_token rfl B

@[simp] theorem nextKind_bare (word : String) (B : List Piece) :
    nextKind (bare word :: B) = wordKind word.toList none := nextKind_token rfl B

@[simp] theorem nextKind_nameOf (name : String) (B : List Piece) :
    nextKind (nameOf name :: B) = .ident := nextKind_token rfl B

@[simp] theorem nextKind_space (n : Nat) (B : List Piece) :
    nextKind (space n :: B) = nextKind B := by
  rw [nextKind, kinds_space]
  rfl

end Cursor

open Cursor

namespace Parser

/-! ## Reading some pieces of a row -/

/-- A parser reads some pieces of a row, if it succeeds before them and ends up behind them. -/
def Reads {α : Type} (q : Parser α) (A X B : List Piece) (a : α) : Prop :=
  ∃ n, q (amid A (X ++ B)) = ⟨.ok a, n⟩ ∧ (amid A (X ++ B)).skip n = amid (A ++ X) B

section Reads

variable {α β : Type} {A X Y B : List Piece} {p : Piece} {k : TokenKind} {a : α} {b : β}

/-- **Reading joins as the pieces do.** -/
theorem Reads.bind {q : Parser α} {f : α → Parser β} (h : Reads q A X (Y ++ B) a)
    (h' : Reads (f a) (A ++ X) Y B b) : Reads (q >>= f) A (X ++ Y) B b := by
  obtain ⟨m, hq, hm⟩ := h
  obtain ⟨n, hf, hn⟩ := h'
  rw [← hm] at hf hn
  refine ⟨m + n, ?_, ?_⟩
  · rw [List.append_assoc, bind_of_ok hq, hf]
    rfl
  · rw [List.append_assoc, ← List.append_assoc A, ← hn, Cursor.skip_skip]

/-- Nothing may be read first. -/
theorem Reads.bind_none {q : Parser α} {f : α → Parser β} (h : Reads q A [] (Y ++ B) a)
    (h' : Reads (f a) A Y B b) : Reads (q >>= f) A Y B b :=
  h.bind (Y := Y) (by rwa [List.append_nil])

/-- One piece may be read first. -/
theorem Reads.bind_piece {q : Parser α} {f : α → Parser β} (h : Reads q A [p] (Y ++ B) a)
    (h' : Reads (f a) (A ++ [p]) Y B b) : Reads (q >>= f) A (p :: Y) B b :=
  h.bind h'

/-- Nothing may be read last. -/
theorem Reads.bind_last {q : Parser α} {f : α → Parser β} (h : Reads q A X B a)
    (h' : Reads (f a) (A ++ X) [] B b) : Reads (q >>= f) A X B b := by
  have hb := Reads.bind (Y := []) h h'
  rwa [List.append_nil] at hb

theorem Reads.pure (a : α) (A B : List Piece) : Reads (Pure.pure a) A [] B a :=
  ⟨0, rfl, by rw [Cursor.skip_zero, List.append_nil, List.nil_append]⟩

/-- What is read after looking at the cursor is read of what it shows. -/
theorem Reads.here_bind {f : Cursor → Parser β} (h : Reads (f (amid A (X ++ B))) A X B b) :
    Reads (here >>= f) A X B b := by
  obtain ⟨n, hf, hn⟩ := h
  refine ⟨n, ?_, hn⟩
  rw [Parser.here_bind]
  exact hf

theorem Reads.map {q : Parser α} (f : α → β) (h : Reads q A X B a) :
    Reads (f <$> q) A X B (f a) := by
  obtain ⟨n, hq, hn⟩ := h
  refine ⟨n, ?_, hn⟩
  change (q >>= fun x => Pure.pure (f x)) _ = _
  rw [bind_of_ok hq]
  rfl

theorem Reads.inside {q : Parser α} (construct : Construct) (h : Reads q A X B a) :
    Reads (Parser.inside construct q) A X B a := by
  obtain ⟨n, hq, hn⟩ := h
  refine ⟨n, ?_, hn⟩
  rw [Parser.inside, hq]
  rfl

/-- Blanks before what is read are read with it. -/
theorem Reads.blank_cons {q : Parser α} (hp : p.lexeme = .blank) (h : Reads q (A ++ [p]) X B a) :
    Reads q A (p :: X) B a := by
  obtain ⟨n, hq, hn⟩ := h
  rw [← amid_blank hp] at hq hn
  exact ⟨n, hq, by rw [List.cons_append, hn, List.append_assoc]; rfl⟩

/-! ### Single tokens -/

theorem reads_next (h : p.lexeme = .token k) (A B : List Piece) :
    Reads next A [p] B ⟨k, ⟨width A, width A + byteLength p.text⟩⟩ := by
  refine ⟨1, ?_, skip_amid h A B⟩
  rw [next, List.singleton_append, current_amid h, rest_amid h]
  simp

theorem reads_eat (h : p.lexeme = .token k) (A B : List Piece) : Reads (eat k) A [p] B true := by
  refine ⟨1, ?_, skip_amid h A B⟩
  rw [eat, List.singleton_append, if_pos (kind_amid h A B), rest_amid h]
  simp

/-- What takes no token reads nothing. -/
theorem Reads.of_none {q : Parser α} (h : q (amid A B) = ⟨.ok a, 0⟩) : Reads q A [] B a :=
  ⟨0, h, by rw [Cursor.skip_zero, List.append_nil, List.nil_append]⟩

theorem reads_eat_none (h : nextKind B ≠ k) (A : List Piece) : Reads (eat k) A [] B false :=
  .of_none (by rw [eat, if_neg (by rwa [kind_amid_eq])])

theorem reads_generics (h : nextKind B ≠ .less) (A : List Piece) : Reads generics A [] B () :=
  .of_none (by rw [generics, if_neg (by rwa [kind_amid_eq])])

theorem reads_skipNewlines (h : nextKind B ≠ .newline) (A : List Piece) :
    Reads skipNewlines A [] B () :=
  .of_none (by rw [skipNewlines, newlines_amid A h])

theorem reads_skipNewlines_space (h : nextKind B ≠ .newline) (A : List Piece) (n : Nat) :
    Reads skipNewlines A [space n] B () :=
  .blank_cons rfl (reads_skipNewlines h _)

theorem reads_skipNewlines_newline (h : nextKind B ≠ .newline) (A : List Piece) :
    Reads skipNewlines A [mark '\n'] B () :=
  ⟨1, by rw [skipNewlines, List.singleton_append, newlines_amid_newline A h], skip_amid rfl A B⟩

/-! ### Names -/

/-- **A name is read as it was before it was written.** -/
theorem reads_identifier {name : String} (hn : isIdentifier name = true) (A B : List Piece) :
    Reads identifier A [nameOf name] B
      (name, ⟨width A, width A + byteLength (nameOf name).text⟩) := by
  have hl : (nameOf name).lexeme = .token .ident := rfl
  refine ⟨1, ?_, skip_amid hl A B⟩
  have hname : String.ofList (unescapeText (nameOf name).text) = name :=
    unescape_escape_of_isIdentifier hn
  rw [identifier, List.singleton_append, if_pos (kind_amid hl A B), currentText_amid hl,
    span_amid hl, hname]

/-- **A type that is a name is kept as it is written**, up to what ends a type. -/
theorem reads_typeText {f : TokenKind → Bool} (hident : f .ident = false) {name : String}
    (hn : isIdentifier name = true) (hB : f (nextKind B) = true) (A : List Piece) :
    Reads (typeText f) A [nameOf name] B (escape name) := by
  have hl : (nameOf name).lexeme = .token .ident := rfl
  have hend : typeLength f [] (amid (A ++ [nameOf name]) B).rest = .ok 0 := by
    cases hr : (amid (A ++ [nameOf name]) B).rest with
    | nil => rw [typeLength]
    | cons t ts =>
      rw [← kind_amid_eq (A ++ [nameOf name]), Cursor.kind, current_of_rest hr] at hB
      rw [typeLength, if_pos ⟨rfl, .inl hB⟩]
  have hlength : typeLength f [] (amid A (nameOf name :: B)).rest = .ok 1 := by
    rw [rest_amid hl, typeLength, if_neg (by simp [hident, TokenKind.isClose]), hend]
    rfl
  have htext : (amid A (nameOf name :: B)).textBetween (amid A (nameOf name :: B)).span
      ((amid A (nameOf name :: B)).ahead 0).span = (nameOf name).text := by
    change Cursor.textBetween _ _ (amid A (nameOf name :: B)).span = _
    rw [Cursor.textBetween, Span.merge_self, ← Cursor.currentText, currentText_amid hl,
      trim_nameOf hn]
  refine ⟨1, ?_, skip_amid hl A B⟩
  rw [typeText, List.singleton_append, hlength]
  dsimp only
  rw [htext, nameOf, String.ofList_toList]

end Reads

end Parser

end Memberwise
