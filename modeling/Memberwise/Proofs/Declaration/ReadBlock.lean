import Memberwise.Proofs.Declaration.Phrases

/-!
# Proofs/Declaration/ReadBlock — declarations read one after the other

Reading declarations goes by rounds, and where the pieces of a row are known so is every round:
line ends are passed, then a head is read where it is written, then a block if the head is that of a
type (`ReadsAll`).

* `ReadsAll.complete` — a declaration without a block is read, then those after it;
* `ReadsAll.block` — **a type is read with the declarations in its block**.
-/

namespace Memberwise

open Text Token Cursor
open Memberwise.Parser

variable {A B C X Y Z sep : List Piece} {p : Piece} {k : TokenKind} {inBlock : Bool}

/-! ## Heads -/

namespace Parser

variable {as : List Attribute} {ms : List Modifier} {d : Declaration}

/-- The declaration that a head without a block belongs to, from its first token to its last. -/
def completed (A X B : List Piece) (as : List Attribute) (ms : List Modifier) (d : Declaration) :
    Declaration :=
  { d with attributes := as, modifiers := ms,
           span := (amid A (X ++ B)).span.merge (amid (A ++ X) B).previousSpan }

theorem reads_head_property {kind : DeclarationKind} (has : Reads attributes A X (Y ++ (Z ++ B)) as)
    (hms : Reads modifiers (A ++ X) Y (Z ++ B) ms)
    (hk : nextKind (Z ++ B) = .letKw ∨ nextKind (Z ++ B) = .varKw)
    (hd : Reads property (A ++ X ++ Y) Z B kind) :
    Reads head A (X ++ (Y ++ Z)) B
      (.complete (completed A (X ++ (Y ++ Z)) B as ms (Declaration.ofKind kind .none))) := by
  have ho : (amid (A ++ X ++ Y) (Z ++ B)).opening? = some .property := by
    rw [Cursor.opening?, kind_amid_eq]
    rcases hk with h | h <;> rw [h]
  refine .here_bind (Reads.bind (by simpa using has) (hms.bind (.here_bind ?_)))
  have hrow : A ++ (X ++ (Y ++ Z)) = A ++ X ++ Y ++ Z := by simp
  rw [ho, completed, hrow]
  exact hd.bind_last (.here_bind (.pure _ _ _))

theorem reads_head_function (has : Reads attributes A X (Y ++ (Z ++ B)) as)
    (hms : Reads modifiers (A ++ X) Y (Z ++ B) ms) (hk : nextKind (Z ++ B) = .funcKw)
    (hd : Reads (function .function) (A ++ X ++ Y) Z B d) :
    Reads head A (X ++ (Y ++ Z)) B (.complete (completed A (X ++ (Y ++ Z)) B as ms d)) := by
  have ho : (amid (A ++ X ++ Y) (Z ++ B)).opening? = some (.function .function) := by
    rw [Cursor.opening?, kind_amid_eq, hk]
  refine .here_bind (Reads.bind (by simpa using has) (hms.bind (.here_bind ?_)))
  have hrow : A ++ (X ++ (Y ++ Z)) = A ++ X ++ Y ++ Z := by simp
  rw [ho, completed, hrow]
  exact hd.bind_last (.here_bind (.pure _ _ _))

theorem opening?_struct (A B : List Piece) :
    (amid A (bare "struct" :: B)).opening? = some (.type .struct) := by
  rw [Cursor.opening?, kind_amid_eq, nextKind_bare]
  rfl

theorem opening?_extension (A B : List Piece) :
    (amid A (bare "extension" :: B)).opening? = some (.type .extension) := by
  rw [Cursor.opening?, kind_amid_eq, nextKind_bare]
  rfl

theorem reads_head_type {kind : DeclarationKind} (has : Reads attributes A X (Y ++ (Z ++ B)) as)
    (hms : Reads modifiers (A ++ X) Y (Z ++ B) ms)
    (ho : (amid (A ++ X ++ Y) (Z ++ B)).opening? = some (.type kind))
    (hd : Reads (typeHeader kind) (A ++ X ++ Y) Z B d) :
    Reads head A (X ++ (Y ++ Z)) B (.type { d with
      attributes := as, modifiers := ms, span := (amid A (X ++ (Y ++ Z) ++ B)).span }) := by
  refine .here_bind (Reads.bind (by simpa using has) (hms.bind (.here_bind ?_)))
  rw [ho]
  exact hd.bind_last (.pure _ _ _)

end Parser

/-! ## Rounds -/

/-- The line ends of a row come before what is none. -/
theorem separators_amid (hsep : ∀ p ∈ sep, p = mark '\n')
    (hn : nextKind B ≠ .newline) (hs : nextKind B ≠ .semicolon) (A : List Piece) :
    (amid A (sep ++ B)).separators = sep.length
      ∧ (amid A (sep ++ B)).skip sep.length = amid (A ++ sep) B := by
  induction sep generalizing A with
  | nil =>
    refine ⟨countWhile_amid A ?_, by simp⟩
    simp [hn, hs]
  | cons p sep ih =>
    obtain rfl := hsep p List.mem_cons_self
    have hl : (mark '\n').lexeme = .token .newline := rfl
    obtain ⟨hcount, hskip⟩ := ih (fun q hq => hsep q (List.mem_cons_of_mem _ hq)) (A ++ [mark '\n'])
    refine ⟨?_, ?_⟩
    · rw [Cursor.separators, Cursor.countWhile] at hcount ⊢
      rw [List.cons_append, rest_amid hl, List.takeWhile_cons_of_pos rfl, List.length_cons, hcount,
        List.length_cons]
    · rw [List.length_cons, Nat.add_comm, ← Cursor.skip_skip, List.cons_append, skip_amid hl, hskip]
      simp

section Round

variable {c : Cursor} {d : Declaration} {b n : Nat} {t : Token} {ts : List Token}

/-- A round that reads a declaration without a block. -/
theorem declarations_complete (hb : c.separators = b) (hr : (c.skip b).rest = t :: ts)
    (hk : t.kind ≠ .rightBrace) (ho : head (c.skip b) = ⟨.ok (.complete d), n⟩) (hn : 0 < n) :
    declarations inBlock c
      = (declarations inBlock (c.skip (b + n))).preceded (some d) [] (b + n) := by
  subst hb
  rw [declarations]
  dsimp only
  split
  · rename_i h
    rw [hr] at h
    cases h
  · rename_i u us h
    rw [hr] at h
    obtain ⟨rfl, -⟩ := List.cons.inj h
    rw [if_neg hk, ho]
    dsimp only
    rw [Nat.max_eq_right hn]

/-- A round that reads a type and the declarations in its block. -/
theorem declarations_block {inner : Parsed} (hb : c.separators = b)
    (hr : (c.skip b).rest = t :: ts) (hk : t.kind ≠ .rightBrace)
    (ho : head (c.skip b) = ⟨.ok (.type d), n⟩) (hopen : (c.skip (b + n)).kind = .leftBrace)
    (hinner : declarations true (c.skip (b + n + 1)) = inner)
    (hclose : (c.skip (b + n + 1 + inner.taken)).kind = .rightBrace) :
    declarations inBlock c
      = (declarations inBlock (c.skip (b + n + 1 + inner.taken + 1))).preceded
        (some { d with
          members := some inner.declarations,
          span := d.span.merge (c.skip (b + n + 1 + inner.taken)).span })
        inner.errors (b + n + 1 + inner.taken + 1) := by
  subst hb
  rw [declarations]
  dsimp only
  split
  · rename_i h
    rw [hr] at h
    cases h
  · rename_i u us h
    rw [hr] at h
    obtain ⟨rfl, -⟩ := List.cons.inj h
    rw [if_neg hk, ho]
    dsimp only
    split
    · rename_i h'
      rw [Cursor.skip_skip] at h'
      rw [Cursor.kind, Cursor.current, Cursor.ahead, h'] at hopen
      cases hopen
    · rename_i opened us' h'
      rw [Cursor.skip_skip] at h'
      rw [Cursor.kind, current_of_rest h'] at hopen
      rw [if_pos hopen]
      have hmax : c.separators + max 1 (n + 1 + inner.taken + 1)
          = c.separators + n + 1 + inner.taken + 1 := by omega
      simp only [Cursor.skip_skip, ← Nat.add_assoc] at hinner hclose ⊢
      simp only [hinner, if_pos hclose]
      rw [← hmax]

end Round

/-- Reading declarations reads some pieces of a row, if it finds nothing wrong and ends up behind
them. -/
def ReadsAll (inBlock : Bool) (A X B : List Piece) (ds : List Declaration) : Prop :=
  ∃ n, declarations inBlock (amid A (X ++ B)) = ⟨ds, [], n⟩
    ∧ (amid A (X ++ B)).skip n = amid (A ++ X) B

namespace ReadsAll

variable {d : Declaration} {ds inner : List Declaration}

theorem done_of_brace (hsep : ∀ p ∈ sep, p = mark '\n') (hB : nextKind B = .rightBrace) :
    ReadsAll true A sep B [] := by
  obtain ⟨hcount, hskip⟩ := separators_amid (B := B) hsep (by simp [hB]) (by simp [hB]) A
  refine ⟨sep.length, ?_, hskip⟩
  rw [declarations]
  dsimp only
  rw [hcount, hskip]
  split
  · rfl
  · rename_i t ts hr
    rw [if_pos, if_pos rfl]
    · rfl
    · rw [← hB]
      exact kind_of_rest hr

theorem done_of_end (hsep : ∀ p ∈ sep, p = mark '\n') : ReadsAll inBlock A sep [] [] := by
  obtain ⟨hcount, hskip⟩ := separators_amid (B := []) hsep (by simp) (by simp) A
  refine ⟨sep.length, ?_, hskip⟩
  rw [declarations]
  dsimp only
  rw [hcount, hskip]
  rfl

/-- **A declaration without a block is read, then those after it.** -/
theorem complete (hsep : ∀ p ∈ sep, p = mark '\n')
    (hX : nextKind (X ++ (Y ++ B)) ∉ [.newline, .semicolon, .rightBrace, .endOfFile])
    (hhead : Reads head (A ++ sep) X (Y ++ B) (.complete d)) (hne : kinds X ≠ [])
    (hlater : ReadsAll inBlock (A ++ sep ++ X) Y B ds) :
    ReadsAll inBlock A (sep ++ (X ++ Y)) B (d :: ds) := by
  simp only [List.mem_cons, List.not_mem_nil, or_false, not_or] at hX
  obtain ⟨hnewline, hsemicolon, hbrace, hend⟩ := hX
  obtain ⟨hcount, hskip⟩ := separators_amid hsep hnewline hsemicolon A
  obtain ⟨n, hd, hn⟩ := hhead
  obtain ⟨l, hds, hl⟩ := hlater
  obtain ⟨t, ts, hr, hk⟩ := exists_rest hend (A ++ sep)
  have hrow : sep ++ (X ++ Y) ++ B = sep ++ (X ++ (Y ++ B)) := by simp
  have hafter : (amid A (sep ++ (X ++ (Y ++ B)))).skip (sep.length + n)
      = amid (A ++ sep ++ X) (Y ++ B) := by rw [← Cursor.skip_skip, hskip, hn]
  refine ⟨sep.length + n + l, ?_, ?_⟩
  · rw [hrow, declarations_complete hcount (hskip ▸ hr) (hk ▸ hbrace) (hskip ▸ hd)
      (pos_of_skip_amid hne hn), hafter, hds]
    rfl
  · rw [hrow, ← Cursor.skip_skip, hafter, hl]
    simp

/-- **A type is read with the declarations in its block**, then those after it. -/
theorem block (hsep : ∀ p ∈ sep, p = mark '\n')
    (hX : nextKind (X ++ mark '\x7b' :: (Y ++ mark '\x7d' :: (Z ++ B)))
      ∉ [.newline, .semicolon, .rightBrace, .endOfFile])
    (hhead : Reads head (A ++ sep) X (mark '\x7b' :: (Y ++ mark '\x7d' :: (Z ++ B))) (.type d))
    (hinner : ReadsAll true (A ++ sep ++ X ++ [mark '\x7b']) Y (mark '\x7d' :: (Z ++ B)) inner)
    (hlater : ReadsAll inBlock (A ++ sep ++ X ++ [mark '\x7b'] ++ Y ++ [mark '\x7d']) Z B ds) :
    ReadsAll inBlock A (sep ++ (X ++ mark '\x7b' :: (Y ++ mark '\x7d' :: Z))) B
      ({ d with
        members := some inner,
        span := d.span.merge ⟨width (A ++ sep ++ X ++ [mark '\x7b'] ++ Y),
          width (A ++ sep ++ X ++ [mark '\x7b'] ++ Y ++ [mark '\x7d'])⟩ } :: ds) := by
  simp only [List.mem_cons, List.not_mem_nil, or_false, not_or] at hX
  obtain ⟨hnewline, hsemicolon, hbrace, hend⟩ := hX
  obtain ⟨hcount, hskip⟩ := separators_amid hsep hnewline hsemicolon A
  obtain ⟨n, hd, hn⟩ := hhead
  obtain ⟨m, hin, hm⟩ := hinner
  obtain ⟨l, hds, hl⟩ := hlater
  obtain ⟨t, ts, hr, hk⟩ := exists_rest hend (A ++ sep)
  have hopen : (mark '\x7b').lexeme = .token .leftBrace := rfl
  have hclose : (mark '\x7d').lexeme = .token .rightBrace := rfl
  have hrow : sep ++ (X ++ mark '\x7b' :: (Y ++ mark '\x7d' :: Z)) ++ B
      = sep ++ (X ++ mark '\x7b' :: (Y ++ mark '\x7d' :: (Z ++ B))) := by simp
  have hafter : (amid A (sep ++ (X ++ mark '\x7b' :: (Y ++ mark '\x7d' :: (Z ++ B))))).skip
      (sep.length + n) = amid (A ++ sep ++ X) (mark '\x7b' :: (Y ++ mark '\x7d' :: (Z ++ B))) := by
    rw [← Cursor.skip_skip, hskip, hn]
  have hbody := congrArg (Cursor.skip 1) hafter
  rw [Cursor.skip_skip, skip_amid hopen] at hbody
  have hfinal := congrArg (Cursor.skip m) hbody
  rw [Cursor.skip_skip, hm] at hfinal
  have hpast := congrArg (Cursor.skip 1) hfinal
  rw [Cursor.skip_skip, skip_amid hclose] at hpast
  have hblock : declarations true ((amid A (sep ++ (X ++ mark '\x7b' :: (Y ++ mark '\x7d'
      :: (Z ++ B))))).skip (sep.length + n + 1)) = ⟨inner, [], m⟩ := by rw [hbody, hin]
  have hround : declarations inBlock _ = _ := declarations_block hcount (hskip ▸ hr) (hk ▸ hbrace)
    (hskip ▸ hd) (by rw [hafter, kind_amid hopen]) hblock (by rw [hfinal, kind_amid hclose])
  refine ⟨sep.length + n + 1 + m + 1 + l, ?_, ?_⟩
  · rw [hrow, hround, hpast, hds, hfinal, span_amid hclose, width_concat]
    rfl
  · rw [hrow, ← Cursor.skip_skip, hpast, hl]
    simp

end ReadsAll

/-- **A text is read as its row of pieces is**, where these are sound. -/
theorem ofSource_of_row {source : String} {ps : List Piece} {ds : List Declaration}
    (hs : source.toList = ps.flatMap Piece.text) (hrow : IsRow ps [])
    (hsound : ∀ p ∈ ps, p.lexeme.isSound = true) (h : ReadsAll false [] ps [] ds) :
    (Reading.ofSource source).lexed.errors = []
      ∧ (Reading.ofSource source).file = ⟨ds, []⟩ := by
  have hpieces : pieces source.toList = ps := by
    have hrow := pieces_row hrow
    rw [List.append_nil] at hrow
    rw [hs, hrow, pieces]
    simp
  obtain ⟨n, hd, -⟩ := h
  refine ⟨errors_eq_nil_iff.mpr (hpieces ▸ hsound), ?_⟩
  have hstart : Cursor.start source.toList (lex source).tokens = amid [] (ps ++ []) := by
    rw [lex, start_eq_amid, hpieces, List.append_nil]
  change SourceFile.ofTokens source.toList (lex source).tokens = _
  rw [SourceFile.ofTokens, hstart, hd]

end Memberwise
