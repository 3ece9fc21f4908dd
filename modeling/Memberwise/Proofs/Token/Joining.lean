import Memberwise.Proofs.Token.Row
import Memberwise.Proofs.Declaration.Spans

/-!
# Proofs/Token/Joining — two texts, a line end between them

No piece of a text without errors goes on with a line end: a run stops before one, a comment or
literal is closed already, and a number needs another character (`front_append_newline`).  So two
texts that are joined by a line end are cut up just as they are alone (`pieces_append_newline`), and

* `tokens_append_newline` — **the tokens of the joined text are those of the first, the line end and
  those of the second**, moved behind it;
* `lexErrors_append_newline` — **its errors are those of the second**, moved likewise.

Together they say that **reading tokens is local to lines once nothing is open** (`lex_lines`).
-/

namespace Memberwise

open Text Token

namespace Token

/-! ## No piece goes on with a line end -/

section Piece

variable {c : Char} {y : List Char}

theorem run_append_newline {p : Char → Bool} (hp : p '\n' = false) (y : List Char) :
    run p (y ++ ['\n']) = run p y := by
  induction y with
  | nil => simp [run, hp]
  | cons c y ih =>
    cases hc : p c with
    | false => simp [run, hc]
    | true =>
      simp only [run, List.cons_append, List.takeWhile_cons, hc, if_true, List.length_cons] at ih ⊢
      rw [ih]

theorem opening?_append_newline (y : List Char) : opening? (y ++ ['\n']) = opening? y := by
  have hle := run_le (· == '#') y
  rw [opening?, opening?, run_append_newline (by decide), List.drop_append_of_le_length hle]
  rcases y.drop (run (· == '#') y) with _ | ⟨a, _ | ⟨b, _ | ⟨d, z⟩⟩⟩
  case nil => rfl
  all_goals by_cases ha : a = '"' <;> simp [ha, List.isPrefixOf]

theorem literal?_append_newline {e : Extent} (h : literal? y = some e) (hc : e.closed = true) :
    literal? (y ++ ['\n']) = some e := by
  obtain ⟨⟨hashes, lines⟩, ho, rfl⟩ := Option.map_eq_some_iff.mp h
  dsimp only at hc ⊢
  rw [Extent.closed_after] at hc
  rw [literal?, opening?_append_newline, ho, Option.map_some]
  dsimp only
  rw [List.drop_append_of_le_length (openingLength_le ho)]
  have hle := scan_le [.quote hashes lines] (y.drop (openingLength hashes lines))
  rw [← List.append_nil (y.drop (openingLength hashes lines))] at hc
  have happ := scan_append (s := ['\n']) hc (by rw [List.append_nil]; exact hle)
  rw [List.append_nil] at happ
  rw [happ]

theorem radixLength_append_newline (y : List Char) :
    radixLength (y ++ ['\n']) = radixLength y := by
  match y with
  | [] => rfl
  | [r] =>
    simp only [List.cons_append, List.nil_append, radixLength]
    unfold radixDigit?
    split
    · rename_i digit h
      split at h
      all_goals first | cases h; rfl | cases h
    · rfl
  | r :: d :: s =>
    simp only [List.cons_append, radixLength]
    split
    · rename_i digit h
      have hdigit : orUnderscore digit '\n' = false := by
        unfold radixDigit? at h
        split at h
        all_goals first | cases h; rfl | cases h
      rw [run_append_newline hdigit]
    · rfl

theorem fractionLength_append_newline (y : List Char) :
    fractionLength (y ++ ['\n']) = fractionLength y := by
  match y with
  | [] => rfl
  | [a] => by_cases ha : a = '.' <;> simp [fractionLength, ha]
  | a :: d :: s =>
    by_cases ha : a = '.'
    · subst ha
      simp only [List.cons_append, fractionLength, run_append_newline (show
        orUnderscore Char.isDigit '\n' = false by decide)]
    · simp [fractionLength, ha]

theorem exponentLength_append_newline (y : List Char) :
    exponentLength (y ++ ['\n']) = exponentLength y := by
  match y with
  | [] => rfl
  | e :: s =>
    have hhead : (s ++ ['\n']).head? = some '+' ∨ (s ++ ['\n']).head? = some '-' ↔
        s.head? = some '+' ∨ s.head? = some '-' := by
      cases s <;> simp
    rw [List.cons_append, exponentLength, exponentLength]
    simp only [hhead]
    have hsign : (if s.head? = some '+' ∨ s.head? = some '-' then 1 else 0) ≤ s.length := by
      split
      · cases s <;> simp_all
      · exact Nat.zero_le _
    rw [List.drop_append_of_le_length hsign, run_append_newline (by decide)]

theorem number_append_newline (c : Char) (y : List Char) : number c (y ++ ['\n']) = number c y := by
  have hwhole : run (orUnderscore Char.isDigit) (y ++ ['\n']) = run (orUnderscore Char.isDigit) y :=
    run_append_newline (by decide) y
  have hle := run_le (orUnderscore Char.isDigit) y
  have hfraction := fractionLength_le (y.drop (run (orUnderscore Char.isDigit) y))
  rw [List.length_drop] at hfraction
  simp only [number, radixLength_append_newline, hwhole]
  rw [List.drop_append_of_le_length hle, fractionLength_append_newline,
    List.drop_append_of_le_length (by omega), exponentLength_append_newline]

theorem backtickFront_append_newline (h : (backtickFront y).1.isSound = true) :
    backtickFront (y ++ ['\n']) = backtickFront y := by
  rw [← List.append_nil y] at h
  have happ := backtickFront_append (s := ['\n']) (x := y) (r := []) ?_ h
  · rwa [List.append_nil] at happ
  · rw [List.append_nil]
    exact backtickFront_le y

theorem markFront_append_newline (c : Char) (y : List Char) :
    markFront c (y ++ ['\n']) = markFront c y := by
  cases y with
  | nil =>
    have hpair : markPairKind? c '\n' = none := by
      cases hp : markPairKind? c '\n' with
      | none => rfl
      | some k =>
        unfold markPairKind? at hp
        split at hp <;> simp_all
    simp [markFront, hpair]
  | cons d y => rfl

theorem runFront_append_newline {l : Lexeme} {p : Char → Bool} (hp : p '\n' = false)
    (y : List Char) : runFront l p (y ++ ['\n']) = runFront l p y := by
  rw [runFront, runFront, run_append_newline hp]

theorem wordFront_append_newline (c : Char) (y : List Char) :
    wordFront c (y ++ ['\n']) = wordFront c y := by
  have hle := run_le isXidContinue y
  rw [wordFront, wordFront, run_append_newline (by decide), List.take_append_of_le_length hle,
    List.drop_append_of_le_length hle]
  cases y.drop (run isXidContinue y) with
  | nil => rfl
  | cons => rfl

theorem blockCommentFront_append_newline (hy : y ≠ [])
    (h : (blockCommentFront y).1.isSound = true) :
    blockCommentFront (y ++ ['\n']) = blockCommentFront y := by
  obtain ⟨a, y, rfl⟩ := List.exists_cons_of_ne_nil hy
  have hle := blockComment_le 0 y
  simp only [blockCommentFront, List.cons_append, List.tail_cons] at h ⊢
  rw [← List.append_nil y] at h hle
  have happ := blockComment_append (s := ['\n']) h (by simpa using hle)
  rw [List.append_nil] at happ
  rw [happ]

/-- **No piece without errors goes on with a line end.** -/
theorem front_append_newline (h : (front c y).1.isSound = true) :
    front c (y ++ ['\n']) = front c y := by
  have hhead : ∀ d, d ≠ '\n' → ((y ++ ['\n']).head? = some d ↔ y.head? = some d) := by
    intro d hd
    cases y with
    | nil => simpa using hd.symm
    | cons => rfl
  obtain ⟨f, hf⟩ := exists_begins c y
  rw [hf.front_eq] at h ⊢
  cases hf with
  | blank hb => rw [(Begins.blank hb).front_eq, runFront_append_newline (by decide)]
  | word hw => rw [(Begins.word hw).front_eq, wordFront_append_newline]
  | number hd => rw [(Begins.number hd).front_eq, numberFront, number_append_newline, numberFront]
  | lineComment hs =>
    rw [(Begins.lineComment ((hhead _ (by decide)).mpr hs)).front_eq,
      runFront_append_newline (by decide)]
  | blockComment hs =>
    rw [(Begins.blockComment ((hhead _ (by decide)).mpr hs)).front_eq,
      blockCommentFront_append_newline (by rintro rfl; cases hs) h]
  | slash hline hblock =>
    rw [(Begins.slash (mt (hhead _ (by decide)).mp hline) (mt (hhead _ (by decide)).mp
      hblock)).front_eq, markFront_append_newline]
  | literal hl => exact (Begins.literal (literal?_append_newline (y := c :: y) hl h)).front_eq
  | hash ho =>
    have hopen : opening? ('#' :: (y ++ ['\n'])) = none := (opening?_append_newline _).trans ho
    rw [(Begins.hash hopen).front_eq, hashFront, hashFront, run_append_newline (by decide)]
  | backtick => rw [Begins.backtick.front_eq, backtickFront_append_newline h]
  | dollar =>
    rw [Begins.dollar.front_eq, dollarFront, dollarFront, run_append_newline (by decide)]
  | mark hm => rw [(Begins.mark hm).front_eq, markFront_append_newline]

/-- What comes before a line end settles the end of a piece, or the line end does. -/
theorem settles_concat_newline (r : List Char) : settles (r ++ ['\n']) = true := by
  match r with
  | [] => decide
  | [a] => simp [settles]
  | a :: b :: r => cases r <;> rfl

/-- **A piece at the end of a text fits before a line end there.** -/
theorem Piece.Fits.append_newline {p : Piece} {r : List Char} (h : p.Fits r)
    (hs : p.lexeme.isSound = true) (s : List Char) : p.Fits (r ++ '\n' :: s) := by
  have hend : p.Fits (r ++ ['\n']) := by
    obtain ⟨c, x, ht, hf⟩ := h
    refine ⟨c, x, ht, ?_⟩
    rw [← List.append_assoc, front_append_newline (by rw [hf]; exact hs), hf]
  rw [← List.append_nil (r ++ ['\n'])] at hend
  have := hend.of_settles (s := s) hs (settles_concat_newline r)
  rwa [List.append_assoc] at this

end Piece

/-! ## The pieces of the joined text -/

theorem isRow_append_newline {ps : List Piece} {r : List Char} (h : IsRow ps r)
    (hs : ∀ p ∈ ps, p.lexeme.isSound = true) (s : List Char) : IsRow ps (r ++ '\n' :: s) := by
  induction ps with
  | nil => trivial
  | cons p ps ih =>
    refine ⟨?_, ih h.2 fun q hq => hs q (List.mem_cons_of_mem _ hq)⟩
    rw [← List.append_assoc]
    exact h.1.append_newline (hs p List.mem_cons_self) s

/-- The pieces of a text stand in a row. -/
theorem isRow_pieces (s : List Char) : IsRow (pieces s) [] := by
  have hrow : ∀ ps qs : List Piece, pieces s = ps ++ qs → IsRow qs [] := by
    intro ps qs h
    induction qs generalizing ps with
    | nil => trivial
    | cons q qs ih =>
      refine ⟨?_, ih (ps ++ [q]) (by simp [h])⟩
      rw [List.append_nil]
      exact fits_of_pieces_eq h
  exact hrow [] _ rfl

/-- **Two texts joined by a line end are cut up as they are alone.** -/
theorem pieces_append_newline {a : List Char} (ha : (lexText a).errors = []) (b : List Char) :
    pieces (a ++ '\n' :: b) = pieces a ++ mark '\n' :: pieces b := by
  have hsound := errors_eq_nil_iff.mp ha
  have hrow := pieces_row (isRow_append_newline (isRow_pieces a) hsound b)
  rw [List.nil_append, flatMap_text_pieces] at hrow
  rw [hrow]
  exact congrArg _ (pieces_append (fits_mark (by decide) b))

/-! ## The tokens of the joined text -/

theorem tokens_move (n : Nat) (q : Placed) :
    Placed.tokens ⟨q.piece, q.span.move n⟩ = q.tokens.map (mapSpans (.move n)) := by
  unfold Placed.tokens
  cases q.piece.lexeme with
  | blockComment =>
    dsimp only
    split <;> rfl
  | _ => rfl

instance : Spanned LexError where
  mapSpans f e := { e with span := f e.span }
  mapSpans_id _ := rfl
  mapSpans_mapSpans _ _ _ := rfl

theorem errors_move (n : Nat) (q : Placed) :
    Placed.errors ⟨q.piece, q.span.move n⟩ = q.errors.map (mapSpans (.move n)) := by
  unfold Placed.errors
  dsimp only
  cases q.piece.lexeme with
  | literal closed | blockComment closed => cases closed <;> rfl
  | _ => rfl

theorem placed_add (m n : Nat) (ps : List Piece) :
    placed (m + n) ps = (placed m ps).map fun q => ⟨q.piece, q.span.move n⟩ := by
  induction ps generalizing m with
  | nil => rfl
  | cons p ps ih =>
    rw [placed, placed, List.map_cons, ← ih, Nat.add_right_comm]
    rfl

/-- **The tokens of a row further on** are those of the row, moved. -/
theorem rowTokens_add (m n : Nat) (ps : List Piece) :
    rowTokens (m + n) ps = (rowTokens m ps).map (mapSpans (.move n)) := by
  rw [rowTokens, rowTokens, placed_add, List.flatMap_map, List.map_flatMap]
  exact congrArg (List.flatMap · _) (funext (tokens_move n))

end Token

/-- **The tokens of two texts joined by a line end.** -/
theorem tokens_append_newline {a : List Char} (ha : (lexText a).errors = []) (b : List Char) :
    (lexText (a ++ '\n' :: b)).tokens.tokens = (lexText a).tokens.tokens
      ++ ⟨.newline, ⟨byteLength a, byteLength a + 1⟩⟩
        :: (lexText b).tokens.tokens.map (mapSpans (.move (byteLength a + 1))) := by
  have hcons : ∀ n (p : Piece) ps, rowTokens n (p :: ps)
      = rowTokens n [p] ++ rowTokens (n + byteLength p.text) ps := by
    intro n p ps
    rw [← List.singleton_append, rowTokens_append, List.flatMap_singleton]
  change rowTokens 0 (pieces (a ++ '\n' :: b)) = rowTokens 0 (pieces a) ++ _
    :: (rowTokens 0 (pieces b)).map _
  rw [pieces_append_newline ha, rowTokens_append, flatMap_text_pieces, hcons, ← rowTokens_add,
    Nat.zero_add, Nat.zero_add]
  rfl

/-- **The errors of two texts joined by a line end**, the first without errors: those of the
second, moved. -/
theorem lexErrors_append_newline {a : List Char} (ha : (lexText a).errors = []) (b : List Char) :
    (lexText (a ++ '\n' :: b)).errors
      = (lexText b).errors.map (mapSpans (.move (byteLength a + 1))) := by
  have hfirst : (placed 0 (pieces a)).flatMap Placed.errors = [] := ha
  change (placed 0 (pieces (a ++ '\n' :: b))).flatMap Placed.errors
    = ((placed 0 (pieces b)).flatMap Placed.errors).map _
  rw [pieces_append_newline ha, placed_append, flatMap_text_pieces, List.flatMap_append, hfirst,
    placed, List.flatMap_cons]
  change (placed (0 + byteLength a + 1) (pieces b)).flatMap Placed.errors = _
  rw [Nat.zero_add, ← Nat.zero_add (byteLength a + 1), placed_add, Nat.zero_add, List.flatMap_map,
    List.map_flatMap]
  exact congrArg (List.flatMap · _) (funext (errors_move _))

/-- **Two texts without errors have none when a line end joins them.** -/
theorem errors_append_newline {a b : List Char} (ha : (lexText a).errors = [])
    (hb : (lexText b).errors = []) : (lexText (a ++ '\n' :: b)).errors = [] := by
  rw [lexErrors_append_newline ha, hb, List.map_nil]

/-- **Reading tokens is local to lines once nothing is open**: behind a text without errors and a
line end, another text gives the tokens and the errors it gives alone, moved behind the two. -/
theorem lex_lines {a : String} (ha : (lex a).errors = []) (b : String) :
    (lex (a ++ "\n" ++ b)).tokens.toList
        = (lex a).tokens.tokens
          ++ ⟨.newline, ⟨byteLength a.toList, byteLength a.toList + 1⟩⟩
            :: (lex b).tokens.toList.map (mapSpans (.move (byteLength a.toList + 1)))
      ∧ (lex (a ++ "\n" ++ b)).errors
        = (lex b).errors.map (mapSpans (.move (byteLength a.toList + 1))) := by
  have htext : (a ++ "\n" ++ b).toList = a.toList ++ '\n' :: b.toList := by
    simp [String.toList_append]
  have hstop : byteLength (a.toList ++ '\n' :: b.toList)
      = byteLength b.toList + (byteLength a.toList + 1) := by
    rw [byteLength_append, byteLength_cons, show '\n'.utf8Size = 1 from rfl]
    omega
  rw [lex, lex, lex, htext]
  refine ⟨?_, lexErrors_append_newline ha _⟩
  rw [TokenList.toList, tokens_append_newline ha, TokenList.toList, List.map_append,
    List.append_assoc, List.cons_append]
  have hlast : (lexText (a.toList ++ '\n' :: b.toList)).tokens.last
      = mapSpans (.move (byteLength a.toList + 1)) (lexText b.toList).tokens.last :=
    congrArg (fun n => (⟨.endOfFile, .point n⟩ : Token)) hstop
  rw [hlast]
  rfl

/-- A comment over two lines before, a literal without its end behind. -/
theorem lex_lines_unterminated :
    (lex "x /*\n*/").errors = []
      ∧ (lex ("x /*\n*/" ++ "\n" ++ "y\"")).tokens.toList
          = [⟨.ident, ⟨0, 1⟩⟩, ⟨.newline, ⟨7, 7⟩⟩, ⟨.newline, ⟨7, 8⟩⟩, ⟨.ident, ⟨8, 9⟩⟩,
            ⟨.text, ⟨9, 10⟩⟩, ⟨.endOfFile, ⟨10, 10⟩⟩]
      ∧ (lex ("x /*\n*/" ++ "\n" ++ "y\"")).errors = [⟨.unterminatedString, ⟨9, 10⟩⟩] := by
  have hfirst : (lex "x /*\n*/").errors = [] := by decide +kernel
  obtain ⟨htokens, herrors⟩ := lex_lines hfirst "y\""
  refine ⟨hfirst, ?_, ?_⟩
  · rw [htokens]
    decide +kernel
  · rw [herrors]
    decide +kernel

end Memberwise
