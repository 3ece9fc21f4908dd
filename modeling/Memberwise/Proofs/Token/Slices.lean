import Memberwise.Proofs.Token.Joining

/-!
# Proofs/Token/Slices — a part of a source is read as it was in the whole

Which piece a text begins with is settled by the longest match, and so by what follows as well.  But
what follows matters only where it lengthens the piece: a piece that ends inside a text is the same
when the text is cut off behind it (`front_truncate`), for runs, for numbers with their fractions and
exponents, for literals of every form and for comments.  One thing has to be seen to: a keyword
before certain characters counts as a name.  Those characters belong to no piece that is sound.

* `isRow_truncate` — **sound pieces that stand before sound pieces stand alone**;
* `pieces_slice` — so a part of a text, cut between pieces, has the pieces it has in the text;
* `exists_captures` — **the part of a source from one token to another is read as just the tokens
  there**, moved to its own beginning.
-/

namespace Memberwise

open Text Token

namespace Token

/-! ## Cutting a text off behind a piece -/

section Truncate

variable {c : Char} {y s : List Char}

theorem run_truncate {p : Char → Bool} (h : run p (y ++ s) ≤ y.length) :
    run p y = run p (y ++ s) := by
  rcases Nat.lt_or_eq_of_le h with hlt | heq
  · have := run_append_of_lt (s := []) hlt
    rwa [List.append_nil] at this
  · have hall := forall_mem_of_run_append heq
    have := run_append_of_all (s := []) hall (by simp)
    rw [List.append_nil] at this
    rw [this, heq]

/-- What a text opens, a longer one opens. -/
theorem isSome_opening?_append (h : (opening? y).isSome = true) :
    (opening? (y ++ s)).isSome = true := by
  have hlt : run (· == '#') y < y.length := by
    refine Nat.lt_of_not_le fun hle => ?_
    rw [opening?, List.drop_of_length_le hle] at h
    cases h
  have hrun := run_append_of_lt (r := []) (s := s) (by rwa [List.append_nil])
  rw [List.append_nil] at hrun
  obtain ⟨a, t, ht⟩ := List.exists_cons_of_length_pos (l := y.drop (run (· == '#') y))
    (by simp; omega)
  rw [opening?, ht] at h
  rw [opening?, hrun, List.drop_append_of_le_length (Nat.le_of_lt hlt), ht]
  by_cases ha : a = '"' <;> simp_all

/-- What opens a literal is known from its own characters. -/
theorem opening?_truncate {k : Nat} {lines : Bool} (h : opening? (y ++ s) = some (k, lines))
    (hl : openingLength k lines ≤ y.length) : opening? y = some (k, lines) := by
  have hk := run_of_opening? h
  have hle := le_openingLength k lines
  have hrun : run (· == '#') y = k := by rw [run_truncate (s := s) (by omega), hk]
  obtain ⟨a, t, ht⟩ := List.exists_cons_of_length_pos (l := y.drop k) (by simp; omega)
  rw [opening?, hk, List.drop_append_of_le_length (by omega), ht] at h
  rw [opening?, hrun, ht]
  by_cases ha : a = '"'
  case neg => simp [ha] at h
  subst ha
  obtain ⟨-, hlines⟩ := Prod.mk.inj (Option.some.inj h)
  have hquotes : ['"', '"'].isPrefixOf t = lines := by
    cases lines with
    | true =>
      have hlen := congrArg List.length ht
      simp only [List.length_drop, List.length_cons, openingLength, if_true] at hlen hl
      have := isPrefixOf_append (p := ['"', '"']) (y := t) (r := s) (s := []) (by simp; omega)
      rw [List.append_nil] at this
      exact this.trans hlines
    | false =>
      rw [← Bool.not_eq_true, List.isPrefixOf_iff_prefix] at hlines ⊢
      exact fun hp => hlines (hp.trans (List.prefix_append t s))
  simp [hquotes]

theorem literal?_truncate {e : Extent} (h : literal? (y ++ s) = some e) (hc : e.closed = true)
    (hn : e.length ≤ y.length) : literal? y = some e := by
  obtain ⟨⟨k, lines⟩, ho, rfl⟩ := Option.map_eq_some_iff.mp h
  dsimp only at hc hn ⊢
  rw [Extent.closed_after] at hc
  rw [Extent.length_after] at hn
  have hl : openingLength k lines ≤ y.length := by omega
  rw [List.drop_append_of_le_length hl] at hc hn ⊢
  have hscan := scan_append (s := []) hc (by rw [List.length_drop]; omega)
  rw [List.append_nil] at hscan
  rw [literal?, opening?_truncate ho hl, Option.map_some]
  dsimp only
  rw [hscan]

theorem opening?_truncate_of_none (h : opening? (y ++ s) = none) : opening? y = none := by
  by_contra ho
  have := isSome_opening?_append (s := s) (Option.isSome_iff_ne_none.mpr ho)
  rw [h] at this
  cases this

/-- A part of a number that is not there in a longer text is not there in one without room for it. -/
theorem truncate_of_short {f : List Char → Nat} (hf : ∀ z, 0 < f z → 2 ≤ f z)
    (hle : ∀ z, f z ≤ z.length) (hy : ¬2 ≤ y.length) (h : f (y ++ s) ≤ y.length) :
    f y = f (y ++ s) := by
  have hshort : ∀ z, f z ≤ y.length → f z = 0 := fun z hz => by
    by_contra hne
    have := hf z (Nat.pos_of_ne_zero hne)
    omega
  rw [hshort _ (hle y), hshort _ h]

/-- A radix has a letter and a digit. -/
theorem two_le_radixLength (h : 0 < radixLength s) : 2 ≤ radixLength s := by
  unfold radixLength at h ⊢
  split
  · split
    · split
      · exact Nat.le_add_right _ _
      · simp_all
    · simp_all
  · simp_all

theorem radixLength_truncate (h : radixLength (y ++ s) ≤ y.length) :
    radixLength y = radixLength (y ++ s) := by
  by_cases hy : 2 ≤ y.length
  case neg => exact truncate_of_short (fun _ => two_le_radixLength) radixLength_le hy h
  case pos =>
    obtain ⟨r, d, z, rfl⟩ := exists_cons_cons_of_two_le hy
    simp only [List.cons_append, radixLength, List.length_cons] at h ⊢
    split
    · rename_i digit hr
      rw [hr] at h
      dsimp only at h
      split
      · rename_i hd
        rw [if_pos hd] at h
        rw [run_truncate (s := s) (by omega)]
      · rfl
    · rfl

/-- A fraction has a dot and a digit. -/
theorem two_le_fractionLength (h : 0 < fractionLength s) : 2 ≤ fractionLength s := by
  unfold fractionLength at h ⊢
  split
  · split
    · exact Nat.le_add_right _ _
    · simp_all
  · simp_all

theorem fractionLength_truncate (h : fractionLength (y ++ s) ≤ y.length) :
    fractionLength y = fractionLength (y ++ s) := by
  by_cases hy : 2 ≤ y.length
  case neg => exact truncate_of_short (fun _ => two_le_fractionLength) fractionLength_le hy h
  case pos =>
    obtain ⟨a, d, z, rfl⟩ := exists_cons_cons_of_two_le hy
    by_cases ha : a = '.'
    · subst ha
      simp only [List.cons_append, fractionLength, List.length_cons] at h ⊢
      split
      · rename_i hd
        rw [if_pos hd] at h
        rw [run_truncate (s := s) (by omega)]
      · rfl
    · simp [fractionLength, ha]

theorem exponentLength_truncate (h : exponentLength (y ++ s) ≤ y.length) :
    exponentLength y = exponentLength (y ++ s) := by
  by_cases hy : 2 ≤ y.length
  case neg => exact truncate_of_short (fun _ => two_le_exponentLength) exponentLength_le hy h
  case pos =>
    obtain ⟨a, d, z, rfl⟩ := exists_cons_cons_of_two_le hy
    simp only [List.cons_append, exponentLength, List.length_cons, List.head?_cons,
      Option.some.injEq] at h ⊢
    split
    case isFalse => rfl
    case isTrue ha =>
      rw [if_pos ha] at h
      by_cases hd : d = '+' ∨ d = '-'
      · simp only [hd, if_true, List.drop_succ_cons, List.drop_zero] at h ⊢
        have hrun : run Char.isDigit z = run Char.isDigit (z ++ s) :=
          run_truncate (by split at h <;> omega)
        rw [hrun]
      · simp only [hd, if_false, List.drop_zero] at h ⊢
        have hrun : run Char.isDigit (d :: z) = run Char.isDigit (d :: z ++ s) :=
          run_truncate (by rw [List.cons_append, List.length_cons]; split at h <;> omega)
        rw [hrun, List.cons_append]

/-- **A number is known from its own characters.** -/
theorem number_truncate (h : (number c (y ++ s)).2 ≤ y.length) : number c y = number c (y ++ s) := by
  have hradix : (if c = '0' then radixLength (y ++ s) else 0) ≤ y.length →
      (if c = '0' then radixLength y else 0) = if c = '0' then radixLength (y ++ s) else 0 := by
    intro hle
    split
    · rw [if_pos ‹_›] at hle
      exact radixLength_truncate hle
    · rfl
  unfold number at h ⊢
  dsimp only at h ⊢
  by_cases hr : (if c = '0' then radixLength (y ++ s) else 0) = 0
  · rw [if_neg (not_not.mpr hr)] at h ⊢
    rw [hradix (by omega), if_neg (not_not.mpr hr)]
    dsimp only at h ⊢
    rw [run_truncate (s := s) (by omega)]
    generalize run (orUnderscore Char.isDigit) (y ++ s) = w at h ⊢
    rw [List.drop_append_of_le_length (by omega)] at h ⊢
    rw [fractionLength_truncate (s := s) (by rw [List.length_drop]; omega)]
    generalize fractionLength (y.drop w ++ s) = f at h ⊢
    rw [List.drop_append_of_le_length (by omega)] at h ⊢
    rw [exponentLength_truncate (s := s) (by rw [List.length_drop]; omega)]
  · rw [if_pos hr] at h ⊢
    rw [hradix h, if_pos hr]

theorem backtickFront_truncate (hn : (backtickFront (y ++ s)).2 ≤ y.length)
    (hs : (backtickFront (y ++ s)).1.isSound = true) : backtickFront y = backtickFront (y ++ s) := by
  have := backtickFront_append (s := []) hn hs
  rwa [List.append_nil] at this

theorem hashFront_truncate (hn : (hashFront (y ++ s)).2 ≤ y.length) :
    hashFront y = hashFront (y ++ s) := by
  have hle : run (· == '#') (y ++ s) ≤ y.length := by
    unfold hashFront at hn
    dsimp only at hn
    split at hn
    · omega
    · exact hn
  rw [hashFront, hashFront, run_truncate hle]

theorem dollarFront_truncate (hn : (dollarFront (y ++ s)).2 ≤ y.length) :
    dollarFront y = dollarFront (y ++ s) := by
  have hle : run isXidContinue (y ++ s) ≤ y.length := by
    unfold dollarFront at hn
    dsimp only at hn
    split at hn
    · omega
    · exact hn
  rw [dollarFront, dollarFront, run_truncate hle]

theorem markFront_truncate (hn : (markFront c (y ++ s)).2 ≤ y.length) :
    markFront c y = markFront c (y ++ s) := by
  cases y with
  | cons a y => rfl
  | nil =>
    -- Without room for a second character the mark is the first one alone.
    cases hp : (([] : List Char) ++ s).head?.bind (markPairKind? c) with
    | none => rw [markFront, markFront, hp]; rfl
    | some k =>
      rw [markFront, hp] at hn
      cases hn

/-- The character after a word counts for its kind only if it looks like one of a name. -/
theorem wordKind_truncate {word : List Char} (h : ∀ d, s.head? = some d → d.toNat < 128) :
    wordKind word none = wordKind word s.head? := by
  cases hd : s.head? with
  | none => rfl
  | some d => rw [wordKind, wordKind, Option.any_some, startsLikeNameCharacter_of_lt (h d hd)]; rfl

/-- A word is of the same kind when the text is cut off behind it, unless what is cut off looks like
more of a name and is none. -/
theorem wordFront_truncate (hn : run isXidContinue (y ++ s) ≤ y.length)
    (hhead : ∀ d, s.head? = some d → d.toNat < 128 ∨ isXidContinue d = true) :
    wordFront c y = wordFront c (y ++ s) := by
  rcases Nat.lt_or_eq_of_le hn with hlt | heq
  · have := wordFront_append (c := c) (s := []) hlt
    rwa [List.append_nil] at this
  · have hascii : ∀ d, s.head? = some d → d.toNat < 128 := fun d hd => by
      refine (hhead d hd).resolve_right fun hx => ?_
      rw [head?_of_run_append heq hd] at hx
      cases hx
    rw [wordFront, wordFront, run_truncate hn, heq, List.take_left, List.drop_left,
      List.take_length, List.drop_length, List.head?_nil, wordKind_truncate hascii]

theorem runFront_truncate {l : Lexeme} {p : Char → Bool} (hn : run p (y ++ s) ≤ y.length) :
    runFront l p y = runFront l p (y ++ s) := by
  rw [runFront, runFront, run_truncate hn]

/-- A comment over lines stays when the text is cut off behind it. -/
theorem blockCommentFront_truncate (hs : (blockCommentFront (y ++ s)).1.isSound = true)
    (hn : (blockCommentFront (y ++ s)).2 ≤ y.length) :
    blockCommentFront y = blockCommentFront (y ++ s) := by
  simp only [blockCommentFront] at hs hn ⊢
  obtain ⟨a, y, rfl⟩ := List.exists_cons_of_length_pos (l := y) (by omega)
  simp only [List.cons_append, List.tail_cons, List.length_cons] at hs hn ⊢
  have hcomment := blockComment_append (s := []) hs (by omega)
  rw [List.append_nil] at hcomment
  rw [hcomment]

/-- **A piece stays when the text is cut off behind it.** -/
theorem front_truncate (hs : (front c (y ++ s)).1.isSound = true)
    (hn : (front c (y ++ s)).2 ≤ y.length)
    (hhead : ∀ d, s.head? = some d → d.toNat < 128 ∨ isXidContinue d = true) :
    front c y = front c (y ++ s) := by
  have hsecond : ∀ d, y.head? = some d → (y ++ s).head? = some d := by
    cases y <;> simp
  -- A second character that belongs to the piece is there.
  have hroom : ∀ d, (y ++ s).head? = some d → 0 < y.length → y.head? = some d := by
    cases y <;> simp
  obtain ⟨f, hf⟩ := exists_begins c (y ++ s)
  rw [hf.front_eq] at hs hn ⊢
  cases hf with
  | blank h => rw [(Begins.blank h).front_eq, runFront_truncate hn]
  | word h => rw [(Begins.word h).front_eq, wordFront_truncate hn hhead]
  | number h => rw [(Begins.number h).front_eq, numberFront, number_truncate hn, numberFront]
  | lineComment h =>
    have hpos : 0 < run (· != '\n') (y ++ s) := by
      obtain ⟨t, ht⟩ := List.head?_eq_some_iff.mp h
      simp [ht, run]
    rw [(Begins.lineComment (hroom _ h (Nat.lt_of_lt_of_le hpos hn))).front_eq,
      runFront_truncate hn]
  | blockComment h =>
    have hpos : 0 < (blockCommentFront (y ++ s)).2 := Nat.lt_add_right _ Nat.one_pos
    rw [(Begins.blockComment (hroom _ h (Nat.lt_of_lt_of_le hpos hn))).front_eq,
      blockCommentFront_truncate hs hn]
  | slash h h' =>
    rw [(Begins.slash (fun hd => h (hsecond _ hd)) fun hd => h' (hsecond _ hd)).front_eq,
      markFront_truncate hn]
  | literal h =>
    exact (Begins.literal (literal?_truncate (y := c :: y) h hs (by simp at hn ⊢; omega))).front_eq
  | hash h =>
    have hopen : opening? ('#' :: y) = none := opening?_truncate_of_none (s := s) h
    rw [(Begins.hash hopen).front_eq, hashFront_truncate hn]
  | backtick => rw [Begins.backtick.front_eq, backtickFront_truncate hn hs]
  | dollar => rw [Begins.dollar.front_eq, dollarFront_truncate hn]
  | mark h => rw [(Begins.mark h).front_eq, markFront_truncate hn]

/-! ## Rows alone -/

/-- Characters that do not tell a keyword before them from a name. -/
def IsSettled (s : List Char) : Prop :=
  ∀ d, s.head? = some d → d.toNat < 128 ∨ isXidContinue d = true

theorem Piece.Fits.truncate {p : Piece} (h : p.Fits (y ++ s)) (hs : p.lexeme.isSound = true)
    (hhead : IsSettled s) : p.Fits y := by
  obtain ⟨c, x, ht, hf⟩ := h
  rw [← List.append_assoc] at hf
  refine ⟨c, x, ht, ?_⟩
  rw [front_truncate (by rw [hf]; exact hs) (by rw [hf]; simp) hhead, hf]

/-- Sound pieces begin as a name does or with a character of ASCII. -/
theorem isSettled_of_isRow {ps : List Piece} (h : IsRow ps s)
    (hs : ∀ p ∈ ps, p.lexeme.isSound = true) : IsSettled (ps.flatMap Piece.text) := by
  cases ps with
  | nil => exact fun d hd => by cases hd
  | cons p ps =>
    obtain ⟨c, x, ht, hc⟩ := h.1.head_cases (hs p List.mem_cons_self)
    intro d hd
    rw [List.flatMap_cons, ht] at hd
    cases hd
    exact hc

/-- **A row of sound pieces stands alone** if it stands before sound pieces. -/
theorem isRow_truncate {ps : List Piece} (h : IsRow ps s)
    (hs : ∀ p ∈ ps, p.lexeme.isSound = true) (hhead : IsSettled s) : IsRow ps [] := by
  induction ps with
  | nil => trivial
  | cons p ps ih =>
    refine ⟨?_, ih h.2 fun q hq => hs q (List.mem_cons_of_mem _ hq)⟩
    rw [List.append_nil]
    exact h.1.truncate (hs p List.mem_cons_self) hhead

/-- **The pieces of a part of a text are those of the text**, if it is cut between pieces. -/
theorem pieces_slice {A G B : List Piece} {source : List Char} (h : pieces source = A ++ G ++ B)
    (hs : ∀ p ∈ pieces source, p.lexeme.isSound = true) : pieces (G.flatMap Piece.text) = G := by
  rw [h] at hs
  have hrow := isRow_pieces source
  rw [h, List.append_assoc, isRow_append, isRow_append] at hrow
  obtain ⟨-, hG, hB⟩ := hrow
  have hsettled := isSettled_of_isRow hB fun p hp => hs p (by simp [hp])
  rw [List.append_nil] at hG
  have hpieces := pieces_row (isRow_truncate hG (fun p hp => hs p (by simp [hp])) hsettled)
  rwa [List.append_nil, pieces, List.append_nil] at hpieces

end Truncate

/-! ## The pieces of some tokens -/

/-- A token that is no line end stands where its piece does. -/
theorem span_of_rowTokens_singleton {n : Nat} {p : Piece} {t : Token} (h : rowTokens n [p] = [t])
    (hk : t.kind ≠ .newline) : t.span = ⟨n, n + byteLength p.text⟩
      ∧ (p.lexeme = .token t.kind ∨ t.kind = .text ∧ ∃ closed, p.lexeme = .literal closed) := by
  rw [rowTokens, placed, placed, List.flatMap_singleton, Placed.tokens] at h
  cases hl : p.lexeme with
  | token kind =>
    rw [hl] at h
    cases h
    exact ⟨rfl, .inl rfl⟩
  | literal closed =>
    rw [hl] at h
    cases h
    exact ⟨rfl, .inr ⟨rfl, closed, rfl⟩⟩
  | blockComment =>
    rw [hl] at h
    dsimp only at h
    split at h
    · cases h
      exact absurd rfl hk
    · cases h
  | _ =>
    rw [hl] at h
    cases h

theorem lexeme_ne_of_rowTokens_singleton {n : Nat} {p : Piece} {t : Token}
    (h : rowTokens n [p] = [t]) (hk : t.kind ≠ .newline) :
    p.lexeme ≠ .blank ∧ p.lexeme ≠ .token .newline ∧ p.lexeme ≠ .lineComment := by
  rcases (span_of_rowTokens_singleton h hk).2 with hl | ⟨-, closed, hl⟩
  · rw [hl]
    exact ⟨by simp, fun he => hk (Lexeme.token.inj he), by simp⟩
  · rw [hl]
    simp

/-- The pieces from the one that gives a token to the one that gives a later one, or the same. -/
structure Yields (n : Nat) (G : List Piece) (covered : List Token) (first last : Token) : Prop where
  tokens_eq : rowTokens n G = covered
  exists_first : ∃ p D, G = p :: D ∧ rowTokens n [p] = [first]
  exists_last : ∃ D q, G = D ++ [q] ∧ rowTokens (n + width D) [q] = [last]

/-- Tokens that stand side by side come from pieces that do. -/
theorem exists_yields {n : Nat} {ps : List Piece} {before covered after : List Token}
    {first last : Token} (h : rowTokens n ps = before ++ covered ++ after)
    (hf : covered.head? = some first) (hl : covered.getLast? = some last) :
    ∃ A G B, ps = A ++ G ++ B ∧ Yields (n + width A) G covered first last := by
  obtain ⟨later, rfl⟩ := List.head?_eq_some_iff.mp hf
  obtain ⟨mid, hmid⟩ := List.getLast?_eq_some_iff.mp hl
  obtain ⟨A, p, C, rfl, hA, hp, hC⟩ := exists_piece_of_rowTokens
    (show rowTokens n ps = before ++ first :: (later ++ after) by rw [h]; simp)
  change rowTokens (n + width A) [p] = [first] at hp
  have hrest : rowTokens (n + width A) (p :: C) = mid ++ last :: after := by
    have hsplit := rowTokens_append n A (p :: C)
    rw [h, hA, List.append_assoc, List.append_cancel_left_eq] at hsplit
    rw [hmid] at hsplit
    rw [width]
    simpa using hsplit.symm
  obtain ⟨D, q, B, hD, hmid', hq, -⟩ := exists_piece_of_rowTokens hrest
  refine ⟨A, D ++ [q], B, by rw [hD]; simp, ?_, ?_, ⟨D, q, rfl, hq⟩⟩
  · rw [rowTokens_append, hmid', hmid]
    exact congrArg _ hq
  · cases D with
    | nil =>
      obtain ⟨rfl, -⟩ := List.cons.inj hD
      exact ⟨p, [], rfl, hp⟩
    | cons r D =>
      obtain ⟨rfl, -⟩ := List.cons.inj hD
      exact ⟨p, D ++ [q], rfl, hp⟩

namespace Yields

variable {n : Nat} {G : List Piece} {covered : List Token} {first last : Token}

theorem start_eq (h : Yields n G covered first last) (hk : first.kind ≠ .newline) :
    first.span.start = n := by
  obtain ⟨p, D, -, hp⟩ := h.exists_first
  rw [(span_of_rowTokens_singleton hp hk).1]

theorem stop_eq (h : Yields n G covered first last) : last.span.stop = n + width G := by
  obtain ⟨D, q, rfl, hq⟩ := h.exists_last
  rcases rowTokens_singleton (n + width D) q with hnone | ⟨t, ht, hstop, -⟩
  · rw [hnone] at hq
    cases hq
  · rw [ht] at hq
    obtain ⟨rfl, -⟩ := List.cons.inj hq
    rw [hstop, width_concat, Nat.add_assoc]

/-- Pieces that give tokens begin with no white space, unless with a line end. -/
theorem isWhite_of_head? (h : Yields n G covered first last) (hk : first.kind ≠ .newline)
    {s : List Char} (hrow : IsRow G s) (hs : ∀ p ∈ G, p.lexeme.isSound = true) {c : Char}
    (hc : (G.flatMap Piece.text).head? = some c) : isWhite c = false := by
  obtain ⟨p, D, rfl, hp⟩ := h.exists_first
  have hl := lexeme_ne_of_rowTokens_singleton hp hk
  obtain ⟨d, x, hd, hwhite⟩ := hrow.1.exists_first (hs p List.mem_cons_self) hl.1 hl.2.1
  rw [List.flatMap_cons, hd] at hc
  cases hc
  exact hwhite

/-- Pieces that give tokens end with no white space, unless with a line end. -/
theorem isWhite_of_getLast? (h : Yields n G covered first last) (hk : last.kind ≠ .newline)
    {s : List Char} (hrow : IsRow G s) (hs : ∀ p ∈ G, p.lexeme.isSound = true) {c : Char}
    (hc : (G.flatMap Piece.text).getLast? = some c) : isWhite c = false := by
  obtain ⟨D, q, rfl, hq⟩ := h.exists_last
  have hl := lexeme_ne_of_rowTokens_singleton hq hk
  rw [isRow_append] at hrow
  obtain ⟨t, e, he, hwhite⟩ := hrow.2.1.exists_last (hs q (by simp)) hl.1 hl.2.1 hl.2.2
  rw [List.flatMap_append, List.flatMap_singleton, he, ← List.append_assoc,
    List.getLast?_concat] at hc
  cases hc
  exact hwhite

end Yields

end Token

/-- A text is the part of a source from one token to another, and is read as just the tokens there. -/
structure Captures (source : List Char) (first last : Token) (covered : List Token)
    (text : List Char) : Prop where
  head?_eq : covered.head? = some first
  getLast?_eq : covered.getLast? = some last
  slice?_eq : Span.slice? ⟨first.span.start, last.span.stop⟩ source = some text
  errors_eq : (lexText text).errors = []
  /-- They stand in the text as they do in the source, from its own beginning on. -/
  tokens_eq : (lexText text).tokens.tokens.map (mapSpans (.move first.span.start)) = covered
  stop_eq : (lexText text).tokens.stop + first.span.start = last.span.stop
  ne_nil : text ≠ []
  /-- There is no white space at its ends. -/
  trim_eq : trim text = text

/-- **The part of a source from one token to another is read as just the tokens there**, if the
source has no errors: cutting it out changes none of them. -/
theorem exists_captures {source : List Char} (he : (lexText source).errors = [])
    {before covered after : List Token} {first last : Token}
    (h : (lexText source).tokens.tokens = before ++ covered ++ after)
    (hf : covered.head? = some first) (hl : covered.getLast? = some last)
    (hk : first.kind ≠ .newline) (hk' : last.kind ≠ .newline) :
    ∃ text, Captures source first last covered text := by
  obtain ⟨A, G, B, hps, hG⟩ := exists_yields (n := 0) h hf hl
  rw [Nat.zero_add] at hG
  have hsound := errors_eq_nil_iff.mp he
  have hpieces := pieces_slice hps hsound
  have hsoundG : ∀ p ∈ G, p.lexeme.isSound = true := fun p hp => hsound p (by rw [hps]; simp [hp])
  have hrow := isRow_pieces (G.flatMap Piece.text)
  rw [hpieces] at hrow
  refine ⟨G.flatMap Piece.text, hf, hl, ?_, ?_, ?_, ?_, ?_, ?_⟩
  · rw [Span.slice?, hG.start_eq hk, hG.stop_eq, ← flatMap_text_pieces source, hps,
      List.flatMap_append, List.flatMap_append]
    exact slice?_append _ _ _
  · rw [errors_eq_nil_iff, hpieces]
    exact hsoundG
  · rw [hG.start_eq hk, ← hG.tokens_eq, ← Nat.zero_add (width A), rowTokens_add, Nat.zero_add]
    change (rowTokens 0 (pieces _)).map _ = _
    rw [hpieces]
  · rw [hG.start_eq hk, hG.stop_eq]
    exact Nat.add_comm _ _
  · obtain ⟨p, D, rfl, -⟩ := hG.exists_first
    obtain ⟨c, x, ht, -⟩ := hrow.1
    simp [ht]
  · exact trim_of_ends (fun c => hG.isWhite_of_head? hk hrow hsoundG)
      fun c => hG.isWhite_of_getLast? hk' hrow hsoundG

/-- **Any token may be first and any later one last**, as long as neither of them is a line end. -/
theorem exists_captures_between {source : List Char} (he : (lexText source).errors = []) {i j : Nat}
    (hij : i ≤ j) {first last : Token} (hi : (lexText source).tokens.tokens[i]? = some first)
    (hj : (lexText source).tokens.tokens[j]? = some last) (hk : first.kind ≠ .newline)
    (hk' : last.kind ≠ .newline) :
    ∃ text, Captures source first last (((lexText source).tokens.tokens.drop i).take (j + 1 - i))
      text := by
  generalize hts : (lexText source).tokens.tokens = ts at hi hj ⊢
  have hsplit : ts = ts.take i ++ (ts.drop i).take (j + 1 - i) ++ (ts.drop i).drop (j + 1 - i) := by
    rw [List.append_assoc, List.take_append_drop, List.take_append_drop]
  obtain ⟨hlt, -⟩ := List.getElem?_eq_some_iff.mp hj
  refine exists_captures he (hts.trans hsplit) ?_ ?_ hk hk'
  · rw [List.head?_take, if_neg (by omega), List.head?_drop, hi]
  · rw [List.getLast?_eq_getElem?, List.getElem?_take, List.length_take, List.length_drop,
      if_pos (by omega), List.getElem?_drop, ← hj]
    congr 1
    omega

end Memberwise
