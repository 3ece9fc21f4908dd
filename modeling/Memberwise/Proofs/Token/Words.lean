import Memberwise.Proofs.Token.Layout
import Memberwise.Proofs.Token.Locality
import Mathlib.Data.List.Basic

/-!
# Proofs/Token/Words — what a text says, without its layout

The words of a text are its tokens but line ends, each with how it is written.  They are the words
of its pieces (`words_eq`), and a piece put before another text keeps its word if it `Fits` there,
that is if the front of the two together is that piece.  So

* `words_append` — **a piece that fits gives its word, then come those of the rest**;
* `words_blank_append` — **blanks give none, wherever they stand**;
* `Fits.of_head`, `Fits.of_settles`, `Fits.of_isHard` — a piece that fits before one text fits
  before another that begins alike, and some fit before any.
-/

namespace Memberwise

open Text Token

/-- A token as what it is and how it is written. -/
structure Word where
  kind : TokenKind
  text : List Char
  deriving DecidableEq, Repr

/-- The words of a text: its tokens in order, but no line ends. -/
def words (s : List Char) : List Word :=
  ((lexText s).tokens.tokens.filter (·.kind != .newline)).map fun t =>
    ⟨t.kind, (t.span.slice? s).getD []⟩

namespace Token

/-- The word a piece gives, if it gives one. -/
def Piece.word? (p : Piece) : Option Word :=
  match p.lexeme with
  | .token kind => if kind = .newline then none else some ⟨kind, p.text⟩
  | .literal _ => some ⟨.text, p.text⟩
  | _ => none

/-- What the tokens of a row but line ends come to is what the words of its pieces come to. -/
theorem flatMap_placed {α : Type} {source before after : List Char} {ps : List Piece}
    (hs : source = before ++ ps.flatMap Piece.text ++ after) (f : Word → Span → List α) :
    (((placed (byteLength before) ps).flatMap Placed.tokens).filter (·.kind != .newline)).flatMap
        (fun t => f ⟨t.kind, (t.span.slice? source).getD []⟩ t.span)
      = (placed (byteLength before) ps).flatMap fun q =>
          q.piece.word?.toList.flatMap fun w => f w q.span := by
  induction ps generalizing before with
  | nil => rfl
  | cons p ps ih =>
    have hs' : source = before ++ p.text ++ (ps.flatMap Piece.text ++ after) := by
      rw [hs, List.flatMap_cons, List.append_assoc, List.append_assoc, List.append_assoc]
    have hcut : source = before ++ p.text ++ ps.flatMap Piece.text ++ after := by
      rw [hs', ← List.append_assoc]
    have hlater := ih hcut
    rw [byteLength_append] at hlater
    have hslice : Span.slice? ⟨byteLength before, byteLength before + byteLength p.text⟩ source
        = some p.text := by
      rw [Span.slice?, hs', slice?_append]
    rw [placed, List.flatMap_cons, List.filter_append, List.flatMap_append, hlater,
      List.flatMap_cons]
    cases hl : p.lexeme with
    | token kind =>
      by_cases hk : kind = .newline <;> simp [Placed.tokens, Piece.word?, hl, hk, hslice]
    | literal => simp [Placed.tokens, Piece.word?, hl, hslice]
    | blockComment =>
      simp only [Placed.tokens, Piece.word?, hl]
      split <;> simp
    | _ => simp [Placed.tokens, Piece.word?, hl]

end Token

/-- **The words of a text are those of its pieces.** -/
theorem words_eq (s : List Char) : words s = (pieces s).filterMap Piece.word? := by
  have hs : s = [] ++ (pieces s).flatMap Piece.text ++ [] := by simp [flatMap_text_pieces]
  have h := flatMap_placed hs fun w _ => [w]
  have hp : (pieces s).filterMap Piece.word?
      = (placed 0 (pieces s)).flatMap fun q => q.piece.word?.toList := by
    rw [← map_piece_placed 0 (pieces s), List.filterMap_map, List.filterMap_eq_flatMap_toList,
      map_piece_placed]
    rfl
  simp only [List.flatMap_singleton', byteLength_nil] at h
  rw [hp, ← h, words, List.map_eq_flatMap]
  rfl

namespace Token

/-! ## A piece before a text -/

/-- The piece is what stands at the front of its own text with another after it. -/
def Piece.Fits (p : Piece) (s : List Char) : Prop :=
  ∃ c x, p.text = c :: x ∧ front c (x ++ s) = (p.lexeme, x.length)

section Fits

variable {p : Piece} {ps qs : List Piece} {s r : List Char}

theorem pieces_append (h : p.Fits s) : pieces (p.text ++ s) = p :: pieces s := by
  obtain ⟨c, x, ht, hf⟩ := h
  rw [ht, List.cons_append, pieces, hf]
  simp [← ht]

/-- **A piece that fits gives its word, then come those of the rest.** -/
theorem words_append (h : p.Fits s) : words (p.text ++ s) = p.word?.toList ++ words s := by
  rw [words_eq, words_eq, pieces_append h, List.filterMap_cons]
  cases p.word? <;> rfl

theorem fits_of_pieces_eq_cons (h : pieces s = p :: ps) :
    p.Fits (ps.flatMap Piece.text) ∧ pieces (ps.flatMap Piece.text) = ps := by
  cases s with
  | nil => rw [pieces] at h; cases h
  | cons c s =>
    rw [pieces] at h
    obtain ⟨rfl, hps⟩ := List.cons.inj h
    have htext : ps.flatMap Piece.text = s.drop (front c s).2 := by
      rw [← hps, flatMap_text_pieces]
    rw [htext]
    refine ⟨⟨c, s.take (front c s).2, rfl, ?_⟩, hps⟩
    rw [List.take_append_drop, List.length_take, Nat.min_eq_left (front_le c s)]

/-- **Every piece of a text fits where it stands.** -/
theorem fits_of_pieces_eq (h : pieces s = ps ++ p :: qs) : p.Fits (qs.flatMap Piece.text) := by
  induction ps generalizing s with
  | nil => exact (fits_of_pieces_eq_cons h).1
  | cons q ps ih => exact ih (fits_of_pieces_eq_cons h).2

end Fits

/-! ## Blanks -/

theorem words_dropWhile_isBlank (s : List Char) : words (s.dropWhile isBlank) = words s := by
  cases s with
  | nil => rfl
  | cons c s =>
    cases hc : isBlank c with
    | false => simp [hc]
    | true =>
      rw [List.dropWhile_cons_of_pos hc, words_eq, words_eq (c :: s), pieces,
        (Begins.blank hc).front_eq, runFront, drop_run]
      rfl

/-- **Blanks give no word**, wherever they stand. -/
theorem words_blank_append {b : List Char} (hb : ∀ c ∈ b, isBlank c = true) (s : List Char) :
    words (b ++ s) = words s := by
  rw [← words_dropWhile_isBlank, List.dropWhile_append_of_pos hb, words_dropWhile_isBlank]

/-! ## Marks -/

/-- The marks that no character after them makes part of something longer. -/
def isSoloMark (c : Char) : Bool :=
  beginsMark c && c != '=' && c != '&' && c != '-' && (markKind? c).isSome

/-- A mark that stands for itself is one whatever comes after it. -/
theorem front_soloMark {c : Char} {k : TokenKind} (hc : isSoloMark c = true)
    (hk : markKind? c = some k) (s : List Char) : front c s = (.token k, 0) := by
  simp only [isSoloMark, Bool.and_eq_true, bne_iff_ne] at hc
  obtain ⟨⟨⟨⟨hb, heq⟩, hand⟩, hminus⟩, -⟩ := hc
  have hpair : s.head?.bind (markPairKind? c) = none := by
    rw [Option.bind_eq_none_iff]
    intro d _
    cases hp : markPairKind? c d with
    | none => rfl
    | some k => rcases markPairKind?_eq_some hp with h | h | h <;> simp_all
  rw [(Begins.mark hb).front_eq, markFront, hpair, hk]

/-! ## Kinds by their spelling -/

theorem ne_newline_of_mem_keywords : ∀ p ∈ keywords,
    p.2 ≠ .newline ∧ p.2 ≠ .int ∧ p.2 ≠ .float ∧ p.2 ≠ .endOfFile := by decide

/-- A word is no line end and no number, and not the end of a source. -/
theorem wordKind_ne (word : List Char) (next : Option Char) : wordKind word next ≠ .newline
    ∧ wordKind word next ≠ .int ∧ wordKind word next ≠ .float
    ∧ wordKind word next ≠ .endOfFile := by
  rcases wordKind_cases word next with hk | hk
  · rw [hk]
    decide
  · exact ne_newline_of_mem_keywords _ hk

theorem markKind?_eq_newline {c : Char} (h : markKind? c = some .newline) : c = '\n' := by
  unfold markKind? at h
  split at h <;> first | rfl | cases h

theorem markPairKind?_ne_newline {c d : Char} : markPairKind? c d ≠ some .newline := by
  unfold markPairKind?
  split <;> decide

/-- A mark is no name. -/
theorem markKind?_ne_ident {c : Char} : markKind? c ≠ some .ident := by
  unfold markKind?
  split <;> decide

theorem markPairKind?_ne_ident {c d : Char} : markPairKind? c d ≠ some .ident := by
  unfold markPairKind?
  split <;> decide

/-- A line end is one character. -/
theorem front_newline {c : Char} {s : List Char} {n : Nat} (h : front c s = (.token .newline, n)) :
    c = '\n' ∧ n = 0 := by
  generalize hl : Lexeme.token .newline = l at h
  cases fronts h with
  | word => exact absurd (Lexeme.token.inj hl).symm (wordKind_ne _ _).1
  | number _ hk =>
    obtain rfl := Lexeme.token.inj hl
    rcases hk with hk | hk <;> cases hk
  | pair _ hp =>
    obtain rfl := Lexeme.token.inj hl
    exact absurd hp markPairKind?_ne_newline
  | mark hk =>
    obtain rfl := Lexeme.token.inj hl
    exact ⟨markKind?_eq_newline hk, rfl⟩
  | _ => cases hl

/-! ## A piece before another text -/

/-- The kinds of token that no character after them changes. -/
def endsItself (k : TokenKind) : Bool :=
  k.isClose || k == .semicolon || k == .leftBrace || k == .newline

/-- A piece that is complete whatever comes after it. -/
def Piece.isHard (p : Piece) : Bool :=
  match p.lexeme with
  | .blockComment closed => closed
  | .token k => endsItself k || k == .ident && p.text.head? == some backtick
  | _ => false

/-- A token that no character after it changes is one mark. -/
theorem exists_soloMark {c : Char} {s : List Char} {k : TokenKind} {n : Nat}
    (hk : endsItself k = true) (h : front c s = (.token k, n)) :
    n = 0 ∧ isSoloMark c = true ∧ markKind? c = some k := by
  have key : ∀ a : Char, k.spelling? = some (String.ofList [a]) → c = a ∧ n = 0 := by
    intro a ha
    have hle := front_le c s
    have htext := spelling?_front h ha
    rw [String.toList_ofList] at htext
    obtain ⟨rfl, htake⟩ := List.cons.inj htext
    have hl := congrArg List.length htake
    rw [h] at hle
    rw [List.length_take, Nat.min_eq_left hle] at hl
    exact ⟨rfl, hl⟩
  cases k with
  | newline =>
    obtain ⟨rfl, rfl⟩ := front_newline h
    exact ⟨rfl, by decide, rfl⟩
  | rightParen =>
    obtain ⟨rfl, rfl⟩ := key ')' rfl
    exact ⟨rfl, by decide, rfl⟩
  | rightBrace =>
    obtain ⟨rfl, rfl⟩ := key '\x7d' rfl
    exact ⟨rfl, by decide, rfl⟩
  | rightBracket =>
    obtain ⟨rfl, rfl⟩ := key ']' rfl
    exact ⟨rfl, by decide, rfl⟩
  | semicolon =>
    obtain ⟨rfl, rfl⟩ := key ';' rfl
    exact ⟨rfl, by decide, rfl⟩
  | leftBrace =>
    obtain ⟨rfl, rfl⟩ := key '\x7b' rfl
    exact ⟨rfl, by decide, rfl⟩
  | _ => cases hk

theorem front_lineComment {c : Char} {s : List Char} {n : Nat}
    (h : front c s = (.lineComment, n)) :
    c = '/' ∧ (∃ t, s = '/' :: t) ∧ n = run (· != '\n') s := by
  generalize hl : Lexeme.lineComment = l at h
  cases fronts h with
  | lineComment hc hs => exact ⟨hc, ⟨_, hs⟩, rfl⟩
  | _ => cases hl

theorem front_blockComment {c : Char} {s : List Char} {b : Bool} {n : Nat}
    (h : front c s = (.blockComment b, n)) : c = '/' ∧ ∃ t, s = '*' :: t
      ∧ b = (blockComment 0 t).closed ∧ n = 1 + (blockComment 0 t).length := by
  generalize hl : Lexeme.blockComment b = l at h
  cases fronts h with
  | blockComment hc hs => exact ⟨hc, _, hs, Lexeme.blockComment.inj hl, rfl⟩
  | _ => cases hl

namespace Piece.Fits

variable {p : Piece} {s r u : List Char}

/-- **A piece that is complete fits before anything.** -/
theorem of_isHard (h : p.Fits r) (hp : p.isHard = true) : p.Fits s := by
  obtain ⟨c, x, ht, hf⟩ := h
  refine ⟨c, x, ht, ?_⟩
  unfold isHard at hp
  split at hp
  · rename_i closed hl
    rw [hl] at hf ⊢
    obtain ⟨rfl, t, hx, rfl, hlen⟩ := front_blockComment hf
    -- The comment has its second character, and two more to close it.
    have hpos := two_le_of_closed_blockComment hp
    obtain ⟨y, rfl, rfl⟩ := exists_cons_of_append_eq_cons hx (by omega)
    have hy := blockComment_append (s := s) hp (by rw [List.length_cons] at hlen; omega)
    rw [(Begins.blockComment rfl).front_eq, blockCommentFront, List.cons_append, List.tail_cons, hy,
      hlen]
  · rename_i k hl
    rw [hl] at hf ⊢
    rcases Bool.or_eq_true_iff.mp hp with hk | hk
    · obtain ⟨hx, hc, hk⟩ := exists_soloMark hk hf
      rw [front_soloMark hc hk, hx]
    · rw [Bool.and_eq_true, beq_iff_eq, beq_iff_eq, ht, List.head?_cons, Option.some.injEq] at hk
      obtain ⟨rfl, rfl⟩ := hk
      rw [Begins.backtick.front_eq] at hf ⊢
      rw [backtickFront_append (by rw [hf]) (by rw [hf]; rfl), hf]
  · cases hp

theorem front_cons {c d : Char} {x : List Char} {l : Lexeme} (hc : c.isDigit = false)
    (hs : l.isSound = true) (h : front c (x ++ d :: r) = (l, x.length)) :
    front c (x ++ d :: s) = (l, x.length) := by
  have h' : front c (x ++ [d] ++ r) = (l, x.length) := by
    rw [List.append_assoc]
    exact h
  have happ := front_append (s := s) hc (by rw [h']; exact hs) (by rw [h']; simp)
  rw [List.append_assoc] at happ
  exact happ.trans h'

/-- A piece that is no number fits before every text that begins alike. -/
theorem of_head {d : Char} (h : p.Fits (d :: r)) (hs : p.lexeme.isSound = true)
    (hi : p.lexeme ≠ .token .int) (hf : p.lexeme ≠ .token .float) : p.Fits (d :: s) := by
  obtain ⟨c, x, ht, hfront⟩ := h
  have hc : c.isDigit = false := by
    by_contra hc
    rw [(Begins.number (by simpa using hc)).front_eq] at hfront
    have hl := (Prod.mk.inj hfront).1
    rcases number_kind c (x ++ d :: r) with hn | hn <;> rw [hn] at hl
    · exact hi hl.symm
    · exact hf hl.symm
  exact ⟨c, x, ht, front_cons hc hs hfront⟩

/-- A piece fits before every text that begins with characters that settle its end. -/
theorem of_settles (h : p.Fits (u ++ r)) (hs : p.lexeme.isSound = true) (hu : settles u = true) :
    p.Fits (u ++ s) := by
  obtain ⟨c, x, ht, hfront⟩ := h
  refine ⟨c, x, ht, ?_⟩
  cases hc : c.isDigit with
  | true =>
    rw [(Begins.number hc).front_eq] at hfront ⊢
    obtain ⟨hl, hn⟩ := Prod.mk.inj hfront
    have happ := number_append (c := c) (v := x) (r := r) (s := s) hu
      (by rw [List.append_assoc]; exact hn)
    rw [List.append_assoc, List.append_assoc] at happ
    rw [numberFront, happ, hl, hn]
  | false =>
    obtain ⟨d, u, rfl⟩ := List.exists_cons_of_length_pos (length_pos_of_settles hu)
    exact front_cons hc hs hfront

end Piece.Fits

/-! ## Names -/

section Name

variable {p : Piece} {s r : List Char}

/-- A name that is not complete before anything ends where its characters do. -/
theorem Piece.Fits.exists_run (h : p.Fits r) (hk : p.lexeme = .token .ident)
    (hp : p.isHard = false) : ∃ c x, p.text = c :: x ∧ run isXidContinue (x ++ r) = x.length
      ∧ ((isNameStart c = true ∧ wordKind (c :: x) r.head? = .ident) ∨ c = '$' ∧ x ≠ []) := by
  obtain ⟨c, x, ht, hf⟩ := h
  refine ⟨c, x, ht, ?_⟩
  rw [hk] at hf
  generalize hl : Lexeme.token .ident = l at hf
  generalize hn : x.length = n at hf
  cases fronts hf with
  | word hc hrun =>
    subst hn
    rw [List.take_left, List.drop_left] at hl
    exact ⟨hrun.symm, .inl ⟨hc, (Lexeme.token.inj hl).symm⟩⟩
  | number _ hkind =>
    obtain rfl := Lexeme.token.inj hl
    rcases hkind with h | h <;> cases h
  | backtick hc =>
    subst hc
    rw [isHard, hk, ht] at hp
    cases hp
  | dollar hc hrun hpos =>
    refine ⟨hrun.symm, .inr ⟨hc, ?_⟩⟩
    rintro rfl
    rw [← hn] at hpos
    cases hpos
  | pair _ hpair =>
    obtain rfl := Lexeme.token.inj hl
    exact absurd hpair markPairKind?_ne_ident
  | mark hmark =>
    obtain rfl := Lexeme.token.inj hl
    exact absurd hmark markKind?_ne_ident
  | _ => cases hl

/-- A character of ASCII, which no name character past ASCII looks like. -/
theorem startsLikeNameCharacter_of_lt {c : Char} (h : c.toNat < 128) :
    startsLikeNameCharacter c = false := by
  simp [startsLikeNameCharacter, Nat.not_le.mpr h]

/-- A name before an at sign fits before everything that no name goes on with. -/
theorem Piece.Fits.of_ident (h : p.Fits ('@' :: r)) (hk : p.lexeme = .token .ident)
    (hs : ∀ d, s.head? = some d → isXidContinue d = false ∧ d.toNat < 128) : p.Fits s := by
  by_cases hp : p.isHard = true
  · exact h.of_isHard hp
  obtain ⟨c, x, ht, hrun, hname⟩ := h.exists_run hk (by simpa using hp)
  have hrun' : run isXidContinue (x ++ s) = x.length :=
    run_append_of_all (forall_mem_of_run_append hrun) fun d hd => (hs d hd).1
  refine ⟨c, x, ht, ?_⟩
  rcases hname with ⟨hc, hw⟩ | ⟨rfl, hx⟩
  · have hnext : s.head?.any startsLikeNameCharacter = false := by
      cases hd : s.head? with
      | none => rfl
      | some d => exact startsLikeNameCharacter_of_lt (hs d hd).2
    have hw' : wordKind (c :: x) s.head? = .ident := by
      rw [wordKind, hnext]
      exact hw
    rw [(Begins.word hc).front_eq, wordFront, hrun', List.take_left, List.drop_left, hw', hk]
  · have hpos : x.length ≠ 0 := by simpa using hx
    rw [Begins.dollar.front_eq, dollarFront, hrun', hk, if_neg hpos]

/-- A name swallows the characters of a name that come to stand after it. -/
theorem Piece.Fits.exists_joined {d : Char} (h : p.Fits ('@' :: r)) (hk : p.lexeme = .token .ident)
    (hl : ∃ t e, p.text = t ++ [e] ∧ isXidContinue e = true) (hd : isXidContinue d = true) :
    ∃ w ws, words (p.text ++ d :: s) = w :: ws ∧ w.text ≠ p.text := by
  have hp : p.isHard = false := by
    by_contra hp
    rw [Bool.not_eq_false, isHard, hk] at hp
    obtain ⟨c, x, ht, hf⟩ := h
    obtain ⟨t, e, hte, he⟩ := hl
    have hc : c = backtick := by simpa [endsItself, TokenKind.isClose, ht] using hp
    subst hc
    rw [Begins.backtick.front_eq] at hf
    rcases backtickFront_cases hf with ⟨-, u, hu⟩ | hl
    · rw [List.take_left] at hu
      rw [hu, hte, ← List.cons_append] at ht
      obtain ⟨-, rfl⟩ := List.append_inj' ht rfl |>.imp id (fun h => (List.cons.inj h).1)
      revert he
      decide
    · rw [hk] at hl
      cases hl
  obtain ⟨c, x, ht, hrun, hname⟩ := h.exists_run hk hp
  have hall := forall_mem_of_run_append hrun
  obtain ⟨n, hn, hlt⟩ : ∃ n, run isXidContinue (x ++ d :: s) = n ∧ x.length < n := by
    refine ⟨_, rfl, ?_⟩
    rw [run, List.takeWhile_append_of_pos hall, List.takeWhile_cons, hd]
    simp
  obtain ⟨k, hk, hf⟩ : ∃ k, k ≠ .newline ∧ front c (x ++ d :: s) = (.token k, n) := by
    rcases hname with ⟨hc, -⟩ | ⟨rfl, -⟩
    · exact ⟨_, (wordKind_ne _ _).1, by rw [(Begins.word hc).front_eq, wordFront, hn]⟩
    · exact ⟨.ident, by decide, by
        rw [Begins.dollar.front_eq, dollarFront, hn, if_neg (by omega)]⟩
  have hle := front_le c (x ++ d :: s)
  rw [hf] at hle
  refine ⟨⟨k, c :: (x ++ d :: s).take n⟩, words ((x ++ d :: s).drop n), ?_, ?_⟩
  · rw [ht, words_eq, words_eq, List.cons_append, pieces, hf, List.filterMap_cons]
    simp [Piece.word?, hk]
  · intro heq
    have := congrArg List.length heq
    rw [ht, List.length_cons, List.length_cons, List.length_take, Nat.min_eq_left hle] at this
    omega

end Name

/-! ## The ends of a piece -/

/-- A character that is neither a blank nor a line end. -/
def isInk (c : Char) : Bool := !isBlank c && c != '\n'

theorem isInk_iff {c : Char} : isInk c = true ↔ isBlank c = false ∧ c ≠ '\n' := by
  rw [isInk, Bool.and_eq_true, Bool.not_eq_true', bne_iff_ne]

theorem isInlineSpace_of_isInk {c : Char} (h : isInk c = true) : isInlineSpace c = false := by
  have hb := (isInk_iff.mp h).1
  simp only [isBlank, Bool.or_eq_false_iff] at hb
  rw [isInlineSpace, hb.1.1.1, hb.1.1.2]
  rfl

theorem isInk_of_isWhite {c : Char} (h : isWhite c = false) : isInk c = true := by
  simp only [isInk, isBlank, Bool.and_eq_true, Bool.not_eq_true', Bool.or_eq_false_iff,
    beq_eq_false_iff_ne, bne_iff_ne]
  refine ⟨⟨⟨⟨?_, ?_⟩, ?_⟩, ?_⟩, ?_⟩ <;> · rintro rfl; revert h; decide

/-- The white space characters, by their numbers. -/
def whiteNumbers : List Nat :=
  [9, 10, 11, 12, 13, 0x20, 0x85, 0xa0, 0x1680, 0x2000, 0x2001, 0x2002, 0x2003, 0x2004, 0x2005,
    0x2006, 0x2007, 0x2008, 0x2009, 0x200a, 0x2028, 0x2029, 0x202f, 0x205f, 0x3000]

/-- No character of a name is white space. -/
theorem isWhite_of_isXidContinue {c : Char} (h : isXidContinue c = true) : isWhite c = false := by
  have hall : ∀ n ∈ whiteNumbers, isXidContinue (Char.ofNat n) = false := by decide +kernel
  by_contra hw
  have hmem : c.toNat ∈ whiteNumbers := by
    simp only [isWhite, Bool.not_eq_false, Bool.or_eq_true, Bool.and_eq_true, decide_eq_true_eq,
      beq_iff_eq] at hw
    simp only [whiteNumbers, List.mem_cons, List.not_mem_nil, or_false]
    omega
  have hc := hall _ hmem
  rw [Char.ofNat_toNat, h] at hc
  cases hc

/-- The characters that a run takes are of its class. -/
theorem of_mem_take_run {p : Char → Bool} {s : List Char} {d : Char} (h : d ∈ s.take (run p s)) :
    p d = true := by
  rw [run, ← List.prefix_iff_eq_take.mp (List.takeWhile_prefix p)] at h
  exact List.mem_takeWhile_imp h

theorem isWhite_of_digits {digit : Char → Bool} (hd : ∀ c, digit c = true → isXidContinue c = true)
    {s : List Char} {c : Char} (h : c ∈ s.take (run (orUnderscore digit) s)) : isWhite c = false := by
  have hc := of_mem_take_run h
  rw [orUnderscore, Bool.or_eq_true, beq_iff_eq] at hc
  rcases hc with hc | rfl
  · exact isWhite_of_isXidContinue (hd c hc)
  · decide

theorem isXidContinue_of_isAlpha {c : Char} (h : c.isAlpha = true) : isXidContinue c = true := by
  have hlt : c.toNat < 128 := by
    rcases isAlpha_iff.mp h with h | h
    · exact Nat.lt_of_le_of_lt h.2 (by decide)
    · exact Nat.lt_of_le_of_lt h.2 (by decide)
  rw [isXidContinue_ascii hlt]
  simp [Char.isAlphanum, h]

theorem isXidContinue_of_radixDigit? {r : Char} {digit : Char → Bool}
    (h : radixDigit? r = some digit) : isXidContinue r = true
      ∧ ∀ c, digit c = true → isXidContinue c = true := by
  have hdigit : ∀ {c : Char}, '0' ≤ c → c ≤ '9' → isXidContinue c = true := fun h₀ h₉ =>
    isXidContinue_of_isDigit (by simpa [Char.isDigit] using ⟨h₀, h₉⟩)
  unfold radixDigit? at h
  split at h
  · cases h
    refine ⟨by decide, fun c hc => ?_⟩
    simp only [Bool.or_eq_true, Bool.and_eq_true, decide_eq_true_eq] at hc
    rcases hc with (hc | ⟨ha, hf⟩) | ⟨ha, hf⟩
    · exact isXidContinue_of_isDigit hc
    · have hz : c ≤ 'z' := Char.le_trans hf (by decide)
      exact isXidContinue_of_isAlpha (isAlpha_iff.mpr (.inr ⟨ha, hz⟩))
    · have hz : c ≤ 'Z' := Char.le_trans hf (by decide)
      exact isXidContinue_of_isAlpha (isAlpha_iff.mpr (.inl ⟨ha, hz⟩))
  · cases h
    refine ⟨by decide, fun c hc => ?_⟩
    simp only [Bool.and_eq_true, decide_eq_true_eq] at hc
    exact hdigit hc.1 (Char.le_trans hc.2 (by decide))
  · cases h
    refine ⟨by decide, fun c hc => ?_⟩
    simp only [Bool.or_eq_true, beq_iff_eq] at hc
    rcases hc with rfl | rfl <;> decide
  · cases h

theorem isWhite_of_mem_radix {s : List Char} {c : Char} (h : c ∈ s.take (radixLength s)) :
    isWhite c = false := by
  unfold radixLength at h
  split at h
  · rename_i r d t
    split at h
    · rename_i digit hr
      obtain ⟨hx, hdigit⟩ := isXidContinue_of_radixDigit? hr
      split at h
      · rename_i hd
        rw [Nat.add_comm, List.take_succ_cons, List.take_succ_cons] at h
        rcases List.mem_cons.mp h with rfl | h
        · exact isWhite_of_isXidContinue hx
        · rcases List.mem_cons.mp h with rfl | h
          · exact isWhite_of_isXidContinue (hdigit _ hd)
          · exact isWhite_of_digits hdigit h
      · simp at h
    · simp at h
  · simp at h

theorem isWhite_of_mem_fraction {s : List Char} {c : Char} (h : c ∈ s.take (fractionLength s)) :
    isWhite c = false := by
  unfold fractionLength at h
  split at h
  · rename_i d t
    split at h
    · rename_i hd
      rw [Nat.add_comm, List.take_succ_cons, List.take_succ_cons] at h
      rcases List.mem_cons.mp h with rfl | h
      · decide
      · rcases List.mem_cons.mp h with rfl | h
        · exact isWhite_of_isXidContinue (isXidContinue_of_isDigit hd)
        · exact isWhite_of_digits (fun _ => isXidContinue_of_isDigit) h
    · simp at h
  · simp at h

theorem isWhite_of_mem_exponent {s : List Char} {c : Char} (h : c ∈ s.take (exponentLength s)) :
    isWhite c = false := by
  cases s with
  | nil => cases h
  | cons e t =>
    rw [exponentLength] at h
    dsimp only at h
    by_cases he : e = 'e' ∨ e = 'E'
    · rw [if_pos he] at h
      have he' : isWhite e = false := by
        rcases he with rfl | rfl <;> decide
      by_cases hs : t.head? = some '+' ∨ t.head? = some '-'
      · obtain ⟨d, t, rfl, hd⟩ : ∃ d u, t = d :: u ∧ isWhite d = false := by
          rcases hs with hs | hs
          · obtain ⟨u, rfl⟩ := List.head?_eq_some_iff.mp hs
            exact ⟨_, u, rfl, by decide⟩
          · obtain ⟨u, rfl⟩ := List.head?_eq_some_iff.mp hs
            exact ⟨_, u, rfl, by decide⟩
        rw [if_pos hs, List.drop_succ_cons, List.drop_zero] at h
        split at h
        · cases h
        · rw [Nat.add_comm, List.take_succ_cons, List.take_succ_cons] at h
          rcases List.mem_cons.mp h with rfl | h
          · exact he'
          · rcases List.mem_cons.mp h with rfl | h
            · exact hd
            · exact isWhite_of_isXidContinue (isXidContinue_of_isDigit (of_mem_take_run h))
      · rw [if_neg hs, List.drop_zero] at h
        split at h
        · cases h
        · rw [Nat.add_comm, List.take_succ_cons] at h
          rcases List.mem_cons.mp h with rfl | h
          · exact he'
          · exact isWhite_of_isXidContinue (isXidContinue_of_isDigit (of_mem_take_run h))
    · rw [if_neg he] at h
      cases h

theorem isWhite_of_mem_number {c : Char} {s : List Char} :
    ∀ d ∈ s.take (number c s).2, isWhite d = false := by
  intro d hd
  rw [number] at hd
  dsimp only at hd
  by_cases hr : (if c = '0' then radixLength s else 0) ≠ 0
  · rw [if_pos hr] at hd
    dsimp only at hd
    split at hd
    · exact isWhite_of_mem_radix hd
    · cases hd
  · rw [if_neg hr] at hd
    rw [List.take_add, List.mem_append, List.take_add, List.mem_append] at hd
    rcases hd with (hd | hd) | hd
    · exact isWhite_of_digits (fun _ => isXidContinue_of_isDigit) hd
    · exact isWhite_of_mem_fraction hd
    · exact isWhite_of_mem_exponent hd

theorem exists_closing_eq (hashes : Nat) (lines : Bool) :
    ∃ u e, closing hashes lines = u ++ [e] ∧ isWhite e = false := by
  cases hashes with
  | zero =>
    cases lines with
    | false => exact ⟨[], '"', rfl, by decide⟩
    | true => exact ⟨['"', '"'], '"', rfl, by decide⟩
  | succ n =>
    exact ⟨_, '#', by rw [closing, List.replicate_succ', ← List.append_assoc], by decide⟩

theorem Frame.exists_closer_eq (f : Frame) : ∃ u e, f.closer = u ++ [e] ∧ isWhite e = false := by
  cases f with
  | quote hashes lines => exact exists_closing_eq hashes lines
  | bracket => exact ⟨[], ')', rfl, by decide⟩

/-- A closed literal ends in what closes it. -/
theorem exists_last_of_closed {stack : List Frame} {t : List Char} (hs : stack ≠ [])
    (hc : (scan stack t).closed = true) :
    ∃ u e, t.take (scan stack t).length = u ++ [e] ∧ isWhite e = false := by
  obtain ⟨v, hv⟩ := scan_closed hc (List.getLast?_eq_some_getLast hs)
  obtain ⟨u, e, hu, he⟩ := (stack.getLast hs).exists_closer_eq
  exact ⟨v ++ u, e, by rw [← hv, hu, List.append_assoc], he⟩

/-- A literal begins with what opens it. -/
theorem head_of_literal? {c : Char} {s : List Char} {e : Extent} (h : literal? (c :: s) = some e) :
    c = '#' ∨ c = '"' := by
  obtain ⟨_, ho, -⟩ := Option.map_eq_some_iff.mp h
  obtain ⟨_, _, hcs, hc⟩ := head_of_opening? ho
  obtain ⟨rfl, rfl⟩ := List.cons.inj hcs
  exact hc

/-- A text without white space does not end in any. -/
theorem exists_last_of_forall {s : List Char} (hs : s ≠ []) (h : ∀ c ∈ s, isWhite c = false) :
    ∃ t e, s = t ++ [e] ∧ isWhite e = false := by
  obtain ⟨t, e, rfl⟩ := (List.eq_nil_or_concat' s).resolve_left hs
  exact ⟨t, e, rfl, h e (by simp)⟩

theorem isWhite_of_markKind? {c : Char} {k : TokenKind} (h : markKind? c = some k)
    (hk : k ≠ .newline) : isWhite c = false := by
  unfold markKind? at h
  split at h <;> first | decide | cases h
  exact absurd rfl hk

section Last

variable {p : Piece} {s : List Char}

/-- **A piece does not end in white space**, but for blanks, line ends and comments that a line end
closes. -/
theorem Piece.Fits.exists_last (h : p.Fits s) (hs : p.lexeme.isSound = true)
    (hb : p.lexeme ≠ .blank) (hn : p.lexeme ≠ .token .newline) (hc : p.lexeme ≠ .lineComment) :
    ∃ t e, p.text = t ++ [e] ∧ isWhite e = false := by
  obtain ⟨c, x, ht, hf⟩ := h
  have hx : x = (x ++ s).take x.length := by simp
  rw [ht, hx]
  generalize x ++ s = y at hf hx ⊢
  generalize x.length = n at hf hx ⊢
  generalize p.lexeme = l at hf hs hb hn hc
  clear hx ht
  have last : ∀ {t : List Char} {e : Char}, y.take n = t ++ [e] → isWhite e = false →
      ∃ t e, c :: y.take n = t ++ [e] ∧ isWhite e = false := fun {t e} h he =>
    ⟨c :: t, e, by rw [h]; rfl, he⟩
  cases fronts hf with
  | blank => exact absurd rfl hb
  | word hstart hrun =>
    refine exists_last_of_forall (List.cons_ne_nil _ _) fun d hd => isWhite_of_isXidContinue ?_
    rcases List.mem_cons.mp hd with rfl | hd
    · exact isXidContinue_of_isNameStart hstart
    · rw [hrun] at hd
      exact of_mem_take_run hd
  | number hd _ hnum =>
    refine exists_last_of_forall (List.cons_ne_nil _ _) fun d hmem => ?_
    rcases List.mem_cons.mp hmem with rfl | hmem
    · exact isWhite_of_isXidContinue (isXidContinue_of_isDigit hd)
    · exact isWhite_of_mem_number d (by rwa [hnum])
  | lineComment => exact absurd rfl hc
  | @blockComment t _ ht =>
    subst ht
    obtain ⟨u, hu⟩ := blockComment_closed hs
    refine last (t := '*' :: u ++ ['*']) (e := '/') ?_ (by decide)
    rw [Nat.add_comm, List.take_succ_cons, hu]
    simp
  | @literal e he =>
    obtain ⟨⟨hashes, lines⟩, ho, rfl⟩ := Option.map_eq_some_iff.mp he
    dsimp only at hs ⊢
    obtain ⟨u, d, hu, hd⟩ := exists_last_of_closed (List.cons_ne_nil _ _) hs
    have hpos := literal?_pos he
    dsimp only at hpos
    have htake : ∀ m, 0 < m → c :: y.take (m - 1) = (c :: y).take m := fun m hm => by
      obtain ⟨m, rfl⟩ := Nat.exists_eq_add_of_lt hm
      simp
    refine ⟨(c :: y).take (openingLength hashes lines) ++ u, d, ?_, hd⟩
    rw [htake _ hpos, Extent.length_after, List.take_add, hu, List.append_assoc]
  | hash hhash => exact ⟨[], '#', by simp [hhash], by decide⟩
  | backtick _ ht => exact last ht (by decide)
  | dollar hdollar hrun =>
    refine exists_last_of_forall (List.cons_ne_nil _ _) fun d hd => ?_
    rcases List.mem_cons.mp hd with rfl | hd
    · rw [hdollar]
      decide
    · rw [hrun] at hd
      exact isWhite_of_isXidContinue (of_mem_take_run hd)
  | @pair d t k hy hp =>
    refine last (t := []) (e := d) (by rw [hy]; rfl) ?_
    rcases markPairKind?_eq_some hp with ⟨-, rfl⟩ | ⟨-, rfl⟩ | ⟨-, rfl⟩ <;> decide
  | mark hk => exact ⟨[], c, by simp, isWhite_of_markKind? hk (by simpa using hn)⟩
  | invalid => cases hs

theorem Piece.Fits.exists_isInk (h : p.Fits s) (hs : p.lexeme.isSound = true)
    (hb : p.lexeme ≠ .blank) (hn : p.lexeme ≠ .token .newline) (hc : p.lexeme ≠ .lineComment) :
    ∃ t e, p.text = t ++ [e] ∧ isInk e = true := by
  obtain ⟨t, e, ht, he⟩ := h.exists_last hs hb hn hc
  exact ⟨t, e, ht, isInk_of_isWhite he⟩

/-- What a piece without errors begins with: a blank, a character of a name, a line end or another
character of ASCII, which is not white. -/
theorem Fronts.first_cases {c : Char} {l : Lexeme} {n : Nat} (h : Fronts c s l n)
    (hs : l.isSound = true) :
    (l = .blank ∧ Token.isBlank c = true) ∨ isXidContinue c = true ∨ (l = .token .newline ∧ c = '\n')
      ∨ (isWhite c = false ∧ c.toNat < 128) := by
  have hmark : isWhite c = false ∧ c.toNat < 128 → (l = .blank ∧ Token.isBlank c = true)
      ∨ isXidContinue c = true ∨ (l = .token .newline ∧ c = '\n')
      ∨ (isWhite c = false ∧ c.toNat < 128) := fun hc => .inr (.inr (.inr hc))
  cases h with
  | blank hb => exact .inl ⟨rfl, hb⟩
  | word hc => exact .inr (.inl (isXidContinue_of_isNameStart hc))
  | number hd => exact .inr (.inl (isXidContinue_of_isDigit hd))
  | lineComment hc => exact hmark (by rw [hc]; decide)
  | blockComment hc => exact hmark (by rw [hc]; decide)
  | literal he => exact hmark (by rcases head_of_literal? he with rfl | rfl <;> decide)
  | hash hc => exact hmark (by rw [hc]; decide)
  | backtick hc => exact hmark (by rw [hc]; decide)
  | dollar hc => exact hmark (by rw [hc]; decide)
  | pair _ hp =>
    rcases markPairKind?_eq_some hp with ⟨rfl, -⟩ | ⟨rfl, -⟩ | ⟨rfl, -⟩ <;> exact hmark (by decide)
  | mark hk =>
    unfold markKind? at hk
    split at hk <;> cases hk <;> first
      | exact hmark (by decide)
      | exact .inr (.inr (.inl ⟨rfl, rfl⟩))
  | invalid => cases hs

/-- **A piece does not begin with white space**, but for blanks and line ends. -/
theorem Piece.Fits.exists_first (h : p.Fits s) (hs : p.lexeme.isSound = true)
    (hb : p.lexeme ≠ .blank) (hn : p.lexeme ≠ .token .newline) :
    ∃ c x, p.text = c :: x ∧ isWhite c = false := by
  obtain ⟨c, x, ht, hf⟩ := h
  refine ⟨c, x, ht, ?_⟩
  rcases (fronts hf).first_cases hs with ⟨hl, -⟩ | hc | ⟨hl, -⟩ | hc
  · exact absurd hl hb
  · exact isWhite_of_isXidContinue hc
  · exact absurd hl hn
  · exact hc.1

theorem Piece.Fits.text_newline (h : p.Fits s) (hl : p.lexeme = .token .newline) :
    p.text = ['\n'] := by
  obtain ⟨c, x, ht, hf⟩ := h
  rw [hl] at hf
  obtain ⟨rfl, hx⟩ := front_newline hf
  rw [ht, List.length_eq_zero_iff.mp hx]

/-- A comment up to the end of its line has a line end after it or nothing. -/
theorem Piece.Fits.lineComment (h : p.Fits s) (hl : p.lexeme = .lineComment) :
    (∃ t e, p.text = t ++ [e] ∧ e ≠ '\n') ∧ ∀ d, s.head? = some d → d = '\n' := by
  obtain ⟨c, x, ht, hf⟩ := h
  rw [hl] at hf
  obtain ⟨rfl, -, hn⟩ := front_lineComment hf
  have hall := forall_mem_of_run_append hn.symm
  refine ⟨?_, fun d hd => by simpa using head?_of_run_append hn.symm hd⟩
  obtain ⟨t, e, hte⟩ := (List.eq_nil_or_concat' p.text).resolve_left (by rw [ht]; simp)
  refine ⟨t, e, hte, ?_⟩
  have hmem : e ∈ '/' :: x := by
    rw [← ht, hte]
    simp
  rcases List.mem_cons.mp hmem with rfl | hmem
  · decide
  · simpa using hall e hmem

/-- A piece is blank if its first character is, and then all others are as well. -/
theorem Piece.Fits.isBlank (h : p.Fits s) :
    (p.lexeme = .blank → ∀ d ∈ p.text, Token.isBlank d = true)
      ∧ (p.lexeme ≠ .blank → ∃ c x, p.text = c :: x ∧ Token.isBlank c = false) := by
  obtain ⟨c, x, ht, hf⟩ := h
  cases hc : Token.isBlank c with
  | true =>
    obtain ⟨hl, hn⟩ := Prod.mk.inj (hf.symm.trans (Begins.blank hc).front_eq)
    refine ⟨fun _ d hd => ?_, fun hne => absurd hl hne⟩
    rw [ht] at hd
    rcases List.mem_cons.mp hd with rfl | hd
    · exact hc
    · exact forall_mem_of_run_append hn.symm d hd
  | false =>
    refine ⟨fun hl => ?_, fun _ => ⟨c, x, ht, hc⟩⟩
    rw [hl] at hf
    generalize hm : Lexeme.blank = l at hf
    generalize x.length = n at hf
    cases fronts hf with
    | blank hb =>
      rw [hb] at hc
      cases hc
    | _ => cases hm

/-- Past ASCII nothing but a name begins a piece. -/
theorem Piece.Fits.head_cases (h : p.Fits s) (hs : p.lexeme.isSound = true) :
    ∃ c x, p.text = c :: x ∧ (c.toNat < 128 ∨ isXidContinue c = true) := by
  obtain ⟨c, x, ht, hf⟩ := h
  refine ⟨c, x, ht, ?_⟩
  rcases (fronts hf).first_cases hs with ⟨-, hb⟩ | hc | ⟨-, rfl⟩ | hc
  · simp only [Token.isBlank, Bool.or_eq_true, beq_iff_eq] at hb
    rcases hb with ((rfl | rfl) | rfl) | rfl <;> decide
  · exact .inr hc
  · decide
  · exact .inl hc.2

end Last

/-- **A text has no errors exactly if its pieces are sound.** -/
theorem errors_eq_nil_iff {s : List Char} :
    (lexText s).errors = [] ↔ ∀ p ∈ pieces s, p.lexeme.isSound = true := by
  have hpiece : ∀ q : Placed, q.errors = [] ↔ q.piece.lexeme.isSound = true := by
    intro q
    unfold Placed.errors Lexeme.isSound
    cases q.piece.lexeme with
    | blockComment closed => cases closed <;> simp
    | literal closed => cases closed <;> simp
    | _ => simp
  change ((placed 0 (pieces s)).flatMap Placed.errors) = [] ↔ _
  rw [List.flatMap_eq_nil_iff]
  constructor
  · intro h p hp
    rw [← map_piece_placed 0 (pieces s)] at hp
    obtain ⟨q, hq, rfl⟩ := List.mem_map.mp hp
    exact (hpiece q).mp (h q hq)
  · intro h q hq
    refine (hpiece q).mpr (h q.piece ?_)
    rw [← map_piece_placed 0 (pieces s)]
    exact List.mem_map_of_mem hq

end Token

end Memberwise
