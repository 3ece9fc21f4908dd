import Memberwise.Proofs.Token.Words
import Mathlib.Data.List.Pairwise

/-!
# Proofs/Token/Partition — lexing loses nothing

The pieces of a source stand side by side, each behind the ones before it (`pairwise_placed`), and
no byte is outside of them (`exists_mem_placed_of_lt`).  What a piece gives lies within it, so the
tokens and the errors of a source come in its order, and what is no token and no error is a blank or
a comment: **lexing parts every source** (`Lexed.IsPartition`, `isPartition_lexText`).
-/

namespace Memberwise

open Text Token

/-! ## Parts of a source -/

/-- The span covers a text that stands between two others in the source. -/
structure Span.Covers (s : Span) (source before text after : List Char) : Prop where
  source_eq : source = before ++ text ++ after
  start_eq : s.start = byteLength before
  stop_eq : s.stop = byteLength before + byteLength text

/-- The span covers some part of the source, so that both its ends stand between two characters. -/
def Span.IsPart (s : Span) (source : List Char) : Prop :=
  ∃ before text after, s.Covers source before text after

/-- The byte at the offset is one of the span's. -/
def Span.Holds (s : Span) (offset : Nat) : Prop := s.start ≤ offset ∧ offset < s.stop

/-- No byte is in both spans. -/
def Span.Disjoint (s t : Span) : Prop := s.stop ≤ t.start ∨ t.stop ≤ s.start

theorem Span.Disjoint.symm {s t : Span} (h : s.Disjoint t) : t.Disjoint s := Or.symm h

/-- A comment, told by its own characters and by what stands after it: one up to the end of its
line, or one that reaches as far as its marks are nested. -/
inductive IsComment : List Char → List Char → Prop
  | line {t after : List Char} (ht : '\n' ∉ t) (hafter : ∀ c, after.head? = some c → c = '\n') :
      IsComment ('/' :: '/' :: t) after
  | block {t after : List Char} (ht : (blockComment 0 (t ++ after)).length = t.length) :
      IsComment ('/' :: '*' :: t) after

/-- The span is that of a line end, or the empty one after a comment over several lines. -/
def Span.IsLineEnd (s : Span) (source : List Char) : Prop :=
  (∃ before after, s.Covers source before ['\n'] after)
    ∨ ∃ before text after, source = before ++ text ++ after ∧ IsComment text after ∧ '\n' ∈ text
      ∧ s = .point (byteLength before + byteLength text)

/-- The byte at the offset is in a token or in characters that are none, or else it is a blank or in
a comment that no token reaches into. -/
inductive Lexed.Accounts (source : List Char) (l : Lexed) (offset : Nat) : Prop
  | token {t : Token} (ht : t ∈ l.tokens.toList) (hoffset : t.span.Holds offset)
  | invalid {e : LexError} {c : Char} (he : e ∈ l.errors) (hc : e.kind = .invalidCharacter c)
      (hoffset : e.span.Holds offset)
  | blank {before after : List Char} {c : Char} (hs : source = before ++ c :: after)
      (hoffset : offset = byteLength before) (hc : isBlank c = true)
  | comment {s : Span} {before text after : List Char} (hs : s.Covers source before text after)
      (hcomment : IsComment text after) (hoffset : s.Holds offset)
      (hdisjoint : ∀ t ∈ l.tokens.toList, s.Disjoint t.span)

/-- What the tokens and the errors of a source have to be. -/
structure Lexed.IsPartition (source : List Char) (l : Lexed) : Prop where
  /-- The tokens come in the order of the source, none reaching into the next. -/
  tokens_ordered : l.tokens.toList.Pairwise fun t u => t.span.stop ≤ u.span.start
  /-- So do the errors. -/
  errors_ordered : l.errors.Pairwise fun d e => d.span.stop ≤ e.span.start
  token_isPart : ∀ t ∈ l.tokens.toList, t.span.IsPart source
  error_isPart : ∀ e ∈ l.errors, e.span.IsPart source
  /-- The list closes with the end of the source, which stands nowhere else in it. -/
  end_eq : ∃ ts, l.tokens.toList = ts ++ [⟨.endOfFile, .point (byteLength source)⟩]
    ∧ ∀ t ∈ ts, t.kind ≠ .endOfFile
  newline_isLineEnd : ∀ t ∈ l.tokens.toList, t.kind = .newline → t.span.IsLineEnd source
  /-- All other tokens have characters of their own. -/
  start_lt_stop : ∀ t ∈ l.tokens.toList, t.kind ≠ .newline → t.kind ≠ .endOfFile →
    t.span.start < t.span.stop
  /-- Characters that are no token are in none. -/
  invalid_disjoint : ∀ e ∈ l.errors, ∀ c, e.kind = .invalidCharacter c →
    ∀ t ∈ l.tokens.toList, e.span.Disjoint t.span
  /-- An unclosed literal is a token all the same. -/
  unterminated_mem : ∀ e ∈ l.errors, e.kind = .unterminatedString →
    ⟨.text, e.span⟩ ∈ l.tokens.toList
  /-- No byte of the source is lost. -/
  accounts : ∀ offset < byteLength source, l.Accounts source offset

namespace Token

/-! ## Pieces side by side -/

/-- **A placed piece covers a part of the source**, and fits there. -/
theorem exists_covers_of_mem_placed {source : List Char} {q : Placed}
    (h : q ∈ placed 0 (pieces source)) :
    ∃ before after, q.span.Covers source before q.piece.text after ∧ q.piece.Fits after := by
  have key : ∀ {n : Nat} {ps : List Piece}, q ∈ placed n ps → ∃ xs ys, ps = xs ++ q.piece :: ys
      ∧ q.span = ⟨n + byteLength (xs.flatMap Piece.text),
        n + byteLength (xs.flatMap Piece.text) + byteLength q.piece.text⟩ := by
    intro n ps hq
    induction ps generalizing n with
    | nil => cases hq
    | cons p ps ih =>
      rcases List.mem_cons.mp hq with rfl | hq
      · exact ⟨[], ps, rfl, rfl⟩
      · obtain ⟨xs, ys, rfl, hs⟩ := ih hq
        exact ⟨p :: xs, ys, rfl, by simp [hs, Nat.add_assoc]⟩
  obtain ⟨xs, ys, hps, hs⟩ := key h
  rw [Nat.zero_add] at hs
  refine ⟨xs.flatMap Piece.text, ys.flatMap Piece.text, ⟨?_, by rw [hs], by rw [hs]⟩,
    fits_of_pieces_eq hps⟩
  rw [← flatMap_text_pieces source, hps, List.flatMap_append, List.flatMap_cons, List.append_assoc]

/-- **The pieces of a row come one behind the other.** -/
theorem pairwise_placed (n : Nat) (ps : List Piece) :
    (placed n ps).Pairwise fun p q => p.span.stop ≤ q.span.start := by
  induction ps generalizing n with
  | nil => exact .nil
  | cons p ps ih => exact .cons (fun q hq => (span_le_of_mem_placed hq).1) (ih _)

/-- **No byte of a row is outside of its pieces.** -/
theorem exists_mem_placed_of_lt {n offset : Nat} {ps : List Piece} (hn : n ≤ offset)
    (h : offset < n + byteLength (ps.flatMap Piece.text)) :
    ∃ q ∈ placed n ps, q.span.Holds offset := by
  induction ps generalizing n with
  | nil =>
    rw [List.flatMap_nil, byteLength_nil] at h
    omega
  | cons p ps ih =>
    by_cases hp : offset < n + byteLength p.text
    · exact ⟨_, List.mem_cons_self, hn, hp⟩
    · rw [List.flatMap_cons, byteLength_append, ← Nat.add_assoc] at h
      obtain ⟨q, hq, hoff⟩ := ih (Nat.le_of_not_lt hp) h
      exact ⟨q, List.mem_cons_of_mem _ hq, hoff⟩

/-- Two pieces of a row are one, or no byte is in both. -/
theorem disjoint_of_mem_placed {n : Nat} {ps : List Piece} {p q : Placed} (hp : p ∈ placed n ps)
    (hq : q ∈ placed n ps) (hne : p ≠ q) : p.span.Disjoint q.span := by
  have hall : (placed n ps).Pairwise fun p q => p.span.Disjoint q.span :=
    (pairwise_placed n ps).imp .inl
  have : Std.Symm fun p q : Placed => p.span.Disjoint q.span := ⟨fun _ _ h => h.symm⟩
  exact hall.forall hp hq hne

/-! ## What a piece gives -/

/-- The ways a piece gives a token. -/
inductive Placed.GivesToken (q : Placed) : Token → Prop
  | token {kind : TokenKind} (hl : q.piece.lexeme = .token kind) : GivesToken q ⟨kind, q.span⟩
  | literal {closed : Bool} (hl : q.piece.lexeme = .literal closed) :
      GivesToken q ⟨.text, q.span⟩
  | lineEnd {closed : Bool} (hl : q.piece.lexeme = .blockComment closed)
      (hn : '\n' ∈ q.piece.text) : GivesToken q ⟨.newline, .point q.span.stop⟩

/-- The ways a piece gives an error. -/
inductive Placed.GivesError (q : Placed) : LexError → Prop
  | literal (hl : q.piece.lexeme = .literal false) : GivesError q ⟨.unterminatedString, q.span⟩
  | comment (hl : q.piece.lexeme = .blockComment false) :
      GivesError q ⟨.unterminatedComment, q.span⟩
  | invalid (hl : q.piece.lexeme = .invalid) :
      GivesError q ⟨.invalidCharacter (q.piece.text.headD '\ufffd'), q.span⟩

theorem Placed.mem_tokens_iff {q : Placed} {t : Token} : t ∈ q.tokens ↔ q.GivesToken t := by
  constructor
  · intro h
    unfold Placed.tokens at h
    split at h
    case h_1 hl =>
      obtain rfl := List.mem_singleton.mp h
      exact .token hl
    case h_2 hl =>
      obtain rfl := List.mem_singleton.mp h
      exact .literal hl
    case h_3 hl =>
      split at h
      · obtain rfl := List.mem_singleton.mp h
        exact .lineEnd hl (List.contains_iff_mem.mp ‹_›)
      · cases h
    all_goals cases h
  · rintro (hl | hl | ⟨hl, hn⟩)
    · simp [Placed.tokens, hl]
    · simp [Placed.tokens, hl]
    · simp [Placed.tokens, hl, hn]

theorem Placed.mem_errors_iff {q : Placed} {e : LexError} : e ∈ q.errors ↔ q.GivesError e := by
  constructor
  · intro h
    unfold Placed.errors at h
    split at h
    case h_1 hl =>
      obtain rfl := List.mem_singleton.mp h
      exact .literal hl
    case h_2 hl =>
      obtain rfl := List.mem_singleton.mp h
      exact .comment hl
    case h_3 hl =>
      obtain rfl := List.mem_singleton.mp h
      exact .invalid hl
    case h_4 => cases h
  · rintro (hl | hl | hl) <;> simp [Placed.errors, hl]

theorem Placed.pairwise_tokens (q : Placed) :
    q.tokens.Pairwise fun t u => t.span.stop ≤ u.span.start := by
  unfold Placed.tokens
  split
  case h_3 => split <;> simp
  all_goals simp

theorem Placed.pairwise_errors (q : Placed) :
    q.errors.Pairwise fun d e => d.span.stop ≤ e.span.start := by
  unfold Placed.errors
  split <;> simp

/-- The span lies within that of the piece. -/
def Placed.Encloses (q : Placed) (s : Span) : Prop := q.span.start ≤ s.start ∧ s.stop ≤ q.span.stop

/-- What a piece gives has the span of the piece or stands at its end. -/
theorem Placed.GivesToken.encloses {q : Placed} {t : Token} (h : q.GivesToken t)
    (hq : q.span.start ≤ q.span.stop) : q.Encloses t.span := by
  cases h with
  | token | literal => exact ⟨Nat.le_refl _, Nat.le_refl _⟩
  | lineEnd => exact ⟨hq, Nat.le_refl _⟩

/-- What a piece gives ends where the piece does. -/
theorem Placed.GivesToken.stop_eq {q : Placed} {t : Token} (h : q.GivesToken t) :
    t.span.stop = q.span.stop := by
  cases h <;> rfl

/-- Blanks and comments up to a line end give no token. -/
theorem Placed.GivesToken.lexeme_ne {q : Placed} {t : Token} (h : q.GivesToken t) :
    q.piece.lexeme ≠ .blank ∧ q.piece.lexeme ≠ .lineComment := by
  cases h with
  | token hl | literal hl | lineEnd hl => simp [hl]

theorem Placed.GivesError.span_eq {q : Placed} {e : LexError} (h : q.GivesError e) :
    e.span = q.span := by
  cases h <;> rfl

/-! ## What a piece is -/

section Fits

variable {p : Piece} {s : List Char}

theorem Piece.Fits.byteLength_pos (h : p.Fits s) : 0 < byteLength p.text := by
  obtain ⟨c, x, ht, -⟩ := h
  rw [ht, byteLength_cons]
  have := c.utf8Size_pos
  omega

/-- No characters are the end of a source. -/
theorem Piece.Fits.ne_endOfFile (h : p.Fits s) : p.lexeme ≠ .token .endOfFile := by
  obtain ⟨c, x, -, hf⟩ := h
  intro hl
  rw [hl] at hf
  generalize hm : Lexeme.token .endOfFile = l at hf
  generalize x.length = n at hf
  cases fronts hf with
  | word => exact absurd (Lexeme.token.inj hm).symm (wordKind_ne _ _).2.2.2
  | number _ hk =>
    obtain rfl := Lexeme.token.inj hm
    rcases hk with hk | hk <;> cases hk
  | pair _ hp =>
    obtain rfl := Lexeme.token.inj hm
    unfold markPairKind? at hp
    split at hp <;> cases hp
  | mark hk =>
    obtain rfl := Lexeme.token.inj hm
    unfold markKind? at hk
    split at hk <;> cases hk
  | _ => cases hm

/-- A piece that is dropped as a comment. -/
def Piece.IsRemark (p : Piece) : Prop :=
  p.lexeme = .lineComment ∨ ∃ closed, p.lexeme = .blockComment closed

/-- **What is dropped as a comment is one.** -/
theorem Piece.Fits.isComment (h : p.Fits s) (hl : p.IsRemark) : IsComment p.text s := by
  obtain ⟨c, x, ht, hf⟩ := h
  rw [ht]
  rcases hl with hl | ⟨closed, hl⟩
  · rw [hl] at hf
    obtain ⟨rfl, ⟨t, hxs⟩, hn⟩ := front_lineComment hf
    have hall := forall_mem_of_run_append hn.symm
    have hafter : ∀ d, s.head? = some d → d = '\n' := fun d hd => by
      simpa using head?_of_run_append hn.symm hd
    cases x with
    | nil => exact absurd (hafter '/' (by rw [← List.nil_append s, hxs]; rfl)) (by decide)
    | cons d x =>
      obtain ⟨rfl, -⟩ := List.cons.inj hxs
      refine .line (fun hmem => ?_) hafter
      simpa using hall '\n' (List.mem_cons_of_mem _ hmem)
  · rw [hl] at hf
    obtain ⟨rfl, t, hxs, -, hn⟩ := front_blockComment hf
    cases x with
    | nil =>
      rw [List.length_nil] at hn
      omega
    | cons d x =>
      obtain ⟨rfl, htext⟩ := List.cons.inj hxs
      rw [← htext, List.length_cons, Nat.add_comm] at hn
      exact .block (Nat.add_left_cancel hn).symm

/-- Blanks take one byte each, so every offset in a text of blanks is that of a character. -/
theorem exists_blank_of_lt {n : Nat} (hs : ∀ c ∈ s, isBlank c = true) (hn : n < byteLength s) :
    ∃ x c y, s = x ++ c :: y ∧ n = byteLength x ∧ isBlank c = true := by
  induction s generalizing n with
  | nil => cases hn
  | cons c s ih =>
    have hc := hs c List.mem_cons_self
    have hsize : c.utf8Size = 1 := by
      simp only [isBlank, Bool.or_eq_true, beq_iff_eq] at hc
      rcases hc with ((rfl | rfl) | rfl) | rfl <;> rfl
    cases n with
    | zero => exact ⟨[], c, s, rfl, rfl, hc⟩
    | succ n =>
      rw [byteLength_cons, hsize] at hn
      obtain ⟨x, d, y, rfl, rfl, hd⟩ := ih (fun d hd => hs d (List.mem_cons_of_mem _ hd))
        (by omega : n < byteLength s)
      exact ⟨c :: x, d, y, rfl, by rw [byteLength_cons, hsize, Nat.add_comm], hd⟩

end Fits

/-! ## The parts of a source -/

section Source

variable {source : List Char} {q : Placed} {t : Token} {e : LexError}

theorem mem_tokens_lexText : t ∈ (lexText source).tokens.toList ↔
    (∃ q ∈ placed 0 (pieces source), q.GivesToken t)
      ∨ t = ⟨.endOfFile, .point (byteLength source)⟩ := by
  simp only [← Placed.mem_tokens_iff]
  rw [TokenList.toList, List.mem_append, List.mem_singleton]
  exact or_congr List.mem_flatMap Iff.rfl

theorem mem_errors_lexText :
    e ∈ (lexText source).errors ↔ ∃ q ∈ placed 0 (pieces source), q.GivesError e := by
  simp only [← Placed.mem_errors_iff]
  exact List.mem_flatMap

theorem start_le_stop_of_mem_placed (hq : q ∈ placed 0 (pieces source)) :
    q.span.start ≤ q.span.stop := (span_le_of_mem_placed hq).2.1

theorem stop_le_of_mem_placed (hq : q ∈ placed 0 (pieces source)) :
    q.span.stop ≤ byteLength source := by
  simpa [flatMap_text_pieces] using (span_le_of_mem_placed hq).2.2

/-- **What comes from the pieces of a source comes in its order.** -/
theorem pairwise_flatMap_placed {α : Type} {f : Placed → List α} {span : α → Span}
    (hf : ∀ q, (f q).Pairwise fun a b => (span a).stop ≤ (span b).start)
    (hq : ∀ q ∈ placed 0 (pieces source), ∀ a ∈ f q, q.Encloses (span a)) :
    ((placed 0 (pieces source)).flatMap f).Pairwise fun a b => (span a).stop ≤ (span b).start := by
  refine List.pairwise_flatMap.mpr ⟨fun q _ => hf q, ?_⟩
  refine (pairwise_placed 0 _).imp_of_mem fun {p q} hp hq' hpq a ha b hb => ?_
  exact Nat.le_trans (hq p hp a ha).2 (Nat.le_trans hpq (hq q hq' b hb).1)

/-- A piece that has no byte in common with its own tokens has none with any. -/
theorem disjoint_of_mem_tokens (hq : q ∈ placed 0 (pieces source))
    (hown : ∀ u, q.GivesToken u → q.span.Disjoint u.span)
    (ht : t ∈ (lexText source).tokens.toList) : q.span.Disjoint t.span := by
  rcases mem_tokens_lexText.mp ht with ⟨p, hp, htp⟩ | rfl
  · by_cases hne : q = p
    · exact hown t (hne ▸ htp)
    · obtain ⟨hstart, hstop⟩ := htp.encloses (start_le_stop_of_mem_placed hp)
      rcases disjoint_of_mem_placed hq hp hne with h | h
      · exact .inl (Nat.le_trans h hstart)
      · exact .inr (Nat.le_trans hstop h)
  · exact .inl (stop_le_of_mem_placed hq)

/-- A comment has no byte in common with any token: the line end that it may leave behind is empty
and stands at its end. -/
theorem disjoint_of_isRemark (hq : q ∈ placed 0 (pieces source)) (hl : q.piece.IsRemark)
    (ht : t ∈ (lexText source).tokens.toList) : q.span.Disjoint t.span := by
  refine disjoint_of_mem_tokens hq (fun u hu => ?_) ht
  cases hu with
  | lineEnd => exact .inl (Nat.le_refl _)
  | token h | literal h => rcases hl with hl | ⟨closed, hl⟩ <;> rw [hl] at h <;> cases h

/-- **The bytes of a piece are accounted for**, by what the piece is. -/
theorem accounts_of_mem_placed {offset : Nat} (hq : q ∈ placed 0 (pieces source))
    (hoffset : q.span.Holds offset) : (lexText source).Accounts source offset := by
  obtain ⟨before, after, hcovers, hfits⟩ := exists_covers_of_mem_placed hq
  have hremark : q.piece.IsRemark → (lexText source).Accounts source offset := fun hl =>
    .comment hcovers (hfits.isComment hl) hoffset fun _ => disjoint_of_isRemark hq hl
  cases hl : q.piece.lexeme with
  | token kind => exact .token (mem_tokens_lexText.mpr (.inl ⟨q, hq, .token hl⟩)) hoffset
  | literal closed => exact .token (mem_tokens_lexText.mpr (.inl ⟨q, hq, .literal hl⟩)) hoffset
  | lineComment => exact hremark (.inl hl)
  | blockComment closed => exact hremark (.inr ⟨closed, hl⟩)
  | invalid => exact .invalid (mem_errors_lexText.mpr ⟨q, hq, .invalid hl⟩) rfl hoffset
  | blank =>
    obtain ⟨hstart, hstop⟩ := hoffset
    rw [hcovers.start_eq] at hstart
    rw [hcovers.stop_eq] at hstop
    obtain ⟨x, c, y, hx, hn, hc⟩ := exists_blank_of_lt (hfits.isBlank.1 hl)
      (by omega : offset - byteLength before < byteLength q.piece.text)
    have hs : source = (before ++ x) ++ c :: (y ++ after) := by
      rw [hcovers.source_eq, hx]
      simp
    exact .blank hs (by rw [byteLength_append]; omega) hc

/-- A line end is that of the source or stands for those in a comment. -/
theorem isLineEnd_of_mem_placed (hq : q ∈ placed 0 (pieces source)) (ht : q.GivesToken t)
    (hk : t.kind = .newline) : t.span.IsLineEnd source := by
  obtain ⟨before, after, hcovers, hfits⟩ := exists_covers_of_mem_placed hq
  cases ht with
  | token hl =>
    obtain rfl := hk
    rw [hfits.text_newline hl] at hcovers
    exact .inl ⟨before, after, hcovers⟩
  | literal => cases hk
  | lineEnd hl hn =>
    exact .inr ⟨before, q.piece.text, after, hcovers.source_eq, hfits.isComment (.inr ⟨_, hl⟩), hn,
      by rw [hcovers.stop_eq]⟩

theorem isPart_of_mem_tokens (ht : t ∈ (lexText source).tokens.toList) : t.span.IsPart source := by
  rcases mem_tokens_lexText.mp ht with ⟨q, hq, htq⟩ | rfl
  · obtain ⟨before, after, hcovers, -⟩ := exists_covers_of_mem_placed hq
    cases htq with
    | token | literal => exact ⟨before, _, after, hcovers⟩
    | lineEnd =>
      exact ⟨before ++ q.piece.text, [], after, by simpa using hcovers.source_eq,
        by simp [Span.point, hcovers.stop_eq], by simp [Span.point, hcovers.stop_eq]⟩
  · exact ⟨source, [], [], by simp, rfl, rfl⟩

/-- A token that ends no line and no source has characters of its own. -/
theorem start_lt_stop_of_mem_tokens (ht : t ∈ (lexText source).tokens.toList)
    (hk : t.kind ≠ .newline) (hend : t.kind ≠ .endOfFile) : t.span.start < t.span.stop := by
  rcases mem_tokens_lexText.mp ht with ⟨q, hq, htq⟩ | rfl
  · obtain ⟨before, after, hcovers, hfits⟩ := exists_covers_of_mem_placed hq
    have hlt : q.span.start < q.span.stop := by
      rw [hcovers.start_eq, hcovers.stop_eq]
      exact Nat.lt_add_of_pos_right hfits.byteLength_pos
    cases htq with
    | token | literal => exact hlt
    | lineEnd => exact absurd rfl hk
  · exact absurd rfl hend

end Source

end Token

/-- **Lexing parts every source** into tokens, characters that are none, blanks and comments. -/
theorem isPartition_lexText (source : List Char) : (lexText source).IsPartition source where
  tokens_ordered := by
    refine List.pairwise_append.mpr ⟨pairwise_flatMap_placed Placed.pairwise_tokens
      fun q hq t ht => ?_, List.pairwise_singleton _ _, fun t ht u hu => ?_⟩
    · exact (Placed.mem_tokens_iff.mp ht).encloses (start_le_stop_of_mem_placed hq)
    · obtain ⟨q, hq, htq⟩ := List.mem_flatMap.mp ht
      obtain rfl := List.mem_singleton.mp hu
      have hstop := ((Placed.mem_tokens_iff.mp htq).encloses (start_le_stop_of_mem_placed hq)).2
      exact Nat.le_trans hstop (stop_le_of_mem_placed hq)
  errors_ordered := pairwise_flatMap_placed Placed.pairwise_errors fun q hq e he => by
    rw [(Placed.mem_errors_iff.mp he).span_eq]
    exact ⟨Nat.le_refl _, Nat.le_refl _⟩
  token_isPart _ := isPart_of_mem_tokens
  error_isPart e he := by
    obtain ⟨q, hq, heq⟩ := mem_errors_lexText.mp he
    obtain ⟨before, after, hcovers, -⟩ := exists_covers_of_mem_placed hq
    rw [heq.span_eq]
    exact ⟨before, _, after, hcovers⟩
  end_eq := by
    refine ⟨_, rfl, fun t ht => ?_⟩
    obtain ⟨q, hq, htq⟩ := List.mem_flatMap.mp ht
    obtain ⟨before, after, -, hfits⟩ := exists_covers_of_mem_placed hq
    cases Placed.mem_tokens_iff.mp htq with
    | token hl =>
      rintro rfl
      exact hfits.ne_endOfFile hl
    | literal | lineEnd => exact TokenKind.noConfusion
  newline_isLineEnd t ht hk := by
    rcases mem_tokens_lexText.mp ht with ⟨q, hq, htq⟩ | rfl
    · exact isLineEnd_of_mem_placed hq htq hk
    · cases hk
  start_lt_stop _ := start_lt_stop_of_mem_tokens
  invalid_disjoint e he c hc t ht := by
    obtain ⟨q, hq, heq⟩ := mem_errors_lexText.mp he
    cases heq with
    | literal | comment => cases hc
    | invalid hl =>
      refine disjoint_of_mem_tokens hq (fun u hu => ?_) ht
      cases hu with
      | token h | literal h | lineEnd h =>
        rw [hl] at h
        cases h
  unterminated_mem e he hk := by
    obtain ⟨q, hq, heq⟩ := mem_errors_lexText.mp he
    cases heq with
    | literal hl => exact mem_tokens_lexText.mpr (.inl ⟨q, hq, .literal hl⟩)
    | comment | invalid => cases hk
  accounts offset h := by
    rw [← flatMap_text_pieces source, ← Nat.zero_add (byteLength _)] at h
    obtain ⟨q, hq, hoffset⟩ := exists_mem_placed_of_lt (Nat.zero_le _) h
    exact accounts_of_mem_placed hq hoffset

end Memberwise
