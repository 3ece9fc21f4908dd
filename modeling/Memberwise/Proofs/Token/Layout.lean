import Memberwise.Declaration.SourceFile
import Memberwise.Proofs.Token.Fronts

/-!
# Proofs/Token/Layout — the tokens of a source stand in order

Keywords and marks are spelled in one way (`spelling?`), and a token of such a kind covers that
spelling.  The tokens of a source stand one after the other, none reaching into the next:

* `laid_lexText` — **every token covers a part of the source that begins behind the ones before**;
* `Cursor.IsLaid.skip` — a cursor keeps this wherever it moves;
* `Cursor.IsLaid.span_stop_le_start` — so of two tokens to come, the one at the earlier place ends
  before the other begins.
-/

namespace Memberwise

open Text Token

/-! ## Spelling -/

/-- The one way to write a token of a kind, if there is only one. -/
def TokenKind.spelling? : TokenKind → Option String
  | structKw => some "struct"
  | classKw => some "class"
  | enumKw => some "enum"
  | protocolKw => some "protocol"
  | extensionKw => some "extension"
  | funcKw => some "func"
  | initKw => some "init"
  | deinitKw => some "deinit"
  | subscriptKw => some "subscript"
  | varKw => some "var"
  | letKw => some "let"
  | typealiasKw => some "typealias"
  | associatedtypeKw => some "associatedtype"
  | caseKw => some "case"
  | importKw => some "import"
  | staticKw => some "static"
  | whereKw => some "where"
  | operatorKw => some "operator"
  | returnKw => some "return"
  | atSign => some "@"
  | hash => some "#"
  | backslash => some "\\"
  | leftParen => some "("
  | rightParen => some ")"
  | leftBrace => some "\x7b"
  | rightBrace => some "\x7d"
  | leftBracket => some "["
  | rightBracket => some "]"
  | less => some "<"
  | greater => some ">"
  | colon => some ":"
  | semicolon => some ";"
  | comma => some ","
  | dot => some "."
  | equal => some "="
  | equalEqual => some "=="
  | andAnd => some "&&"
  | arrow => some "->"
  | question => some "?"
  | bang => some "!"
  | ampersand => some "&"
  | ident | int | float | text | operator | newline | endOfFile => none

namespace Token

theorem spelling?_of_mem_keywords : ∀ p ∈ keywords, p.2.spelling? = some p.1 := by decide

/-- A word that is spelled in one way is a keyword. -/
theorem spelling?_wordKind {word : List Char} {next : Option Char} {w : String}
    (h : (wordKind word next).spelling? = some w) : word = w.toList := by
  rcases wordKind_cases word next with hk | hk
  · rw [hk] at h
    cases h
  · obtain rfl := Option.some.inj ((spelling?_of_mem_keywords _ hk).symm.trans h)
    simp

theorem spelling?_markPairKind? {c d : Char} {k : TokenKind} (h : markPairKind? c d = some k) :
    k.spelling? = some (String.ofList [c, d]) := by
  unfold markPairKind? at h
  split at h <;> first | cases h; rfl | cases h

theorem spelling?_markKind? {c : Char} {k : TokenKind} {w : String} (h : markKind? c = some k)
    (hk : k.spelling? = some w) : w = String.ofList [c] := by
  unfold markKind? at h
  split at h <;> cases h <;> cases hk <;> rfl

/-- **A token that is spelled in one way is written so.** -/
theorem spelling?_front {c : Char} {s : List Char} {k : TokenKind} {n : Nat} {w : String}
    (h : front c s = (.token k, n)) (hk : k.spelling? = some w) : c :: s.take n = w.toList := by
  generalize hl : Lexeme.token k = l at h
  cases fronts h with
  | word =>
    obtain rfl := Lexeme.token.inj hl
    exact spelling?_wordKind hk
  | number _ hkind =>
    -- A number is spelled in many ways.
    obtain rfl := Lexeme.token.inj hl
    rcases hkind with rfl | rfl <;> cases hk
  | hash hc =>
    obtain rfl := Lexeme.token.inj hl
    cases hk
    simp [hc]
  | backtick | dollar =>
    obtain rfl := Lexeme.token.inj hl
    cases hk
  | pair hs hp =>
    obtain rfl := Lexeme.token.inj hl
    obtain rfl := Option.some.inj ((spelling?_markPairKind? hp).symm.trans hk)
    simp [hs]
  | mark hm =>
    obtain rfl := Lexeme.token.inj hl
    simp [spelling?_markKind? hm hk]
  | _ => cases hl

theorem spelling?_of_mem_pieces {s : List Char} {p : Piece} {k : TokenKind} {w : String}
    (hp : p ∈ pieces s) (hl : p.lexeme = .token k) (hk : k.spelling? = some w) :
    p.text = w.toList := by
  fun_induction pieces s with
  | case1 => cases hp
  | case2 c s ih =>
    rcases List.mem_cons.mp hp with rfl | hp
    · exact spelling?_front (Prod.ext hl rfl) hk
    · exact ih hp

end Token

/-! ## Order -/

/-- Tokens that stand one after the other in a source, from an offset on. -/
inductive Laid (source : List Char) : Nat → List Token → Prop
  | nil (n : Nat) : Laid source n []
  | cons {n : Nat} {t : Token} {ts : List Token} {before text after : List Char}
      (hs : source = before ++ text ++ after)
      (ht : t.span = ⟨byteLength before, byteLength before + byteLength text⟩)
      (hk : ∀ w, t.kind.spelling? = some w → text = w.toList)
      (hn : n ≤ byteLength before) (hts : Laid source t.span.stop ts) : Laid source n (t :: ts)

theorem Laid.of_le {source : List Char} {m n : Nat} {ts : List Token} (h : Laid source n ts)
    (hmn : m ≤ n) : Laid source m ts := by
  cases h with
  | nil => exact .nil _
  | cons hs ht hk hn hts => exact .cons hs ht hk (Nat.le_trans hmn hn) hts

namespace Token

/-- The tokens of a row of pieces stand in order. -/
theorem laid_placed {source before after : List Char} {ps : List Piece}
    (hs : source = before ++ ps.flatMap Piece.text ++ after)
    (hk : ∀ p ∈ ps, ∀ k w, p.lexeme = .token k → k.spelling? = some w → p.text = w.toList) :
    Laid source (byteLength before) ((placed (byteLength before) ps).flatMap Placed.tokens) := by
  induction ps generalizing before with
  | nil => exact .nil _
  | cons p ps ih =>
    have hs' : source = before ++ p.text ++ ps.flatMap Piece.text ++ after := by
      rw [hs, List.flatMap_cons, ← List.append_assoc]
    have hlater := ih hs' fun q hq => hk q (List.mem_cons_of_mem _ hq)
    rw [byteLength_append] at hlater
    rw [List.append_assoc] at hs'
    rw [placed, List.flatMap_cons, Placed.tokens]
    split
    case h_1 k hl => exact .cons hs' rfl (fun w => hk p List.mem_cons_self k w hl) (Nat.le_refl _) hlater
    case h_2 => exact .cons hs' rfl (fun w hw => by cases hw) (Nat.le_refl _) hlater
    case h_3 =>
      dsimp only
      split
      · -- The line end that a comment stands for is empty.
        have hs'' : source = (before ++ p.text) ++ [] ++ (ps.flatMap Piece.text ++ after) := by
          rw [hs', List.append_nil]
        exact .cons hs'' (by simp [Span.point]) (fun w hw => by cases hw) (by simp) hlater
      · exact hlater.of_le (Nat.le_add_right _ _)
    all_goals exact hlater.of_le (Nat.le_add_right _ _)

end Token

/-- **The tokens of a source stand in order.** -/
theorem laid_lexText (source : List Char) : Laid source 0 (lexText source).tokens.tokens := by
  have hs : source = [] ++ (pieces source).flatMap Piece.text ++ [] := by
    simp [flatMap_text_pieces]
  exact laid_placed hs fun _ hp _ _ => spelling?_of_mem_pieces hp

namespace Cursor

variable {c : Cursor} {i j k m n : Nat}

/-! ## Places -/

theorem current_of_rest {t : Token} {ts : List Token} (h : c.rest = t :: ts) : c.current = t := by
  rw [current, ahead, h]
  rfl

theorem kind_of_rest_eq_nil (h : c.rest = []) : c.kind = .endOfFile := by
  rw [kind, current, ahead, h]
  rfl

theorem rest_ne_nil_of_kind (h : c.kind ≠ .endOfFile) : c.rest ≠ [] :=
  fun hr => h (kind_of_rest_eq_nil hr)

/-- A token that is not the end is one of those to come. -/
theorem exists_rest_of_kind (h : c.kind ≠ .endOfFile) : ∃ ts, c.rest = c.current :: ts := by
  obtain ⟨t, ts, ht⟩ := List.exists_cons_of_ne_nil (rest_ne_nil_of_kind h)
  exact ⟨ts, by rw [ht, current_of_rest ht]⟩

theorem rest_skip_ne_nil (h : i < c.rest.length) : (c.skip i).rest ≠ [] := by
  rw [← List.length_pos_iff, length_rest_skip]
  omega

theorem rest_skip_one {t : Token} {ts : List Token} (h : c.rest = t :: ts) : (c.skip 1).rest = ts := by
  rw [rest_skip, h, List.drop_one, List.tail_cons]

/-- A token in front of the end is one of those to come. -/
theorem lt_length_of_ahead (h : (c.ahead i).kind ≠ .endOfFile) : i < c.rest.length := by
  refine Nat.lt_of_not_le fun hle => h ?_
  rw [ahead, List.getD_eq_getElem?_getD, List.getElem?_eq_none hle]
  rfl

theorem lt_length_of_kind (h : (c.skip k).kind ≠ .endOfFile) : k < c.rest.length := by
  rw [kind, current, ahead_skip] at h
  exact lt_length_of_ahead h

theorem current_skip_eq (h : i < c.rest.length) : (c.skip i).current = c.rest[i] := by
  rw [current, ahead_skip, ahead, Nat.add_zero, ← List.getElem_eq_getD]

theorem current_skip_mem (h : i < c.rest.length) : (c.skip i).current ∈ c.rest := by
  rw [current_skip_eq h]
  exact List.getElem_mem h

theorem previousSpan_skip_one {t : Token} {ts : List Token} (h : c.rest = t :: ts) :
    (c.skip 1).previousSpan = t.span := by
  simp [previousSpan, skip, h]

theorem previousSpan_skip_succ (h : i < c.rest.length) :
    (c.skip (i + 1)).previousSpan = (c.skip i).span := by
  obtain ⟨t, ts, ht⟩ := List.exists_cons_of_ne_nil (rest_skip_ne_nil h)
  rw [← skip_skip, previousSpan_skip_one ht, span, current_of_rest ht]

/-- The token passed last is one of those to come before. -/
theorem exists_previousSpan_eq (hr : c.rest ≠ []) (hn : 0 < n) :
    ∃ i < n, i < c.rest.length ∧ (c.skip n).previousSpan = (c.skip i).span := by
  induction n generalizing c with
  | zero => cases hn
  | succ n ih =>
    obtain ⟨t, ts, hts⟩ := List.exists_cons_of_ne_nil hr
    by_cases hlast : ts = [] ∨ n = 0
    · -- The first token is the last one passed.
      refine ⟨0, hn, List.length_pos_iff.mpr hr, ?_⟩
      rw [skip_zero, span, current_of_rest hts]
      rcases hlast with rfl | rfl
      · simp [previousSpan, skip, hts]
      · exact previousSpan_skip_one hts
    · rw [not_or] at hlast
      obtain ⟨i, hi, hlt, hs⟩ := ih (c := c.skip 1) (by simpa [hts] using hlast.1)
        (Nat.pos_of_ne_zero hlast.2)
      rw [length_rest_skip] at hlt
      rw [skip_skip, skip_skip, Nat.add_comm 1 n] at hs
      exact ⟨1 + i, by omega, by omega, hs⟩

/-! ## Order -/

/-- The tokens to come stand in order behind the ones passed. -/
def IsLaid (c : Cursor) : Prop := Laid c.source c.previousSpan.stop c.rest

namespace IsLaid

/-- The next token covers a part of the source behind the ones passed. -/
theorem exists_text (h : c.IsLaid) (hr : c.rest ≠ []) :
    ∃ before text after, c.source = before ++ text ++ after
      ∧ c.span = ⟨byteLength before, byteLength before + byteLength text⟩
      ∧ (∀ w, c.kind.spelling? = some w → text = w.toList)
      ∧ c.previousSpan.stop ≤ byteLength before := by
  obtain ⟨t, ts, ht⟩ := List.exists_cons_of_ne_nil hr
  unfold IsLaid at h
  rw [ht] at h
  rw [span, kind, current_of_rest ht]
  cases h with
  | cons hs hspan hk hn hts => exact ⟨_, _, _, hs, hspan, hk, hn⟩

/-- The next token, if it is spelled in one way, covers that spelling. -/
theorem exists_span {w : String} (h : c.IsLaid) (hk : c.kind.spelling? = some w) :
    ∃ before after, c.source = before ++ w.toList ++ after
      ∧ c.span = ⟨byteLength before, byteLength before + byteLength w.toList⟩
      ∧ c.previousSpan.stop ≤ byteLength before ∧ (c.skip 1).previousSpan = c.span := by
  have hr : c.rest ≠ [] := rest_ne_nil_of_kind fun he => by rw [he] at hk; cases hk
  obtain ⟨before, text, after, hs, hspan, hspell, hle⟩ := h.exists_text hr
  obtain rfl := hspell w hk
  refine ⟨before, after, hs, hspan, hle, ?_⟩
  simpa using previousSpan_skip_succ (List.length_pos_iff.mpr hr)

/-- **Moving a cursor keeps the tokens to come in order.** -/
theorem skip (h : c.IsLaid) (n : Nat) : (c.skip n).IsLaid := by
  induction n generalizing c with
  | zero => rwa [skip_zero]
  | succ n ih =>
    rw [Nat.add_comm, ← skip_skip]
    refine ih ?_
    unfold IsLaid at h ⊢
    cases hr : c.rest with
    | nil => simpa [Cursor.skip, hr, previousSpan] using h
    | cons t ts =>
      rw [previousSpan_skip_one hr, source_skip, rest_skip, hr]
      rw [hr] at h
      cases h with
      | cons hs ht hk hn hts => exact hts

/-- The next token begins behind the ones passed, and ends behind its beginning. -/
theorem previousSpan_stop_le_start (h : c.IsLaid) (hr : c.rest ≠ []) :
    c.previousSpan.stop ≤ c.span.start ∧ c.span.start ≤ c.span.stop := by
  obtain ⟨before, text, after, -, hspan, -, hle⟩ := h.exists_text hr
  rw [hspan]
  exact ⟨hle, Nat.le_add_right _ _⟩

/-- A cursor never moves back. -/
theorem previousSpan_stop_le (h : c.IsLaid) (n : Nat) :
    c.previousSpan.stop ≤ (c.skip n).previousSpan.stop := by
  induction n generalizing c with
  | zero => exact Nat.le_of_eq (by rw [skip_zero])
  | succ n ih =>
    have hlater := ih (h.skip 1)
    rw [skip_skip, Nat.add_comm] at hlater
    refine Nat.le_trans ?_ hlater
    by_cases hr : c.rest = []
    · simp [Cursor.skip, hr, previousSpan]
    · obtain ⟨hstart, hstop⟩ := h.previousSpan_stop_le_start hr
      have hnext := previousSpan_skip_succ (List.length_pos_iff.mpr hr)
      rw [Nat.zero_add, skip_zero] at hnext
      rw [hnext]
      exact Nat.le_trans hstart hstop

theorem previousSpan_stop_mono (h : c.IsLaid) (hmn : m ≤ n) :
    (c.skip m).previousSpan.stop ≤ (c.skip n).previousSpan.stop := by
  obtain ⟨k, rfl⟩ := Nat.exists_eq_add_of_le hmn
  rw [← skip_skip]
  exact (h.skip m).previousSpan_stop_le k

/-- A token ends before a later place. -/
theorem span_stop_le_previousSpan (h : c.IsLaid) (hij : i < j) (hi : i < c.rest.length) :
    (c.skip i).span.stop ≤ (c.skip j).previousSpan.stop := by
  rw [← previousSpan_skip_succ hi]
  exact h.previousSpan_stop_mono hij

/-- A token ends before a later one. -/
theorem span_stop_le_start (h : c.IsLaid) (hij : i < j) (hj : j < c.rest.length) :
    (c.skip i).span.stop ≤ (c.skip j).span.start :=
  Nat.le_trans (h.span_stop_le_previousSpan hij (Nat.lt_trans hij hj))
    ((h.skip j).previousSpan_stop_le_start (rest_skip_ne_nil hj)).1

/-- Later tokens begin later. -/
theorem span_start_mono (h : c.IsLaid) (hij : i ≤ j) (hj : j < c.rest.length) :
    (c.skip i).span.start ≤ (c.skip j).span.start := by
  rcases Nat.eq_or_lt_of_le hij with rfl | hlt
  · exact Nat.le_refl _
  · have hr := rest_skip_ne_nil (Nat.lt_trans hlt hj)
    exact Nat.le_trans ((h.skip i).previousSpan_stop_le_start hr).2 (h.span_stop_le_start hlt hj)

end IsLaid

end Cursor

end Memberwise
