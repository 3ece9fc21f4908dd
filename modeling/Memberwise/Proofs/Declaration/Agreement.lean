import Memberwise.Proofs.Declaration.Preceding
import Memberwise.Proofs.Declaration.Spans

/-!
# Proofs/Declaration/Agreement — cursors that show the same for a while

Two cursors may stand in different sources and still show the same next tokens, in the one source
some bytes further on than in the other (`Alike`).  What a parser does is settled by what it looks
at, and it looks no further than to the first token after what it takes that ends no line; so where
the cursors agree up to there (`Shows`), it does the same at both.  This is said here of the parsers
that step over tokens, and carried along a sequence by `bind_alike`.
-/

namespace Memberwise

open Text

/-! ## Lists that agree for a while -/

/-- The second list begins with the first `k` tokens of the first list, moved by `n` bytes, and ends
where that one ends if that is among the `k` places. -/
inductive Known (n : Nat) : Nat → List Token → List Token → Prop
  | nothing (ts us : List Token) : Known n 0 ts us
  | nil (k : Nat) : Known n k [] []
  | cons {k : Nat} {ts us : List Token} (t : Token) (h : Known n k ts us) :
      Known n (k + 1) (t :: ts) (mapSpans (.move n) t :: us)

/-- Among the first `k` places, from place `m` on, there is one with no line end. -/
def Shows (k m : Nat) (ts : List Token) : Prop :=
  ∃ i, m ≤ i ∧ i < k ∧ ∀ t, ts[i]? = some t → t.kind ≠ .newline

section Lists

variable {n k m : Nat} {t : Token} {ts us : List Token}

@[simp] theorem kind_mapSpans (f : Span → Span) (t : Token) : (mapSpans f t).kind = t.kind := rfl

@[simp] theorem span_mapSpans (f : Span → Span) (t : Token) : (mapSpans f t).span = f t.span := rfl

theorem Shows.lt (h : Shows k m ts) : m < k := by
  obtain ⟨i, hm, hi, -⟩ := h
  exact Nat.lt_of_le_of_lt hm hi

theorem Shows.of_le {j : Nat} (h : Shows k m ts) (hj : j ≤ m) : Shows k j ts := by
  obtain ⟨i, hm, hi, ht⟩ := h
  exact ⟨i, Nat.le_trans hj hm, hi, ht⟩

theorem Shows.drop {j : Nat} (h : Shows k (m + j) ts) : Shows (k - m) j (ts.drop m) := by
  obtain ⟨i, hm, hi, ht⟩ := h
  refine ⟨i - m, by omega, by omega, fun t h => ht t ?_⟩
  rwa [List.getElem?_drop, Nat.add_sub_cancel' (by omega)] at h

theorem Shows.pos (h : Shows k m ts) : 0 < k := Nat.lt_of_le_of_lt (Nat.zero_le m) h.lt

/-- The line ends before a place that is none are among the places. -/
theorem Shows.newlines_lt (h : Shows k 0 ts) : (ts.takeWhile (·.kind == .newline)).length < k := by
  induction ts generalizing k with
  | nil => exact h.pos
  | cons t ts ih =>
    obtain ⟨i, -, hi, ht⟩ := h
    cases i with
    | zero => simpa [ht t rfl] using hi
    | succ i =>
      have hlt := ih (k := k - 1) ⟨i, Nat.zero_le i, by omega, ht⟩
      rw [List.takeWhile_cons]
      split
      · rw [List.length_cons]
        omega
      · exact Nat.zero_lt_of_lt hi

theorem Known.drop (h : Known n k ts us) (m : Nat) : Known n (k - m) (ts.drop m) (us.drop m) := by
  induction h generalizing m with
  | nothing ts us =>
    rw [Nat.zero_sub]
    exact .nothing _ _
  | nil => simpa using .nil _
  | cons t h ih =>
    cases m with
    | zero => exact .cons t h
    | succ m => simpa using ih m

theorem Known.getElem? (h : Known n k ts us) {i : Nat} (hi : i < k) :
    us[i]? = (ts[i]?).map (mapSpans (.move n)) := by
  induction h generalizing i with
  | nothing => cases hi
  | nil => simp
  | cons t h ih =>
    cases i with
    | zero => rfl
    | succ i => simpa using ih (Nat.lt_of_succ_lt_succ hi)

theorem Known.take (h : Known n k ts us) (hm : m ≤ k) :
    us.take m = (ts.take m).map (mapSpans (.move n)) := by
  induction h generalizing m with
  | nothing =>
    obtain rfl := Nat.le_zero.mp hm
    rfl
  | nil => simp
  | cons t h ih =>
    cases m with
    | zero => rfl
    | succ m => simpa using ih (Nat.le_of_succ_le_succ hm)

/-- Lists that agree through their end are the same but for the place. -/
theorem Known.eq_map (h : Known n k ts us) (hk : ts.length < k) :
    us = ts.map (mapSpans (.move n)) := by
  induction h with
  | nothing => cases hk
  | nil => rfl
  | cons t h ih => rw [ih (Nat.lt_of_succ_lt_succ hk), List.map_cons]

/-- A list agrees with itself moved, as far as one likes. -/
theorem known_map (n k : Nat) (ts : List Token) : Known n k ts (ts.map (mapSpans (.move n))) := by
  induction ts generalizing k with
  | nil => exact .nil k
  | cons t ts ih =>
    cases k with
    | zero => exact .nothing _ _
    | succ k => exact .cons t (ih k)

/-- Lists that agree through their end agree as far as one likes. -/
theorem Known.closed (h : Known n k ts us) (hk : ts.length < k) (j : Nat) : Known n j ts us := by
  rw [h.eq_map hk]
  exact known_map n j ts

/-! ### Counting tokens -/

theorem Known.takeWhile {p : TokenKind → Bool} (h : Known n k ts us)
    (hk : (ts.takeWhile (p ·.kind)).length < k) :
    (us.takeWhile (p ·.kind)).length = (ts.takeWhile (p ·.kind)).length := by
  induction h with
  | nothing => cases hk
  | nil => rfl
  | cons t h ih =>
    by_cases hp : p t.kind = true
    · simp only [List.takeWhile_cons, hp, kind_mapSpans, if_true, List.length_cons] at hk ⊢
      rw [ih (by omega)]
    · simp [hp]

/-- What is closed within the places that agree is closed there, and what is never closed is closed in
neither list. -/
theorem Known.closingLength {isOpen isClose : TokenKind → Bool}
    {length? : Nat → List Token → Option Nat} (hl : IsClosingLength isOpen isClose length?)
    {depth : Nat} (h : Known n k ts us) (hk : (length? depth ts).getD (ts.length + 1) ≤ k) :
    length? depth us = length? depth ts := by
  induction h generalizing depth with
  | nothing ts us =>
    cases hg : length? depth ts with
    | none => simp [hg] at hk
    | some m =>
      have := hl.pos hg
      simp only [hg, Option.getD_some] at hk
      omega
  | nil => rfl
  | @cons k ts us t h ih =>
    -- One token moves the count alike in both lists, and the rest is as long in both.
    obtain ⟨-, hone⟩ | ⟨d, hlater⟩ := hl.step depth t.kind
    · rw [hone t ts rfl, hone _ us (kind_mapSpans _ t)]
    · rw [hlater t ts rfl] at hk ⊢
      rw [hlater _ us (kind_mapSpans _ t), ih]
      cases hg : length? d ts <;> simp_all

/-- How many tokens a type looks at: its own and the one after it, or all if a bracket is open. -/
def typeReach (ts : List Token) (o : Except Token Nat) : Nat :=
  match o with
  | .ok m => m
  | .error _ => ts.length

/-- A type that ends before the last place that agrees ends there in either list. -/
theorem Known.typeLength {ends : TokenKind → Bool} {opened : List Token} (h : Known n k ts us)
    (hk : typeReach ts (typeLength ends opened ts) < k) :
    typeLength ends (opened.map (mapSpans (.move n))) us
      = (typeLength ends opened ts).mapError (mapSpans (.move n)) := by
  induction h generalizing opened with
  | nothing => cases hk
  | nil => cases opened <;> rfl
  | @cons k ts us t h ih =>
    have later : ∀ {o : List Token},
        typeReach (t :: ts) ((Memberwise.typeLength ends o ts).map (· + 1)) < k + 1 →
        (Memberwise.typeLength ends (o.map (mapSpans (.move n))) us).map (· + 1)
          = ((Memberwise.typeLength ends o ts).map (· + 1)).mapError (mapSpans (.move n)) := by
      intro o ho
      rw [ih]
      · cases Memberwise.typeLength ends o ts <;> rfl
      · cases ht : Memberwise.typeLength ends o ts with
        | error e =>
          rw [ht] at ho
          exact Nat.lt_of_succ_lt_succ ho
        | ok m =>
          rw [ht] at ho
          exact Nat.lt_of_succ_lt_succ ho
    rw [Memberwise.typeLength] at hk
    rw [Memberwise.typeLength, Memberwise.typeLength]
    simp only [kind_mapSpans, List.isEmpty_map]
    split at hk
    case isTrue he =>
      rw [if_pos he, if_pos he]
      rfl
    case isFalse he =>
      rw [if_neg he, if_neg he]
      revert hk
      split
      case h_7 => exact later
      case h_4 | h_5 | h_6 =>
        rw [← List.map_tail]
        exact later
      all_goals exact later (o := t :: opened)

/-! ### Looking ahead -/

theorem Known.operatorLength {previous : Option Span} (h : Known n k ts us)
    (hk : operatorLength previous ts < k) :
    operatorLength (previous.map (.move n)) us = operatorLength previous ts := by
  induction h generalizing previous with
  | nothing => cases hk
  | nil => rfl
  | @cons k ts us t h ih =>
    have htouch : (previous.map (Span.move n)).all (·.touches (mapSpans (Span.move n) t).span)
        = previous.all (·.touches t.span) := by
      cases previous <;> simp
    rw [Memberwise.operatorLength] at hk
    rw [Memberwise.operatorLength, Memberwise.operatorLength, kind_mapSpans, htouch]
    split at hk
    case isTrue hp =>
      rw [if_pos hp, if_pos hp, ← ih (Nat.lt_of_succ_lt_succ hk)]
      rfl
    case isFalse hp => rw [if_neg hp, if_neg hp]

theorem segmentCount_of_ne_dot (h : t.kind ≠ .dot) : segmentCount (t :: ts) = 0 := by
  cases ts with
  | nil => rfl
  | cons u ts => rw [segmentCount, if_neg fun hc => h hc.1]

/-- The names after dots are counted alike, unless one could come after the last place. -/
theorem Known.segmentCount (h : Known n k ts us) (hk : 2 * segmentCount ts < k)
    (hdot : ∀ t, ts[2 * segmentCount ts]? = some t → t.kind = .dot → 2 * segmentCount ts + 1 < k) :
    segmentCount us = segmentCount ts := by
  fun_induction Memberwise.segmentCount ts generalizing k us with
  | case1 dot name ts hc ih =>
    cases h with
    | nothing => cases hk
    | cons _ h =>
      cases h with
      | nothing => omega
      | cons _ h =>
        rw [Memberwise.segmentCount, kind_mapSpans, kind_mapSpans, if_pos hc]
        rw [ih h (by omega) fun t ht hd => ?_]
        have := hdot t (by rwa [Nat.mul_add]) hd
        omega
  | case2 dot name ts hc =>
    cases h with
    | nothing => cases hk
    | cons _ h =>
      cases h with
      | nothing =>
        have hd : dot.kind ≠ .dot := fun hd => absurd (hdot dot rfl hd) (by omega)
        exact segmentCount_of_ne_dot hd
      | cons _ h => rw [Memberwise.segmentCount, kind_mapSpans, kind_mapSpans, if_neg hc]
  | case3 ts hc =>
    cases h with
    | nothing => cases hk
    | nil => rfl
    | @cons k ts us t h =>
      cases h with
      | nothing =>
        cases ts with
        | nil =>
          have hd : t.kind ≠ .dot := fun hd => absurd (hdot t rfl hd) (by omega)
          exact segmentCount_of_ne_dot hd
        | cons u ts => exact absurd rfl (hc t u ts)
      | nil => rfl
      | cons u h => exact absurd rfl (hc t u _)

theorem Known.recoveryLength {depth : Nat} (h : Known n k ts us)
    (hk : recoveryLength depth ts < k) : recoveryLength depth us = recoveryLength depth ts := by
  induction h generalizing depth with
  | nothing => cases hk
  | nil => rfl
  | @cons k ts us t h ih =>
    rw [Memberwise.recoveryLength] at hk
    rw [Memberwise.recoveryLength, Memberwise.recoveryLength, kind_mapSpans]
    split at hk
    case isTrue he => rw [if_pos he, if_pos he]
    case isFalse he =>
      rw [if_neg he, if_neg he]
      split at hk
      case isTrue ho => rw [if_pos ho, if_pos ho, ih (Nat.lt_of_succ_lt_succ hk)]
      case isFalse ho =>
        rw [if_neg ho, if_neg ho]
        split at hk
        case isTrue hc => rw [if_pos hc, if_pos hc, ih (Nat.lt_of_succ_lt_succ hk)]
        case isFalse hc => rw [if_neg hc, if_neg hc, ih (Nat.lt_of_succ_lt_succ hk)]

theorem Known.find?_newline (h : Known n k ts us) (hs : Shows k 0 ts) :
    us.find? (·.kind != .newline)
      = (ts.find? (·.kind != .newline)).map (mapSpans (.move n)) := by
  induction h with
  | nothing => exact absurd hs.lt (Nat.lt_irrefl 0)
  | nil => rfl
  | @cons k ts us t h ih =>
    by_cases ht : t.kind = .newline
    · have hs' : Shows k 0 ts := by
        obtain ⟨i, -, hi, hkind⟩ := hs
        cases i with
        | zero => exact absurd ht (hkind t rfl)
        | succ i => exact ⟨i, Nat.zero_le i, Nat.lt_of_succ_lt_succ hi, hkind⟩
      simp [ht, ih hs']
    · simp [ht]

end Lists

/-! ## Cursors that agree for a while -/

/-- The second cursor shows the first `k` tokens of the first one, `n` bytes further on, with the
end counted among them, and gives them the same text, which ends at `hi` in the first source.  If
the first cursor has passed a token, the second has passed the same one last. -/
structure Alike (n hi k : Nat) (c d : Cursor) : Prop where
  known : Known n k c.rest d.rest
  stop : c.rest.length < k → d.stop = c.stop + n
  bound : ∀ t ∈ c.rest.take k, t.span.start ≤ hi ∧ t.span.stop ≤ hi
  previous : ∀ t, c.passed.head? = some t → d.passed.head? = some (mapSpans (.move n) t)
  text : ∀ s : Span, s.stop ≤ hi → d.text (s.move n) = c.text s

/-- Some token has been passed. -/
def Cursor.Behind (c : Cursor) : Prop := c.passed ≠ []

theorem Cursor.Behind.skip {c : Cursor} (h : c.Behind) (m : Nat) : (c.skip m).Behind :=
  List.append_ne_nil_of_right_ne_nil _ h

theorem Cursor.behind_skip {c : Cursor} {m : Nat} (h : c.rest ≠ []) (hm : 0 < m) :
    (c.skip m).Behind := by
  obtain ⟨t, ts, hr⟩ := List.exists_cons_of_ne_nil h
  obtain ⟨m, rfl⟩ := Nat.exists_eq_add_of_lt hm
  simp [Behind, Cursor.skip, hr]

namespace Alike

variable {n hi k i m : Nat} {c d : Cursor}

theorem ahead (h : Alike n hi k c d) (hi : i < k) : d.ahead i = mapSpans (.move n) (c.ahead i) := by
  rw [Cursor.ahead, Cursor.ahead, List.getD_eq_getElem?_getD, List.getD_eq_getElem?_getD,
    h.known.getElem? hi]
  cases hr : c.rest[i]? with
  | none =>
    rw [List.getElem?_eq_none_iff] at hr
    have hstop := h.stop (by omega)
    simp only [Option.map_none, Option.getD_none, Cursor.last, hstop]
    rfl
  | some t => rfl

theorem current (h : Alike n hi k c d) (hk : 0 < k) : d.current = mapSpans (.move n) c.current :=
  h.ahead hk

theorem kind (h : Alike n hi k c d) (hk : 0 < k) : d.kind = c.kind := by
  rw [Cursor.kind, h.current hk, kind_mapSpans, Cursor.kind]

theorem span (h : Alike n hi k c d) (hk : 0 < k) : d.span = c.span.move n := by
  rw [Cursor.span, h.current hk, span_mapSpans, Cursor.span]

theorem skip (h : Alike n hi k c d) (hm : m ≤ k) :
    Alike n hi (k - m) (c.skip m) (d.skip m) where
  known := h.known.drop m
  stop hk := h.stop (by rw [Cursor.length_rest_skip] at hk; omega)
  bound t ht := by
    refine h.bound t ?_
    rw [Cursor.rest_skip, ← List.drop_take] at ht
    exact List.mem_of_mem_drop ht
  previous t ht := by
    simp only [Cursor.skip, List.head?_append, List.head?_reverse] at ht ⊢
    rw [h.known.take hm, List.getLast?_map]
    cases hl : (c.rest.take m).getLast? with
    | none =>
      rw [hl] at ht
      exact h.previous t ht
    | some u =>
      rw [hl] at ht
      obtain rfl := Option.some.inj ht
      rfl
  text := h.text

theorem rest_of_nil (h : Alike n hi k c d) (hk : 0 < k) (hr : c.rest = []) : d.rest = [] := by
  have hknown := h.known
  rw [hr] at hknown
  generalize d.rest = us at hknown ⊢
  cases hknown with
  | nothing => cases hk
  | nil => rfl

theorem rest_of_cons {t : Token} {ts : List Token} (h : Alike n hi k c d) (hk : 0 < k)
    (hr : c.rest = t :: ts) : ∃ us, d.rest = mapSpans (.move n) t :: us := by
  have hknown := h.known
  rw [hr] at hknown
  generalize d.rest = us at hknown ⊢
  cases hknown with
  | nothing => cases hk
  | cons => exact ⟨_, rfl⟩

theorem rest_eq_nil_iff (h : Alike n hi k c d) (hk : 0 < k) : d.rest = [] ↔ c.rest = [] := by
  refine ⟨fun hd => ?_, h.rest_of_nil hk⟩
  cases hc : c.rest with
  | nil => rfl
  | cons t ts =>
    obtain ⟨us, hd'⟩ := h.rest_of_cons hk hc
    rw [hd'] at hd
    cases hd

/-- Cursors that agree through the end agree as far as one likes. -/
theorem closed (h : Alike n hi k c d) (hk : c.rest.length < k) (j : Nat) : Alike n hi j c d where
  known := h.known.closed hk j
  stop _ := h.stop hk
  bound t ht := h.bound t (by
    rw [List.take_of_length_le (Nat.le_of_lt hk)]
    exact List.mem_of_mem_take ht)
  previous := h.previous
  text := h.text

theorem newlines (h : Alike n hi k c d) (hk : c.newlines < k) : d.newlines = c.newlines :=
  h.known.takeWhile (p := (· == .newline)) hk

theorem separators (h : Alike n hi k c d) (hk : c.separators < k) : d.separators = c.separators :=
  h.known.takeWhile (p := fun t => t == .newline || t == .semicolon) hk

theorem last (h : Alike n hi k c d) (hk : c.rest.length < k) :
    d.last = mapSpans (.move n) c.last := by
  rw [Cursor.last, h.stop hk]
  rfl

theorem length (h : Alike n hi k c d) (hk : c.rest.length < k) :
    d.rest.length = c.rest.length := by
  rw [h.known.eq_map hk, List.length_map]

theorem pastNewlines (h : Alike n hi k c d) (hs : Shows k 0 c.rest) :
    d.pastNewlines = mapSpans (.move n) c.pastNewlines := by
  rw [Cursor.pastNewlines, Cursor.pastNewlines, h.known.find?_newline hs]
  cases hf : c.rest.find? (·.kind != .newline) with
  | some t => rfl
  | none =>
    refine h.last ?_
    -- All tokens are line ends, so the place that is none is the end.
    obtain ⟨i, -, hi, ht⟩ := hs
    refine Nat.lt_of_le_of_lt (Nat.le_of_not_lt fun hlt => ?_) hi
    have hnewline := List.find?_eq_none.mp hf c.rest[i] (List.getElem_mem hlt)
    exact ht _ (List.getElem?_eq_getElem hlt) (by simpa using hnewline)

theorem previousKind? (h : Alike n hi k c d) (hb : c.Behind) : d.previousKind? = c.previousKind? := by
  obtain ⟨t, ts, hp⟩ := List.exists_cons_of_ne_nil hb
  rw [Cursor.previousKind?, Cursor.previousKind?, h.previous t (by rw [hp]; rfl), hp]
  rfl

theorem previousSpan (h : Alike n hi k c d) (hb : c.Behind) :
    d.previousSpan = c.previousSpan.move n := by
  obtain ⟨t, ts, hp⟩ := List.exists_cons_of_ne_nil hb
  rw [Cursor.previousSpan, Cursor.previousSpan, h.previous t (by rw [hp]; rfl), hp]
  rfl

theorem ahead_le (h : Alike n hi k c d) (hk : i < k) (hr : i < c.rest.length) :
    (c.ahead i).span.start ≤ hi ∧ (c.ahead i).span.stop ≤ hi := by
  refine h.bound _ (List.mem_of_getElem? (i := i) ?_)
  rw [List.getElem?_take_of_lt hk, Cursor.ahead, List.getD_eq_getElem?_getD,
    List.getElem?_eq_getElem hr, Option.getD_some]

theorem text_ahead (h : Alike n hi k c d) (hk : i < k) (hr : i < c.rest.length) :
    d.text (d.ahead i).span = c.text (c.ahead i).span := by
  rw [h.ahead hk, span_mapSpans, h.text _ (h.ahead_le hk hr).2]

theorem currentText (h : Alike n hi k c d) (hk : 0 < k) (hc : c.kind ≠ .endOfFile) :
    d.currentText = c.currentText := h.text_ahead hk (Cursor.lt_length_of_ahead hc)

theorem textBetween (h : Alike n hi k c d) {s t : Span} (hs : s.stop ≤ hi) (ht : t.stop ≤ hi) :
    d.textBetween (s.move n) (t.move n) = c.textBetween s t := by
  rw [Cursor.textBetween, ← Span.move_merge, h.text _ (Nat.max_le.mpr ⟨hs, ht⟩), Cursor.textBetween]

theorem min_length (h : Alike n hi k c d) (hm : m ≤ k) :
    min m d.rest.length = min m c.rest.length := by
  have := congrArg List.length (h.known.take hm)
  simpa using this

end Alike

/-! ## Parsers that do the same -/

/-- The outcome of the same reading `n` bytes further on, where the value is changed by `v`. -/
def Outcome.moved {α : Type} (n : Nat) (v : α → α) (o : Outcome α) : Outcome α where
  result := match o.result with
    | .ok a => .ok (v a)
    | .error e => .error (mapSpans (.move n) e)
  taken := o.taken

namespace Parser

instance : LawfulMonad Parser := .mk' Parser
  (fun p => by
    funext c
    cases hp : p c with
    | mk result m =>
      cases result with
      | ok a => exact map_eq_ok.mpr ⟨a, hp, rfl⟩
      | error e => exact bind_of_error hp)
  (fun a f => by
    funext c
    rw [bind_of_ok (pure_apply a c), Cursor.skip_zero, Outcome.after_zero])
  (fun p f g => by
    funext c
    cases hp : p c with
    | mk result m =>
      cases result with
      | error e => rw [bind_of_error (bind_of_error hp), bind_of_error hp]
      | ok a =>
        rw [bind_of_ok hp]
        cases hf : f a (c.skip m) with
        | mk result j =>
          cases result with
          | error e =>
            rw [bind_of_error (by rw [bind_of_ok hp, hf]; rfl), bind_of_error hf]
            rfl
          | ok b =>
            rw [bind_of_ok (by rw [bind_of_ok hp, hf]; rfl), bind_of_ok hf, Cursor.skip_skip,
              Outcome.after_after])

section Sequences

variable {α β : Type} {n hi k : Nat} {c d : Cursor}

/-- **Doing the same is carried along a sequence.**  What follows a success begins where the cursors
still agree. -/
theorem bind_moved {v : α → α} {w : β → β} {p : Parser α} {f g : α → Parser β}
    (h : Alike n hi k c d) (hs : Shows k ((p >>= f) c).taken c.rest)
    (hp : Shows k (p c).taken c.rest → p d = (p c).moved n v)
    (hf : ∀ a m, p c = ⟨.ok a, m⟩ → Alike n hi (k - m) (c.skip m) (d.skip m) →
      Shows (k - m) (f a (c.skip m)).taken (c.skip m).rest →
      g (v a) (d.skip m) = (f a (c.skip m)).moved n w) :
    (p >>= g) d = ((p >>= f) c).moved n w := by
  cases hpc : p c with
  | mk result m =>
    cases result with
    | error e =>
      rw [bind_of_error hpc] at hs ⊢
      rw [hpc] at hp
      rw [bind_of_error (hp hs)]
      rfl
    | ok a =>
      rw [bind_of_ok hpc] at hs ⊢
      rw [hpc] at hp
      have hm : Shows k m c.rest := hs.of_le (Nat.le_add_right _ _)
      rw [bind_of_ok (hp hm), hf a m hpc (h.skip (Nat.le_of_lt hm.lt)) hs.drop]
      rfl

theorem bind_alike [Spanned α] [Spanned β] {p : Parser α} {f g : α → Parser β}
    (h : Alike n hi k c d) (hs : Shows k ((p >>= f) c).taken c.rest)
    (hp : Shows k (p c).taken c.rest → p d = mapSpans (.move n) (p c))
    (hf : ∀ a m, p c = ⟨.ok a, m⟩ → Alike n hi (k - m) (c.skip m) (d.skip m) →
      Shows (k - m) (f a (c.skip m)).taken (c.skip m).rest →
      g (mapSpans (.move n) a) (d.skip m) = mapSpans (.move n) (f a (c.skip m))) :
    (p >>= g) d = mapSpans (.move n) ((p >>= f) c) :=
  bind_moved h hs hp hf

theorem inside_moved {v : α → α} {p q : Parser α} {construct : Construct}
    (hs : Shows k (inside construct p c).taken c.rest)
    (h : Shows k (p c).taken c.rest → q d = (p c).moved n v) :
    inside construct q d = (inside construct p c).moved n v := by
  rw [inside, inside, h hs]
  cases hp : p c with
  | mk result m => cases result <;> rfl

end Sequences

variable {α β : Type} [Spanned α] [Spanned β] {n hi k m : Nat} {c d : Cursor}

theorem pure_alike (n : Nat) (a : α) (c d : Cursor) : (Pure.pure (mapSpans (.move n) a) : Parser α) d
    = mapSpans (.move n) ((Pure.pure a : Parser α) c) := rfl

theorem inside_alike {p q : Parser α} {construct : Construct}
    (hs : Shows k (inside construct p c).taken c.rest)
    (h : Shows k (p c).taken c.rest → q d = mapSpans (.move n) (p c)) :
    inside construct q d = mapSpans (.move n) (inside construct p c) := inside_moved hs h

theorem map_alike {p : Parser α} {f : α → β} (h : Alike n hi k c d)
    (hs : Shows k ((f <$> p) c).taken c.rest)
    (hp : Shows k (p c).taken c.rest → p d = mapSpans (.move n) (p c))
    (hf : ∀ a, f (mapSpans (.move n) a) = mapSpans (.move n) (f a)) :
    (f <$> p) d = mapSpans (.move n) ((f <$> p) c) :=
  bind_alike (f := fun a => Pure.pure (f a)) (g := fun a => Pure.pure (f a)) h hs hp fun a _ _ _ _ => by
    rw [hf]
    rfl

/-! ### Single tokens -/

/-- What takes no token shows the next one. -/
theorem fail_alike {fault fault' : ParseFault} (h : Alike n hi k c d) (hk : 0 < k)
    (hf : fault' = mapSpans (.move n) fault) :
    (fail fault' d : Outcome α) = mapSpans (.move n) (fail fault c) := by
  rw [fail, fail, h.span hk, hf]
  rfl

theorem take_alike (h : Alike n hi k c d) (hm : m ≤ k) :
    take m d = mapSpans (.move n) (take m c) := by
  rw [take, take, h.min_length hm]
  rfl

theorem next_alike (h : Alike n hi k c d) (hk : 0 < k) : next d = mapSpans (.move n) (next c) := by
  rw [next, next, h.current hk, h.min_length hk]
  rfl

theorem eat_alike (h : Alike n hi k c d) (hk : 0 < k) (kind : TokenKind) :
    eat kind d = mapSpans (.move n) (eat kind c) := by
  rw [eat, eat, h.kind hk, h.min_length hk]
  split <;> rfl

theorem expect_alike (h : Alike n hi k c d) (hk : 0 < k) (kind : TokenKind) :
    expect kind d = mapSpans (.move n) (expect kind c) := by
  rw [expect, expect, h.kind hk]
  split
  · exact next_alike h hk
  · exact fail_alike h hk rfl

theorem skipNewlines_alike (h : Alike n hi k c d) (hk : c.newlines < k) :
    skipNewlines d = mapSpans (.move n) (skipNewlines c) := by
  rw [skipNewlines, skipNewlines, h.newlines hk]
  rfl

theorem identifier_alike (h : Alike n hi k c d) (hk : 0 < k) :
    identifier d = mapSpans (.move n) (identifier c) := by
  rw [identifier, identifier, h.kind hk]
  split
  case isTrue hc =>
    rw [h.currentText hk (by rw [hc]; decide), h.span hk]
    rfl
  case isFalse => exact fail_alike h hk rfl

/-! ### Groups -/

theorem unclosed_alike (h : Alike n hi k c d) (hk : c.rest.length < k) (t : Token) :
    (unclosed (mapSpans (.move n) t) d : Outcome α) = mapSpans (.move n) (unclosed t c) := by
  rw [unclosed, unclosed, h.last hk, h.length hk]
  rfl

/-- What the next token opens and never closes fails alike. -/
theorem unclosed_current_alike (h : Alike n hi k c d) (hk : c.rest.length < k) :
    (unclosed d.current d : Outcome α) = mapSpans (.move n) (unclosed c.current c) := by
  rw [(h.closed hk 1).current Nat.zero_lt_one, unclosed_alike h hk]

/-- What the next token opens is closed equally far away, where the cursors agree through the closing
bracket, or through the end if there is none. -/
theorem closingLength_alike {isOpen isClose : TokenKind → Bool}
    {length? : Nat → List Token → Option Nat} (hl : IsClosingLength isOpen isClose length?)
    (h : Alike n hi k c d) (hs : ∀ m, length? 0 (c.skip 1).rest = some m → m < k)
    (hu : length? 0 (c.skip 1).rest = none → c.rest.length < k) :
    length? 0 (d.skip 1).rest = length? 0 (c.skip 1).rest := by
  cases hg : length? 0 (c.skip 1).rest with
  | none =>
    have h' := (h.closed (hu hg) (c.rest.length + 2)).skip (m := 1) (by omega)
    rw [← hg]
    refine h'.known.closingLength hl ?_
    rw [hg, Option.getD_none, Cursor.length_rest_skip]
    omega
  | some m =>
    have hm := hs m hg
    rw [← hg]
    refine (h.skip (m := 1) (by omega)).known.closingLength hl ?_
    rw [hg, Option.getD_some]
    omega

/-- A group looks at its own tokens only, or at all if it is never closed. -/
theorem group_alike (h : Alike n hi k c d) (hs : (group c).taken ≤ k)
    (hu : groupLength? 0 (c.skip 1).rest = none → c.rest.length < k) :
    group d = mapSpans (.move n) (group c) := by
  rw [group] at hs
  rw [group, group, closingLength_alike isClosingLength_group h (fun m hm => ?_) hu]
  · cases hg : groupLength? 0 (c.skip 1).rest with
    | none => exact unclosed_current_alike h (hu hg)
    | some m =>
      simp only [hg] at hs
      dsimp only
      rw [h.span (by omega), h.ahead (by omega)]
      rfl
  · simp only [hm] at hs
    omega

theorem group_alike_of_shows (h : Alike n hi k c d) (hs : Shows k (group c).taken c.rest) :
    group d = mapSpans (.move n) (group c) := by
  refine group_alike h (Nat.le_of_lt hs.lt) fun hg => ?_
  have := hs.lt
  rwa [group, hg] at this

theorem group_eq_ok {r : Span × Span} (h : group c = ⟨.ok r, m⟩) :
    ∃ j, r = (c.span, (c.ahead j).span) ∧ m = 1 + j ∧ j < c.rest.length := by
  rw [group] at h
  split at h
  case h_1 j hj =>
    cases h
    have hle := isClosingLength_group.one_add_le hj
    exact ⟨j, rfl, rfl, by omega⟩
  case h_2 => cases h

theorem generics_alike (h : Alike n hi k c d) (hs : Shows k (generics c).taken c.rest) :
    generics d = mapSpans (.move n) (generics c) := by
  have hlt := hs.lt
  rw [generics] at hlt
  rw [generics, generics, h.kind (by omega)]
  split at hlt
  case isFalse hc =>
    rw [if_neg hc, if_neg hc]
    rfl
  case isTrue hc =>
    have hu : genericsLength? 0 (c.skip 1).rest = none → c.rest.length < k := fun hg => by
      rwa [hg] at hlt
    rw [if_pos hc, if_pos hc, closingLength_alike isClosingLength_generics h (fun m hm => ?_) hu]
    · cases hg : genericsLength? 0 (c.skip 1).rest with
      | none => exact unclosed_current_alike h (hu hg)
      | some m => rfl
    · simp only [hm] at hlt
      omega

/-! ### Types -/

/-- A type takes no more than there is. -/
theorem typeLength_le {ends : TokenKind → Bool} {opened ts : List Token}
    (h : typeLength ends opened ts = .ok m) : m ≤ ts.length := by
  induction ts generalizing opened m with
  | nil => cases opened <;> cases h; exact Nat.le_refl _
  | cons t ts ih =>
    obtain ⟨-, rfl⟩ | ⟨-, j, hj, rfl⟩ := typeLength_cons_eq_ok.mp h
    · exact Nat.zero_le _
    · exact Nat.succ_le_succ (ih hj)

theorem typeText_alike (h : Alike n hi k c d) {ends : TokenKind → Bool}
    (hs : Shows k (typeText ends c).taken c.rest) :
    typeText ends d = mapSpans (.move n) (typeText ends c) := by
  have hlt := hs.lt
  rw [typeText] at hlt
  have hd : typeLength ends ([].map (mapSpans (.move n))) d.rest
      = (typeLength ends [] c.rest).mapError (mapSpans (.move n)) := by
    refine h.known.typeLength ?_
    split at hlt
    case h_1 ht => rwa [ht]
    case h_2 ht => rwa [ht]
    case h_3 ht => rwa [ht]
  rw [List.map_nil] at hd
  rw [typeText, typeText, hd]
  cases ht : typeLength ends [] c.rest with
  | error opened =>
    simp only [ht] at hlt
    exact unclosed_alike h hlt opened
  | ok m =>
    cases m with
    | zero =>
      simp only [ht] at hlt
      change fail (.expectedType d.kind) d = _
      rw [h.kind hlt]
      exact fail_alike h hlt rfl
    | succ m =>
      simp only [ht] at hlt
      have hle := typeLength_le ht
      have hfirst : c.span.stop ≤ hi := (h.ahead_le (by omega) (by omega)).2
      have hlast : (c.ahead m).span.stop ≤ hi := (h.ahead_le (by omega) (by omega)).2
      change (⟨.ok (String.ofList (d.textBetween d.span (d.ahead m).span)), m + 1⟩ : Outcome String) = _
      rw [h.span (by omega), h.ahead (by omega), span_mapSpans, h.textBetween hfirst hlast]
      rfl

/-! ### Stretches -/

/-- **A stretch goes on alike** as far as its strides are decided alike, where some condition holds
and keeps holding.  A stride may peek at the place after the next token. -/
theorem stretch_alike {stride : Cursor → Stride} (peek : Cursor → Nat) (hpeek : ∀ c, peek c ≤ 1)
    (P : Cursor → Prop) (hP : ∀ {c : Cursor} (m : Nat), P c → P (c.skip m))
    (hstride : ∀ {k : Nat} {c d : Cursor}, Alike n hi k c d → P c → Shows k (peek c) c.rest →
      stride d = stride c)
    (h : Alike n hi k c d) (hb : P c)
    (hs : Shows k ((stretch stride c).taken + peek (c.skip (stretch stride c).taken)) c.rest) :
    stretch stride d = mapSpans (.move n) (stretch stride c) := by
  fun_induction stretch stride c generalizing k d with
  | case1 c hr => rw [stretch_of_nil (h.rest_of_nil (by have := hs.lt; omega) hr)]; rfl
  | case2 c t ts hr hstop =>
    rw [Nat.zero_add, Cursor.skip_zero] at hs
    rw [stretch_of_stop (by rw [hstride h hb hs, hstop])]
    rfl
  | case3 c t ts hr m hpass ih =>
    have hlt := hs.lt
    rw [Outcome.taken_after] at hs hlt
    have hd : d.rest ≠ [] := by rw [Ne, h.rest_eq_nil_iff (by omega), hr]; simp
    have hpeek' := hpeek c
    have hlater := ih (h.skip (by omega)) (hP _ hb) (by
      rw [Nat.add_assoc] at hs
      rw [Cursor.skip_skip]
      exact hs.drop)
    rw [stretch_of_pass hd (by rw [hstride h hb (hs.of_le (by omega)), hpass]), hlater]
    rfl
  | case4 c t ts hr hgroup m hm ih =>
    have hlt := hs.lt
    rw [Outcome.taken_after] at hs hlt
    have hd : d.rest ≠ [] := by rw [Ne, h.rest_eq_nil_iff (by omega), hr]; simp
    have hpeek' := hpeek c
    have hlater := ih (h.skip (by omega)) (hP _ hb) (by
      rw [Nat.add_assoc] at hs
      rw [Cursor.skip_skip]
      exact hs.drop)
    have hclosed := group_of_closed hr hm
    have hclosed' := group_alike_of_shows h (hs.of_le (by rw [hclosed]; dsimp only; omega))
    rw [hclosed, Outcome.mapSpans_ok] at hclosed'
    rw [stretch_of_group hd (by rw [hstride h hb (hs.of_le (by omega)), hgroup]) hclosed', hlater]
    rfl
  | case5 c t ts hr hgroup hm =>
    have hd : d.rest ≠ [] := by rw [Ne, h.rest_eq_nil_iff (by have := hs.lt; omega), hr]; simp
    have hpeek' := hpeek c
    have hunclosed := group_of_unclosed hr hm
    have hunclosed' := group_alike_of_shows h (hs.of_le (by rw [hunclosed]; exact Nat.le_add_right _ _))
    rw [hunclosed] at hunclosed'
    rw [stretch_of_unclosed hd ?_ hunclosed']
    · rfl
    · rw [hstride h hb (hs.of_le ?_), hgroup]
      change peek c ≤ c.rest.length + _
      rw [hr, List.length_cons]
      omega

theorem lineStride_alike (h : Alike n hi k c d) (hs : Shows k 0 c.rest) :
    lineStride d = lineStride c := by
  rw [lineStride, lineStride, h.kind hs.lt]

theorem restOfLine_alike (h : Alike n hi k c d) (hs : Shows k (restOfLine c).taken c.rest) :
    restOfLine d = mapSpans (.move n) (restOfLine c) :=
  stretch_alike (fun _ => 0) (fun _ => Nat.zero_le 1) (fun _ => True)
    (fun _ _ => trivial) (fun h _ hs => lineStride_alike h hs) h trivial hs

theorem signatureStride_alike (h : Alike n hi k c d) (hs : Shows k 0 c.rest) :
    signatureStride d = signatureStride c := by
  rw [signatureStride, signatureStride, h.kind hs.pos, h.newlines hs.newlines_lt,
    h.pastNewlines hs, kind_mapSpans]

theorem discard_group_alike (h : Alike n hi k c d) (hs : Shows k (discard group c).taken c.rest) :
    discard group d = mapSpans (.move n) (discard group c) :=
  map_alike h hs (fun hs => group_alike_of_shows h hs) fun _ => rfl

theorem signatureAndBody_alike (h : Alike n hi k c d)
    (hs : Shows k (signatureAndBody c).taken c.rest) :
    signatureAndBody d = mapSpans (.move n) (signatureAndBody c) := by
  refine bind_alike h hs (fun hs => ?_) fun _ m hp h hs => ?_
  · exact stretch_alike (fun _ => 0) (fun _ => Nat.zero_le 1) (fun _ => True)
      (fun _ _ => trivial) (fun h _ hs => signatureStride_alike h hs) h trivial hs
  · rw [here_bind] at hs
    rw [here_bind, here_bind, h.kind hs.pos]
    split at hs
    case isTrue hk =>
      rw [if_pos hk]
      exact discard_group_alike h hs
    case isFalse hk =>
      rw [if_neg hk]
      rfl

end Parser

end Memberwise
