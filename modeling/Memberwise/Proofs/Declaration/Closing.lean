import Memberwise.Declaration.Balanced

/-!
# Proofs/Declaration/Closing — how far away the closing bracket is

A group and a generic clause are stepped over alike: brackets are counted up and down until the one
opened first is closed.  What such a count comes to (`IsClosingLength`) is said here of both at once.

* `IsClosingLength.step` — **one token closes what was opened first, or leaves a count to go on
  with**, whatever comes after it;
* `IsClosingLength.exists_close` — so **what is counted ends with a bracket that closes**.
-/

namespace Memberwise

/-- A way to count the tokens through the bracket that closes what is open, `depth` brackets deep. -/
structure IsClosingLength (isOpen isClose : TokenKind → Bool) (length? : Nat → List Token → Option Nat) :
    Prop where
  nil (depth : Nat) : length? depth [] = none
  opening {t : Token} (ts : List Token) (depth : Nat) (ho : isOpen t.kind = true) :
    length? depth (t :: ts) = (length? (depth + 1) ts).map (· + 1)
  closing {t : Token} (ts : List Token) (ho : isOpen t.kind = false) (hc : isClose t.kind = true) :
    length? 0 (t :: ts) = some 1
  closing_succ {t : Token} (ts : List Token) (depth : Nat) (ho : isOpen t.kind = false)
    (hc : isClose t.kind = true) : length? (depth + 1) (t :: ts) = (length? depth ts).map (· + 1)
  other {t : Token} (ts : List Token) (depth : Nat) (ho : isOpen t.kind = false)
    (hc : isClose t.kind = false) : length? depth (t :: ts) = (length? depth ts).map (· + 1)
  pos {ts : List Token} {depth n : Nat} (h : length? depth ts = some n) : 0 < n

namespace IsClosingLength

variable {isOpen isClose : TokenKind → Bool} {length? : Nat → List Token → Option Nat}

/-- **The kind of a token decides whether the count ends with it**, or else how many brackets are
open behind it. -/
theorem step (h : IsClosingLength isOpen isClose length?) (depth : Nat) (k : TokenKind) :
    (isClose k = true ∧ ∀ t ts, t.kind = k → length? depth (t :: ts) = some 1) ∨
      ∃ d, ∀ t ts, t.kind = k → length? depth (t :: ts) = (length? d ts).map (· + 1) := by
  cases ho : isOpen k with
  | true =>
    refine .inr ⟨depth + 1, ?_⟩
    rintro t ts rfl
    exact h.opening ts depth ho
  | false =>
    cases hc : isClose k with
    | false =>
      refine .inr ⟨depth, ?_⟩
      rintro t ts rfl
      exact h.other ts depth ho hc
    | true =>
      cases depth with
      | zero =>
        refine .inl ⟨rfl, ?_⟩
        rintro t ts rfl
        exact h.closing ts ho hc
      | succ d =>
        refine .inr ⟨d, ?_⟩
        rintro t ts rfl
        exact h.closing_succ ts d ho hc

/-- **What is counted ends with a bracket that closes.** -/
theorem exists_close (h : IsClosingLength isOpen isClose length?) {depth n : Nat} {ts : List Token}
    (hn : length? depth ts = some n) :
    ∃ pre t post, ts = pre ++ t :: post ∧ n = pre.length + 1 ∧ isClose t.kind = true := by
  induction ts generalizing depth n with
  | nil => cases (h.nil depth).symm.trans hn
  | cons t ts ih =>
    obtain ⟨hc, hone⟩ | ⟨d, hlater⟩ := h.step depth t.kind
    · obtain rfl := Option.some.inj ((hone t ts rfl).symm.trans hn)
      exact ⟨[], t, ts, rfl, rfl, hc⟩
    · obtain ⟨m, hm, rfl⟩ := Option.map_eq_some_iff.mp ((hlater t ts rfl).symm.trans hn)
      obtain ⟨pre, u, post, rfl, rfl, hu⟩ := ih hm
      exact ⟨t :: pre, u, post, rfl, rfl, hu⟩

theorem le (h : IsClosingLength isOpen isClose length?) {depth n : Nat} {ts : List Token}
    (hn : length? depth ts = some n) : n ≤ ts.length := by
  obtain ⟨pre, t, post, rfl, rfl, -⟩ := h.exists_close hn
  simp

/-- What the next token opens is closed among the tokens there are. -/
theorem one_add_le (h : IsClosingLength isOpen isClose length?) {c : Cursor} {n : Nat}
    (hn : length? 0 (c.skip 1).rest = some n) : 1 + n ≤ c.rest.length := by
  have hpos := h.pos hn
  have hle := h.le hn
  rw [Cursor.length_rest_skip] at hle
  omega

/-- The closing bracket of what the next token opens is a number of tokens ahead. -/
theorem isClose_ahead (h : IsClosingLength isOpen isClose length?) {c : Cursor} {n : Nat}
    (hn : length? 0 (c.skip 1).rest = some n) : isClose (c.ahead n).kind = true := by
  obtain ⟨pre, t, post, hts, rfl, ht⟩ := h.exists_close hn
  have hget : c.rest[1 + pre.length]? = some t := by
    rw [← List.getElem?_drop, ← Cursor.rest_skip, hts, List.getElem?_append_right (Nat.le_refl _),
      Nat.sub_self]
    rfl
  rwa [Cursor.ahead, List.getD_eq_getElem?_getD, Nat.add_comm, hget]

end IsClosingLength

theorem isClosingLength_group : IsClosingLength TokenKind.isOpen TokenKind.isClose groupLength? where
  nil _ := rfl
  opening _ _ ho := by simp [groupLength?.eq_def _ (_ :: _), ho]
  closing _ ho hc := by simp [groupLength?.eq_def _ (_ :: _), ho, hc]
  closing_succ _ _ ho hc := by simp [groupLength?.eq_def _ (_ :: _), ho, hc]
  other _ _ ho hc := by simp [groupLength?.eq_def _ (_ :: _), ho, hc]
  pos := groupLength?_pos

theorem isClosingLength_generics :
    IsClosingLength (· == .less) (· == .greater) genericsLength? where
  nil _ := rfl
  opening _ _ ho := by simp_all [genericsLength?.eq_def _ (_ :: _)]
  closing _ ho hc := by simp_all [genericsLength?.eq_def _ (_ :: _)]
  closing_succ _ _ ho hc := by simp_all [genericsLength?.eq_def _ (_ :: _)]
  other _ _ ho hc := by simp_all [genericsLength?.eq_def _ (_ :: _)]
  pos {ts depth n} h := by
    fun_induction genericsLength? depth ts generalizing n <;> simp_all <;> omega

end Memberwise
