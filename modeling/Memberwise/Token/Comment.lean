/-!
# Token/Comment — how far a block comment reaches

Block comments nest: every `/*` needs its own `*/`.  `blockComment` counts the characters of a
comment after its first `/*`, together with whether it was closed at all; an unclosed comment takes
the whole text.

**A closed comment ends in its closing mark** (`blockComment_closed`), and no comment takes more
than there is (`blockComment_le`).
-/

namespace Memberwise.Token

/-- How far a delimited construct reaches, and whether it found its end. -/
structure Extent where
  length : Nat
  closed : Bool
  deriving DecidableEq, Repr

/-- The extent of a construct `n` characters further out. -/
def Extent.after (n : Nat) (e : Extent) : Extent := ⟨n + e.length, e.closed⟩

@[simp] theorem Extent.length_after (n : Nat) (e : Extent) : (e.after n).length = n + e.length :=
  rfl

@[simp] theorem Extent.closed_after (n : Nat) (e : Extent) : (e.after n).closed = e.closed := rfl

/-- The extent of a block comment inside `depth` others and itself, from after a `/*`. -/
def blockComment : (depth : Nat) → List Char → Extent
  | depth, '/' :: '*' :: s => (blockComment (depth + 1) s).after 2
  | 0, '*' :: '/' :: _ => ⟨2, true⟩
  | depth + 1, '*' :: '/' :: s => (blockComment depth s).after 2
  | depth, _ :: s => (blockComment depth s).after 1
  | _, [] => ⟨0, false⟩

/-- No comment takes more than there is. -/
theorem blockComment_le (depth : Nat) (s : List Char) :
    (blockComment depth s).length ≤ s.length := by
  fun_induction blockComment depth s <;> simp_all <;> omega

/-- **A closed comment ends in its closing mark.** -/
theorem blockComment_closed {depth : Nat} {s : List Char}
    (h : (blockComment depth s).closed = true) :
    ∃ t, s.take (blockComment depth s).length = t ++ ['*', '/'] := by
  fun_induction blockComment depth s with
  | case1 depth s ih =>
    obtain ⟨t, ht⟩ := ih h
    exact ⟨'/' :: '*' :: t, by simp [ht, Nat.add_comm 2]⟩
  | case2 s => exact ⟨[], by simp⟩
  | case3 depth s ih =>
    obtain ⟨t, ht⟩ := ih h
    exact ⟨'*' :: '/' :: t, by simp [ht, Nat.add_comm 2]⟩
  | case4 depth c s _ _ _ ih =>
    obtain ⟨t, ht⟩ := ih h
    exact ⟨c :: t, by simp [ht, Nat.add_comm 1]⟩
  | case5 => simp at h

end Memberwise.Token
