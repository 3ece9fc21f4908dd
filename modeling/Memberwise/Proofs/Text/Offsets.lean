import Memberwise.Text.Blank
import Memberwise.Text.Bytes

/-!
# Proofs/Text/Offsets — a text cut at offsets

Two ways to cut one text compare by the bytes before the cut (`exists_append_of_le`).  `located`
names every character of a text by the offset it stands at, and **what is located in a text is
located in its parts** (`located_append`).
-/

namespace Memberwise.Text

/-! ## Two cuts of one text -/

/-- Whether an offset is between two characters of a text, or at one of its ends. -/
def IsBoundary (source : List Char) (o : Nat) : Prop :=
  ∃ before after, source = before ++ after ∧ o = byteLength before

/-- A character has a byte at least. -/
theorem length_le_byteLength (s : List Char) : s.length ≤ byteLength s := by
  induction s with
  | nil => exact Nat.le_refl _
  | cons c s ih =>
    have := c.utf8Size_pos
    rw [List.length_cons, byteLength_cons]
    omega

/-- Of two cuts of one text, the later one has the earlier one's first part in its own. -/
theorem exists_append_of_le {a b a' b' : List Char} (h : a ++ b = a' ++ b')
    (hle : byteLength a ≤ byteLength a') : ∃ m, a' = a ++ m ∧ b = m ++ b' := by
  rcases List.append_eq_append_iff.mp h with ⟨m, ha, hb⟩ | ⟨m, ha, hb⟩
  · exact ⟨m, ha, hb⟩
  · have hm : m = [] := by
      rw [← byteLength_eq_zero]
      rw [ha, byteLength_append] at hle
      omega
    subst hm
    exact ⟨[], by simpa using ha.symm, by simpa using hb.symm⟩

/-- A run of some class, and what stands outside of it, cut a text after the run. -/
theorem exists_append_of_not_mem {p : Char → Bool} {r b x s : List Char} {c : Char}
    (h : r ++ b = x ++ c :: s) (hr : ∀ d ∈ r, p d = true) (hc : p c = false) :
    ∃ y, x = r ++ y ∧ b = y ++ c :: s := by
  rcases List.append_eq_append_iff.mp h with ⟨m, hx, hb⟩ | ⟨m, hx, hb⟩
  · exact ⟨m, hx, hb⟩
  · cases m with
    | nil => exact ⟨[], by simpa using hx.symm, by simpa using hb.symm⟩
    | cons d m =>
      obtain ⟨rfl, -⟩ := List.cons.inj hb
      have := hr c (by simp [hx])
      rw [hc] at this
      cases this

/-! ## The characters of a text by their offsets -/

/-- The characters of a text with their offsets, the first one standing at `n`. -/
def located (n : Nat) : List Char → List (Nat × Char)
  | [] => []
  | c :: s => (n, c) :: located (n + c.utf8Size) s

@[simp] theorem located_nil (n : Nat) : located n [] = [] := rfl

/-- **What is located in a text is located in its parts.** -/
theorem located_append (n : Nat) (s t : List Char) :
    located n (s ++ t) = located n s ++ located (n + byteLength s) t := by
  induction s generalizing n with
  | nil => rfl
  | cons c s ih =>
    rw [List.cons_append, located, located, ih, byteLength_cons, List.cons_append, Nat.add_assoc]

/-- A character of a text stands between the two ends of the text. -/
theorem le_of_mem_located {n o : Nat} {c : Char} {s : List Char} (h : (o, c) ∈ located n s) :
    n ≤ o ∧ o + c.utf8Size ≤ n + byteLength s := by
  induction s generalizing n with
  | nil => cases h
  | cons d s ih =>
    rw [byteLength_cons]
    rcases List.mem_cons.mp h with h | h
    · obtain ⟨rfl, rfl⟩ := Prod.mk.inj h
      omega
    · have := ih h
      omega

theorem lt_of_mem_located {n o : Nat} {c : Char} {s : List Char} (h : (o, c) ∈ located n s) :
    o < n + byteLength s := by
  have := le_of_mem_located h
  have := c.utf8Size_pos
  omega

/-- A character located in a text cuts it in two. -/
theorem exists_append_of_mem_located {n o : Nat} {c : Char} {s : List Char}
    (h : (o, c) ∈ located n s) : ∃ a b, s = a ++ c :: b ∧ o = n + byteLength a := by
  induction s generalizing n with
  | nil => cases h
  | cons d s ih =>
    rcases List.mem_cons.mp h with h | h
    · obtain ⟨rfl, rfl⟩ := Prod.mk.inj h
      exact ⟨[], s, rfl, rfl⟩
    · obtain ⟨a, b, rfl, ho⟩ := ih h
      exact ⟨d :: a, b, rfl, by rw [ho, byteLength_cons, Nat.add_assoc]⟩

/-! ## Slices of a text with another beside it -/

/-- A slice of the second part of a text. -/
theorem slice?_append_right (s t : List Char) (m n : Nat) :
    slice? (m + byteLength s) (n + byteLength s) (s ++ t) = slice? m n t := by
  have hdrop : drop? (m + byteLength s) (s ++ t) = drop? m t := by
    induction s with
    | nil => rfl
    | cons c s ih =>
      rw [byteLength_cons, Nat.add_left_comm, List.cons_append, drop?_cons_add, ih]
  rw [slice?, slice?, hdrop, Nat.add_sub_add_right]
  simp only [Nat.add_le_add_iff_right]

theorem take?_append_of_le {n : Nat} {s : List Char} (h : n ≤ byteLength s) (t : List Char) :
    take? n (s ++ t) = take? n s := by
  induction s generalizing n with
  | nil =>
    obtain rfl := Nat.le_zero.mp h
    rw [take?_zero, take?_zero]
  | cons c s ih =>
    cases n with
    | zero => rw [take?_zero, take?_zero]
    | succ n =>
      rw [byteLength_cons] at h
      rw [List.cons_append, take?, take?]
      split
      · rw [ih (by omega)]
      · rfl

/-- A slice of the first part of a text. -/
theorem slice?_append_left {m n : Nat} {s : List Char} (h : n ≤ byteLength s) (t : List Char) :
    slice? m n (s ++ t) = slice? m n s := by
  rw [slice?, slice?]
  split
  case isFalse => rfl
  case isTrue hmn =>
  induction s generalizing m n with
  | nil =>
    obtain rfl := Nat.le_zero.mp h
    obtain rfl := Nat.le_zero.mp hmn
    rw [drop?_zero, drop?_zero, Option.bind_some, Option.bind_some, take?_zero, take?_zero]
  | cons c s ih =>
    cases m with
    | zero =>
      rw [drop?_zero, drop?_zero, Option.bind_some, Option.bind_some]
      exact take?_append_of_le h t
    | succ m =>
      rw [byteLength_cons] at h
      rw [List.cons_append, drop?, drop?]
      split
      · have := ih (m := m + 1 - c.utf8Size) (n := n - c.utf8Size) (by omega) (by omega)
        rwa [show n - c.utf8Size - (m + 1 - c.utf8Size) = n - (m + 1) by omega] at this
      · rfl

/-! ## Without a class at its end -/

theorem dropWhileEnd_concat_of_pos {p : Char → Bool} {c : Char} (s : List Char)
    (h : p c = true) : dropWhileEnd p (s ++ [c]) = dropWhileEnd p s := by
  simp [dropWhileEnd, h]

theorem dropWhileEnd_concat_of_neg {p : Char → Bool} {c : Char} (s : List Char)
    (h : p c = false) : dropWhileEnd p (s ++ [c]) = s ++ [c] := by
  simp [dropWhileEnd, h]

/-- A text that ends outside the class keeps all of it. -/
theorem dropWhileEnd_of_getLast? {p : Char → Bool} {c : Char} {s : List Char}
    (hl : s.getLast? = some c) (h : p c = false) : dropWhileEnd p s = s := by
  obtain ⟨t, rfl⟩ := List.getLast?_eq_some_iff.mp hl
  exact dropWhileEnd_concat_of_neg t h

end Memberwise.Text
