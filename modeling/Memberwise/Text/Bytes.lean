/-!
# Text/Bytes — offsets that count UTF-8 bytes

A text is a `List Char`; the places in it are named by how many bytes UTF-8 needs for what stands
before them.  Not every number names a place: `drop?` and `take?` answer `none` inside a character
and past the end, and `slice?` is the text between two places.

**A boundary cuts the text in two**: `drop?_byteLength_append` says that dropping the bytes of a
first part leaves the second, `take?_byteLength_append` that taking them returns it, and
`slice?_append` that the middle one of three parts is the slice between its ends.
-/

namespace Memberwise.Text

/-- How many bytes UTF-8 uses for a text. -/
def byteLength : List Char → Nat
  | [] => 0
  | c :: s => c.utf8Size + byteLength s

/-- The text after its first `n` bytes, if `n` names a place in it. -/
def drop? : Nat → List Char → Option (List Char)
  | 0, s => some s
  | _ + 1, [] => none
  | n + 1, c :: s => if c.utf8Size ≤ n + 1 then drop? (n + 1 - c.utf8Size) s else none

/-- The first `n` bytes of a text, if `n` names a place in it. -/
def take? : Nat → List Char → Option (List Char)
  | 0, _ => some []
  | _ + 1, [] => none
  | n + 1, c :: s =>
    if c.utf8Size ≤ n + 1 then (take? (n + 1 - c.utf8Size) s).map (c :: ·) else none

/-- The text from byte `start` to byte `stop`, if both name places and stand in that order. -/
def slice? (start stop : Nat) (s : List Char) : Option (List Char) :=
  if start ≤ stop then (drop? start s).bind (take? (stop - start)) else none

/-! ## The length of a text -/

@[simp] theorem byteLength_nil : byteLength [] = 0 := rfl

@[simp] theorem byteLength_cons (c : Char) (s : List Char) :
    byteLength (c :: s) = c.utf8Size + byteLength s := rfl

@[simp] theorem byteLength_append (s t : List Char) :
    byteLength (s ++ t) = byteLength s + byteLength t := by
  induction s with
  | nil => simp
  | cons c s ih => simp [ih, Nat.add_assoc]

/-- A text of no bytes is empty, since no character is. -/
theorem byteLength_eq_zero {s : List Char} : byteLength s = 0 ↔ s = [] := by
  cases s with
  | nil => simp
  | cons c s => have := c.utf8Size_pos; simp; omega

/-! ## Cutting at a boundary -/

@[simp] theorem drop?_zero (s : List Char) : drop? 0 s = some s := by unfold drop?; rfl

@[simp] theorem take?_zero (s : List Char) : take? 0 s = some [] := by unfold take?; rfl

theorem drop?_cons_add (c : Char) (s : List Char) (n : Nat) :
    drop? (c.utf8Size + n) (c :: s) = drop? n s := by
  obtain ⟨m, hm⟩ : ∃ m, c.utf8Size + n = m + 1 :=
    ⟨c.utf8Size + n - 1, by have := c.utf8Size_pos; omega⟩
  rw [hm, drop?, ← hm, if_pos (Nat.le_add_right _ _), Nat.add_sub_cancel_left]

theorem take?_cons_add (c : Char) (s : List Char) (n : Nat) :
    take? (c.utf8Size + n) (c :: s) = (take? n s).map (c :: ·) := by
  obtain ⟨m, hm⟩ : ∃ m, c.utf8Size + n = m + 1 :=
    ⟨c.utf8Size + n - 1, by have := c.utf8Size_pos; omega⟩
  rw [hm, take?, ← hm, if_pos (Nat.le_add_right _ _), Nat.add_sub_cancel_left]

/-- **Dropping the bytes of a first part leaves the second.** -/
@[simp] theorem drop?_byteLength_append (s t : List Char) :
    drop? (byteLength s) (s ++ t) = some t := by
  induction s with
  | nil => simp
  | cons c s ih => simpa [drop?_cons_add] using ih

/-- **Taking the bytes of a first part returns it.** -/
@[simp] theorem take?_byteLength_append (s t : List Char) :
    take? (byteLength s) (s ++ t) = some s := by
  induction s with
  | nil => simp
  | cons c s ih => simp [take?_cons_add, ih]

/-- **The middle one of three parts is the slice between its ends.** -/
theorem slice?_append (s t u : List Char) :
    slice? (byteLength s) (byteLength s + byteLength t) (s ++ t ++ u) = some t := by
  rw [slice?, if_pos (Nat.le_add_right _ _), List.append_assoc, drop?_byteLength_append,
    Nat.add_sub_cancel_left]
  exact take?_byteLength_append t u

end Memberwise.Text
