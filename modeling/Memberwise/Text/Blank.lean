/-!
# Text/Blank — white space, and text without it at its ends

White space is the Unicode property `White_Space`: the ASCII controls from tab to carriage return,
the space, the next-line control, and the spaces and separators of the other blocks.  The narrower
class `isInlineSpace`, the space and the tab, is what an edit may take from a line.

**Trimming leaves no white space at either end** (`head?_trim`, `getLast?_trim`).
-/

namespace Memberwise.Text

/-- Whether a character is white space. -/
def isWhite (c : Char) : Bool :=
  let n := c.toNat
  (9 ≤ n && n ≤ 13) || n == 0x20 || n == 0x85 || n == 0xa0 || n == 0x1680
    || (0x2000 ≤ n && n ≤ 0x200a) || n == 0x2028 || n == 0x2029 || n == 0x202f || n == 0x205f
    || n == 0x3000

/-- A space or a tab: what may stand before and after a word without ending its line. -/
def isInlineSpace (c : Char) : Bool := c == ' ' || c == '\t'

/-- A text without the characters of a class at its end. -/
def dropWhileEnd (p : Char → Bool) (s : List Char) : List Char :=
  (s.reverse.dropWhile p).reverse

/-- A text without white space at its ends. -/
def trim (s : List Char) : List Char := dropWhileEnd isWhite (s.dropWhile isWhite)

/-! ## What trimming leaves -/

theorem dropWhile_eq_nil_or_head (p : Char → Bool) (s : List Char) :
    s.dropWhile p = [] ∨ ∃ c t, s.dropWhile p = c :: t ∧ p c = false := by
  induction s with
  | nil => exact .inl rfl
  | cons c s ih =>
    cases hc : p c with
    | true => simpa [hc] using ih
    | false => exact .inr ⟨c, s, by simp [hc], hc⟩

/-- What a dropped ending leaves ends outside the class. -/
theorem getLast?_dropWhileEnd (p : Char → Bool) (s : List Char) (c : Char)
    (h : (dropWhileEnd p s).getLast? = some c) : p c = false := by
  rw [dropWhileEnd, List.getLast?_reverse] at h
  rcases dropWhile_eq_nil_or_head p s.reverse with h' | ⟨d, t, h', hd⟩
  · simp [h'] at h
  · simp only [h', List.head?_cons, Option.some.injEq] at h
    exact h ▸ hd

/-- A dropped ending leaves a first part. -/
theorem eq_dropWhileEnd_append (p : Char → Bool) (s : List Char) :
    ∃ t, s = dropWhileEnd p s ++ t := by
  refine ⟨(s.reverse.takeWhile p).reverse, ?_⟩
  rw [dropWhileEnd, ← List.reverse_append, List.takeWhile_append_dropWhile, List.reverse_reverse]

/-- **Trimming leaves no white space at the front.** -/
theorem head?_trim (s : List Char) (c : Char) (h : (trim s).head? = some c) :
    isWhite c = false := by
  obtain ⟨t, ht⟩ := eq_dropWhileEnd_append isWhite (s.dropWhile isWhite)
  rcases dropWhile_eq_nil_or_head isWhite s with h' | ⟨d, u, h', hd⟩
  · simp [trim, h', dropWhileEnd] at h
  · have hs : (s.dropWhile isWhite).head? = some c := by
      rw [ht, List.head?_append, show dropWhileEnd isWhite (s.dropWhile isWhite) = trim s from rfl,
        h]
      rfl
    simp only [h', List.head?_cons, Option.some.injEq] at hs
    exact hs ▸ hd

/-- **Trimming leaves no white space at the end.** -/
theorem getLast?_trim (s : List Char) (c : Char) (h : (trim s).getLast? = some c) :
    isWhite c = false :=
  getLast?_dropWhileEnd isWhite _ c h

end Memberwise.Text
