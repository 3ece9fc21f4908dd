import Memberwise.Token.Comment

/-!
# Token/Quoted — how far a string literal reaches

A string literal opens with any number of `#` and one quote, or three quotes for a literal over
several lines, and closes with as many quotes and `#` again.  Inside, a backslash followed by at
least as many `#` begins an escape: before a `(` an interpolation, which may hold brackets and
further literals, before any other character that character alone.  A literal or interpolation that
may not cross lines stops before a line end, unclosed; what holds an unclosed part is unclosed
itself.

The scanner keeps the constructs that are open as a stack of `Frame`s, the innermost first, and runs
until the stack is empty.  An opening bracket inside an interpolation is one more frame, so a stack
says all there is to say about nesting.

**The scanner takes no more than there is** (`scan_le`), and it always goes forward: `closing_pos`
says that a closing delimiter is never empty.
-/

namespace Memberwise.Token

/-- A construct that is open inside a string literal. -/
inductive Frame where
  /-- A literal opened with `hashes` times `#`; `lines` if it may cross lines. -/
  | quote (hashes : Nat) (lines : Bool)
  /-- A bracket of an interpolation; `lines` if the literal around it may cross lines. -/
  | bracket (lines : Bool)
  deriving DecidableEq, Repr

/-- Whether the construct may cross lines. -/
def Frame.lines : Frame → Bool
  | quote _ lines => lines
  | bracket lines => lines

/-- What closes a string literal. -/
def closing (hashes : Nat) (lines : Bool) : List Char :=
  List.replicate (if lines then 3 else 1) '"' ++ List.replicate hashes '#'

/-- How many characters open a literal with `hashes` times `#`. -/
def openingLength (hashes : Nat) (lines : Bool) : Nat := hashes + if lines then 3 else 1

/-- The number of characters of a class at the front of a text. -/
def run (p : Char → Bool) (s : List Char) : Nat := (s.takeWhile p).length

/-- The literal that the front of a text opens, if it opens one. -/
def opening? (s : List Char) : Option (Nat × Bool) :=
  let hashes := run (· == '#') s
  match s.drop hashes with
  | '"' :: t => some (hashes, ['"', '"'].isPrefixOf t)
  | _ => none

theorem run_le (p : Char → Bool) (s : List Char) : run p s ≤ s.length :=
  (List.takeWhile_sublist p).length_le

theorem closing_pos (hashes : Nat) (lines : Bool) : 0 < (closing hashes lines).length := by
  cases lines <;> simp [closing]

theorem openingLength_pos (hashes : Nat) (lines : Bool) : 0 < openingLength hashes lines := by
  cases lines <;> simp [openingLength]

/-- A run ends before a character outside its class. -/
theorem drop_run (p : Char → Bool) (s : List Char) : s.drop (run p s) = s.dropWhile p := by
  have h : s.drop (run p s) = (s.takeWhile p ++ s.dropWhile p).drop (run p s) := by
    rw [List.takeWhile_append_dropWhile]
  rw [h, run, List.drop_left]

/-- What opens a literal is there in full. -/
theorem openingLength_le {s : List Char} {hashes : Nat} {lines : Bool}
    (h : opening? s = some (hashes, lines)) : openingLength hashes lines ≤ s.length := by
  simp only [opening?] at h
  split at h
  case h_2 => cases h
  rename_i t ht
  simp only [Option.some.injEq, Prod.mk.injEq] at h
  obtain ⟨rfl, rfl⟩ := h
  have hl := congrArg List.length ht
  simp only [List.length_drop, List.length_cons] at hl
  simp only [openingLength]
  split
  · have := (List.isPrefixOf_iff_prefix.1 ‹_›).length_le
    simp only [List.length_cons, List.length_nil] at this
    omega
  · omega

/-! ## The scanner -/

/-- How far the open constructs reach: through the end of the outermost one, or to where one of them
has to stop. -/
def scan : List Frame → List Char → Extent
  | [], _ => ⟨0, true⟩
  | _ :: _, [] => ⟨0, false⟩
  | .quote hashes lines :: outer, c :: s =>
    if (closing hashes lines).isPrefixOf (c :: s) then
      (scan outer ((c :: s).drop (closing hashes lines).length)).after
        (closing hashes lines).length
    else if c = '\n' ∧ lines = false then ⟨0, false⟩
    else if c = '\\' ∧ hashes ≤ run (· == '#') s then
      if (s.drop hashes).head? = some '(' then
        (scan (.bracket lines :: .quote hashes lines :: outer) (s.drop (hashes + 1))).after
          (1 + (s.take (hashes + 1)).length)
      else
        (scan (.quote hashes lines :: outer) (s.drop (hashes + 1))).after
          (1 + (s.take (hashes + 1)).length)
    else (scan (.quote hashes lines :: outer) s).after 1
  | .bracket lines :: outer, c :: s =>
    if c = '(' then (scan (.bracket lines :: .bracket lines :: outer) s).after 1
    else if c = ')' then (scan outer s).after 1
    else if c = '\n' ∧ lines = false then ⟨0, false⟩
    else
      match opening? (c :: s) with
      | some (hashes, lines') =>
        (scan (.quote hashes lines' :: .bracket lines :: outer)
          ((c :: s).drop (openingLength hashes lines'))).after (openingLength hashes lines')
      | none => (scan (.bracket lines :: outer) s).after 1
termination_by _ s => s.length
decreasing_by
  all_goals
    have := closing_pos
    have := openingLength_pos
    simp only [List.length_drop, List.length_cons]
    grind

/-- The extent of the string literal at the front of a text, if there is one. -/
def literal? (s : List Char) : Option Extent :=
  (opening? s).map fun (hashes, lines) =>
    (scan [.quote hashes lines] (s.drop (openingLength hashes lines))).after
      (openingLength hashes lines)

/-! ## The scanner stays inside the text -/

/-- **The scanner takes no more than there is.** -/
theorem scan_le (stack : List Frame) (s : List Char) : (scan stack s).length ≤ s.length := by
  fun_induction scan stack s with
  | case1 => simp
  | case2 => simp
  | case3 hashes lines outer c s h ih =>
    have := (List.isPrefixOf_iff_prefix.1 h).length_le
    simp only [Extent.length_after, List.length_drop] at ih ⊢
    omega
  | case9 =>
    simp_all only [Extent.length_after, List.length_cons]
    omega
  | case11 lines outer c s _ _ _ hashes lines' h ih =>
    have := openingLength_le h
    simp only [Extent.length_after, List.length_drop] at ih ⊢
    omega
  | _ =>
    simp_all only [Extent.length_after, List.length_drop, List.length_cons, List.length_take]
    omega

theorem literal?_le {s : List Char} {e : Extent} (h : literal? s = some e) :
    e.length ≤ s.length := by
  obtain ⟨⟨hashes, lines⟩, ho, rfl⟩ := Option.map_eq_some_iff.1 h
  have h₁ := openingLength_le ho
  have h₂ := scan_le [.quote hashes lines] (s.drop (openingLength hashes lines))
  simp only [Extent.length_after, List.length_drop] at h₂ ⊢
  omega

/-- A literal is never empty. -/
theorem literal?_pos {s : List Char} {e : Extent} (h : literal? s = some e) : 0 < e.length := by
  obtain ⟨⟨hashes, lines⟩, _, rfl⟩ := Option.map_eq_some_iff.1 h
  have := openingLength_pos hashes lines
  simp only [Extent.length_after]
  omega

end Memberwise.Token
