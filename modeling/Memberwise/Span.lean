import Memberwise.Text.Bytes

/-!
# Span — a range of byte offsets in one text

A span names the bytes from `start` up to, not including, `stop`.  Offsets are meant for texts below
four gigabytes, so `ofRange` refuses a range that needs more than 32 bits.  A span need not lie
inside any text: `slice?` answers `none` for one that does not, and for one that cuts a character.
-/

namespace Memberwise

open Text

/-- A range of byte offsets, the second one exclusive. -/
structure Span where
  start : Nat
  stop : Nat
  deriving DecidableEq, Repr, Inhabited

namespace Span

/-- The largest offset a span may hold when it is made from a range. -/
def maxOffset : Nat := 0xffffffff

/-- Why a range makes no span: one of its ends is past `maxOffset`. -/
inductive RangeError where
  | startTooLarge (offset : Nat)
  | stopTooLarge (offset : Nat)
  deriving DecidableEq, Repr

/-- The wording of a refused range. -/
def RangeError.message : RangeError → String
  | .startTooLarge n => s!"span start {n} exceeds u32::MAX"
  | .stopTooLarge n => s!"span end {n} exceeds u32::MAX"

/-- The span of a range, refused when an end is too large; the start is looked at first. -/
def ofRange (start stop : Nat) : Except RangeError Span :=
  if maxOffset < start then .error (.startTooLarge start)
  else if maxOffset < stop then .error (.stopTooLarge stop)
  else .ok ⟨start, stop⟩

/-- The empty span at the front of a text, for what stands nowhere. -/
def none : Span := ⟨0, 0⟩

/-- The empty span at an offset. -/
def point (offset : Nat) : Span := ⟨offset, offset⟩

/-- The number of bytes in a span. -/
def length (s : Span) : Nat := s.stop - s.start

/-- Whether a span holds no byte. -/
def isEmpty (s : Span) : Bool := s.start == s.stop

/-- The smallest span over both. -/
def merge (s t : Span) : Span := ⟨min s.start t.start, max s.stop t.stop⟩

/-- Whether the second span starts where the first stops. -/
def touches (s t : Span) : Bool := s.stop == t.start

/-- The text a span covers, if it lies in the source and cuts no character. -/
def slice? (s : Span) (source : List Char) : Option (List Char) :=
  Text.slice? s.start s.stop source

/-- The span as two offsets with two dots between them. -/
def render (s : Span) : String := s!"{s.start}..{s.stop}"

/-! ## Merging -/

@[simp] theorem merge_start (s t : Span) : (s.merge t).start = min s.start t.start := rfl

@[simp] theorem merge_stop (s t : Span) : (s.merge t).stop = max s.stop t.stop := rfl

theorem merge_comm (s t : Span) : s.merge t = t.merge s := by
  simp [merge, Nat.min_comm, Nat.max_comm]

theorem merge_assoc (s t u : Span) : (s.merge t).merge u = s.merge (t.merge u) := by
  simp [merge, Nat.min_assoc, Nat.max_assoc]

@[simp] theorem merge_self (s : Span) : s.merge s = s := by simp [merge]

/-- Two spans in order merge into the span from the first start to the last stop. -/
theorem merge_of_le {s t : Span} (h₁ : s.start ≤ t.start) (h₂ : s.stop ≤ t.stop) :
    s.merge t = ⟨s.start, t.stop⟩ := by
  simp [merge, Nat.min_eq_left h₁, Nat.max_eq_right h₂]

end Span

end Memberwise
