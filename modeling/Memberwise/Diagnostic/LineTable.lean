import Memberwise.Text.Bytes

/-!
# Diagnostic/LineTable — lines and columns

A line begins at the front of a text and after each newline.  The line of an offset is the last one
that begins at or before it, found by halving the table of beginnings; the column counts the
characters between the beginning of the line and the offset.  Both count from one.  An offset past
the end stands at the end; one inside a character stands in the first column.

Offsets, lines and columns are numbers of 32 bits, which is enough for the offsets of any text below
4 GiB.  Lines and columns are counted with the arithmetic of such numbers (`ordinal`).

**A search finds what is there, and else where it would have to be** (`isRight_search`): halving keeps
the last number that is not above what is looked for (`isLast_narrow`).
-/

namespace Memberwise

open Text

/-- A number of 32 bits is read as a natural number. -/
instance coeNumber : Coe UInt32 Nat := ⟨UInt32.toNat⟩

/-- Where a line and a column meet, both counted from one. -/
structure LinePosition where
  line : UInt32
  column : UInt32
  deriving DecidableEq, Repr, Inhabited

/-- The offsets at which the lines of a text begin. -/
structure LineTable where
  starts : Array Nat
  deriving DecidableEq, Repr

/-- The offsets after each newline of a text that begins at an offset itself. -/
def offsetsAfterNewlines (offset : Nat) : List Char → List Nat
  | [] => []
  | c :: s =>
    if c = '\n' then (offset + 1) :: offsetsAfterNewlines (offset + 1) s
    else offsetsAfterNewlines (offset + c.utf8Size) s

/-- The offsets at which the lines of a text begin. -/
def lineStarts (s : List Char) : List Nat := 0 :: offsetsAfterNewlines 0 s

namespace LineTable

/-! ## Looking an offset up -/

/-- What a search comes to: the index of what is looked for, or else the index at which it would have
to be put in. -/
inductive Landing where
  | hit (index : Nat)
  | miss (index : Nat)
  deriving DecidableEq, Repr

/-- Halve `size` numbers from index `base` on, until the one number left is the last that is not
above `n`, or the first of all. -/
def narrow (ns : Array Nat) (n base size : Nat) (hpos : 0 < size) (hle : base + size ≤ ns.size) :
    Fin ns.size :=
  if h : 1 < size then
    if n < ns[base + size / 2] then narrow ns n base (size - size / 2) (by omega) (by omega)
    else narrow ns n (base + size / 2) (size - size / 2) (by omega) (by omega)
  else ⟨base, by omega⟩

/-- What a search for `n` comes to when one number is left. -/
def land (ns : Array Nat) (n : Nat) (i : Fin ns.size) : Landing :=
  if ns[i] = n then .hit i else if ns[i] < n then .miss (i + 1) else .miss i

/-- Look a number up in numbers that ascend. -/
def search (ns : Array Nat) (n : Nat) : Landing :=
  if h : 0 < ns.size then land ns n (narrow ns n 0 ns.size h (by omega)) else .miss 0

/-! ### What a search comes to -/

section Search

variable {ns : Array Nat} {n : Nat}

/-- Whether each number is larger than those before it. -/
def Ascends (ns : Array Nat) : Prop := ∀ i j : Fin ns.size, i < j → ns[i] < ns[j]

/-- Whether what a search comes to is right: the number is there, or all numbers before the index are
smaller and all others larger. -/
def Landing.IsRight (ns : Array Nat) (n : Nat) : Landing → Prop
  | hit i => ns[i]? = some n
  | miss i => i ≤ ns.size ∧ ∀ j : Fin ns.size, if j < i then ns[j] < n else n < ns[j]

/-- Whether a number is the last that is not above `n`, or the first of all with all others above
`n`. -/
def IsLast (ns : Array Nat) (n : Nat) (i : Fin ns.size) : Prop :=
  ((i : Nat) = 0 ∨ ns[i] ≤ n) ∧ ∀ j : Fin ns.size, i < j → n < ns[j]

/-- **Halving keeps the last number that is not above `n`** among those it goes on with. -/
theorem isLast_narrow (hns : Ascends ns) {base size : Nat} (hpos : 0 < size)
    (hle : base + size ≤ ns.size) (hbase : base = 0 ∨ ns[base] ≤ n)
    (hlater : ∀ j : Fin ns.size, base + size ≤ j → n < ns[j]) :
    IsLast ns n (narrow ns n base size hpos hle) := by
  fun_induction narrow ns n base size hpos hle with
  | case1 base size hpos hle hsize hlt ih =>
    -- The middle is above `n`, and so is all behind it.
    refine ih hbase fun j hj => ?_
    rcases Nat.lt_or_ge (base + size / 2) j with hj' | hj'
    · exact Nat.lt_trans hlt (hns ⟨base + size / 2, by omega⟩ j hj')
    · have hmid : (j : Nat) = base + size / 2 := by omega
      simpa [hmid] using hlt
  | case2 base size hpos hle hsize hlt ih =>
    exact ih (.inr (Nat.le_of_not_lt hlt)) fun j hj => hlater j (by omega)
  | case3 base size hpos hle hsize =>
    refine ⟨hbase, fun j hj => hlater j ?_⟩
    have : base < (j : Nat) := hj
    omega

theorem isRight_land {i : Fin ns.size} (hns : Ascends ns) (h : IsLast ns n i) :
    (land ns n i).IsRight ns n := by
  obtain ⟨hfirst, hlater⟩ := h
  unfold land
  split
  case isTrue heq => simp [Landing.IsRight, ← heq]
  case isFalse hne =>
  split
  case isTrue hlt =>
    refine ⟨i.isLt, fun j => ?_⟩
    split
    case isTrue hj =>
      rcases Nat.lt_or_eq_of_le (Nat.le_of_lt_succ hj) with hj | hj
      · exact Nat.lt_trans (hns j i hj) hlt
      · exact Fin.ext hj ▸ hlt
    case isFalse hj => exact hlater j (Fin.lt_def.mpr (by omega))
  case isFalse hlt =>
    have hzero : (i : Nat) = 0 := hfirst.resolve_right (by omega)
    refine ⟨Nat.le_of_lt i.isLt, fun j => ?_⟩
    rw [if_neg (by omega)]
    rcases Nat.lt_or_eq_of_le (hzero ▸ Nat.zero_le (j : Nat)) with hj | hj
    · exact hlater j hj
    · exact Fin.ext hj ▸ Nat.lt_of_le_of_ne (Nat.le_of_not_lt hlt) (Ne.symm hne)

/-- **A search finds what is there, and else where it would have to be.** -/
theorem isRight_search (hns : Ascends ns) (n : Nat) : (search ns n).IsRight ns n := by
  unfold search
  split
  case isTrue h =>
    exact isRight_land hns (isLast_narrow hns h _ (.inl rfl) fun j hj => absurd j.isLt (by omega))
  case isFalse h => exact ⟨Nat.zero_le _, fun j => absurd j.pos h⟩

end Search

/-! ## The lines of a text -/

/-- The index of the line that a search comes to: the one that begins there, or the one before. -/
def Landing.index : Landing → Nat
  | hit i => i
  | miss i => i - 1

/-- What has an index, counted from one.  An index too large for 32 bits is taken for the last but one
that they hold; behind the last number comes zero. -/
def ordinal (i : Nat) : UInt32 :=
  (if i < UInt32.size then .ofNat i else .ofNat (UInt32.size - 2)) + 1

/-- The lines of a text.  An offset too large for 32 bits is taken for the last that they hold. -/
def ofText (s : List Char) : LineTable :=
  ⟨((lineStarts s).map (min (UInt32.size - 1))).toArray⟩

/-- The number of lines. -/
def count (t : LineTable) : Nat := t.starts.size

/-- The line of an offset. -/
def line (t : LineTable) (offset : Nat) : UInt32 := ordinal (search t.starts offset).index

/-- The line and column of an offset in the text that the table is made from. -/
def position (t : LineTable) (source : List Char) (offset : Nat) : LinePosition :=
  let line := t.line offset
  let start := t.starts.getD (line - 1).toNat 0
  let before := slice? start (min offset (byteLength source)) source
  ⟨line, ordinal ((before.map List.length).getD 0)⟩

end LineTable

/-- The line and column of an offset in a text. -/
def linePosition (source : List Char) (offset : Nat) : LinePosition :=
  (LineTable.ofText source).position source offset

namespace LineTable

/-- A text has one line more than it has newlines. -/
theorem count_ofText (s : List Char) : (ofText s).count = s.count '\n' + 1 := by
  suffices h : ∀ offset, (offsetsAfterNewlines offset s).length = s.count '\n' by
    simp [count, ofText, lineStarts, h]
  induction s with
  | nil => intro _; rfl
  | cons c s ih =>
    intro offset
    unfold offsetsAfterNewlines
    split
    · rename_i h
      subst h
      simp [ih]
    · rename_i h
      rw [ih, List.count_cons_of_ne h]

end LineTable

end Memberwise
