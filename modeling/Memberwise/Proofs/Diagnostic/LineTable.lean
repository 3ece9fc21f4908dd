import Memberwise.Diagnostic.LineTable
import Memberwise.Proofs.Text.Offsets
import Memberwise.Proofs.Token.Octets
import Mathlib.Data.List.DropRight

/-!
# Proofs/Diagnostic/LineTable — an offset and its line and column are one

The table of a text has an entry for its front and one behind each newline.  A boundary cuts the text
in two, and so it cuts the table: the entries up to the boundary come from the text before it, the
others are beyond it.  A search answers where the table is cut (`Landing.IsRight.index_eq`), and the
last entry before the cut is where the last line of the text before begins (`getElem?_lineStarts`).

Lines and columns are counted in 32 bits.  In a text below 4 GiB these are enough, but at the very
last offset of two kinds of text (`IsUnnumbered`).

* `search_append` — **a search in two rows**, of which only the second is beyond what is looked for,
  answers where they meet;
* `position_of_boundary` — **the line and the column of a boundary**, by the text before it;
* `position_lt` — a later boundary has a later position, and so
* `position_exact` — **boundaries and their positions correspond one to one**, in order, as far as 32
  bits have numbers for them.
-/

namespace Memberwise

open Text Token.Octets

/-- Of two positions the one on the earlier line comes first, or the one further left. -/
instance : LT LinePosition :=
  ⟨fun p q => p.line < q.line ∨ p.line = q.line ∧ p.column < q.column⟩

theorem LinePosition.lt_iff {p q : LinePosition} : p < q ↔ (p.line : Nat) < q.line
    ∨ (p.line : Nat) = q.line ∧ (p.column : Nat) < q.column := by
  rw [← UInt32.lt_iff_toNat_lt, ← UInt32.lt_iff_toNat_lt, UInt32.toNat_inj]
  rfl

theorem LinePosition.lt_irrefl (p : LinePosition) : ¬ p < p := by
  rw [lt_iff]
  omega

namespace LineTable

/-! ## A search in two rows -/

section Search

variable {ns : Array Nat} {n : Nat}

/-- **A search answers where the numbers are cut** into those up to `n` and those beyond it. -/
theorem Landing.IsRight.index_eq {l : Landing} (h : l.IsRight ns n) (hns : Ascends ns) {k : Nat}
    (hpos : 0 < k) (hk : k ≤ ns.size) (hcut : ∀ j : Fin ns.size, ns[j] ≤ n ↔ j < k) :
    l.index + 1 = k := by
  cases l with
  | hit i =>
    obtain ⟨hi, heq⟩ := Array.getElem?_eq_some_iff.mp h
    have hik : i < k := (hcut ⟨i, hi⟩).mp (Nat.le_of_eq heq)
    -- A number behind `n` is beyond it.
    have hki : ¬ i + 1 < k := fun hlt => by
      have hle : ns[i + 1] ≤ n := (hcut ⟨i + 1, by omega⟩).mpr hlt
      have hgt : ns[i] < ns[i + 1] := hns ⟨i, hi⟩ ⟨i + 1, by omega⟩ (Nat.lt_succ_self i)
      omega
    rw [Landing.index]
    omega
  | miss i =>
    obtain ⟨hi, hsides⟩ := h
    have hki : k - 1 < i := by
      by_contra hlt
      have hbeyond := hsides ⟨k - 1, by omega⟩
      rw [if_neg hlt] at hbeyond
      exact Nat.not_le_of_lt hbeyond ((hcut _).mpr (Nat.sub_lt hpos Nat.one_pos))
    have hik : ¬ k < i := fun hlt => by
      have hbelow := hsides ⟨k, by omega⟩
      rw [if_pos hlt] at hbelow
      exact Nat.lt_irrefl k ((hcut _).mp (Nat.le_of_lt hbelow))
    rw [Landing.index]
    omega

/-- **A search in two rows**, of which only the second is beyond `n`, answers where they meet. -/
theorem search_append {as bs : Array Nat} (hns : Ascends (as ++ bs)) (hpos : 0 < as.size)
    (has : ∀ a ∈ as, a ≤ n) (hbs : ∀ b ∈ bs, n < b) :
    (search (as ++ bs) n).index + 1 = as.size := by
  refine (isRight_search hns n).index_eq hns hpos (by simp) fun j => ⟨fun hle => ?_, fun hj => ?_⟩
  · by_contra hj
    have hget : bs[(j : Nat) - as.size]? = some (as ++ bs)[j] := by
      rw [← Array.getElem?_append_right (Nat.le_of_not_lt hj)]
      exact Array.getElem?_eq_getElem j.isLt
    exact Nat.not_le_of_lt (hbs _ (Array.mem_of_getElem? hget)) hle
  · have hget : as[(j : Nat)]? = some (as ++ bs)[j] := by
      rw [← Array.getElem?_append_left hj]
      exact Array.getElem?_eq_getElem j.isLt
    exact has _ (Array.mem_of_getElem? hget)

end Search

/-! ## The table of a text -/

section Table

variable {s source : List Char} {o m n : Nat}

theorem offsetsAfterNewlines_newline (n : Nat) : offsetsAfterNewlines n ['\n'] = [n + 1] := rfl

theorem offsetsAfterNewlines_of_ne {c : Char} (h : c ≠ '\n') (n : Nat) :
    offsetsAfterNewlines n [c] = [] := by
  rw [offsetsAfterNewlines, if_neg h]
  rfl

theorem offsetsAfterNewlines_append (n : Nat) (s t : List Char) :
    offsetsAfterNewlines n (s ++ t)
      = offsetsAfterNewlines n s ++ offsetsAfterNewlines (n + byteLength s) t := by
  induction s generalizing n with
  | nil => rfl
  | cons c s ih =>
    rw [List.cons_append, offsetsAfterNewlines, offsetsAfterNewlines, ih, ih, byteLength_cons]
    split
    case isTrue hc =>
      have hsize : c.utf8Size = 1 := hc ▸ rfl
      rw [hsize, ← Nat.add_assoc, List.cons_append]
    case isFalse => rw [Nat.add_assoc]

/-- A line begins behind the newline before it, and not behind the end of the text. -/
theorem bounds_of_mem (h : m ∈ offsetsAfterNewlines n s) : n < m ∧ m ≤ n + byteLength s := by
  induction s generalizing n with
  | nil => cases h
  | cons c s ih =>
    have := c.utf8Size_pos
    rw [offsetsAfterNewlines] at h
    rw [byteLength_cons]
    split at h
    case isTrue hc =>
      rcases List.mem_cons.mp h with rfl | h
      · omega
      · have := ih h
        omega
    case isFalse =>
      have := ih h
      omega

/-- **Lines begin one behind the other.** -/
theorem pairwise_lineStarts (s : List Char) : (lineStarts s).Pairwise (· < ·) := by
  refine List.pairwise_cons.mpr ⟨fun m hm => (bounds_of_mem hm).1, ?_⟩
  induction s using List.reverseRecOn with
  | nil => exact .nil
  | append_singleton s c ih =>
    rw [offsetsAfterNewlines_append, List.pairwise_append]
    refine ⟨ih, ?_, fun m hm m' hm' => ?_⟩
    · rw [offsetsAfterNewlines]
      split <;> simp [offsetsAfterNewlines]
    · have := bounds_of_mem hm
      have := bounds_of_mem hm'
      omega

theorem ascends_lineStarts (s : List Char) : Ascends (lineStarts s).toArray := fun i j hij =>
  List.pairwise_iff_getElem.mp (pairwise_lineStarts s) i j i.isLt j.isLt hij

/-- **The lines of a text begin where those of its first part do.** -/
theorem lineStarts_append (before after : List Char) : lineStarts (before ++ after)
    = lineStarts before ++ offsetsAfterNewlines (byteLength before) after := by
  rw [lineStarts, offsetsAfterNewlines_append, Nat.zero_add, lineStarts, List.cons_append]

theorem length_lineStarts (s : List Char) : (lineStarts s).length = s.count '\n' + 1 := by
  have hcount := count_ofText s
  rwa [count, ofText, List.size_toArray, List.length_map] at hcount

theorem le_of_mem_lineStarts (h : m ∈ lineStarts s) : m ≤ byteLength s := by
  rcases List.mem_cons.mp h with rfl | h
  · exact Nat.zero_le _
  · have := (bounds_of_mem h).2
    omega

/-- Below 4 GiB the table has every beginning as it is. -/
theorem starts_ofText (h : byteLength s < UInt32.size) :
    (ofText s).starts = (lineStarts s).toArray := by
  have hmin : ∀ m ∈ lineStarts s, min (UInt32.size - 1) m = m := fun m hm => by
    have := le_of_mem_lineStarts hm
    omega
  rw [ofText, List.map_congr_left hmin, List.map_id']

/-- **The last line of a text begins where its last newline ends.** -/
theorem getElem?_lineStarts (s : List Char) : (lineStarts s)[s.count '\n']?
    = some (byteLength (s.rdropWhile (· != '\n'))) := by
  induction s using List.reverseRecOn with
  | nil => rfl
  | append_singleton s c ih =>
    rw [lineStarts_append, List.count_append]
    by_cases hc : c = '\n'
    · subst hc
      rw [offsetsAfterNewlines_newline, List.rdropWhile_concat_neg _ _ _ (by simp),
        byteLength_append, List.count_singleton_self, ← length_lineStarts,
        List.getElem?_append_right (Nat.le_refl _), Nat.sub_self]
      rfl
    · rw [offsetsAfterNewlines_of_ne hc, List.rdropWhile_concat_pos _ _ _ (by simpa using hc),
        ← ih]
      simp [hc]

/-- **The line of an offset**, if no line of the second part of the text begins up to it. -/
theorem line_ofText (before after : List Char) (hsize : byteLength (before ++ after) < UInt32.size)
    (hbefore : byteLength before ≤ o)
    (hafter : ∀ m ∈ offsetsAfterNewlines (byteLength before) after, o < m) :
    (ofText (before ++ after)).line o = ordinal (before.count '\n') := by
  have hns := ascends_lineStarts (before ++ after)
  rw [lineStarts_append, ← List.append_toArray] at hns
  have hindex := search_append hns (by simp [length_lineStarts])
    (fun a ha => Nat.le_trans (le_of_mem_lineStarts (List.mem_toArray.mp ha)) hbefore)
    fun b hb => hafter b (List.mem_toArray.mp hb)
  rw [List.size_toArray, length_lineStarts] at hindex
  rw [line, starts_ofText hsize, lineStarts_append, ← List.append_toArray, Nat.succ.inj hindex]

end Table

/-! ## Counting in 32 bits -/

section Ordinal

variable {i : Nat}

/-- All but the very last index can be counted. -/
theorem toNat_ordinal (h : i + 1 < UInt32.size) : (ordinal i).toNat = i + 1 := by
  rw [ordinal, if_pos (Nat.lt_of_succ_lt h), UInt32.toNat_add,
    UInt32.toNat_ofNat_of_lt' (Nat.lt_of_succ_lt h)]
  exact Nat.mod_eq_of_lt h

/-- Any index is got back from its number, also the one that has number zero. -/
theorem toNat_ordinal_sub_one (h : i < UInt32.size) : (ordinal i - 1).toNat = i := by
  rw [ordinal, if_pos h, UInt32.add_sub_cancel, UInt32.toNat_ofNat_of_lt' h]

end Ordinal

section Table

variable {s source : List Char} {o m : Nat}

/-! ## The positions of boundaries -/

/-- A text has no more newlines than bytes. -/
theorem count_le_byteLength (s : List Char) : s.count '\n' ≤ byteLength s :=
  List.count_le_length.trans (length_le_byteLength s)

/-- The last line of a text has no more characters than the text has bytes. -/
theorem length_rtakeWhile_le (s : List Char) :
    (s.rtakeWhile (· != '\n')).length ≤ byteLength s :=
  (List.rtakeWhile_suffix _ s).length_le.trans (length_le_byteLength s)

/-- **The line and the column of a boundary**: the newlines before it are counted, and the characters
behind the last of these. -/
theorem position_of_boundary (before after : List Char)
    (hsize : byteLength (before ++ after) < UInt32.size) :
    (ofText (before ++ after)).position (before ++ after) (byteLength before)
      = ⟨ordinal (before.count '\n'), ordinal (before.rtakeWhile (· != '\n')).length⟩ := by
  have hline : (ofText (before ++ after)).line (byteLength before)
      = ordinal (before.count '\n') :=
    line_ofText before after hsize (Nat.le_refl _) fun m hm => (bounds_of_mem hm).1
  have hindex : (ordinal (before.count '\n') - 1).toNat = before.count '\n' := by
    have hcount := count_le_byteLength before
    rw [byteLength_append] at hsize
    exact toNat_ordinal_sub_one (by omega)
  have hstart : (ofText (before ++ after)).starts.getD (before.count '\n') 0
      = byteLength (before.rdropWhile (· != '\n')) := by
    have hlt : before.count '\n' < (lineStarts before).length := by simp [length_lineStarts]
    rw [starts_ofText hsize, Array.getD_eq_getD_getElem?, List.getElem?_toArray, lineStarts_append,
      List.getElem?_append_left hlt, getElem?_lineStarts, Option.getD_some]
  have hslice : slice? (byteLength (before.rdropWhile (· != '\n'))) (byteLength before)
      (before ++ after) = some (before.rtakeWhile (· != '\n')) := by
    have h := slice?_append (before.rdropWhile (· != '\n')) (before.rtakeWhile (· != '\n')) after
    rwa [← byteLength_append, List.rdropWhile_append_rtakeWhile] at h
  have hmin : min (byteLength before) (byteLength (before ++ after)) = byteLength before := by
    simp
  rw [position]
  simp only [hline, hindex, hstart, hmin, hslice]
  rfl

/-- An offset past the end has the position of the end. -/
theorem position_of_le (hsize : byteLength source < UInt32.size) (h : byteLength source ≤ o) :
    (ofText source).position source o = (ofText source).position source (byteLength source) := by
  have hline (o : Nat) (h : byteLength source ≤ o) :
      (ofText source).line o = ordinal (source.count '\n') := by
    have := line_ofText source [] (by simpa using hsize) h (by simp [offsetsAfterNewlines])
    rwa [List.append_nil] at this
  rw [position, position, hline o h, hline _ (Nat.le_refl _), Nat.min_eq_right h, Nat.min_self]

/-- Behind more characters without a newline the last line is longer by them. -/
theorem rtakeWhile_append_of_not_mem {t : List Char} (h : '\n' ∉ t) (s : List Char) :
    (s ++ t).rtakeWhile (· != '\n') = s.rtakeWhile (· != '\n') ++ t := by
  have hall : ∀ c ∈ t.reverse, (c != '\n') = true := fun c hc =>
    bne_iff_ne.mpr fun heq => h (heq ▸ List.mem_reverse.mp hc)
  rw [List.rtakeWhile, List.reverse_append, List.takeWhile_append_of_pos hall, List.reverse_append,
    List.reverse_reverse, List.rtakeWhile]

/-! ### The offset that has no number -/

/-- Whether 32 bits have no number for the line or the column of an offset: it is the last that they
have, in a text of newlines only or of one line with characters of one byte. -/
def IsUnnumbered (source : List Char) (o : Nat) : Prop :=
  o = UInt32.size - 1
    ∧ ((∀ c ∈ source, c = '\n') ∨ ∀ c ∈ source, c ≠ '\n' ∧ c.utf8Size = 1)

/-- A text of as many bytes as characters has characters of one byte. -/
theorem utf8Size_of_byteLength_eq (h : byteLength s = s.length) : ∀ c ∈ s, c.utf8Size = 1 := by
  induction s with
  | nil => simp
  | cons c s ih =>
    have := c.utf8Size_pos
    have := length_le_byteLength s
    rw [byteLength_cons, List.length_cons] at h
    refine List.forall_mem_cons.mpr ⟨by omega, ih (by omega)⟩

theorem byteLength_of_utf8Size (h : ∀ c ∈ s, c.utf8Size = 1) : byteLength s = s.length := by
  induction s with
  | nil => rfl
  | cons c s ih =>
    obtain ⟨hc, hs⟩ := List.forall_mem_cons.mp h
    rw [byteLength_cons, hc, ih hs, List.length_cons, Nat.add_comm]

/-- **An offset has no number exactly if one of the two to count is as large as 32 bits go.** -/
theorem isUnnumbered_iff (before after : List Char)
    (hsize : byteLength (before ++ after) < UInt32.size) :
    IsUnnumbered (before ++ after) (byteLength before)
      ↔ before.count '\n' + 1 = UInt32.size
        ∨ (before.rtakeWhile (· != '\n')).length + 1 = UInt32.size := by
  have hbytes := byteLength_append before after
  have hlength := length_le_byteLength before
  have hcount : before.count '\n' ≤ before.length := List.count_le_length
  have hlast := List.rtakeWhile_suffix (· != '\n') before
  have hle := hlast.length_le
  constructor
  · rintro ⟨hend, hkind⟩
    rcases hkind with hall | hall
    · have hone : byteLength before = before.length := byteLength_of_utf8Size fun c hc =>
        hall c (List.mem_append_left _ hc) ▸ rfl
      have hcount : before.count '\n' = before.length := List.count_eq_length.mpr fun c hc =>
        (hall c (List.mem_append_left _ hc)).symm
      exact .inl (by omega)
    · have hone : byteLength before = before.length := byteLength_of_utf8Size fun c hc =>
        (hall c (List.mem_append_left _ hc)).2
      have hrow : before.rtakeWhile (· != '\n') = before := List.rtakeWhile_eq_self_iff.mpr
        fun c hc => bne_iff_ne.mpr (hall c (List.mem_append_left _ hc)).1
      rw [hrow]
      exact .inr (by omega)
  · intro hfull
    -- Nothing is left behind the boundary, and every character before it takes one byte.
    have hafter : after = [] := byteLength_eq_zero.mp (by omega)
    have hone := utf8Size_of_byteLength_eq (s := before) (by omega)
    subst hafter
    rw [List.append_nil]
    refine ⟨by omega, ?_⟩
    rcases hfull with hfull | hfull
    · exact .inl fun c hc => (List.count_eq_length.mp (by omega) c hc).symm
    · have hrow := List.rtakeWhile_eq_self_iff.mp (hlast.eq_of_length (by omega))
      exact .inr fun c hc => ⟨bne_iff_ne.mp (hrow c hc), hone c hc⟩

/-- **A boundary with numbers has the right ones.** -/
theorem toNat_position (before after : List Char)
    (hsize : byteLength (before ++ after) < UInt32.size)
    (hnum : ¬ IsUnnumbered (before ++ after) (byteLength before)) :
    (((ofText (before ++ after)).position (before ++ after) (byteLength before)).line : Nat)
        = before.count '\n' + 1
      ∧ (((ofText (before ++ after)).position (before ++ after) (byteLength before)).column : Nat)
        = (before.rtakeWhile (· != '\n')).length + 1 := by
  have hcount := count_le_byteLength before
  have hlast := length_rtakeWhile_le before
  rw [isUnnumbered_iff before after hsize, not_or] at hnum
  rw [byteLength_append] at hsize
  rw [position_of_boundary before after (by rwa [byteLength_append])]
  exact ⟨toNat_ordinal (by omega), toNat_ordinal (by omega)⟩

/-- **A later boundary has a later position**, if it has numbers. -/
theorem position_lt (hsize : byteLength source < UInt32.size) (ho : IsBoundary source o)
    (hm : IsBoundary source m) (hnum : ¬ IsUnnumbered source m) (h : o < m) :
    (ofText source).position source o < (ofText source).position source m := by
  obtain ⟨before, after, rfl, rfl⟩ := ho
  obtain ⟨later, rest, hsource, rfl⟩ := hm
  obtain ⟨between, rfl, rfl⟩ := exists_append_of_le hsource (Nat.le_of_lt h)
  -- Only the later one can be the last offset there is.
  have hnotlast : ¬ IsUnnumbered (before ++ (between ++ rest)) (byteLength before) := fun hun => by
    have hlast := hun.1
    rw [hsource, byteLength_append] at hsize
    omega
  have hearlier := toNat_position before (between ++ rest) hsize hnotlast
  have hlater := toNat_position (before ++ between) rest (hsource ▸ hsize) (hsource ▸ hnum)
  rw [← hsource] at hlater
  rw [LinePosition.lt_iff, hearlier.1, hearlier.2, hlater.1, hlater.2, List.count_append]
  by_cases hn : '\n' ∈ between
  · have := List.count_pos_iff.mpr hn
    exact .inl (by omega)
  · have hne : between ≠ [] := fun hnil => by simp [hnil] at h
    have := List.length_pos_iff.mpr hne
    rw [rtakeWhile_append_of_not_mem hn, List.count_eq_zero_of_not_mem hn, List.length_append]
    exact .inr ⟨rfl, by omega⟩

/-- **Boundaries with one position are one**, if they have numbers. -/
theorem eq_of_position_eq (hsize : byteLength source < UInt32.size) (ho : IsBoundary source o)
    (hm : IsBoundary source m) (hon : ¬ IsUnnumbered source o) (hmn : ¬ IsUnnumbered source m)
    (h : (ofText source).position source o = (ofText source).position source m) : o = m := by
  rcases Nat.lt_trichotomy o m with hlt | heq | hlt
  · exact absurd (h ▸ position_lt hsize ho hm hmn hlt) (LinePosition.lt_irrefl _)
  · exact heq
  · exact absurd (h ▸ position_lt hsize hm ho hon hlt) (LinePosition.lt_irrefl _)

end Table

/-! ## The octets of a text -/

section Octets

/-- The offsets after each newline among octets, the first of which is at an offset itself. -/
def offsetsAfterNewlineOctets (offset : Nat) : List UInt8 → List Nat
  | [] => []
  | b :: s =>
    if b = '\n'.toUInt8 then (offset + 1) :: offsetsAfterNewlineOctets (offset + 1) s
    else offsetsAfterNewlineOctets (offset + 1) s

theorem offsetsAfterNewlineOctets_append (n : Nat) (s t : List UInt8) :
    offsetsAfterNewlineOctets n (s ++ t)
      = offsetsAfterNewlineOctets n s ++ offsetsAfterNewlineOctets (n + s.length) t := by
  induction s generalizing n with
  | nil => rfl
  | cons b s ih =>
    rw [List.cons_append, offsetsAfterNewlineOctets, offsetsAfterNewlineOctets, ih,
      List.length_cons, Nat.add_assoc, Nat.add_comm 1]
    split <;> rfl

theorem offsetsAfterNewlineOctets_of_not_mem {s : List UInt8} (h : '\n'.toUInt8 ∉ s) (n : Nat) :
    offsetsAfterNewlineOctets n s = [] := by
  induction s generalizing n with
  | nil => rfl
  | cons b s ih =>
    rw [List.mem_cons, not_or] at h
    rw [offsetsAfterNewlineOctets, if_neg (Ne.symm h.1), ih h.2]

/-- Only a newline has the octet of a newline. -/
theorem eq_newline_of_mem {c : Char} (h : '\n'.toUInt8 ∈ String.utf8EncodeChar c) : c = '\n' := by
  by_cases hc : IsAscii c
  · have hmem := List.mem_map_of_mem (f := Char.ofUInt8) h
    rw [← characters, characters_of_isAscii hc] at hmem
    exact (List.mem_singleton.mp hmem).symm
  · exact absurd (le_toNat_of_mem hc h) (by decide)

/-- **The table can be made from the octets of the text.** -/
theorem offsetsAfterNewlineOctets_encode (n : Nat) (s : List Char) :
    offsetsAfterNewlineOctets n (encode s) = offsetsAfterNewlines n s := by
  induction s generalizing n with
  | nil => rfl
  | cons c s ih =>
    rw [encode, List.flatMap_cons, offsetsAfterNewlineOctets_append, String.length_utf8EncodeChar,
      ← encode, ih, offsetsAfterNewlines]
    split
    case isTrue hc =>
      subst hc
      rfl
    case isFalse hc =>
      rw [offsetsAfterNewlineOctets_of_not_mem (mt eq_newline_of_mem hc), List.nil_append]

theorem length_offsetsAfterNewlineOctets (n : Nat) (s : List UInt8) :
    (offsetsAfterNewlineOctets n s).length = s.count '\n'.toUInt8 := by
  induction s generalizing n with
  | nil => rfl
  | cons b s ih =>
    rw [offsetsAfterNewlineOctets]
    split
    case isTrue hb => simp [hb, ih]
    case isFalse hb => rw [ih, List.count_cons_of_ne hb]

/-- A text has as many newlines as its octets have. -/
theorem count_encode (s : List Char) : (encode s).count '\n'.toUInt8 = s.count '\n' := by
  have hcount := length_lineStarts s
  rw [lineStarts, ← offsetsAfterNewlineOctets_encode, List.length_cons,
    length_offsetsAfterNewlineOctets] at hcount
  exact Nat.succ.inj hcount

end Octets

/-! ## One line of letters -/

theorem byteLength_replicate_a (n : Nat) : byteLength (List.replicate n 'a') = n := by
  rw [byteLength_of_utf8Size fun c hc => (List.eq_of_mem_replicate hc).symm ▸ rfl,
    List.length_replicate]

theorem rtakeWhile_replicate_a (n : Nat) :
    (List.replicate n 'a').rtakeWhile (· != '\n') = List.replicate n 'a' :=
  List.rtakeWhile_eq_self_iff.mpr fun _ hc => (List.eq_of_mem_replicate hc).symm ▸ rfl

/-- A boundary in one line of letters, of which `m` are behind it. -/
theorem position_replicate_a (n m : Nat) (hsize : n + m < UInt32.size) :
    IsBoundary (List.replicate (n + m) 'a') n
      ∧ (ofText (List.replicate (n + m) 'a')).position (List.replicate (n + m) 'a') n
        = ⟨ordinal 0, ordinal n⟩ := by
  have hplace := position_of_boundary (List.replicate n 'a') (List.replicate m 'a')
  have hcount : (List.replicate n 'a').count '\n' = 0 := List.count_eq_zero_of_not_mem fun h =>
    absurd (List.eq_of_mem_replicate h) (by decide)
  rw [List.replicate_append_replicate, byteLength_replicate_a, byteLength_replicate_a,
    rtakeWhile_replicate_a, hcount, List.length_replicate] at hplace
  refine ⟨⟨List.replicate n 'a', List.replicate m 'a', ?_, (byteLength_replicate_a n).symm⟩,
    hplace hsize⟩
  exact List.replicate_append_replicate.symm

/-! ## All boundaries -/

/-- **An offset and its line and column are one**, in a text below 4 GiB.  The table has the front of
the text and the offset behind each newline octet.  A boundary is on the line that counts the newline
octets before it, in the column that counts the characters behind the last of these; both count from
one.  Of two boundaries the later one has the later position, so boundaries with one position are one.
An offset past the end has the position of the end.

All this but where a count is `2 ^ 32`, which is no number of 32 bits.  That can be at one offset, in
a text of newlines only or of one line with characters of one byte. -/
theorem position_exact (source : List Char) (hsize : byteLength source < 2 ^ 32) :
    let place := (ofText source).position source
    (ofText source).starts.toList = 0 :: offsetsAfterNewlineOctets 0 (encode source)
      ∧ (∀ before after, source = before ++ after →
        (IsUnnumbered source (byteLength before) ↔
          1 + (encode before).count '\n'.toUInt8 = 2 ^ 32
            ∨ 1 + (before.rtakeWhile (· != '\n')).length = 2 ^ 32))
      ∧ (∀ before after, source = before ++ after → ¬ IsUnnumbered source (byteLength before) →
        ((place (byteLength before)).line : Nat) = 1 + (encode before).count '\n'.toUInt8
          ∧ ((place (byteLength before)).column : Nat)
            = 1 + (before.rtakeWhile (· != '\n')).length)
      ∧ (∀ o m, IsBoundary source o → IsBoundary source m → ¬ IsUnnumbered source m →
        o < m → place o < place m)
      ∧ (∀ o m, IsBoundary source o → IsBoundary source m → ¬ IsUnnumbered source o →
        ¬ IsUnnumbered source m → place o = place m → o = m)
      ∧ ∀ o, byteLength source ≤ o → place o = place (byteLength source) := by
  intro place
  refine ⟨?_, ?_, ?_, fun o m ho hm hmn h => position_lt hsize ho hm hmn h,
    fun o m ho hm hon hmn h => eq_of_position_eq hsize ho hm hon hmn h,
    fun o h => position_of_le hsize h⟩
  · rw [starts_ofText hsize, offsetsAfterNewlineOctets_encode]
    rfl
  · rintro before after rfl
    rw [count_encode, Nat.add_comm 1, Nat.add_comm 1]
    exact isUnnumbered_iff before after hsize
  · rintro before after rfl hnum
    rw [count_encode, Nat.add_comm 1, Nat.add_comm 1]
    exact toNat_position before after hsize hnum

/-- A character of two bytes takes one column. -/
theorem position_exact_accent : byteLength "é = x".toList < 2 ^ 32
    ∧ (((ofText "é = x".toList).position "é = x".toList 3).line : Nat) = 1
    ∧ (((ofText "é = x".toList).position "é = x".toList 3).column : Nat) = 3 := by
  have hsize : byteLength "é = x".toList < 2 ^ 32 := by decide
  obtain ⟨-, -, hplace, -⟩ := position_exact "é = x".toList hsize
  exact ⟨hsize, hplace "é ".toList "= x".toList rfl fun hun => absurd hun.1 (by decide)⟩

/-- One line of letters, as many as an offset of 32 bits can say, has no number for its last column:
that would be one more than 32 bits hold, and the last boundary does not come behind the one before
it. -/
theorem position_overflow :
    let source := List.replicate 4294967295 'a'
    let place := (ofText source).position source
    byteLength source < 2 ^ 32 ∧ IsBoundary source 4294967294 ∧ IsBoundary source 4294967295
      ∧ ((place 4294967295).column : Nat) ≠ 1 + (source.rtakeWhile (· != '\n')).length
      ∧ ¬ place 4294967294 < place 4294967295 := by
  obtain ⟨hbound, hplace⟩ := position_replicate_a 4294967294 1 (by decide)
  obtain ⟨hlast, hend⟩ := position_replicate_a 4294967295 0 (by decide)
  dsimp only
  rw [byteLength_replicate_a, rtakeWhile_replicate_a, List.length_replicate]
  refine ⟨by decide, hbound, hlast, ?_, ?_⟩
  · exact Nat.ne_of_lt (UInt32.toNat_lt _)
  · rw [hplace, hend, LinePosition.lt_iff]
    decide

end LineTable

end Memberwise
