import Memberwise.Expansion.Splice
import Memberwise.Proofs.Text.Offsets
import Mathlib.Data.List.Basic
import Mathlib.Data.List.Induction
import Mathlib.Data.List.TakeWhile

/-!
# Proofs/Expansion/Removal — an edited text, said once for every character

What is cut out of a source is a union of regions, one for each attribute, and which characters a
region holds depends on the earlier ones only through what they leave of a line (`removal`).  An
edited text is then the source character by character, those of the regions left out and every
insertion standing after the character it follows (`marked`).

Editing goes from front to back, and skips what it cannot place.  Edits that are `Spaced`, each
removal over text that begins with an at sign, each insertion after a closing brace, and none
reaching back behind the one before, are all made:

* `isMade_of_spaced` — no edit is skipped;
* `applyEdits_of_spaced` — **the edited text is the marked one**.

The invariant of the run is `Reached`: what is written so far is the source marked so far.
-/

namespace Memberwise

open Text

namespace Removal

/-! ## Regions -/

/-- The text of a source from an offset on. -/
def textFrom (source : List Char) (n : Nat) : List Char := (drop? n source).getD []

/-- The offset after the spaces and tabs that stand at an offset. -/
def blanksEnd (source : List Char) (n : Nat) : Nat :=
  n + byteLength ((textFrom source n).takeWhile isInlineSpace)

/-- The bytes of the line end that stands at an offset, zero if none does. -/
def lineEndAt (source : List Char) (n : Nat) : Nat := Splice.lineEndLength (textFrom source n)

/-- The characters from one offset up to another that are not removed. -/
def keptBetween (removed : Nat → Bool) (source : List Char) (m n : Nat) : List Char :=
  ((located 0 source).filter fun x => m ≤ x.1 && x.1 < n && !removed x.1).map (·.2)

/-- Whether only spaces and tabs are left before an offset on its line. -/
def isBlankBefore (removed : Nat → Bool) (source : List Char) (n : Nat) : Bool :=
  ((keptBetween removed source 0 n).reverse.takeWhile (· != '\n')).all isInlineSpace

/-- Whether an attribute takes its line along: nothing but blanks is left on it. -/
def takesLine (removed : Nat → Bool) (source : List Char) (a : Span) : Bool :=
  0 < lineEndAt source (blanksEnd source a.stop) && isBlankBefore removed source a.start

/-- Whether the character at an offset is cut out with an attribute, when others are removed
already: it belongs to the attribute or the blanks after it, or to the blanks before it or the line
end after it if the attribute takes its line along. -/
def removal (source : List Char) (removed : Nat → Bool) (a : Span) (o : Nat) : Bool :=
  (a.start ≤ o && o < blanksEnd source a.stop)
    || (takesLine removed source a
      && ((o < a.start && (keptBetween removed source o a.start).all isInlineSpace)
        || (blanksEnd source a.stop ≤ o
          && o < blanksEnd source a.stop + lineEndAt source (blanksEnd source a.stop))))

/-- Whether the character at an offset is cut out with one of some attributes, which are taken in
the order of the list. -/
def removedBy (source : List Char) (as : List Span) : Nat → Bool :=
  as.foldl (fun removed a o => removed o || removal source removed a o) fun _ => false

/-- A text from an offset on without the characters removed, and with what is put in after each
character. -/
def marked (removed : Nat → Bool) (inserted : Nat → List Char) (n : Nat) (s : List Char) :
    List Char :=
  (located n s).flatMap fun x =>
    (if removed x.1 then [] else [x.2]) ++ inserted (x.1 + x.2.utf8Size)

/-! ## Edits -/

/-- The spans that edits cut out. -/
def spans (es : List Edit) : List Span :=
  es.filterMap fun
    | .insertion .. => none
    | .removal s => some s

/-- What edits put in at an offset. -/
def insertedAt (es : List Edit) (n : Nat) : List Char :=
  es.flatMap fun
    | .insertion offset text => if offset = n then text else []
    | .removal _ => []

/-- Whether an edit is made, rather than left out because its place is behind the one reached. -/
def isMade (source : List Char) (s : Splice) (e : Edit) : Bool :=
  (slice? s.position e.position source).isSome

/-- Edits that reach forward only, from an offset on: a removal covers text that begins with an at
sign, and an insertion stands after a closing brace and ends with one. -/
inductive Spaced (source : List Char) : Nat → List Edit → Prop
  | nil (n : Nat) : Spaced source n []
  | insertion {n : Nat} {before after text : List Char} {es : List Edit}
      (hs : source = before ++ '\x7d' :: after) (hn : n ≤ byteLength before)
      (ht : text.getLast? = some '\x7d') (hes : Spaced source (byteLength before + 1) es) :
      Spaced source n (.insertion (byteLength before + 1) text :: es)
  | removal {n : Nat} {before text after : List Char} {es : List Edit}
      (hs : source = before ++ ('@' :: text) ++ after) (hn : n ≤ byteLength before)
      (hes : Spaced source (byteLength before + byteLength ('@' :: text)) es) :
      Spaced source n
        (.removal ⟨byteLength before, byteLength before + byteLength ('@' :: text)⟩ :: es)

theorem Spaced.of_le {source : List Char} {m n : Nat} {es : List Edit} (h : Spaced source n es)
    (hmn : m ≤ n) : Spaced source m es := by
  cases h with
  | nil => exact .nil _
  | insertion hs hn ht hes => exact .insertion hs (Nat.le_trans hmn hn) ht hes
  | removal hs hn hes => exact .removal hs (Nat.le_trans hmn hn) hes

/-! ## Marking a text part by part -/

section Marked

variable {removed removed' : Nat → Bool} {inserted inserted' : Nat → List Char} {n : Nat}
  {s t : List Char}

@[simp] theorem marked_nil : marked removed inserted n [] = [] := rfl

theorem marked_cons (c : Char) : marked removed inserted n (c :: s)
    = (if removed n then [] else [c]) ++ inserted (n + c.utf8Size)
      ++ marked removed inserted (n + c.utf8Size) s := rfl

theorem marked_append : marked removed inserted n (s ++ t)
    = marked removed inserted n s ++ marked removed inserted (n + byteLength s) t := by
  rw [marked, located_append, List.flatMap_append]
  rfl

/-- Marking looks at the characters of the text only. -/
theorem marked_congr (h : ∀ o c, (o, c) ∈ located n s →
      removed o = removed' o ∧ inserted (o + c.utf8Size) = inserted' (o + c.utf8Size)) :
    marked removed inserted n s = marked removed' inserted' n s := by
  refine List.flatMap_congr fun x hx => ?_
  obtain ⟨hr, hi⟩ := h x.1 x.2 hx
  rw [hr, hi]

/-- A text from which nothing is removed and into which nothing is put stays. -/
theorem marked_of_untouched (hr : ∀ o, n ≤ o → o < n + byteLength s → removed o = false)
    (hi : ∀ o, n < o → o ≤ n + byteLength s → inserted o = []) :
    marked removed inserted n s = s := by
  have h : marked removed inserted n s = marked (fun _ => false) (fun _ => []) n s := by
    refine marked_congr fun o c hc => ?_
    have hb := le_of_mem_located hc
    have hp := c.utf8Size_pos
    exact ⟨hr o (by omega) (by omega), hi _ (by omega) (by omega)⟩
  rw [h]
  clear hr hi h
  induction s generalizing n with
  | nil => rfl
  | cons c s ih => rw [marked_cons, ih]; rfl

/-- A text that is removed as a whole and into which nothing is put leaves nothing. -/
theorem marked_of_removed (hr : ∀ o, n ≤ o → o < n + byteLength s → removed o = true)
    (hi : ∀ o, n < o → o ≤ n + byteLength s → inserted o = []) :
    marked removed inserted n s = [] := by
  have h : marked removed inserted n s = marked (fun _ => true) (fun _ => []) n s := by
    refine marked_congr fun o c hc => ?_
    have hb := le_of_mem_located hc
    have hp := c.utf8Size_pos
    exact ⟨hr o (by omega) (by omega), hi _ (by omega) (by omega)⟩
  rw [h]
  simp [marked]

end Marked

/-! ## The blanks at the end of a marked text -/

/-- The characters of a text from an offset on that are not removed. -/
def keptFrom (removed : Nat → Bool) (s : List Char) (m : Nat) : List Char :=
  ((located 0 s).filter fun x => m ≤ x.1 && !removed x.1).map (·.2)

theorem keptBetween_append (removed : Nat → Bool) (s t : List Char) (m : Nat) :
    keptBetween removed (s ++ t) m (byteLength s) = keptFrom removed s m := by
  have hs : (located 0 s).filter (fun x => m ≤ x.1 && x.1 < byteLength s && !removed x.1)
      = (located 0 s).filter fun x => m ≤ x.1 && !removed x.1 := by
    refine List.filter_congr fun x hx => ?_
    have hlt := lt_of_mem_located hx
    simp only [Nat.zero_add] at hlt
    simp [hlt]
  have ht : (located (byteLength s) t).filter
      (fun x => m ≤ x.1 && x.1 < byteLength s && !removed x.1) = [] := by
    refine List.filter_eq_nil_iff.mpr fun x hx => ?_
    have := (le_of_mem_located hx).1
    simp only [Bool.and_eq_true, decide_eq_true_eq, not_and]
    omega
  rw [keptBetween, located_append, Nat.zero_add, List.filter_append, hs, ht, List.append_nil]
  rfl

theorem keptFrom_concat (removed : Nat → Bool) (s : List Char) (c : Char) {m : Nat}
    (hm : m ≤ byteLength s) : keptFrom removed (s ++ [c]) m
      = keptFrom removed s m ++ if removed (byteLength s) then [] else [c] := by
  rw [keptFrom, keptFrom, located_append, List.filter_append, List.map_append]
  cases hr : removed (byteLength s) <;> simp [located, hm, hr]

/-- A character that is not removed is among those kept from any earlier offset on. -/
theorem mem_keptFrom {removed : Nat → Bool} {s : List Char} {o : Nat} {c : Char}
    (h : (o, c) ∈ located 0 s) (hr : removed o = false) : c ∈ keptFrom removed s o :=
  List.mem_map.mpr ⟨(o, c), List.mem_filter.mpr ⟨h, by simp [hr]⟩, rfl⟩

/-- What is put into a text stands after closing braces that are not removed, and ends with one. -/
def Anchored (removed : Nat → Bool) (inserted : Nat → List Char) (s : List Char) : Prop :=
  ∀ o c, (o, c) ∈ located 0 s → inserted (o + c.utf8Size) ≠ [] →
    c = '\x7d' ∧ removed o = false ∧ (inserted (o + c.utf8Size)).getLast? = some '\x7d'

/-- The blanks that end a text belong to what is removed with an attribute that follows. -/
def withBlanks (removed : Nat → Bool) (s : List Char) (o : Nat) : Bool :=
  removed o || (o < byteLength s && (keptFrom removed s o).all isInlineSpace)

theorem withBlanks_concat_of_blank {removed : Nat → Bool} {s : List Char} {c : Char} {o : Nat}
    (ho : o < byteLength s) (h : removed (byteLength s) = true ∨ isInlineSpace c = true) :
    withBlanks removed (s ++ [c]) o = withBlanks removed s o := by
  have ho' : o < byteLength (s ++ [c]) := by rw [byteLength_append]; omega
  rw [withBlanks, withBlanks, keptFrom_concat removed s c (Nat.le_of_lt ho), decide_eq_true ho,
    decide_eq_true ho']
  rcases h with h | h
  · simp [h]
  · cases hr : removed (byteLength s) <;> simp [h]

/-- A character left standing that is no blank keeps what precedes it out of a later removal. -/
theorem withBlanks_concat_of_ink {removed : Nat → Bool} {s : List Char} {c : Char} {o : Nat}
    (ho : o ≤ byteLength s) (hr : removed (byteLength s) = false) (hc : isInlineSpace c = false) :
    withBlanks removed (s ++ [c]) o = removed o := by
  rw [withBlanks, keptFrom_concat removed s c ho]
  simp [hr, hc]

theorem dropIndent?_concat_of_blank {c : Char} (s : List Char) (h : isInlineSpace c = true) :
    Splice.dropIndent? (s ++ [c]) = Splice.dropIndent? s := by
  rw [Splice.dropIndent?, dropWhileEnd_concat_of_pos s h]
  rfl

theorem dropIndent?_of_getLast? {c : Char} {s : List Char} (hl : s.getLast? = some c)
    (h : isInlineSpace c = false) :
    Splice.dropIndent? s = if c = '\n' then some s else none := by
  have hne : s ≠ [] := by
    rintro rfl
    cases hl
  simp [Splice.dropIndent?, dropWhileEnd_of_getLast? hl h, hl, hne]

theorem Anchored.of_concat {removed : Nat → Bool} {inserted : Nat → List Char} {s : List Char}
    {c : Char} (h : Anchored removed inserted (s ++ [c])) : Anchored removed inserted s := by
  intro o d hd
  exact h o d (by rw [located_append]; exact List.mem_append_left _ hd)

section Concat

variable {removed : Nat → Bool} {inserted : Nat → List Char} {s : List Char} {c : Char}

theorem marked_concat : marked removed inserted 0 (s ++ [c]) = marked removed inserted 0 s
    ++ ((if removed (byteLength s) then [] else [c]) ++ inserted (byteLength s + c.utf8Size)) := by
  rw [marked_append, Nat.zero_add, marked_cons, marked_nil, List.append_nil]

/-- Nothing is put in after a blank or after a character that is removed. -/
theorem Anchored.inserted_eq_nil (h : Anchored removed inserted (s ++ [c]))
    (hb : removed (byteLength s) = true ∨ isInlineSpace c = true) :
    inserted (byteLength s + c.utf8Size) = [] := by
  by_contra hne
  obtain ⟨rfl, hr, -⟩ := h (byteLength s) c (by simp [located_append, located]) hne
  rw [hr] at hb
  revert hb
  decide

theorem withBlanks_length (hb : removed (byteLength s) = true ∨ isInlineSpace c = true) :
    withBlanks removed (s ++ [c]) (byteLength s) = true := by
  have hn : keptFrom removed s (byteLength s) = [] := by
    rw [keptFrom, List.map_eq_nil_iff, List.filter_eq_nil_iff]
    intro x hx
    have := lt_of_mem_located hx
    simp only [Bool.and_eq_true, decide_eq_true_eq, not_and]
    omega
  have hp := c.utf8Size_pos
  rw [withBlanks, keptFrom_concat removed s c (Nat.le_refl _), hn]
  rcases hb with hb | hb
  · simp [hb]
  · cases removed (byteLength s) <;> simp [hb, hp]

/-- A blank at the end, or one removed already, adds nothing to what a whole line leaves. -/
theorem marked_withBlanks_concat_of_blank (h : Anchored removed inserted (s ++ [c]))
    (hb : removed (byteLength s) = true ∨ isInlineSpace c = true) :
    marked (withBlanks removed (s ++ [c])) inserted 0 (s ++ [c])
      = marked (withBlanks removed s) inserted 0 s := by
  rw [marked_concat, h.inserted_eq_nil hb, withBlanks_length hb]
  simp only [if_true, List.append_nil]
  refine marked_congr fun o d hd => ⟨withBlanks_concat_of_blank ?_ hb, rfl⟩
  have := lt_of_mem_located hd
  omega

/-- What is left standing at the end and is no blank ends the marked text, itself or by what is put
in after it. -/
theorem dropIndent?_marked_concat_of_ink (h : Anchored removed inserted (s ++ [c]))
    (hr : removed (byteLength s) = false) (hc : isInlineSpace c = false) :
    Splice.dropIndent? (marked removed inserted 0 (s ++ [c]))
      = if c = '\n' then some (marked removed inserted 0 (s ++ [c])) else none := by
  have hmem : (byteLength s, c) ∈ located 0 (s ++ [c]) := by simp [located_append, located]
  rw [marked_concat, hr]
  by_cases hi : inserted (byteLength s + c.utf8Size) = []
  · rw [hi]
    exact dropIndent?_of_getLast? (by simp) hc
  · obtain ⟨rfl, -, hl⟩ := h (byteLength s) c hmem hi
    have hlast : (marked removed inserted 0 s ++ ((if false = true then [] else ['\x7d'])
        ++ inserted (byteLength s + ('\x7d' : Char).utf8Size))).getLast? = some '\x7d' := by
      rw [List.getLast?_append, List.getLast?_append, hl]
      rfl
    rw [dropIndent?_of_getLast? hlast (by decide)]

/-- **The blanks at the end of a marked text are those that a whole line would take along**, and
whether it ends at the front of a line is seen on the characters that are left. -/
theorem dropIndent?_marked (h : Anchored removed inserted s) :
    Splice.dropIndent? (marked removed inserted 0 s)
      = if ((keptFrom removed s 0).reverse.takeWhile (· != '\n')).all isInlineSpace
        then some (marked (withBlanks removed s) inserted 0 s) else none := by
  induction s using List.reverseRecOn with
  | nil => rfl
  | append_singleton s c ih =>
    specialize ih h.of_concat
    rw [keptFrom_concat removed s c (Nat.zero_le _)]
    by_cases hb : removed (byteLength s) = true ∨ isInlineSpace c = true
    · -- Such a character changes neither side.
      rw [marked_withBlanks_concat_of_blank h hb, marked_concat, h.inserted_eq_nil hb]
      rcases hb with hr | hc
      · simpa [hr] using ih
      · have hnl : c ≠ '\n' := by
          rintro rfl
          revert hc
          decide
        cases hr : removed (byteLength s) with
        | true => simpa using ih
        | false => simpa [dropIndent?_concat_of_blank _ hc, hc, hnl] using ih
    · rw [not_or, Bool.not_eq_true, Bool.not_eq_true] at hb
      obtain ⟨hr, hc⟩ := hb
      rw [dropIndent?_marked_concat_of_ink h hr hc]
      have hm : marked (withBlanks removed (s ++ [c])) inserted 0 (s ++ [c])
          = marked removed inserted 0 (s ++ [c]) := by
        refine marked_congr fun o d hd => ⟨withBlanks_concat_of_ink ?_ hr hc, rfl⟩
        rw [located_append, List.mem_append] at hd
        rcases hd with hd | hd
        · have := lt_of_mem_located hd
          omega
        · simp only [located, List.mem_singleton, Prod.mk.injEq] at hd
          omega
      by_cases hnl : c = '\n'
      · rw [hm]
        simp [hr, hnl]
      · simp [hr, hnl, hc]

end Concat

/-! ## The places of a source -/

section Places

variable {source before text after : List Char}

theorem textFrom_append (s t : List Char) : textFrom (s ++ t) (byteLength s) = t := by
  rw [textFrom, drop?_byteLength_append]
  rfl

theorem slice?_of_append (h : source = before ++ text ++ after) :
    slice? (byteLength before) (byteLength (before ++ text)) source = some text := by
  rw [h, byteLength_append, slice?_append]

/-- A line end is one or two characters, which are no place for an edit. -/
theorem exists_lineEnd (s : List Char) : ∃ e rest, s = e ++ rest
    ∧ byteLength e = Splice.lineEndLength s ∧ ∀ c ∈ e, c = '\r' ∨ c = '\n' := by
  unfold Splice.lineEndLength
  split
  · exact ⟨['\r', '\n'], _, rfl, rfl, by simp⟩
  · exact ⟨['\n'], _, rfl, rfl, by simp⟩
  · exact ⟨[], _, rfl, rfl, by simp⟩

/-- A character that only separates: a blank that an attribute takes along or part of a line end. -/
def isGap (c : Char) : Bool := isInlineSpace c || c == '\r' || c == '\n'

/-- Edits do not start in a gap. -/
theorem Spaced.after_gap {n : Nat} {es : List Edit} {s : List Char} (h : Spaced source n es)
    (hn : n = byteLength before) (hs : source = before ++ text ++ s)
    (hg : ∀ c ∈ text, isGap c = true) : Spaced source (byteLength (before ++ text)) es := by
  subst hn
  have key : ∀ {c : Char} {b rest : List Char}, source = b ++ c :: rest →
      byteLength before ≤ byteLength b → isGap c = false →
      byteLength (before ++ text) ≤ byteLength b := by
    intro c b rest hb hle hc
    rw [hb, List.append_assoc] at hs
    obtain ⟨x, rfl, hx⟩ := exists_append_of_le hs.symm hle
    obtain ⟨y, rfl, -⟩ := exists_append_of_not_mem hx hg hc
    rw [byteLength_append, byteLength_append, byteLength_append]
    omega
  cases h with
  | nil => exact .nil _
  | insertion hs' hn ht hes => exact .insertion hs' (key hs' hn (by decide)) ht hes
  | removal hs' hn hes =>
    have hat := hs'
    rw [List.append_assoc, List.cons_append] at hat
    exact .removal hs' (key hat hn (by decide)) hes

end Places

/-! ## One attribute -/

/-- The places of an attribute in a source: `front` before it, `attr` itself, the blanks `b` and the
line end `e` after it. -/
structure AttributeAt (source : List Char) (a : Span) (front attr b e rest : List Char) : Prop where
  source_eq : source = front ++ attr ++ (b ++ (e ++ rest))
  start_eq : a.start = byteLength front
  stop_eq : a.stop = byteLength (front ++ attr)
  blanks_eq : b = (b ++ (e ++ rest)).takeWhile isInlineSpace
  lineEnd_eq : byteLength e = Splice.lineEndLength (e ++ rest)

/-- An attribute takes along what separates it from what follows. -/
theorem exists_attributeAt {source front attr after : List Char}
    (hs : source = front ++ attr ++ after) :
    ∃ b e rest, (∀ c ∈ b ++ e, isGap c = true)
      ∧ AttributeAt source ⟨byteLength front, byteLength (front ++ attr)⟩ front attr b e rest := by
  obtain ⟨e, rest, hr, he, hc⟩ := exists_lineEnd (after.dropWhile isInlineSpace)
  have ha : after = after.takeWhile isInlineSpace ++ (e ++ rest) := by
    rw [← hr, List.takeWhile_append_dropWhile]
  refine ⟨after.takeWhile isInlineSpace, e, rest, fun c h => ?_, ?_⟩
  · rcases List.mem_append.mp h with h | h
    · simp [isGap, List.mem_takeWhile_imp h]
    · rcases hc c h with rfl | rfl <;> decide
  · exact ⟨by rw [hs, ← ha], rfl, rfl, by rw [← ha], by rw [he, hr]⟩

namespace AttributeAt

variable {source : List Char} {a : Span} {front attr b e rest : List Char} {removed : Nat → Bool} {o : Nat}

theorem textFrom_stop (h : AttributeAt source a front attr b e rest) :
    textFrom source a.stop = b ++ (e ++ rest) := by
  rw [h.stop_eq, h.source_eq, textFrom_append]

theorem tail_eq (h : AttributeAt source a front attr b e rest) :
    (b ++ (e ++ rest)).dropWhile isInlineSpace = e ++ rest := by
  have hcut := List.takeWhile_append_dropWhile (p := isInlineSpace) (l := b ++ (e ++ rest))
  rw [← h.blanks_eq] at hcut
  exact List.append_cancel_left hcut

theorem blanksEnd_eq (h : AttributeAt source a front attr b e rest) :
    blanksEnd source a.stop = byteLength (front ++ attr ++ b) := by
  rw [blanksEnd, h.textFrom_stop, ← h.blanks_eq, h.stop_eq, byteLength_append (front ++ attr)]

theorem lineEndAt_eq (h : AttributeAt source a front attr b e rest) :
    lineEndAt source (blanksEnd source a.stop) = byteLength e := by
  rw [h.blanksEnd_eq, lineEndAt, h.source_eq, ← List.append_assoc (front ++ attr),
    textFrom_append, h.lineEnd_eq]

theorem keptBetween_eq (h : AttributeAt source a front attr b e rest) (m : Nat) :
    keptBetween removed source m a.start = keptFrom removed front m := by
  rw [h.start_eq, h.source_eq, List.append_assoc, keptBetween_append]

theorem takesLine_eq (h : AttributeAt source a front attr b e rest) :
    takesLine removed source a = (0 < byteLength e
      && ((keptFrom removed front 0).reverse.takeWhile (· != '\n')).all isInlineSpace) := by
  rw [takesLine, h.lineEndAt_eq, isBlankBefore, h.keptBetween_eq]

/-- Before an attribute, only the blanks of a line it takes along are removed with it. -/
theorem removal_before (h : AttributeAt source a front attr b e rest) (ho : o < byteLength front) :
    Removal.removal source removed a o
      = (takesLine removed source a && (keptFrom removed front o).all isInlineSpace) := by
  have hstop : byteLength front ≤ byteLength (front ++ attr ++ b) := by
    rw [List.append_assoc, byteLength_append]
    omega
  rw [Removal.removal, h.keptBetween_eq, h.blanksEnd_eq, h.start_eq, decide_eq_true ho,
    decide_eq_false (Nat.not_le.mpr ho),
    decide_eq_false (Nat.not_le.mpr (Nat.lt_of_lt_of_le ho hstop))]
  simp

/-- An attribute and the blanks after it are removed. -/
theorem removal_inside (h : AttributeAt source a front attr b e rest)
    (ho : byteLength front ≤ o) (ho' : o < byteLength (front ++ attr ++ b)) :
    Removal.removal source removed a o = true := by
  rw [Removal.removal, h.blanksEnd_eq, h.start_eq, decide_eq_true ho, decide_eq_true ho']
  rfl

/-- The line end after an attribute is removed if it takes its line along. -/
theorem removal_lineEnd (h : AttributeAt source a front attr b e rest)
    (ho : byteLength (front ++ attr ++ b) ≤ o)
    (ho' : o < byteLength (front ++ attr ++ b) + byteLength e) :
    Removal.removal source removed a o = takesLine removed source a := by
  have hstart : ¬ o < byteLength front := by
    rw [List.append_assoc, byteLength_append] at ho
    omega
  rw [Removal.removal, h.lineEndAt_eq, h.blanksEnd_eq, h.start_eq, decide_eq_true ho,
    decide_eq_true ho', decide_eq_false hstart, decide_eq_false (Nat.not_lt.mpr ho)]
  simp

/-- Nothing is removed after what an attribute takes along. -/
theorem lt_of_removal (h : AttributeAt source a front attr b e rest)
    (ho : Removal.removal source removed a o = true) :
    o < byteLength (front ++ attr ++ b)
      ∨ takesLine removed source a = true
        ∧ o < byteLength (front ++ attr ++ b) + byteLength e := by
  have hstart : byteLength front ≤ byteLength (front ++ attr ++ b) := by
    rw [List.append_assoc, byteLength_append]
    omega
  rw [Removal.removal, h.lineEndAt_eq, h.blanksEnd_eq, h.start_eq] at ho
  simp only [Bool.or_eq_true, Bool.and_eq_true, decide_eq_true_eq] at ho
  rcases ho with ho | ⟨hl, ho | ho⟩
  · exact .inl ho.2
  · exact .inl (by omega)
  · exact .inr ⟨hl, ho.2⟩

end AttributeAt

/-! ## The run -/

/-- What editing has come to after some edits: it has read a first part of the source, and written
that part as it is marked by the edits. -/
structure Reached (source : List Char) (es : List Edit) (s : Splice) (before : List Char) :
    Prop where
  source_eq : ∃ after, source = before ++ after
  position_eq : s.position = byteLength before
  written_eq : s.written = marked (removedBy source (spans es)) (insertedAt es) 0 before
  removed_lt : ∀ o, removedBy source (spans es) o = true → o < byteLength before
  inserted_le : ∀ n, insertedAt es n ≠ [] → n ≤ byteLength before
  anchored : Anchored (removedBy source (spans es)) (insertedAt es) before

namespace Reached

variable {source before mid after text : List Char} {es : List Edit} {s : Splice}

theorem start (source : List Char) : Reached source [] .start [] where
  source_eq := ⟨source, rfl⟩
  position_eq := rfl
  written_eq := rfl
  removed_lt o h := by cases h
  inserted_le n h := absurd rfl h
  anchored o c h := by cases h

/-- Nothing is removed past the place reached. -/
theorem removed_eq_false (h : Reached source es s before) {o : Nat} (ho : byteLength before ≤ o) :
    removedBy source (spans es) o = false := by
  by_contra hr
  have := h.removed_lt o (by simpa using hr)
  omega

/-- Nothing is put in past the place reached. -/
theorem inserted_eq_nil (h : Reached source es s before) {n : Nat} (hn : byteLength before < n) :
    insertedAt es n = [] := by
  by_contra hi
  have := h.inserted_le n hi
  omega

/-- What stands past the place reached is marked as it is. -/
theorem marked_append (h : Reached source es s before) (mid : List Char) :
    marked (removedBy source (spans es)) (insertedAt es) 0 (before ++ mid) = s.written ++ mid := by
  rw [Removal.marked_append, ← h.written_eq, Nat.zero_add,
    marked_of_untouched (fun o ho _ => h.removed_eq_false ho) fun o ho _ => h.inserted_eq_nil ho]

/-- What is put in stays anchored when more is read. -/
theorem anchored_append (h : Reached source es s before) (mid : List Char) :
    Anchored (removedBy source (spans es)) (insertedAt es) (before ++ mid) := by
  intro o c hc hi
  rw [located_append, List.mem_append] at hc
  rcases hc with hc | hc
  · exact h.anchored o c hc hi
  · have := h.inserted_le _ hi
    have := (le_of_mem_located hc).1
    have := c.utf8Size_pos
    omega

/-- Reading goes on to the place of an edit. -/
theorem slice?_eq (h : Reached source es s before) (hs : source = before ++ mid ++ after) :
    slice? s.position (byteLength (before ++ mid)) source = some mid := by
  rw [h.position_eq]
  exact slice?_of_append hs

/-! ### An insertion -/

theorem spans_concat_insertion (es : List Edit) (n : Nat) (text : List Char) :
    spans (es ++ [.insertion n text]) = spans es := by
  simp [spans]

theorem insertedAt_concat_insertion (es : List Edit) (n m : Nat) (text : List Char) :
    insertedAt (es ++ [.insertion n text]) m = insertedAt es m ++ if n = m then text else [] := by
  simp [insertedAt]

/-- **An insertion after a brace is made**, and nothing is lost. -/
theorem insertion {n : Nat} (h : Reached source es s before)
    (hs : source = before ++ mid ++ '\x7d' :: after) (hn : n = byteLength (before ++ mid) + 1)
    (ht : text.getLast? = some '\x7d') :
    (slice? s.position n source).isSome = true
      ∧ Reached source (es ++ [.insertion n text]) (s.edit source (.insertion n text))
        (before ++ mid ++ ['\x7d']) := by
  have hlen : byteLength (before ++ mid ++ ['\x7d']) = n := by
    rw [byteLength_append, hn]
    rfl
  have hs' : source = before ++ mid ++ ['\x7d'] ++ after := by
    rw [hs, List.append_assoc _ ['\x7d']]
    rfl
  have hslice : slice? s.position n source = some (mid ++ ['\x7d']) := by
    rw [← hlen, List.append_assoc before]
    exact h.slice?_eq (by rw [hs', List.append_assoc before])
  have hedit : s.edit source (.insertion n text) = ⟨s.written ++ (mid ++ ['\x7d']) ++ text, n⟩ := by
    rw [Splice.edit, Edit.position, hslice]
  have hle : byteLength before ≤ byteLength (before ++ mid) := by
    rw [byteLength_append]
    omega
  -- What the edits put in is the same up to the brace, and the new text after it.
  have hold : ∀ o, o < n → insertedAt (es ++ [.insertion n text]) o = insertedAt es o := by
    intro o ho
    rw [insertedAt_concat_insertion, if_neg (by omega), List.append_nil]
  have hnew : insertedAt (es ++ [.insertion n text]) n = text := by
    rw [insertedAt_concat_insertion, if_pos rfl, h.inserted_eq_nil (by omega), List.nil_append]
  have hkeep : removedBy source (spans es) (byteLength (before ++ mid)) = false :=
    h.removed_eq_false hle
  have hmark : marked (removedBy source (spans es)) (insertedAt (es ++ [.insertion n text])) 0
      (before ++ mid) = s.written ++ mid := by
    rw [← h.marked_append mid]
    refine marked_congr fun o c hc => ⟨rfl, hold _ ?_⟩
    have := (le_of_mem_located hc).2
    omega
  have hbrace : byteLength (before ++ mid) + ('\x7d' : Char).utf8Size = n := hn.symm
  refine ⟨by rw [hslice]; rfl, ⟨after, hs'⟩, by rw [hedit, hlen], ?_, ?_, ?_, ?_⟩
  · rw [hedit, spans_concat_insertion, marked_concat, hmark, hkeep, hbrace, hnew]
    simp
  · intro o ho
    rw [spans_concat_insertion] at ho
    have := h.removed_lt o ho
    omega
  · intro o ho
    rw [hlen]
    by_contra hlt
    rw [insertedAt_concat_insertion, if_neg (by omega), List.append_nil] at ho
    have := h.inserted_le o ho
    omega
  · intro o c hc hi
    rw [spans_concat_insertion]
    rw [located_append, List.mem_append] at hc
    rcases hc with hc | hc
    · have := (le_of_mem_located hc).2
      rw [hold _ (by omega)] at hi ⊢
      exact h.anchored_append mid o c hc hi
    · simp only [Nat.zero_add, located, List.mem_singleton, Prod.mk.injEq] at hc
      obtain ⟨rfl, rfl⟩ := hc
      rw [hbrace, hnew]
      exact ⟨rfl, hkeep, ht⟩

/-! ### A removal -/

theorem spans_concat_removal (es : List Edit) (a : Span) :
    spans (es ++ [.removal a]) = spans es ++ [a] := by
  simp [spans]

theorem insertedAt_concat_removal (es : List Edit) (a : Span) (n : Nat) :
    insertedAt (es ++ [.removal a]) n = insertedAt es n := by
  simp [insertedAt]

theorem removedBy_concat (source : List Char) (as : List Span) (a : Span) (o : Nat) :
    removedBy source (as ++ [a]) o
      = (removedBy source as o || Removal.removal source (removedBy source as) a o) := by
  rw [removedBy, List.foldl_append]
  rfl

variable {a : Span} {attr b e rest : List Char}

/-- **A removal is made**, with its whole line or without. -/
theorem edit_removal (h : Reached source es s before)
    (ha : AttributeAt source a (before ++ mid) attr b e rest) :
    slice? s.position a.start source = some mid
      ∧ s.edit source (.removal a) =
        if takesLine (removedBy source (spans es)) source a then
          ⟨marked (withBlanks (removedBy source (spans es)) (before ++ mid)) (insertedAt es) 0
            (before ++ mid), byteLength (before ++ mid ++ attr ++ b) + byteLength e⟩
        else ⟨s.written ++ mid, byteLength (before ++ mid ++ attr ++ b)⟩ := by
  have hslice : slice? s.position a.start source = some mid := by
    rw [ha.start_eq]
    have hs : source = before ++ mid ++ (attr ++ (b ++ (e ++ rest))) := by
      rw [ha.source_eq, List.append_assoc (before ++ mid)]
    exact h.slice?_eq hs
  have hdrop := dropIndent?_marked (h.anchored_append mid)
  rw [h.marked_append mid] at hdrop
  refine ⟨hslice, ?_⟩
  rw [Splice.edit, Edit.position, hslice]
  dsimp only
  have hafter : a.stop + byteLength b = byteLength (before ++ mid ++ attr ++ b) := by
    rw [ha.stop_eq, byteLength_append _ b]
  rw [Splice.skipAttribute, ← textFrom, ha.textFrom_stop, ← ha.blanks_eq, ha.tail_eq,
    ← ha.lineEnd_eq, hdrop, hafter, ha.takesLine_eq]
  by_cases hb : ((keptFrom (removedBy source (spans es)) (before ++ mid) 0).reverse.takeWhile
      (· != '\n')).all isInlineSpace = true
  · by_cases he : 0 < byteLength e <;> simp [hb, he]
  · simp [hb]

/-- What an attribute covers and takes along after it. -/
def taken (source : List Char) (es : List Edit) (a : Span) (attr b e : List Char) : List Char :=
  attr ++ b ++ if takesLine (removedBy source (spans es)) source a then e else []

theorem lt_taken_iff {o : Nat} {front : List Char} (source : List Char) (es : List Edit) (a : Span)
    (attr b e : List Char) : o < byteLength (front ++ taken source es a attr b e) ↔
      o < byteLength (front ++ attr ++ b)
        ∨ takesLine (removedBy source (spans es)) source a = true
          ∧ o < byteLength (front ++ attr ++ b) + byteLength e := by
  unfold taken
  split
  case isTrue hl =>
    simp only [byteLength_append, hl, true_and]
    omega
  case isFalse hl => simp [hl, Nat.add_assoc]

/-- The blanks and the line end that an attribute takes along are no place for the next edit. -/
theorem spaced_taken {front : List Char} {es' : List Edit}
    (ha : AttributeAt source a front attr b e rest) (hg : ∀ c ∈ b ++ e, isGap c = true)
    (hes : Spaced source a.stop es') :
    Spaced source (byteLength (front ++ taken source es a attr b e)) es' := by
  have hs := ha.source_eq
  rw [taken, ← List.append_assoc, ← List.append_assoc, List.append_assoc (front ++ attr)]
  split
  · refine Spaced.after_gap (s := rest) hes ha.stop_eq ?_ hg
    rw [hs, List.append_assoc (front ++ attr), List.append_assoc b]
  · refine Spaced.after_gap (s := e ++ rest) hes ha.stop_eq ?_ fun c hc => hg c ?_
    · rw [hs, List.append_nil, List.append_assoc (front ++ attr)]
    · rw [List.append_nil] at hc
      exact List.mem_append_left _ hc

/-- What an attribute covers and takes along after it is removed with it. -/
theorem marked_taken (h : Reached source es s before)
    (ha : AttributeAt source a (before ++ mid) attr b e rest) :
    marked (removedBy source (spans es ++ [a])) (insertedAt es) (byteLength (before ++ mid))
      (taken source es a attr b e) = [] := by
  refine marked_of_removed (fun o ho ho' => ?_) fun o ho _ => h.inserted_eq_nil ?_
  · rw [← byteLength_append, lt_taken_iff] at ho'
    rw [removedBy_concat]
    by_cases hb : o < byteLength (before ++ mid ++ attr ++ b)
    · rw [ha.removal_inside ho hb, Bool.or_true]
    · obtain ⟨hl, ho'⟩ := ho'.resolve_left hb
      rw [ha.removal_lineEnd (by omega) ho', hl, Bool.or_true]
  · rw [byteLength_append] at ho
    omega

/-- Before an attribute, its removal marks the blanks of the line that it takes along. -/
theorem marked_front (h : Reached source es s before)
    (ha : AttributeAt source a (before ++ mid) attr b e rest) :
    marked (removedBy source (spans es ++ [a])) (insertedAt es) 0 (before ++ mid)
      = if takesLine (removedBy source (spans es)) source a then
          marked (withBlanks (removedBy source (spans es)) (before ++ mid)) (insertedAt es) 0
            (before ++ mid)
        else s.written ++ mid := by
  rw [← h.marked_append mid]
  split
  case isTrue hl =>
    refine marked_congr fun o c hc => ⟨?_, rfl⟩
    have ho := lt_of_mem_located hc
    rw [Nat.zero_add] at ho
    rw [removedBy_concat, ha.removal_before ho, withBlanks, hl, decide_eq_true ho]
  case isFalse hl =>
    rw [Bool.not_eq_true] at hl
    refine marked_congr fun o c hc => ⟨?_, rfl⟩
    have ho := lt_of_mem_located hc
    rw [Nat.zero_add] at ho
    rw [removedBy_concat, ha.removal_before ho, hl, Bool.false_and, Bool.or_false]

/-- What is put in stays anchored when an attribute is removed: the brace it stands after is no
blank. -/
theorem anchored_taken (h : Reached source es s before)
    (ha : AttributeAt source a (before ++ mid) attr b e rest) :
    Anchored (removedBy source (spans es ++ [a])) (insertedAt es)
      (before ++ mid ++ taken source es a attr b e) := by
  intro o c hc hi
  rw [located_append, List.mem_append] at hc
  rcases hc with hc | hc
  · obtain ⟨rfl, hr, ht⟩ := h.anchored_append mid o c hc hi
    have ho := lt_of_mem_located hc
    rw [Nat.zero_add] at ho
    have hink : (keptFrom (removedBy source (spans es)) (before ++ mid) o).all isInlineSpace
        = false := by
      rw [List.all_eq_false]
      exact ⟨'\x7d', mem_keptFrom hc hr, by decide⟩
    refine ⟨rfl, ?_, ht⟩
    rw [removedBy_concat, hr, ha.removal_before ho, hink, Bool.and_false, Bool.or_false]
  · have hle := (le_of_mem_located hc).1
    have := h.inserted_le _ hi
    have := c.utf8Size_pos
    rw [byteLength_append] at hle
    omega

/-- **A removal leaves the invariant.** -/
theorem removal (h : Reached source es s before)
    (ha : AttributeAt source a (before ++ mid) attr b e rest) :
    Reached source (es ++ [.removal a]) (s.edit source (.removal a))
      (before ++ mid ++ taken source es a attr b e) := by
  have hfront : byteLength before ≤ byteLength (before ++ mid) := by
    rw [byteLength_append]
    omega
  have hle : byteLength (before ++ mid)
      ≤ byteLength (before ++ mid ++ taken source es a attr b e) := by
    rw [byteLength_append (before ++ mid)]
    omega
  constructor
  case source_eq =>
    have hs := ha.source_eq
    rw [taken]
    split
    · exact ⟨rest, by rw [hs]; simp only [List.append_assoc]⟩
    · exact ⟨e ++ rest, by rw [hs]; simp only [List.append_assoc, List.append_nil]⟩
  case position_eq =>
    rw [(h.edit_removal ha).2, taken]
    split <;> simp [Nat.add_assoc]
  case written_eq =>
    have hi : insertedAt (es ++ [.removal a]) = insertedAt es :=
      funext fun n => insertedAt_concat_removal es a n
    have hcut : marked (removedBy source (spans es ++ [a])) (insertedAt es) 0
        (before ++ mid ++ taken source es a attr b e)
        = marked (removedBy source (spans es ++ [a])) (insertedAt es) 0 (before ++ mid) := by
      rw [Removal.marked_append, Nat.zero_add, h.marked_taken ha, List.append_nil]
    rw [(h.edit_removal ha).2, spans_concat_removal, hi, hcut, h.marked_front ha]
    split <;> rfl
  case removed_lt =>
    intro o ho
    rw [spans_concat_removal, removedBy_concat, Bool.or_eq_true] at ho
    rcases ho with ho | ho
    · have := h.removed_lt o ho
      omega
    · rw [lt_taken_iff]
      exact ha.lt_of_removal ho
  case inserted_le =>
    intro n hn
    rw [insertedAt_concat_removal] at hn
    have := h.inserted_le n hn
    omega
  case anchored =>
    have hi : insertedAt (es ++ [.removal a]) = insertedAt es :=
      funext fun n => insertedAt_concat_removal es a n
    rw [spans_concat_removal, hi]
    exact h.anchored_taken ha

/-- What is made of all edits of a list is made of the first and of all others. -/
theorem isMade_cons {e : Edit} {es' : List Edit} (he : isMade source s e = true)
    (hes : ∀ es₁ e' es₂, es' = es₁ ++ e' :: es₂ →
      isMade source (es₁.foldl (Splice.edit source) (s.edit source e)) e' = true) :
    ∀ es₁ e' es₂, e :: es' = es₁ ++ e' :: es₂ →
      isMade source (es₁.foldl (Splice.edit source) s) e' = true := by
  intro es₁ e' es₂ h
  cases es₁ with
  | nil =>
    obtain ⟨rfl, -⟩ := List.cons.inj h
    exact he
  | cons e₁ es₁ =>
    obtain ⟨rfl, rfl⟩ := List.cons.inj h
    exact hes es₁ e' es₂ rfl

/-- **Edits that reach forward are all made**, one after the other. -/
theorem run {es' : List Edit} (h : Reached source es s before)
    (hes : Spaced source (byteLength before) es') :
    (∃ before', Reached source (es ++ es') (es'.foldl (Splice.edit source) s) before')
      ∧ ∀ es₁ e es₂, es' = es₁ ++ e :: es₂ →
        isMade source (es₁.foldl (Splice.edit source) s) e = true := by
  induction es' generalizing es s before with
  | nil => exact ⟨⟨before, by simpa using h⟩, fun es₁ e es₂ he => by simp at he⟩
  | cons e' es' ih =>
    obtain ⟨after', ha⟩ := h.source_eq
    cases hes with
    | @insertion _ b after text _ hs hle ht hes =>
      obtain ⟨mid, rfl, -⟩ := exists_append_of_le (ha.symm.trans hs) hle
      obtain ⟨hmade, hreached⟩ := h.insertion hs rfl ht
      have hnext : byteLength (before ++ mid) + 1 = byteLength (before ++ mid ++ ['\x7d']) := by
        rw [byteLength_append _ ['\x7d']]
        rfl
      obtain ⟨hrun, hall⟩ := ih hreached (hnext ▸ hes)
      exact ⟨by simpa using hrun, isMade_cons hmade hall⟩
    | @removal _ b text after _ hs hle hes =>
      have hs' := hs
      rw [List.append_assoc] at hs'
      obtain ⟨mid, rfl, -⟩ := exists_append_of_le (ha.symm.trans hs') hle
      obtain ⟨blanks, e, rest, hgap, hat⟩ := exists_attributeAt hs
      rw [byteLength_append _ ('@' :: text)] at hat
      obtain ⟨hrun, hall⟩ := ih (h.removal hat) (spaced_taken hat hgap hes)
      refine ⟨by simpa using hrun, isMade_cons ?_ hall⟩
      rw [isMade, Edit.position, (h.edit_removal hat).1]
      rfl

/-- What is left of the source is copied as it is. -/
theorem finish_eq (h : Reached source es s before) :
    s.finish source = marked (removedBy source (spans es)) (insertedAt es) 0 source := by
  obtain ⟨after, rfl⟩ := h.source_eq
  rw [Splice.finish, h.position_eq, drop?_byteLength_append, h.marked_append]
  rfl

end Reached

/-- **No edit is skipped** when all reach forward. -/
theorem isMade_of_spaced {source : List Char} {es₁ es₂ : List Edit} {e : Edit}
    (h : Spaced source 0 (es₁ ++ e :: es₂)) :
    isMade source (es₁.foldl (Splice.edit source) .start) e = true :=
  ((Reached.start source).run h).2 es₁ e es₂ rfl

/-- **The edited text is the marked one** when all edits reach forward. -/
theorem applyEdits_of_spaced {source : List Char} {es : List Edit} (h : Spaced source 0 es) :
    applyEdits source es = marked (removedBy source (spans es)) (insertedAt es) 0 source := by
  obtain ⟨before, hr⟩ := ((Reached.start source).run h).1
  exact hr.finish_eq

/-- What edits that reach forward put in stands after closing braces that are left. -/
theorem anchored_of_spaced {source : List Char} {es : List Edit} (h : Spaced source 0 es) :
    Anchored (removedBy source (spans es)) (insertedAt es) source := by
  obtain ⟨before, hr⟩ := ((Reached.start source).run h).1
  obtain ⟨after, hs⟩ := hr.source_eq
  have ha := hr.anchored_append after
  rwa [← hs] at ha

/-- An insertion stands behind a closing brace. -/
theorem Spaced.exists_brace {source text : List Char} {m n : Nat} {es : List Edit}
    (h : Spaced source m es) (he : .insertion n text ∈ es) : ∃ before after,
      source = before ++ '\x7d' :: after ∧ n = byteLength before + 1 ∧ text ≠ [] := by
  induction h with
  | nil => cases he
  | @insertion m before after text' es hs hn ht hes ih =>
    rcases List.mem_cons.mp he with heq | he
    · obtain ⟨rfl, rfl⟩ := Edit.insertion.inj heq
      refine ⟨before, after, hs, rfl, ?_⟩
      rintro rfl
      cases ht
    · exact ih he
  | removal hs hn hes ih =>
    rcases List.mem_cons.mp he with heq | he
    · cases heq
    · exact ih he

/-- **The brace behind which an insertion stands is left** when all edits reach forward. -/
theorem removedBy_brace_of_spaced {source before after text : List Char} {es : List Edit}
    (h : Spaced source 0 es) (he : .insertion (byteLength before + 1) text ∈ es)
    (hs : source = before ++ '\x7d' :: after) :
    removedBy source (spans es) (byteLength before) = false := by
  obtain ⟨_, _, -, -, htext⟩ := h.exists_brace he
  have hi : insertedAt es (byteLength before + 1) ≠ [] := by
    intro hnil
    have := List.flatMap_eq_nil_iff.mp hnil _ he
    exact htext (by simpa using this)
  refine (anchored_of_spaced h (byteLength before) '\x7d' ?_ hi).2.1
  rw [hs]
  simp [located_append, located]

end Removal

end Memberwise
