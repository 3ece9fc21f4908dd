import Memberwise.Proofs.Declaration.Stretches
import Memberwise.Proofs.Token.Partition

/-!
# Proofs/Declaration/Nesting — the spans of a file form a tree

Counted in tokens, the declarations of a list cover stretches one after the other.  A declaration's
attributes, modifiers and bindings stand in order inside its stretch, and the stretches of its
members stand between the two braces inside it, whether or not something in the block is wrong
(`Cursor.Nested`).  What stands between two declarations is a matter of the errors: without any it
is line ends, semicolons and directives (`Cursor.Gap`).

* `declarations_nested` — **what is read is nested**;
* `Reading.ofSource_wellNested` — so **the spans of every file form a tree over its tokens**, and if
  nothing is wrong each token of the file is in exactly one of its declarations or on the line of a
  directive.
-/

namespace Memberwise

open Text Token

/-! ## Lines -/

/-- The tokens stay on one line: no line end or semicolon stands outside the brackets, of which
`depth` are open before them, and none of them closes a bracket from before. -/
def IsOneLine : (depth : Nat) → List Token → Prop
  | _, [] => True
  | depth, t :: ts =>
    if t.kind.isOpen then IsOneLine (depth + 1) ts
    else if t.kind.isClose then 0 < depth ∧ IsOneLine (depth - 1) ts
    else (depth = 0 → t.kind ≠ .newline ∧ t.kind ≠ .semicolon) ∧ IsOneLine depth ts

/-- A group stays on the line that it is opened on. -/
theorem isOneLine_of_groupLength? {depth n : Nat} {ts us : List Token}
    (h : groupLength? depth ts = some n) (hus : IsOneLine 0 us) :
    IsOneLine (depth + 1) (ts.take n ++ us) := by
  fun_induction groupLength? depth ts generalizing n with
  | case1 => cases h
  | case2 depth t ts ho ih =>
    obtain ⟨m, hm, rfl⟩ := Option.map_eq_some_iff.mp h
    rw [List.take_succ_cons, List.cons_append, IsOneLine, if_pos ho]
    exact ih hm
  | case3 t ts ho hc =>
    obtain rfl := Option.some.inj h
    rw [List.take_succ_cons, List.cons_append, IsOneLine, if_neg ho, if_pos hc, List.take_zero]
    exact ⟨Nat.zero_lt_one, hus⟩
  | case4 t ts ho hc depth ih =>
    obtain ⟨m, hm, rfl⟩ := Option.map_eq_some_iff.mp h
    rw [List.take_succ_cons, List.cons_append, IsOneLine, if_neg ho, if_pos hc]
    exact ⟨Nat.succ_pos _, ih hm⟩
  | case5 depth t ts ho hc ih =>
    obtain ⟨m, hm, rfl⟩ := Option.map_eq_some_iff.mp h
    rw [List.take_succ_cons, List.cons_append, IsOneLine, if_neg ho, if_neg hc]
    exact ⟨fun h => absurd h (Nat.succ_ne_zero _), ih hm⟩

theorem lineStride_eq_pass {c : Cursor} {m : Nat} (h : lineStride c = .pass m) : m = 0
    ∧ (c.kind ≠ .newline ∧ c.kind ≠ .semicolon) ∧ ¬c.kind.isClose = true ∧ ¬c.kind.isOpen = true := by
  unfold lineStride at h
  split at h
  case h_4 hend hnewline hsemicolon =>
    split at h
    · cases h
    · split at h
      · cases h
      · cases h
        exact ⟨rfl, ⟨hnewline, hsemicolon⟩, ‹_›, ‹_›⟩
  all_goals cases h

theorem lineStride_eq_group {c : Cursor} (h : lineStride c = .group) : c.kind.isOpen = true := by
  unfold lineStride at h
  split at h
  case h_4 =>
    split at h
    · cases h
    · split at h
      · assumption
      · cases h
  all_goals cases h

/-- **The rest of a line stays on it.** -/
theorem isOneLine_of_restOfLine {c : Cursor} {n : Nat} {u : Unit}
    (h : Parser.restOfLine c = ⟨.ok u, n⟩) : IsOneLine 0 (c.rest.take n) := by
  rw [Parser.restOfLine] at h
  fun_induction Parser.stretch lineStride c generalizing n with
  | case1 c hr =>
    rw [hr, List.take_nil]
    trivial
  | case2 c t ts hr hs =>
    cases h
    trivial
  | case3 c t ts hr m hs ih =>
    obtain ⟨hres, rfl⟩ := Outcome.mk.inj h
    have hlater := ih (n := (Parser.stretch lineStride (c.skip (m + 1))).taken) (by rw [← hres])
    obtain ⟨rfl, hend, hc, ho⟩ := lineStride_eq_pass hs
    rw [Cursor.kind, Cursor.current_of_rest hr] at hend hc ho
    rw [Cursor.rest_skip, hr, Nat.zero_add, List.drop_one, List.tail_cons] at hlater
    rw [hr, Nat.zero_add, Nat.add_comm, List.take_succ_cons, IsOneLine, if_neg ho, if_neg hc]
    exact ⟨fun _ => hend, hlater⟩
  | case4 c t ts hr hs m hm ih =>
    obtain ⟨hres, rfl⟩ := Outcome.mk.inj h
    have hlater := ih (n := (Parser.stretch lineStride (c.skip (m + 1))).taken) (by rw [← hres])
    have ho := lineStride_eq_group hs
    rw [Cursor.kind, Cursor.current_of_rest hr] at ho
    rw [Cursor.rest_skip, hr, List.drop_succ_cons] at hlater
    rw [hr, Nat.add_right_comm, List.take_succ_cons, IsOneLine, if_pos ho, List.take_add]
    exact isOneLine_of_groupLength? hm hlater
  | case5 => cases h

namespace Cursor

variable {c : Cursor} {k m n : Nat} {failed : Prop} {ds : List Declaration}

/-- What may stand between two declarations: something wrong, line ends and semicolons, or the line
of a directive. -/
inductive Gap (c : Cursor) (failed : Prop) (i j : Nat) : Prop
  | failed (h : failed)
  | separators (h : ∀ k, i ≤ k → k < j → (c.skip k).kind = .newline ∨ (c.skip k).kind = .semicolon)
  | directive (hk : (c.skip i).kind = .hash) (h : IsOneLine 0 ((c.skip i).rest.take (j - i)))

theorem Gap.of_skip {i j : Nat} (h : (c.skip k).Gap failed i j) : c.Gap failed (k + i) (k + j) := by
  cases h with
  | failed h => exact .failed h
  | separators h =>
    refine .separators fun l hi hj => ?_
    obtain ⟨l, rfl⟩ := Nat.exists_eq_add_of_le (Nat.le_trans (Nat.le_add_right k i) hi)
    have := h l (by omega) (by omega)
    rwa [skip_skip] at this
  | directive hk h =>
    rw [skip_skip] at hk h
    exact .directive hk (by rwa [Nat.add_sub_add_left])

/-- The line ends and semicolons that come next. -/
theorem gap_separators (c : Cursor) (failed : Prop) : c.Gap failed 0 c.separators := by
  refine .separators fun k _ hk => ?_
  rw [Cursor.separators, countWhile] at hk
  have hfront := List.takeWhile_prefix (fun t : Token => t.kind == .newline || t.kind == .semicolon)
    (l := c.rest)
  have hlt : k < c.rest.length := Nat.lt_of_lt_of_le hk hfront.length_le
  have hmem := List.mem_takeWhile_imp (List.getElem_mem hk)
  rw [hfront.getElem hk, ← current_skip_eq hlt, Bool.or_eq_true, beq_iff_eq, beq_iff_eq] at hmem
  exact hmem

/-- Declarations whose stretches stand one after the other between two places, with gaps between
them, and in the block of each its members. -/
inductive Nested (c : Cursor) (failed : Prop) : Nat → List Declaration → Nat → Prop
  | nil {m : Nat} : Nested c failed m [] m
  | gap {m k n : Nat} {ds : List Declaration} (hm : m ≤ k) (h : c.Gap failed m k)
      (hds : Nested c failed k ds n) : Nested c failed m ds n
  | line {m j n : Nat} {d : Declaration} {ds : List Declaration} (ht : d.kind.isType = false)
      (hd : d.members = none) (hs : d.span = c.cover m j) (hm : m < c.rest.length) (hj : m < j)
      (hp : c.Series m d.headSpans j) (hds : Nested c failed j ds n) : Nested c failed m (d :: ds) n
  | block {m i j n : Nat} {d : Declaration} {members ds : List Declaration}
      (ht : d.kind.isType = true) (hd : d.members = some members) (hs : d.span = c.cover m (j + 1))
      (hp : c.Series m d.headSpans i) (ho : (c.skip i).kind = .leftBrace)
      (hmembers : Nested c failed (i + 1) members j) (hc : (c.skip j).kind = .rightBrace)
      (hds : Nested c failed (j + 1) ds n) : Nested c failed m (d :: ds) n

namespace Nested

theorem le (h : c.Nested failed m ds n) : m ≤ n := by
  induction h with
  | nil => exact Nat.le_refl _
  | gap hm _ _ ih => exact Nat.le_trans hm ih
  | line _ _ _ _ hj _ _ ih => omega
  | block _ _ _ hp _ _ _ _ ih ih' =>
    have := hp.le
    omega

theorem of_skip (h : (c.skip k).Nested failed m ds n) : c.Nested failed (k + m) ds (k + n) := by
  induction h with
  | nil => exact .nil
  | gap hm h _ ih => exact .gap (Nat.add_le_add_left hm k) h.of_skip ih
  | line ht hd hs hm hj hp _ ih =>
    rw [cover_skip] at hs
    rw [length_rest_skip] at hm
    exact .line ht hd hs (by omega) (Nat.add_lt_add_left hj k) hp.of_skip ih
  | block ht hd hs hp ho _ hc _ ih ih' =>
    rw [cover_skip] at hs
    rw [skip_skip] at ho hc
    exact .block ht hd hs hp.of_skip ho ih hc ih'

end Nested

end Cursor

namespace Parser

variable {c : Cursor} {n : Nat}

theorem taken_of_modifiers_eq_nil (h : c.modifiers.1 = []) : c.modifiers.2 = 0 := by
  rw [Cursor.modifiers.eq_def] at h ⊢
  split at h
  case h_1 => rfl
  case h_2 => split at h <;> first | rfl | cases h

/-- A directive is the rest of the line that begins with its mark. -/
theorem head_eq_directive (h : head c = ⟨.ok .directive, n⟩) :
    c.kind = .hash ∧ 0 < n ∧ restOfLine c = ⟨.ok (), n⟩ := by
  obtain ⟨as, k, m, l, has, hm, hrest, rfl⟩ := head_eq_ok h
  have hpos := (hrest.isReady (by simp)).1
  cases hrest with
  | directive has' hms hk hline =>
    subst has'
    cases attributes_eq_ok has
    rw [Cursor.skip_zero] at hm hms
    rw [taken_of_modifiers_eq_nil hms, Nat.zero_min] at hm
    subst hm
    simp only [Nat.zero_add, Cursor.skip_zero] at hk hline ⊢
    exact ⟨hk, hpos, hline⟩

/-- A declaration with a block covers all up to the end of the block. -/
theorem span_of_head_block {d : Declaration} {k : Nat} (hc : c.IsLaid)
    (h : head c = ⟨.ok (.type d), n⟩) (hk : k < c.rest.length) :
    d.span.merge (c.skip k).span = c.cover 0 (k + 1) := by
  rw [span_of_head_type h, ← Cursor.previousSpan_skip_succ hk,
    hc.merge_previousSpan (headSeries_of_head hc h rfl).rest_ne_nil (Nat.succ_pos k)]

end Parser

/-- **What is read is nested**, and if it is read without errors only line ends, semicolons and
directives stand between the declarations. -/
theorem declarations_nested (inBlock : Bool) {c : Cursor} (hc : c.IsLaid) {failed : Prop}
    (hf : (declarations inBlock c).errors ≠ [] → failed) : c.Nested failed 0
      (declarations inBlock c).declarations (declarations inBlock c).taken := by
  revert hc hf
  refine declarations_induction (P := fun _ c p => c.IsLaid → (p.errors ≠ [] → failed) →
    c.Nested failed 0 p.declarations p.taken) ?_ inBlock c
  intro inBlock c p hround ih hc hf
  have hsep := c.gap_separators failed
  -- What is read after a round is nested behind it.
  have hlater : ∀ {k : Nat}, (c.skip k).rest.length < c.rest.length →
      ((declarations inBlock (c.skip k)).errors ≠ [] → failed) →
      c.Nested failed k (declarations inBlock (c.skip k)).declarations
        (k + (declarations inBlock (c.skip k)).taken) :=
    fun {k} hk hf => (ih inBlock (c.skip k) hk (hc.skip k) hf).of_skip
  cases hround with
  | done => exact .gap (Nat.zero_le _) hsep .nil
  | failed he hn =>
    have hfailed := hf (List.append_ne_nil_of_left_ne_nil he _)
    exact .gap (Nat.zero_le _) (.failed hfailed) (hlater hn fun _ => hfailed)
  | @directive n h hn =>
    obtain ⟨hk, hpos, hline⟩ := Parser.head_eq_directive h
    rw [Nat.max_eq_right hpos] at hn hf ⊢
    have hgap : c.Gap failed c.separators (c.separators + n) := .directive hk (by
      rw [Nat.add_sub_cancel_left]
      exact isOneLine_of_restOfLine hline)
    exact .gap (Nat.zero_le _) hsep (.gap (Nat.le_add_right _ _) hgap (hlater hn hf))
  | @complete d n h hn =>
    have hl := hc.skip c.separators
    have hseries := Parser.headSeries_of_head hl h rfl
    obtain ⟨hspan, hmembers⟩ := Parser.span_of_head_complete hl h
    have hr := List.length_pos_iff.mpr hseries.rest_ne_nil
    rw [Cursor.length_rest_skip] at hr
    have hpos := hseries.taken_pos
    rw [Nat.max_eq_right hpos] at hn hf ⊢
    rw [Cursor.cover_skip] at hspan
    exact .gap (Nat.zero_le _) hsep (.line hseries.isType_eq hmembers hspan (by omega) (by omega)
      hseries.series.of_skip (hlater hn hf))
  | @block d n m inner h ho hi hm hclose hn hn' =>
    have hl := hc.skip c.separators
    have hseries := Parser.headSeries_of_head hl h rfl
    have hinner := (ih true _ hn (hc.skip _) fun he => hf (by
      rw [← hi] at he
      exact List.append_ne_nil_of_left_ne_nil he _)).of_skip
    rw [← hi, ← hm] at hinner
    have hspan : d.span.merge (c.skip m).span = c.cover c.separators (m + 1) := by
      have hlt := Cursor.lt_length_of_kind (c := c) (k := m) (by rw [hclose]; decide)
      obtain ⟨k, rfl⟩ := Nat.exists_eq_add_of_le (show c.separators ≤ m by omega)
      have hblock := Parser.span_of_head_block hl h (k := k) (by rw [Cursor.length_rest_skip]; omega)
      rwa [Cursor.skip_skip, Cursor.cover_skip, Nat.add_zero] at hblock
    exact .gap (Nat.zero_le _) hsep (.block hseries.isType_eq rfl hspan hseries.series.of_skip ho
      hinner hclose (hlater hn' fun he => hf (List.append_ne_nil_of_right_ne_nil _ he)))

/-! ## The tree of spans -/

/-- The spans of what stands in a declaration: attributes, modifiers, bindings and members. -/
def Declaration.partSpans (d : Declaration) : List Span :=
  d.headSpans ++ (d.members.getD []).map (·.span)

/-- A block with its braces: what stands before it, its members in it, and the declaration that ends
with it. -/
structure Declaration.IsEnclosed (tokens : List Token) (d : Declaration) (members : List Declaration)
    (opening closing : Token) : Prop where
  opening_mem : opening ∈ tokens
  opening_kind : opening.kind = .leftBrace
  closing_mem : closing ∈ tokens
  closing_kind : closing.kind = .rightBrace
  head_stop_le : ∀ s ∈ d.headSpans, s.stop ≤ opening.span.start
  opening_stop_le : opening.span.stop ≤ closing.span.start
  le_member : ∀ m ∈ members, opening.span.stop ≤ m.span.start
  member_le : ∀ m ∈ members, m.span.stop ≤ closing.span.start
  stop_eq : d.span.stop = closing.span.stop

/-- What stands in a declaration stands in order inside its span, and every span begins and ends with
a token. -/
structure Declaration.IsNested (tokens : List Token) (d : Declaration) : Prop where
  span_isCut : d.span.IsCut tokens
  part_isCut : ∀ s ∈ d.partSpans, s.IsCut tokens
  part_contained : ∀ s ∈ d.partSpans, d.span.Contains s
  parts_ordered : d.partSpans.Pairwise fun s t => s.stop ≤ t.start
  /-- A type has a block, and nothing else has. -/
  isSome_members : d.members.isSome = d.kind.isType
  exists_braces : ∀ members, d.members = some members →
    ∃ opening closing, d.IsEnclosed tokens members opening closing

/-- A token stands on a line of a directive, which a `#` outside all declarations begins and which
goes on to the first line end or semicolon outside its brackets. -/
def OnDirectiveLine (tokens : List Token) (ds : List Declaration) (t : Token) : Prop :=
  ∃ before line after hash, tokens = before ++ (hash :: line) ++ after ∧ hash.kind = .hash
    ∧ IsOneLine 0 (hash :: line) ∧ t ∈ hash :: line ∧ ∀ d ∈ ds, ¬d.span.Contains hash.span

/-- Every token but line ends, semicolons and the end of the text is in exactly one declaration, or in
none and on a line of a directive. -/
def Reading.IsCovered (r : Reading) : Prop :=
  ∀ t ∈ r.lexed.tokens.toList, t.kind ≠ .newline → t.kind ≠ .semicolon → t.kind ≠ .endOfFile →
    r.file.declarations.countP (·.span.Contains t.span) = 1
      ∨ r.file.declarations.countP (·.span.Contains t.span) = 0
        ∧ OnDirectiveLine r.lexed.tokens.tokens r.file.declarations t

/-- What the spans of a text have to be. -/
structure Reading.IsWellNested (r : Reading) : Prop where
  /-- The declarations come in the order of the source, none reaching into the next. -/
  declarations_ordered : r.file.declarations.Pairwise fun d e => d.span.stop ≤ e.span.start
  /-- So do the members of a declaration, at every depth, behind what else stands in it. -/
  nested : ∀ d ∈ allWithDescendants r.file.declarations, d.IsNested r.lexed.tokens.tokens
  covered : r.file.errors = [] → r.IsCovered

namespace Cursor

variable {c : Cursor} {k m n : Nat} {failed : Prop} {ds : List Declaration}

/-- A declaration whose parts stand in a series over its stretch is nested if its block is. -/
theorem Series.isNested {d : Declaration} (h : c.Series m d.partSpans n) (hc : c.IsLaid)
    (hs : d.span = c.cover m n) (hm : m < c.rest.length) (hn : m < n)
    (hmembers : d.members.isSome = d.kind.isType)
    (hbraces : ∀ members, d.members = some members →
      ∃ opening closing, d.IsEnclosed c.rest members opening closing) : d.IsNested c.rest where
  span_isCut := hs ▸ hc.isCut_cover hn hm
  part_isCut _ := h.isCut hc
  part_contained _ hp := hs ▸ h.contains hc hp
  parts_ordered := h.pairwise hc
  isSome_members := hmembers
  exists_braces := hbraces

namespace Nested

/-- Nested declarations stand in a series. -/
theorem series (h : c.Nested failed m ds n) : c.Series m (ds.map (·.span)) n := by
  induction h with
  | nil => exact .nil (Nat.le_refl _)
  | gap hm _ _ ih => exact ih.of_le hm
  | line _ _ hs hm hj _ _ ih =>
    rw [List.map_cons, hs]
    exact .cons (Nat.le_refl _) hj hm ih
  | @block m i j n d members ds ht hd hs hp ho hmembers hclose hds ih ih' =>
    have hij := hmembers.le
    have hi := hp.le
    have hlt := lt_length_of_kind (c := c) (k := j) (by rw [hclose]; decide)
    rw [List.map_cons, hs]
    exact .cons (Nat.le_refl _) (by omega) (by omega) ih'

/-- Whatever is nested is so at every depth. -/
theorem isNested (h : c.Nested failed m ds n) (hc : c.IsLaid) :
    ∀ d ∈ allWithDescendants ds, d.IsNested c.rest := by
  have hcons : ∀ {d : Declaration} {ds : List Declaration}, d.IsNested c.rest →
      (∀ e ∈ blockDescendants d.members, e.IsNested c.rest) →
      (∀ e ∈ allWithDescendants ds, e.IsNested c.rest) →
      ∀ e ∈ allWithDescendants (d :: ds), e.IsNested c.rest := by
    intro d ds hd hin hds e he
    rw [allWithDescendants, d.withDescendants_eq, List.cons_append] at he
    rcases List.mem_cons.mp he with rfl | he
    · exact hd
    · exact (List.mem_append.mp he).elim (hin e) (hds e)
  induction h with
  | nil => simp [allWithDescendants]
  | gap _ _ _ ih => exact ih
  | @line m j n d ds ht hd hs hm hj hp hds ih =>
    have hparts : c.Series m d.partSpans j := by
      rw [Declaration.partSpans, hd]
      simpa using hp
    refine hcons (hparts.isNested hc hs hm hj (by rw [hd, ht]; rfl) fun ms hms => ?_) ?_ ih
    · rw [hd] at hms
      cases hms
    · simp [hd, blockDescendants]
  | @block m i j n d members ds ht hd hs hp ho hmembers hclose hds ih ih' =>
    have hi : i < j := hmembers.le
    have hj : j < c.rest.length := lt_length_of_kind (by rw [hclose]; decide)
    have hm : m ≤ i := hp.le
    have hinner := hmembers.series
    have hparts : c.Series m d.partSpans (j + 1) := by
      rw [Declaration.partSpans, hd]
      exact (hp.append (hinner.of_le (Nat.le_succ i))).trans_le (Nat.le_succ j)
    refine hcons (hparts.isNested hc hs (by omega) (by omega) (by rw [hd, ht]; rfl)
      fun ms hms => ?_) (by rwa [hd, blockDescendants]) ih'
    obtain rfl : members = ms := Option.some.inj (hd.symm.trans hms)
    exact ⟨(c.skip i).current, (c.skip j).current, {
      opening_mem := current_skip_mem (i := i) (by omega)
      opening_kind := ho
      closing_mem := current_skip_mem hj
      closing_kind := hclose
      head_stop_le := fun s => hp.stop_le hc (Nat.le_refl i) (by omega)
      opening_stop_le := hc.span_stop_le_start hi hj
      le_member := fun e he => hinner.le_start hc (Nat.lt_succ_self i) (List.mem_map_of_mem he)
      member_le := fun e he => hinner.stop_le hc (Nat.le_refl j) hj (List.mem_map_of_mem he)
      stop_eq := by
        rw [hs, cover, previousSpan_skip_succ hj]
        rfl }⟩

end Nested

/-! ## Every token -/

/-- The token at a place has characters of its own. -/
def HasText (c : Cursor) (k : Nat) : Prop := (c.skip k).span.start < (c.skip k).span.stop

/-- A token before a series is in none of its spans. -/
theorem Series.not_contains_of_lt {s : Span} {ss : List Span} (h : c.Series m ss n) (hc : c.IsLaid)
    (hk : k < m) (htext : c.HasText k) (hs : s ∈ ss) : ¬s.Contains (c.skip k).span := by
  intro hcontains
  have hle := h.le_start hc hk hs
  exact absurd (Nat.le_trans hle hcontains.1) (Nat.not_le.mpr htext)

/-- A token behind a stretch is not in its span. -/
theorem IsLaid.not_contains_cover {i j : Nat} (h : c.IsLaid) (hj : j ≤ k) (hk : k < c.rest.length)
    (htext : c.HasText k) : ¬(c.cover i j).Contains (c.skip k).span := by
  intro hcontains
  have hle := h.cover_stop_le (i := i) hj hk
  exact absurd (Nat.le_trans hcontains.2 hle) (Nat.not_le.mpr htext)

/-- The line of a directive between declarations, from one place up to another. -/
structure IsDirective (c : Cursor) (ds : List Declaration) (i j : Nat) : Prop where
  kind : (c.skip i).kind = .hash
  isOneLine : IsOneLine 0 ((c.skip i).rest.take (j - i))
  outside : ∀ k, i ≤ k → k < j → k < c.rest.length → c.HasText k →
    ∀ d ∈ ds, ¬d.span.Contains (c.skip k).span

/-- A directive behind a declaration stands outside it as well. -/
theorem IsDirective.cons {d : Declaration} {i j : Nat} (h : c.IsDirective ds i j) (hc : c.IsLaid)
    (hd : d.span = c.cover m n) (hn : n ≤ i) : c.IsDirective (d :: ds) i j where
  kind := h.kind
  isOneLine := h.isOneLine
  outside k hi hj hk htext e he := by
    rcases List.mem_cons.mp he with rfl | he
    · rw [hd]
      exact hc.not_contains_cover (Nat.le_trans hn hi) hk htext
    · exact h.outside k hi hj hk htext e he

/-- The token at a place is in a declaration, or on the line of a directive that is not before
another place. -/
inductive Located (c : Cursor) (ds : List Declaration) (m k : Nat) : Prop
  | declaration {d : Declaration} (hd : d ∈ ds) (h : d.span.Contains (c.skip k).span)
  | directive {i j : Nat} (hm : m ≤ i) (hi : i ≤ k) (hj : k < j) (h : c.IsDirective ds i j)

theorem Located.of_le {l : Nat} (h : c.Located ds m k) (hl : l ≤ m) : c.Located ds l k := by
  cases h with
  | declaration hd h => exact .declaration hd h
  | directive hm hi hj h => exact .directive (Nat.le_trans hl hm) hi hj h

theorem Located.cons {d : Declaration} (h : c.Located ds n k) (hc : c.IsLaid)
    (hd : d.span = c.cover m n) : c.Located (d :: ds) n k := by
  cases h with
  | declaration he h => exact .declaration (List.mem_cons_of_mem _ he) h
  | directive hn hi hj h => exact .directive hn hi hj (h.cons hc hd hn)

/-- **Where nothing is wrong, every token is in a declaration or on the line of a directive**, unless
it ends a line or is a semicolon. -/
theorem Nested.located (h : c.Nested False m ds n) (hc : c.IsLaid) (hm : m ≤ k) (hn : k < n)
    (hk : k < c.rest.length) (hnewline : (c.skip k).kind ≠ .newline)
    (hsemicolon : (c.skip k).kind ≠ .semicolon) : c.Located ds m k := by
  induction h with
  | nil => omega
  | @gap m i n ds hmi hgap hds ih =>
    by_cases hik : i ≤ k
    · exact (ih hik hn).of_le hmi
    · rw [Nat.not_le] at hik
      cases hgap with
      | failed h => exact h.elim
      | separators h =>
        rcases h k hm hik with hkind | hkind
        · exact absurd hkind hnewline
        · exact absurd hkind hsemicolon
      | directive hhash hline =>
        refine .directive (Nat.le_refl m) hm hik ⟨hhash, hline, fun l _ hl _ htext d hd => ?_⟩
        exact hds.series.not_contains_of_lt hc hl htext (List.mem_map_of_mem hd)
  | @line m j n d ds ht hd hs hm' hj hp hds ih =>
    by_cases hjk : j ≤ k
    · exact ((ih hjk hn).cons hc hs).of_le (Nat.le_of_lt hj)
    · exact .declaration List.mem_cons_self (hs ▸ hc.contains_span hm hk (Nat.not_le.mp hjk))
  | @block m i j n d members ds ht hd hs hp ho hmembers hclose hds ih ih' =>
    by_cases hjk : j + 1 ≤ k
    · have hi := hp.le
      have hij := hmembers.le
      exact ((ih' hjk hn).cons hc hs).of_le (by omega)
    · exact .declaration List.mem_cons_self (hs ▸ hc.contains_span hm hk (Nat.not_le.mp hjk))

/-- A directive at a place is one among the tokens. -/
theorem IsDirective.onDirectiveLine {i j : Nat} (h : c.IsDirective ds i j) (hi : i ≤ k) (hj : k < j)
    (hk : k < c.rest.length) (htext : c.HasText i) : OnDirectiveLine c.rest ds (c.skip k).current := by
  have hik : i < c.rest.length := Nat.lt_of_le_of_lt hi hk
  have hline : (c.skip i).rest.take (j - i)
      = (c.skip i).current :: (c.rest.drop (i + 1)).take (j - i - 1) := by
    rw [current_skip_eq hik, rest_skip, List.drop_eq_getElem_cons hik, List.take_cons (by omega)]
  have hone := h.isOneLine
  have hmem : (c.skip k).current ∈ (c.skip i).rest.take (j - i) := by
    rw [current_skip_eq hk, rest_skip]
    refine List.mem_take_iff_getElem.mpr ⟨k - i, ?_, ?_⟩
    · rw [List.length_drop]
      omega
    · simp [Nat.add_sub_cancel' hi]
  rw [hline] at hone hmem
  refine ⟨c.rest.take i, _, ((c.skip i).rest.drop (j - i)), _, ?_, h.kind, hone, hmem,
    h.outside i (Nat.le_refl i) (by omega) hik htext⟩
  rw [← hline, List.append_assoc, List.take_append_drop, rest_skip, List.take_append_drop]

end Cursor

/-- **Reading declarations goes to the end**, or in a block up to its closing brace. -/
theorem ends_declarations (inBlock : Bool) (c : Cursor) :
    (c.skip (declarations inBlock c).taken).rest = []
      ∨ inBlock = true ∧ (c.skip (declarations inBlock c).taken).kind = .rightBrace := by
  refine declarations_induction (P := fun inBlock c p => (c.skip p.taken).rest = []
    ∨ inBlock = true ∧ (c.skip p.taken).kind = .rightBrace) ?_ inBlock c
  intro inBlock c p hround ih
  have hlater : ∀ {k : Nat}, (c.skip k).rest.length < c.rest.length →
      (c.skip (k + (declarations inBlock (c.skip k)).taken)).rest = []
        ∨ inBlock = true
          ∧ (c.skip (k + (declarations inBlock (c.skip k)).taken)).kind = .rightBrace := by
    intro k hk
    rw [← Cursor.skip_skip]
    exact ih inBlock (c.skip k) hk
  cases hround with
  | done h => exact h
  | failed _ hn => exact hlater hn
  | directive _ hn => exact hlater hn
  | complete _ hn => exact hlater hn
  | block _ _ _ _ _ _ hn => exact hlater hn

/-- Outside a block, all tokens are taken. -/
theorem rest_skip_declarations (c : Cursor) :
    (c.skip (declarations false c).taken).rest = [] :=
  (ends_declarations false c).resolve_right (by simp)

/-- A span that holds something is in exactly one of some in order, if it is in one. -/
theorem countP_contains_of_mem {ds : List Declaration} {d : Declaration} {s : Span}
    (h : ds.Pairwise fun d e => d.span.stop ≤ e.span.start) (hs : s.start < s.stop) (hd : d ∈ ds)
    (hcontains : d.span.Contains s) : ds.countP (·.span.Contains s) = 1 := by
  induction h with
  | nil => cases hd
  | @cons e ds he hds ih =>
    by_cases hin : e.span.Contains s
    · have hnone : ∀ d ∈ ds, ¬d.span.Contains s := by
        intro d hd hcontains
        have hle := he d hd
        obtain ⟨hstart, -⟩ := hcontains
        obtain ⟨-, hstop⟩ := hin
        omega
      rw [List.countP_cons_of_pos (by simpa using hin), List.countP_eq_zero.mpr (by simpa using hnone)]
    · have hmem : d ∈ ds := by
        rcases List.mem_cons.mp hd with rfl | hd
        · exact absurd hcontains hin
        · exact hd
      rw [List.countP_cons_of_neg (by simpa using hin), ih hmem]

/-- **The spans of a text form a tree over its tokens**, with or without errors, and if nothing is
wrong the tree covers the text. -/
theorem Reading.ofSource_wellNested (source : String) : (Reading.ofSource source).IsWellNested := by
  let c := Cursor.start source.toList (lex source).tokens
  have hc : c.IsLaid := laid_lexText source.toList
  have htext : ∀ k < c.rest.length, (c.skip k).kind ≠ .newline → (c.skip k).kind ≠ .endOfFile →
      c.HasText k := fun k hk =>
    start_lt_stop_of_mem_tokens (List.mem_append_left _ (Cursor.current_skip_mem hk))
  have hordered := (declarations_nested false hc fun h => h).series.pairwise hc
  refine ⟨List.pairwise_map.mp hordered, (declarations_nested false hc fun h => h).isNested hc,
    fun herrors t ht hnewline hsemicolon hend => ?_⟩
  have hnested : c.Nested False 0 (declarations false c).declarations (declarations false c).taken :=
    declarations_nested false hc fun h => h herrors
  obtain ⟨k, hk, rfl⟩ : ∃ k, ∃ hk : k < c.rest.length, (c.skip k).current = t := by
    rcases List.mem_append.mp ht with ht | ht
    · obtain ⟨k, hk, rfl⟩ := List.getElem_of_mem ht
      exact ⟨k, hk, Cursor.current_skip_eq hk⟩
    · rw [List.mem_singleton.mp ht] at hend
      exact absurd rfl hend
  have hlt : k < (declarations false c).taken := by
    have hnil := congrArg List.length (rest_skip_declarations c)
    rw [Cursor.length_rest_skip, List.length_nil] at hnil
    omega
  cases hnested.located hc (Nat.zero_le k) hlt hk hnewline hsemicolon with
  | declaration hd hcontains =>
    exact .inl (countP_contains_of_mem (List.pairwise_map.mp hordered) (htext k hk hnewline hend) hd
      hcontains)
  | @directive i j _ hi hj hdirective =>
    have hi' : c.HasText i := htext i (by omega) (by rw [hdirective.kind]; decide)
      (by rw [hdirective.kind]; decide)
    refine .inr ⟨List.countP_eq_zero.mpr fun d hd => ?_, hdirective.onDirectiveLine hi hj hk hi'⟩
    rw [decide_eq_true_eq]
    exact hdirective.outside k hi hj hk (htext k hk hnewline hend) d hd

/-- The two directives are in no declaration, and all between them is in one. -/
theorem Reading.ofSource_wellNested_directives :
    (Reading.ofSource "#if DEBUG\nstruct S \x7b var a, b: Int \x7d\n#endif\n").file.errors = []
      ∧ (Reading.ofSource "#if DEBUG\nstruct S \x7b var a, b: Int \x7d\n#endif\n").IsCovered := by
  have h : (Reading.ofSource "#if DEBUG\nstruct S \x7b var a, b: Int \x7d\n#endif\n").file.errors
      = [] := by decide +kernel
  exact ⟨h, (Reading.ofSource_wellNested _).covered h⟩

end Memberwise
