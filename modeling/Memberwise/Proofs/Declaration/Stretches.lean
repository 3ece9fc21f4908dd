import Memberwise.Proofs.Declaration.Heads

/-!
# Proofs/Declaration/Stretches — every span covers a stretch of tokens

A span is put together from the first token of what it belongs to and from the token read last of
it.  Counted in tokens from a cursor on, it covers a stretch `i..j` (`Cursor.cover`), and what is read
one after the other covers stretches one after the other (`Cursor.Series`):

* `AttributeRow.series`, `Cursor.series_modifiers`, `Parser.BindingRow.series` — **attributes,
  modifiers and bindings each stand in a series**;
* `Parser.headSeries_of_head` — **so does all that is read of a declaration before its block**.

Places are easier to compare than offsets; `Cursor.Series.pairwise` and `Cursor.Series.contains`
carry the order of a series over to its spans.
-/

namespace Memberwise

/-- The second span lies inside the first. -/
def Span.Contains (s t : Span) : Prop := s.start ≤ t.start ∧ t.stop ≤ s.stop

instance (s t : Span) : Decidable (s.Contains t) := inferInstanceAs (Decidable (_ ∧ _))

/-- The span begins where a token begins and ends where one ends. -/
structure Span.IsCut (tokens : List Token) (s : Span) : Prop where
  start_mem : ∃ t ∈ tokens, t.span.start = s.start
  stop_mem : ∃ t ∈ tokens, t.span.stop = s.stop
  start_le_stop : s.start ≤ s.stop

namespace Cursor

variable {c : Cursor} {i j k l m n : Nat}

/-! ## Stretches -/

/-- The span over the tokens to come from one place up to another. -/
def cover (c : Cursor) (i j : Nat) : Span := ⟨(c.skip i).span.start, (c.skip j).previousSpan.stop⟩

@[simp] theorem cover_skip (c : Cursor) (k i j : Nat) :
    (c.skip k).cover i j = c.cover (k + i) (k + j) := by
  simp [cover]

namespace IsLaid

/-- A stretch ends before a token that is not before its end. -/
theorem cover_stop_le (h : c.IsLaid) (hj : j ≤ k) (hk : k < c.rest.length) :
    (c.cover i j).stop ≤ (c.skip k).span.start :=
  Nat.le_trans (h.previousSpan_stop_mono hj)
    ((h.skip k).previousSpan_stop_le_start (rest_skip_ne_nil hk)).1

/-- A stretch inside another has its span inside the other's. -/
theorem contains_cover (h : c.IsLaid) (hk : k ≤ i) (hi : i < c.rest.length) (hl : j ≤ l) :
    (c.cover k l).Contains (c.cover i j) :=
  ⟨h.span_start_mono hk hi, h.previousSpan_stop_mono hl⟩

/-- A token of a stretch has its span inside the stretch's. -/
theorem contains_span (h : c.IsLaid) (hk : k ≤ i) (hi : i < c.rest.length) (hl : i < l) :
    (c.cover k l).Contains (c.skip i).span :=
  ⟨h.span_start_mono hk hi, h.span_stop_le_previousSpan hl hi⟩

/-- **A span from the next token to the one passed last covers the stretch between.** -/
theorem merge_previousSpan (h : c.IsLaid) (hr : c.rest ≠ []) (hn : 0 < n) :
    c.span.merge (c.skip n).previousSpan = c.cover 0 n := by
  have hlen : 0 < c.rest.length := List.length_pos_iff.mpr hr
  obtain ⟨i, hi, hlt, hs⟩ := exists_previousSpan_eq hr hn
  have hstart := h.span_start_mono (Nat.zero_le i) hlt
  have hstop := h.span_stop_le_previousSpan hn hlen
  rw [skip_zero] at hstart hstop
  rw [← hs] at hstart
  rw [Span.merge_of_le hstart hstop, cover, skip_zero]

/-- A stretch is cut out between tokens. -/
theorem isCut_cover (h : c.IsLaid) (hij : i < j) (hi : i < c.rest.length) :
    (c.cover i j).IsCut c.rest := by
  have hr := rest_skip_ne_nil hi
  obtain ⟨k, hk, hlt, hs⟩ := exists_previousSpan_eq hr (n := j - i) (by omega)
  rw [length_rest_skip] at hlt
  rw [skip_skip, skip_skip, Nat.add_sub_cancel' (Nat.le_of_lt hij)] at hs
  have hlaid := (h.contains_span (Nat.le_refl i) hi hij).2
  exact ⟨⟨_, current_skip_mem hi, rfl⟩, ⟨_, current_skip_mem (i := i + k) (by omega), by rw [cover, hs]; rfl⟩,
    Nat.le_trans ((h.skip i).previousSpan_stop_le_start hr).2 hlaid⟩

end IsLaid

/-! ## Series -/

/-- Spans over stretches of the tokens to come, one after the other between two places. -/
inductive Series (c : Cursor) : Nat → List Span → Nat → Prop
  | nil {m n : Nat} (h : m ≤ n) : Series c m [] n
  | cons {i j m n : Nat} {ss : List Span} (hm : m ≤ i) (hij : i < j) (hi : i < c.rest.length)
      (hs : Series c j ss n) : Series c m (c.cover i j :: ss) n

namespace Series

variable {s : Span} {ss ss' : List Span}

theorem le (h : c.Series m ss n) : m ≤ n := by
  induction h with
  | nil h => exact h
  | cons hm hij hi hs ih => omega

theorem of_le (h : c.Series m ss n) (hl : l ≤ m) : c.Series l ss n := by
  cases h with
  | nil h => exact .nil (Nat.le_trans hl h)
  | cons hm hij hi hs => exact .cons (Nat.le_trans hl hm) hij hi hs

theorem trans_le (h : c.Series l ss m) (hn : m ≤ n) : c.Series l ss n := by
  induction h with
  | nil h => exact .nil (Nat.le_trans h hn)
  | cons hm hij hi hs ih => exact .cons hm hij hi (ih hn)

theorem append (h : c.Series l ss m) (h' : c.Series m ss' n) : c.Series l (ss ++ ss') n := by
  induction h with
  | nil h => exact h'.of_le h
  | cons hm hij hi hs ih => exact .cons hm hij hi (ih h')

/-- A series stands as well among the tokens from before it. -/
theorem of_skip (h : (c.skip k).Series m ss n) : c.Series (k + m) ss (k + n) := by
  induction h with
  | nil h => exact .nil (Nat.add_le_add_left h k)
  | cons hm hij hi hs ih =>
    rw [cover_skip]
    rw [length_rest_skip] at hi
    exact .cons (Nat.add_le_add_left hm k) (Nat.add_lt_add_left hij k) (by omega) ih

theorem exists_cover (h : c.Series m ss n) (hs : s ∈ ss) :
    ∃ i j, m ≤ i ∧ i < j ∧ j ≤ n ∧ i < c.rest.length ∧ s = c.cover i j := by
  induction h with
  | nil => cases hs
  | @cons i j m n ss hm hij hi hss ih =>
    rcases List.mem_cons.mp hs with rfl | hs
    · exact ⟨i, j, hm, hij, hss.le, hi, rfl⟩
    · obtain ⟨i', j', hm', h'⟩ := ih hs
      exact ⟨i', j', by omega, h'⟩

theorem isCut (h : c.Series m ss n) (hc : c.IsLaid) (hs : s ∈ ss) : s.IsCut c.rest := by
  obtain ⟨i, j, -, hij, -, hi, rfl⟩ := h.exists_cover hs
  exact hc.isCut_cover hij hi

/-- **A series lies inside every stretch that it stands in.** -/
theorem contains (h : c.Series m ss n) (hc : c.IsLaid) (hs : s ∈ ss) : (c.cover m n).Contains s := by
  obtain ⟨i, j, hm, -, hn, hi, rfl⟩ := h.exists_cover hs
  exact hc.contains_cover hm hi hn

/-- A series ends before a token that is not before its end. -/
theorem stop_le (h : c.Series m ss n) (hc : c.IsLaid) (hk : n ≤ k) (hlt : k < c.rest.length)
    (hs : s ∈ ss) : s.stop ≤ (c.skip k).span.start := by
  obtain ⟨i, j, -, -, hn, -, rfl⟩ := h.exists_cover hs
  exact hc.cover_stop_le (Nat.le_trans hn hk) hlt

/-- A series begins behind a token before it. -/
theorem le_start (h : c.Series m ss n) (hc : c.IsLaid) (hk : k < m) (hs : s ∈ ss) :
    (c.skip k).span.stop ≤ s.start := by
  obtain ⟨i, j, hm, -, -, hi, rfl⟩ := h.exists_cover hs
  exact hc.span_stop_le_start (Nat.lt_of_lt_of_le hk hm) hi

/-- **The spans of a series stand in order, none reaching into the next.** -/
theorem pairwise (h : c.Series m ss n) (hc : c.IsLaid) :
    ss.Pairwise fun s t => s.stop ≤ t.start := by
  induction h with
  | nil => exact .nil
  | @cons i j m n ss hm hij hi hs ih =>
    refine .cons (fun t ht => ?_) ih
    obtain ⟨i', j', hj, -, -, hi', rfl⟩ := hs.exists_cover ht
    exact hc.cover_stop_le hj hi'

end Series

end Cursor

/-! ## Attributes and modifiers -/

/-- Attributes stand in a series. -/
theorem Parser.AttributeRow.series {c : Cursor} {as : List Attribute} {n : Nat}
    (h : AttributeRow c as n) (hc : c.IsLaid) : c.Series 0 (as.map (·.span)) n := by
  induction h with
  | nil => exact .nil (Nat.le_refl _)
  | @cons c a as k m n hk ha hm has ih =>
    obtain ⟨hspan, -, -⟩ := attributeAfter_eq_ok ha
    obtain ⟨ts, hts⟩ := Cursor.exists_rest_of_kind (c := c) (by rw [hk]; decide)
    have hr : c.rest ≠ [] := by simp [hts]
    rw [Cursor.skip_skip, hc.merge_previousSpan hr (by omega)] at hspan
    have hlater := (ih (hc.skip m)).of_skip
    rw [List.map_cons, hspan]
    exact .cons (Nat.le_refl 0) (by omega) (List.length_pos_iff.mpr hr) (hlater.of_le (by omega))

/-- Modifiers stand in a series. -/
theorem Cursor.series_modifiers {c : Cursor} (hc : c.IsLaid) :
    c.Series 0 (c.modifiers.1.map (·.span)) c.modifiers.2 := by
  fun_induction Cursor.modifiers c with
  | case1 => exact .nil (Nat.le_refl _)
  | case2 => exact .nil (Nat.le_refl _)
  | case3 c t ts hr kind j hm =>
    rename_i m later ih
    have hne : c.rest ≠ [] := by simp [hr]
    have hspan := hc.merge_previousSpan hne (Nat.succ_pos j)
    rw [Cursor.span, current_of_rest hr] at hspan
    have hlater := (ih (hc.skip m)).of_skip
    rw [List.map_cons, hspan]
    refine .cons (Nat.le_refl 0) (Nat.succ_pos j) (List.length_pos_iff.mpr hne) (hlater.of_le ?_)
    exact Nat.le_add_right _ _

namespace Parser

variable {c : Cursor} {n : Nat}

/-! ## Bindings -/

/-- A binding's span reaches from its first token to the one read last of it. -/
theorem binding_eq_ok {b : Binding} (h : binding c = ⟨.ok b, n⟩) :
    c.rest ≠ [] ∧ 0 < n ∧ b.span = c.span.merge (c.skip n).previousSpan := by
  have hend : ∀ {d : Cursor} {p type hasInitializer k},
      bindingEnd c.span p type hasInitializer d = ⟨.ok b, k⟩ →
        b.span = c.span.merge (d.skip k).previousSpan := by
    intro d p type hasInitializer k h
    rw [bindingEnd, here_bind] at h
    dsimp only at h
    split at h
    · obtain ⟨_, m, _, -, h', rfl⟩ := bind_eq_ok.mp h
      rw [here_bind] at h'
      obtain ⟨rfl, rfl⟩ := pure_eq_ok.mp h'
      rw [Nat.add_zero]
    · rw [here_bind] at h
      obtain ⟨rfl, rfl⟩ := pure_eq_ok.mp h
      rw [Cursor.skip_zero]
  rw [binding_apply] at h
  obtain ⟨p, i, _, hp, h₁, rfl⟩ := bind_eq_ok.mp h
  obtain ⟨type, j, k, -, h₂, rfl⟩ := bind_eq_ok.mp h₁
  obtain ⟨hr, hi⟩ := pattern_taken_pos hp
  refine ⟨hr, by omega, ?_⟩
  rw [bindingValue] at h₂
  obtain ⟨hasInitializer, l, _, -, h₃, rfl⟩ := bind_eq_ok.mp h₂
  split at h₃
  · obtain ⟨_, m, _, -, h₄, rfl⟩ := bind_eq_ok.mp h₃
    simpa [Nat.add_assoc] using hend h₄
  · simpa [Nat.add_assoc] using hend h₃

/-- Bindings that are read one after the other, and how many tokens they take with those between
them. -/
inductive BindingRow : Cursor → List Binding → Nat → Prop
  | nil {c : Cursor} : BindingRow c [] 0
  | cons {c : Cursor} {b : Binding} {bs : List Binding} {k m n : Nat}
      (hb : binding (c.skip k) = ⟨.ok b, m⟩) (hbs : BindingRow (c.skip (k + m)) bs n) :
      BindingRow c (b :: bs) (k + m + n)

theorem furtherBindings_eq_ok {bs : List Binding} (h : furtherBindings c = ⟨.ok bs, n⟩) :
    BindingRow c bs n := by
  fun_induction furtherBindings c generalizing bs n with
  | case1 =>
    cases h
    exact .nil
  | case2 => cases h
  | case3 =>
    rename_i c t ts hr hk before o b hb ih
    cases hlater : furtherBindings (c.skip (1 + before + o.taken)) with
    | mk result k =>
      rw [hlater] at h
      cases result with
      | error => cases h
      | ok later =>
        cases h
        exact .cons (by rw [← hb]) (ih hlater)
  | case4 =>
    cases h
    exact .nil

/-- **A property is a row of bindings**, and it is no type. -/
theorem property_eq_ok {kind : DeclarationKind} (h : property c = ⟨.ok kind, n⟩) :
    BindingRow c kind.bindings n ∧ kind.isType = false := by
  rw [property_apply, inside_eq_ok] at h
  obtain ⟨t, i, _, -, h', rfl⟩ := bind_eq_ok.mp h
  obtain ⟨bs, j, k, hbs, hpure, rfl⟩ := bind_eq_ok.mp h'
  obtain ⟨rfl, rfl⟩ := pure_eq_ok.mp hpure
  obtain ⟨first, l, _, hfirst, h'', rfl⟩ := bind_eq_ok.mp hbs
  obtain ⟨further, m, k, hfurther, hpure', rfl⟩ := bind_eq_ok.mp h''
  obtain ⟨rfl, rfl⟩ := pure_eq_ok.mp hpure'
  have hlater := furtherBindings_eq_ok hfurther
  rw [Cursor.skip_skip] at hlater
  have hrow := BindingRow.cons hfirst hlater
  rw [Nat.add_assoc] at hrow
  exact ⟨hrow, rfl⟩

/-- **Bindings that are read one after the other stand in a series.** -/
theorem BindingRow.series {bs : List Binding} (h : BindingRow c bs n) (hc : c.IsLaid) :
    c.Series 0 (bs.map (·.span)) n := by
  induction h with
  | nil => exact .nil (Nat.le_refl _)
  | @cons c b bs k m n hb _ ih =>
    obtain ⟨hne, hpos, hspan⟩ := binding_eq_ok hb
    rw [(hc.skip k).merge_previousSpan hne hpos, Cursor.cover_skip] at hspan
    have hlt : k < c.rest.length := by
      have := List.length_pos_iff.mpr hne
      rw [Cursor.length_rest_skip] at this
      omega
    rw [List.map_cons, hspan]
    exact .cons (Nat.zero_le _) (by omega) (by simpa using hlt) (ih (hc.skip _)).of_skip

end Parser

/-! ## Heads -/

/-- The spans of what stands before a declaration's block. -/
def Declaration.headSpans (d : Declaration) : List Span :=
  d.attributes.map (·.span) ++ d.modifiers.map (·.span) ++ d.kind.bindings.map (·.span)

namespace Head

/-- What a head declares. -/
def declaration? : Head → Option Declaration
  | directive => none
  | complete d | type d => some d

/-- Whether a member block has to come next. -/
def isType : Head → Bool
  | type _ => true
  | _ => false

end Head

namespace Parser

variable {c : Cursor} {d : Declaration} {r : Head} {n : Nat}

/-- What is read of a declaration after its attributes and modifiers: some tokens, and in them what
it binds. -/
structure BodySeries (c : Cursor) (r : Head) (d : Declaration) (n : Nat) : Prop where
  rest_ne_nil : c.rest ≠ []
  taken_pos : 0 < n
  isType_eq : d.kind.isType = r.isType
  series : c.Series 0 (d.kind.bindings.map (·.span)) n

/-- A form that gives a kind of its own binds nothing. -/
theorem bodySeries_of_form {o : Opening} {kind : DeclarationKind} {p : Parser Declaration}
    {e : Declaration} (ho : c.opening? = some o) (hk : o.kind? = some kind) (ht : r.isType = o.isType)
    (hp : Ensures p (IsFresh kind)) (hpos : 0 < (p c).taken) (h : p c = ⟨.ok e, n⟩)
    (he : d.kind = e.kind) : BodySeries c r d n where
  rest_ne_nil := Cursor.rest_ne_nil_of_opening? ho
  taken_pos := by rwa [h] at hpos
  isType_eq := by rw [he, (hp c e n h).1, (Cursor.kind_of_form ho hk).2, ht]
  series := by
    rw [he, (hp c e n h).1, (Cursor.kind_of_form ho hk).1]
    exact .nil (Nat.zero_le _)

theorem HeadRest.bodySeries {first : Span} {as : List Attribute} {ms : List Modifier}
    (h : HeadRest first as ms c r n) (hc : c.IsLaid) (hd : r.declaration? = some d) :
    BodySeries c r d n ∧ d.attributes = as ∧ d.modifiers = ms := by
  cases h with
  | directive => cases hd
  | type ho h =>
    cases hd
    exact ⟨bodySeries_of_form ho rfl rfl (ensures_typeHeader _)
      (typeHeader_taken_pos (Cursor.rest_ne_nil_of_opening? ho) _) h rfl, rfl, rfl⟩
  | function ho h =>
    cases hd
    exact ⟨bodySeries_of_form ho rfl rfl (ensures_function _)
      (function_taken_pos (Cursor.rest_ne_nil_of_opening? ho) _) h rfl, rfl, rfl⟩
  | line ho h =>
    cases hd
    exact ⟨bodySeries_of_form ho rfl rfl (ensures_line _)
      (line_taken_pos (Cursor.rest_ne_nil_of_opening? ho) _) h rfl, rfl, rfl⟩
  | property ho h =>
    cases hd
    have hr := Cursor.rest_ne_nil_of_opening? ho
    obtain ⟨hrow, htype⟩ := property_eq_ok h
    exact ⟨⟨hr, by simpa [h] using property_taken_pos hr, htype, hrow.series hc⟩, rfl, rfl⟩

/-- What a head that declares something takes: its first token, and in order its attributes, its
modifiers and what it binds. -/
structure HeadSeries (c : Cursor) (r : Head) (d : Declaration) (n : Nat) : Prop where
  rest_ne_nil : c.rest ≠ []
  taken_pos : 0 < n
  isType_eq : d.kind.isType = r.isType
  series : c.Series 0 d.headSpans n

/-- **What is read of a declaration before its block stands in a series.** -/
theorem headSeries_of_head (hc : c.IsLaid) (h : head c = ⟨.ok r, n⟩) (hd : r.declaration? = some d) :
    HeadSeries c r d n := by
  obtain ⟨as, k, m, l, has, hm, hrest, rfl⟩ := head_eq_ok h
  rw [Nat.min_eq_left (modifiers_le _)] at hm
  obtain ⟨hbody, rfl, hms⟩ := hrest.bodySeries (hc.skip _) hd
  have hmodifiers := (Cursor.series_modifiers (hc.skip k)).of_skip
  rw [← hm, ← hms] at hmodifiers
  exact {
    rest_ne_nil := fun hnil => hbody.rest_ne_nil (by simp [hnil])
    taken_pos := Nat.add_pos_right _ hbody.taken_pos
    isType_eq := hbody.isType_eq
    series := (((attributes_eq_ok has).series hc).append hmodifiers).append hbody.series.of_skip }

/-- A declaration without a block covers all that is taken of it. -/
theorem span_of_head_complete (hc : c.IsLaid) (h : head c = ⟨.ok (.complete d), n⟩) :
    d.span = c.cover 0 n ∧ d.members = none := by
  have hseries := headSeries_of_head hc h rfl
  obtain ⟨as, k, m, l, -, -, hrest, rfl⟩ := head_eq_ok h
  refine ⟨?_, hrest.bare.2⟩
  rw [← hc.merge_previousSpan hseries.rest_ne_nil hseries.taken_pos, ← Cursor.skip_skip]
  cases hrest <;> rfl

theorem span_of_head_type (h : head c = ⟨.ok (.type d), n⟩) : d.span = c.span := by
  obtain ⟨as, k, m, l, -, -, hrest, -⟩ := head_eq_ok h
  cases hrest
  rfl

end Parser

end Memberwise
