import Memberwise.Proofs.Declaration.Initializers

/-!
# Proofs/Declaration/Continuation — line ends in front of a binary operator

An initializer goes on over a line end if the line before is left open or the next one begins with a
token of `Cursor.goesOn`.  Some binary operators are among these tokens and some are not, and so:

* `cutsDeclarations` — **where the initializer goes on, the line ends might as well not be there**:
  without them (`Cursor.cut`) the same declarations and errors are read;
* `exists_error_of_stopped` — **where it does not, the operator is reported** as what it cannot be,
  the beginning of a declaration;
* `SourceFile.ofTokens_cut` — which of the two it is, by the operator.

The first is carried from the initializer outwards (`Parser.Cuts`): what is read before the place of
the cut is read alike because it looks no further, and past the first token after the cut the cursors
show the same (`same_past_cut`).
-/

namespace Memberwise

open Text

/-! ## Cursors that show the same -/

/-- The cursors show the same tokens, and if one has been passed the same one was passed last. -/
structure Cursor.Same (c d : Cursor) : Prop where
  source : d.source = c.source
  stop : d.stop = c.stop
  rest : d.rest = c.rest
  previous : ∀ t, c.passed.head? = some t → d.passed.head? = some t

theorem mapSpans_move_zero {α : Type} [Spanned α] (a : α) : mapSpans (.move 0) a = a := by
  rw [Span.move_zero, Spanned.mapSpans_id]

theorem exists_bound (ts : List Token) : ∃ hi, ∀ t ∈ ts, t.span.start ≤ hi ∧ t.span.stop ≤ hi := by
  induction ts with
  | nil => exact ⟨0, by simp⟩
  | cons t ts ih =>
    obtain ⟨hi, h⟩ := ih
    refine ⟨max hi (max t.span.start t.span.stop), fun u hu => ?_⟩
    rcases List.mem_cons.mp hu with rfl | hu
    · omega
    · have := h u hu
      omega

theorem exists_shows (m : Nat) (ts : List Token) : ∃ k, Shows k m ts := by
  refine ⟨m + ts.length + 1, m + ts.length, Nat.le_add_right _ _, Nat.lt_succ_self _, fun t ht => ?_⟩
  rw [List.getElem?_eq_none (Nat.le_add_left _ _)] at ht
  cases ht

section

variable {c d : Cursor} {p r k m : Nat} {inBlock : Bool}

theorem Cursor.Same.alike (h : c.Same d) : ∃ hi, ∀ k, Alike 0 hi k c d := by
  obtain ⟨hi, hbound⟩ := exists_bound c.rest
  refine ⟨hi, fun k => ⟨?_, fun _ => h.stop, fun t ht => hbound t (List.mem_of_mem_take ht),
    fun t ht => ?_, fun s _ => ?_⟩⟩
  · have hrest : d.rest = c.rest.map (mapSpans (.move 0)) := by
      rw [show (mapSpans (.move 0) : Token → Token) = id from funext mapSpans_move_zero, List.map_id,
        h.rest]
    rw [hrest]
    exact known_map 0 k c.rest
  · rw [mapSpans_move_zero]
    exact h.previous t ht
  · rw [Span.move_zero, Cursor.text, h.source]
    rfl

theorem Cursor.Same.current (h : c.Same d) : d.current = c.current := by
  rw [Cursor.current, Cursor.ahead, h.rest, Cursor.last, h.stop]
  rfl

theorem Cursor.Same.kind (h : c.Same d) : d.kind = c.kind := congrArg Token.kind h.current

theorem Cursor.Same.span (h : c.Same d) : d.span = c.span := congrArg Token.span h.current

/-- What is read alike is read the same at cursors that show the same. -/
theorem Cursor.Same.eq {α : Type} [Spanned α] {a b : α} (h : c.Same d) (m : Nat)
    (hq : ∀ {hi k : Nat}, Alike 0 hi k c d → Shows k m c.rest → b = mapSpans (.move 0) a) :
    b = a := by
  obtain ⟨hi, halike⟩ := h.alike
  obtain ⟨k, hs⟩ := exists_shows m c.rest
  rw [hq (halike k) hs, mapSpans_move_zero]

/-! ## Cutting out tokens -/

/-- The cursor with `r` of its tokens cut out, `p` places ahead. -/
def Cursor.cut (p r : Nat) (c : Cursor) : Cursor :=
  { c with rest := c.rest.take p ++ c.rest.drop (p + r) }

theorem skip_cut (hp : m + p ≤ c.rest.length) :
    (c.cut (m + p) r).skip m = (c.skip m).cut p r := by
  have hlen : m ≤ (c.rest.take (m + p)).length := by
    rw [List.length_take_of_le hp]
    exact Nat.le_add_right m p
  rw [Cursor.skip, Cursor.cut, Cursor.cut, Cursor.skip, Cursor.mk.injEq]
  refine ⟨rfl, rfl, ?_, ?_⟩
  · rw [List.take_append_of_le_length hlen, List.take_take, Nat.min_eq_left (Nat.le_add_right m p)]
  · rw [List.drop_append_of_le_length hlen, List.drop_take, Nat.add_sub_cancel_left, List.drop_drop,
      Nat.add_assoc]

theorem cut_zero (r : Nat) (c : Cursor) : c.cut 0 r = { c with rest := c.rest.drop r } := by
  rw [Cursor.cut, List.take_zero, List.nil_append, Nat.zero_add]

theorem known_append (A B C : List Token) : Known 0 A.length (A ++ B) (A ++ C) := by
  induction A with
  | nil => exact .nothing _ _
  | cons t A ih =>
    have := Known.cons t ih
    rwa [mapSpans_move_zero] at this

/-- Up to the place of the cut nothing has changed. -/
theorem alike_cut (hp : p ≤ c.rest.length) (r : Nat) : ∃ hi, Alike 0 hi p c (c.cut p r) := by
  obtain ⟨hi, hbound⟩ := exists_bound c.rest
  refine ⟨hi, ⟨?_, fun hlt => absurd hlt (Nat.not_lt.mpr hp), fun t ht => hbound t
    (List.mem_of_mem_take ht), fun t ht => ?_, fun s _ => ?_⟩⟩
  · have hknown := known_append (c.rest.take p) (c.rest.drop p) (c.rest.drop (p + r))
    rwa [List.take_append_drop, List.length_take_of_le hp] at hknown
  · rw [mapSpans_move_zero]
    exact ht
  · rw [Span.move_zero]
    rfl

/-- From the first token after the cut on, nothing has changed. -/
theorem same_past_cut (hm : p < m) (hp : p + r < c.rest.length) :
    (c.skip (m + r)).Same ((c.cut p r).skip m) := by
  have hlen : (c.rest.take p).length = p := List.length_take_of_le (by omega)
  have htake : (c.rest.take p ++ c.rest.drop (p + r)).take m
      = c.rest.take p ++ (c.rest.drop (p + r)).take (m - p) := by
    rw [List.take_append, hlen, List.take_of_length_le (by omega)]
  have htake' : c.rest.take (m + r)
      = c.rest.take (p + r) ++ (c.rest.drop (p + r)).take (m - p) := by
    rw [show m + r = p + r + (m - p) by omega, List.take_add]
  -- What was passed last comes after the cut.
  obtain ⟨ts, t, hlast⟩ := (List.eq_nil_or_concat' ((c.rest.drop (p + r)).take (m - p))).resolve_left
    (by
      intro hnil
      have := congrArg List.length hnil
      rw [List.length_take, List.length_drop, List.length_nil] at this
      omega)
  refine ⟨rfl, rfl, ?_, fun u hu => ?_⟩
  · change (c.rest.take p ++ c.rest.drop (p + r)).drop m = c.rest.drop (m + r)
    rw [List.drop_append, hlen, List.drop_of_length_le (by omega), List.nil_append, List.drop_drop]
    congr 1
    omega
  · change ((c.rest.take (m + r)).reverse ++ c.passed).head? = some u at hu
    change (((c.rest.take p ++ c.rest.drop (p + r)).take m).reverse ++ c.passed).head? = some u
    rw [htake', hlast] at hu
    rw [htake, hlast]
    simpa using hu

/-! ## Reading past a cut -/

/-- The parser reads the same where `r` tokens are cut out `p` places ahead, and takes a token after
these. -/
def Parser.Cuts {α : Type} (p r : Nat) (q : Parser α) (c : Cursor) : Prop :=
  q (c.cut p r) = ⟨(q c).result, (q c).taken - r⟩ ∧ p + r < (q c).taken

namespace Parser

variable {α β : Type} {q : Parser α} {f : α → Parser β}

/-- Reading on past the cut. -/
theorem Cuts.bind (hq : Cuts p r q c) (hp : p + r < c.rest.length)
    (hf : ∀ a d d', d.Behind → d.Same d' → f a d' = f a d) : Cuts p r (q >>= f) c := by
  obtain ⟨hcut, hlt⟩ := hq
  cases hc : q c with
  | mk result m =>
    rw [hc] at hcut hlt
    cases result with
    | error e =>
      rw [Cuts, bind_of_error hc, bind_of_error hcut]
      exact ⟨rfl, hlt⟩
    | ok a =>
      dsimp only at hcut hlt
      have hsame := same_past_cut (c := c) (r := r) (m := m - r) (p := p) (by omega) hp
      rw [Nat.sub_add_cancel (by omega)] at hsame
      have hb : (c.skip m).Behind :=
        Cursor.behind_skip (List.ne_nil_of_length_pos (by omega)) (by omega)
      rw [Cuts, bind_of_ok hc, bind_of_ok hcut, hf a _ _ hb hsame]
      refine ⟨?_, by rw [Outcome.taken_after]; omega⟩
      rw [Outcome.after, Outcome.after]
      dsimp only
      congr 1
      omega

/-- Reading up to where the cut comes closer. -/
theorem Cuts.after {a : α} (hq : q c = ⟨.ok a, m⟩) (hq' : q (c.cut (m + p) r) = ⟨.ok a, m⟩)
    (hp : m + p ≤ c.rest.length) (hf : Cuts p r (f a) (c.skip m)) :
    Cuts (m + p) r (q >>= f) c := by
  obtain ⟨hcut, hlt⟩ := hf
  rw [Cuts, bind_of_ok hq, bind_of_ok hq', skip_cut hp, hcut, Outcome.taken_after]
  refine ⟨?_, by omega⟩
  rw [Outcome.after, Outcome.after]
  dsimp only
  congr 1
  omega

/-- Reading that begins further on. -/
theorem Cuts.of_after {q' : Parser α} (hp : m + p ≤ c.rest.length)
    (h : q' c = (q (c.skip m)).after m)
    (h' : q' (c.cut (m + p) r) = (q ((c.cut (m + p) r).skip m)).after m)
    (hs : Cuts p r q (c.skip m)) : Cuts (m + p) r q' c := by
  obtain ⟨hcut, hlt⟩ := hs
  rw [skip_cut hp, hcut] at h'
  refine ⟨?_, ?_⟩
  · rw [h, h', Outcome.after, Outcome.after]
    dsimp only
    congr 1
    omega
  · rw [h, Outcome.taken_after]
    omega

theorem map_congr_of_eq {c d : Cursor} (h : q d = q c) (g : α → β) :
    (q >>= fun a => Pure.pure (g a)) d = (q >>= fun a => Pure.pure (g a)) c := by
  cases hq : q c with
  | mk result m =>
    rw [hq] at h
    cases result with
    | error e => rw [bind_of_error hq, bind_of_error h]
    | ok a =>
      rw [bind_of_ok hq, bind_of_ok h]
      rfl

/-- A value is all the same in the end. -/
theorem Cuts.map (hq : Cuts p r q c) (g : α → β) :
    Cuts p r (q >>= fun a => Pure.pure (g a)) c := by
  obtain ⟨hcut, hlt⟩ := hq
  cases hc : q c with
  | mk result m =>
    rw [hc] at hcut hlt
    cases result with
    | error e =>
      rw [Cuts, bind_of_error hc, bind_of_error hcut]
      exact ⟨rfl, hlt⟩
    | ok a =>
      rw [Cuts, bind_of_ok hc, bind_of_ok hcut]
      exact ⟨rfl, hlt⟩

theorem Cuts.inside (hq : Cuts p r q c) (construct : Construct) :
    Cuts p r (Parser.inside construct q) c := by
  obtain ⟨hcut, hlt⟩ := hq
  refine ⟨?_, hlt⟩
  rw [Parser.inside, hcut]
  rfl

end Parser

/-! ## Initializers -/

/-- Whether a binary operator comes next.  The operator `!=` is two tokens, and so are `<=` and `>=`,
which begin like `<` and `>`. -/
def Cursor.atBinaryOperator (c : Cursor) : Bool :=
  match c.kind with
  | .operator | .ampersand | .andAnd | .equalEqual | .less | .greater => true
  | .bang => (c.ahead 1).kind == .equal && c.span.touches (c.ahead 1).span
  | _ => false

/-- An initializer goes on over a binary operator. -/
theorem initializerStride_of_atBinaryOperator (h : c.atBinaryOperator = true) :
    c.initializerStride = .pass 0 := by
  rw [Cursor.atBinaryOperator] at h
  rw [Cursor.initializerStride]
  cases hk : c.kind <;> rw [hk] at h <;> first | rfl | cases h

theorem kind_of_atBinaryOperator (h : c.atBinaryOperator = true) : c.kind ≠ .endOfFile := by
  intro hk
  rw [Cursor.atBinaryOperator, hk] at h
  cases h

theorem kind_skip_newlines (c : Cursor) : (c.skip c.newlines).kind ≠ .newline := by
  rw [Cursor.kind, Cursor.current, Cursor.ahead_skip, Nat.add_zero, ← Cursor.pastNewlines_eq_ahead,
    Cursor.pastNewlines]
  cases hf : c.rest.find? (·.kind != .newline) with
  | none => exact (by decide : TokenKind.endOfFile ≠ .newline)
  | some t => simpa using List.find?_some hf

theorem newlines_pos (hk : c.kind = .newline) : 0 < c.newlines := by
  refine Nat.pos_of_ne_zero fun hz => ?_
  have hne := kind_skip_newlines c
  rw [hz, Cursor.skip_zero] at hne
  exact hne hk

namespace Parser

theorem initializer_of_continues (hk : c.kind = .newline) (hc : c.initializerContinues = true) :
    initializer c = (initializer (c.skip c.newlines)).after c.newlines := by
  have hstride : c.initializerStride = .pass (c.newlines - 1) := by
    rw [Cursor.initializerStride, hk]
    dsimp only
    rw [if_pos hc]
  rw [initializer, stretch_of_pass (Cursor.rest_ne_nil_of_kind (by rw [hk]; decide)) hstride,
    Nat.sub_add_cancel (newlines_pos hk)]

theorem initializer_of_atBinaryOperator (h : c.atBinaryOperator = true) :
    initializer c = (initializer (c.skip 1)).after 1 :=
  stretch_of_pass (Cursor.rest_ne_nil_of_kind (kind_of_atBinaryOperator h))
    (initializerStride_of_atBinaryOperator h)

/-- The line ends that an initializer passes are not the last ones before others. -/
theorem shows_of_pass (hs : c.initializerStride = .pass m)
    (hk : (c.skip (m + 1 + p)).kind = .newline) : Shows (m + 1 + p) 0 c.rest := by
  by_cases hc : c.kind = .newline
  · have hm : m + 1 = c.newlines := by
      have hpos := newlines_pos hc
      rw [Cursor.initializerStride, hc] at hs
      dsimp only at hs
      split at hs
      · have := Stride.pass.inj hs
        omega
      · cases hs
    have hne := kind_skip_newlines c
    rw [← hm] at hne
    rcases Nat.eq_zero_or_pos p with rfl | hp
    · exact absurd hk hne
    · exact (shows_of_kind hne (Nat.lt_add_of_pos_right hp)).of_le (Nat.zero_le _)
  · exact shows_of_kind (by rwa [Cursor.skip_zero]) (by omega)

end Parser

/-- `r` line ends come next, and then a binary operator. -/
structure Cursor.BeforeOperator (r : Nat) (d : Cursor) : Prop where
  kind : d.kind = .newline
  newlines : d.newlines = r
  operator : (d.skip r).atBinaryOperator = true

theorem Cursor.BeforeOperator.lt_length {d : Cursor} (h : d.BeforeOperator r) :
    r < d.rest.length := by
  have hne := Cursor.rest_ne_nil_of_kind (kind_of_atBinaryOperator h.operator)
  have := List.length_pos_iff.mpr hne
  rw [Cursor.length_rest_skip] at this
  omega

/-- An initializer that comes to the line ends goes on over them. -/
structure Cursor.Continued (r : Nat) (d : Cursor) : Prop extends d.BeforeOperator r where
  continues : d.initializerContinues = true

/-- An initializer that comes to the line ends ends there. -/
structure Cursor.Stopped (r : Nat) (d : Cursor) : Prop extends d.BeforeOperator r where
  stops : d.initializerContinues = false

namespace Parser

/-- Whether the line ends are there or not, the operator after them is passed, and all is the same
from there. -/
theorem cuts_initializer_here (hb : c.Behind) (hc : c.Continued r) : Cuts 0 r initializer c := by
  have hlt := hc.lt_length
  have hinit : initializer c = (initializer (c.skip (1 + r))).after (1 + r) := by
    rw [initializer_of_continues hc.kind hc.continues, hc.newlines,
      initializer_of_atBinaryOperator hc.operator, Cursor.skip_skip, Outcome.after_after,
      Nat.add_comm r 1]
  have hinit' : initializer (c.cut 0 r) = (initializer ((c.cut 0 r).skip 1)).after 1 :=
    initializer_of_atBinaryOperator (by rw [cut_zero]; exact hc.operator)
  have hsame : (c.skip (1 + r)).Same ((c.cut 0 r).skip 1) := same_past_cut Nat.zero_lt_one (by omega)
  have hb' : (c.skip (1 + r)).Behind := hb.skip _
  rw [hsame.eq _ fun h hs => initializer_alike h hb' hs] at hinit'
  refine ⟨?_, ?_⟩
  · rw [hinit', hinit, Outcome.after, Outcome.after]
    dsimp only
    congr 1
    omega
  · rw [hinit, Outcome.taken_after]
    omega

/-- **An initializer reads the same** without the line ends it goes on over. -/
theorem cuts_initializer (h : Strides Cursor.initializerStride c p) (hb : c.Behind)
    (hc : (c.skip p).Continued r) : Cuts p r initializer c := by
  induction h with
  | here c => exact cuts_initializer_here hb (by rwa [Cursor.skip_zero] at hc)
  | @pass c m p hr hs later ih =>
    have hlt := hc.lt_length
    rw [Cursor.length_rest_skip] at hlt
    have ih := ih (hb.skip _) (by rwa [Cursor.skip_skip])
    have hbrace : c.kind ≠ .leftBrace := by
      intro hk
      rw [Cursor.initializerStride, hk] at hs
      dsimp only at hs
      split at hs <;> cases hs
    obtain ⟨hi, halike⟩ := alike_cut (c := c) (p := m + 1 + p) (by omega) r
    have hs' := Cursor.initializerStride_alike halike hb (by
      rw [Cursor.initializerPeek, if_neg hbrace]
      exact shows_of_pass hs hc.kind)
    have hr' : (c.cut (m + 1 + p) r).rest ≠ [] := by rwa [Ne, halike.rest_eq_nil_iff (by omega)]
    exact Cuts.of_after (by omega) (stretch_of_pass hr hs) (stretch_of_pass hr' (hs'.trans hs)) ih
  | @group c t ts m p hr hs hm later ih =>
    have hlt := hc.lt_length
    rw [Cursor.length_rest_skip] at hlt
    have ih := ih (hb.skip _) (by rwa [Cursor.skip_skip])
    obtain ⟨hi, halike⟩ := alike_cut (c := c) (p := m + 1 + p) (by omega) r
    -- The bracket that closes the group ends no line.
    obtain ⟨pre, u, post, rfl, rfl, hu⟩ := closesAt_of_groupLength? hm
    have hshows : Shows (pre.length + 1 + 1 + p) 1 c.rest := by
      refine ⟨pre.length + 1, by omega, by omega, fun v hv => ?_⟩
      rw [hr, List.getElem?_cons_succ, List.getElem?_append_right (Nat.le_refl _), Nat.sub_self] at hv
      obtain rfl := Option.some.inj hv
      intro hk
      rw [hk] at hu
      cases hu
    have hs' := Cursor.initializerStride_alike halike hb (hshows.of_le c.initializerPeek_le)
    have hr' : (c.cut (pre.length + 1 + 1 + p) r).rest ≠ [] := by
      rw [Ne, halike.rest_eq_nil_iff (by omega), hr]
      exact List.cons_ne_nil _ _
    have hclosed := group_of_closed hr hm
    have hclosed' := group_alike halike (by rw [hclosed]; exact Nat.le_add_right _ _)
      (by rw [Cursor.rest_skip_one hr, hm]; rintro ⟨⟩)
    rw [hclosed, Outcome.mapSpans_ok] at hclosed'
    exact Cuts.of_after (by omega) (stretch_of_group (by simp [hr]) hs hclosed)
      (stretch_of_group hr' (hs'.trans hs) hclosed') ih

/-! ## Bindings -/

theorem furtherBindings_same {c d : Cursor} (h : c.Same d) :
    furtherBindings d = furtherBindings c :=
  h.eq _ furtherBindings_alike

theorem bindingEnd_same {c d : Cursor} (h : c.Same d) (hb : c.Behind) (first : Span) (p : Pattern)
    (type : Option String) (hasInitializer : Bool) :
    bindingEnd first p type hasInitializer d = bindingEnd first p type hasInitializer c :=
  h.eq _ fun h hs => by
    have := bindingEnd_alike h hb first p type hasInitializer hs
    rwa [Span.move_zero] at this

theorem cuts_bindingValue (hk : c.kind = .equal)
    (hs : Strides Cursor.initializerStride (c.skip 1) p) (hc : (c.skip (1 + p)).Continued r)
    (first : Span) (pattern : Pattern) (type : Option String) :
    Cuts (1 + p) r (bindingValue first pattern type) c := by
  have hlt := hc.lt_length
  rw [Cursor.length_rest_skip] at hlt
  have hr : c.rest ≠ [] := Cursor.rest_ne_nil_of_kind (by rw [hk]; decide)
  obtain ⟨hi, halike⟩ := alike_cut (c := c) (p := 1 + p) (by omega) r
  have heat : eat .equal c = ⟨.ok true, 1⟩ := by
    rw [eat, if_pos hk, Nat.min_eq_left (List.length_pos_iff.mpr hr)]
  have heat' : eat .equal (c.cut (1 + p) r) = ⟨.ok true, 1⟩ := by
    rw [eat_alike halike (by omega), heat]
    rfl
  refine Cuts.after heat heat' (by omega) ?_
  refine Cuts.bind (q := initializer) (f := fun _ => bindingEnd first pattern type true)
    (cuts_initializer hs (Cursor.behind_skip hr Nat.zero_lt_one) (by rwa [Cursor.skip_skip]))
    (by rw [Cursor.length_rest_skip]; omega) fun _ d d' hb h => ?_
  exact bindingEnd_same h hb first pattern type true

theorem cuts_binding {i : Nat} (h : HasInitializer c i)
    (hs : Strides Cursor.initializerStride (c.skip i) p) (hc : (c.skip (i + p)).Continued r) :
    Cuts (i + p) r binding c := by
  have hlt := hc.lt_length
  rw [Cursor.length_rest_skip] at hlt
  cases h with
  | @mk pattern type m l hp ht hk =>
    rw [show m + l + 1 + p = m + (l + (1 + p)) by omega] at hc hlt ⊢
    have hvalue := cuts_bindingValue hk (by rwa [Cursor.skip_skip]) (r := r) (p := p)
      (by rw [Cursor.skip_skip, Nat.add_assoc]; exact hc) c.span pattern type
    -- The pattern and the type are read before the place of the cut.
    obtain ⟨hi, halike⟩ := alike_cut (c := c) (p := m + (l + (1 + p))) (by omega) r
    have hp' : Parser.pattern (c.cut (m + (l + (1 + p))) r) = ⟨.ok pattern, m⟩ := by
      rw [pattern_alike halike ⟨by rw [hp]; exact Nat.le_add_right _ _, by rw [hp]; rintro _ ⟨⟩⟩, hp]
      rfl
    obtain ⟨hi', halike'⟩ := alike_cut (c := c.skip m) (p := l + (1 + p))
      (by rw [Cursor.length_rest_skip]; omega) r
    have ht' : bindingType? ((c.skip m).cut (l + (1 + p)) r) = ⟨.ok type, l⟩ := by
      have hs : Shows (l + (1 + p)) l (c.skip m).rest :=
        shows_of_kind (by rw [Cursor.skip_skip, hk]; decide) (by omega)
      rw [bindingType?_alike halike' (by rwa [ht]), ht, mapSpans_move_zero]
    have hbinding : Cuts (m + (l + (1 + p))) r
        (Parser.pattern >>= fun p => bindingType? >>= fun type => bindingValue c.span p type) c := by
      refine Cuts.after hp hp' (by omega) (Cuts.after ht ht' ?_ ?_)
      · rw [Cursor.length_rest_skip]
        omega
      · rwa [Cursor.skip_skip]
    have hspan : (c.cut (m + (l + (1 + p))) r).span = c.span := by
      rw [halike.span (by omega), Span.move_zero]
      rfl
    rw [Cuts, binding_apply, binding_apply, hspan]
    exact hbinding

theorem InBindings.pos (h : InBindings c p) : 0 < p := by
  cases h with
  | own h => cases h; omega
  | further => omega

/-- **Bindings are read the same** without the line ends. -/
theorem cuts_bindings (h : InBindings c p) (hc : (c.skip p).Continued r) :
    Cuts p r bindings c := by
  have hlt := hc.lt_length
  rw [Cursor.length_rest_skip] at hlt
  induction h with
  | @own c i p h hs =>
    refine Cuts.bind (cuts_binding h hs hc) (by omega) fun b d d' _ hsame => ?_
    have hmap := furtherBindings_same hsame
    exact map_congr_of_eq hmap _
  | @further c b m l p hb hk hl later ih =>
    have hpos := InBindings.pos later
    have hplace : m + 1 + l + p = m + (1 + l + p) := by omega
    rw [hplace] at hc hlt ⊢
    have ih := ih (by rw [Cursor.skip_skip, hplace]; exact hc)
      (by rw [Cursor.length_rest_skip]; omega)
    obtain ⟨hi, halike⟩ := alike_cut (c := c) (p := m + (1 + l + p)) (by omega) r
    have hb' : binding (c.cut (m + (1 + l + p)) r) = ⟨.ok b, m⟩ := by
      have hs : Shows (m + (1 + l + p)) m c.rest := shows_of_kind (by rw [hk]; decide) (by omega)
      rw [binding_alike halike (by rwa [hb]), hb, mapSpans_move_zero]
    refine Cuts.after hb hb' (by omega) (Cuts.map ?_ _)
    obtain ⟨hi', halike'⟩ := alike_cut (c := c.skip m) (p := 1 + l + p)
      (by rw [Cursor.length_rest_skip]; omega) r
    have hl' : (((c.skip m).cut (1 + l + p) r).skip 1).newlines = l := by
      have hone := halike'.skip (m := 1) (by omega)
      rw [Cursor.skip_skip] at hone
      rw [hone.newlines (by omega), hl]
    refine Cuts.of_after (q := bindings) (by rw [Cursor.length_rest_skip]; omega) ?_ ?_ ?_
    · rw [furtherBindings_of_comma hk, Cursor.skip_skip, Cursor.skip_skip, hl, Cursor.skip_skip]
    · rw [furtherBindings_of_comma, hl']
      rw [halike'.kind (by omega), hk]
    · rwa [Cursor.skip_skip, ← Nat.add_assoc]

theorem cuts_property (h : InBindings (c.skip 1) p) (hr : c.rest ≠ [])
    (hc : (c.skip (1 + p)).Continued r) : Cuts (1 + p) r property c := by
  have hlt := hc.lt_length
  rw [Cursor.length_rest_skip] at hlt
  obtain ⟨hi, halike⟩ := alike_cut (c := c) (p := 1 + p) (by omega) r
  have hnext : next c = ⟨.ok c.current, 1⟩ := by
    rw [next, Nat.min_eq_left (List.length_pos_iff.mpr hr)]
  have hnext' : next (c.cut (1 + p) r) = ⟨.ok c.current, 1⟩ := by
    rw [next_alike halike (by omega), hnext, mapSpans_move_zero]
  rw [property_apply]
  refine (Cuts.after hnext hnext' (by omega) (Cuts.map ?_ _)).inside _
  exact cuts_bindings h (by rwa [Cursor.skip_skip])

end Parser

/-! ## Heads and rounds -/

namespace Parser

theorem complete_same {c d : Cursor} (h : c.Same d) (hb : c.Behind) (first : Span)
    (as : List Attribute) (ms : List Modifier) (a : Declaration) :
    complete first as ms a d = complete first as ms a c := by
  obtain ⟨hi, halike⟩ := h.alike
  have hspan := (halike 0).previousSpan hb
  rw [Span.move_zero] at hspan
  rw [complete, here_bind, here_bind, hspan]
  rfl

theorem cuts_headRest_of_property (ho : c.opening? = some .property) (h : InBindings (c.skip 1) p)
    (hc : (c.skip (1 + p)).Continued r) (first : Span) (as : List Attribute) (ms : List Modifier) :
    Cuts (1 + p) r (headRest first as ms) c := by
  have hlt := hc.lt_length
  rw [Cursor.length_rest_skip] at hlt
  obtain ⟨hi, halike⟩ := alike_cut (c := c) (p := 1 + p) (by omega) r
  have hne : c.kind ≠ .ident := by
    rcases Cursor.kind_of_opening?_property ho with hk | hk <;> rw [hk] <;> decide
  have ho' : (c.cut (1 + p) r).opening? = some .property := by
    rw [Cursor.opening?_alike halike (by rw [Cursor.openingReach, if_neg hne]; omega), ho]
  have hproperty := Cuts.bind (f := fun kind => complete first as ms (.ofKind kind .none))
    (cuts_property h (Cursor.rest_ne_nil_of_opening? ho) hc) (by omega)
    fun kind d d' hb hsame => complete_same hsame hb first as ms (.ofKind kind .none)
  rw [Cuts, headRest_of_property ho, headRest_of_property ho']
  exact hproperty

theorem cuts_head_of_property {as : List Attribute} {ms : List Modifier} {k l : Nat}
    (ha : attributes c = ⟨.ok as, k⟩) (hm : modifiers (c.skip k) = ⟨.ok ms, l⟩)
    (ho : (c.skip (k + l)).opening? = some .property) (h : InBindings (c.skip (k + l + 1)) p)
    (hc : (c.skip (k + l + 1 + p)).Continued r) : Cuts (k + (l + (1 + p))) r head c := by
  rw [show k + l + 1 + p = k + (l + (1 + p)) by omega] at hc
  have hlt := hc.lt_length
  rw [Cursor.length_rest_skip] at hlt
  have hletvar := Cursor.kind_of_opening?_property ho
  have hrest : Cuts (1 + p) r (headRest c.span as ms) (c.skip (k + l)) := by
    refine cuts_headRest_of_property ho (by rwa [Cursor.skip_skip]) ?_ c.span as ms
    rwa [Cursor.skip_skip, Nat.add_assoc]
  -- Before the place of the cut, attributes end before a modifier or the keyword.
  have hshows : Shows (k + (l + (1 + p))) (k + l) c.rest := by
    refine shows_of_kind ?_ (by omega)
    rcases hletvar with hk | hk <;> rw [hk] <;> decide
  obtain ⟨hi, halike⟩ := alike_cut (c := c) (p := k + (l + (1 + p))) (by omega) r
  have ha' : attributes (c.cut (k + (l + (1 + p))) r) = ⟨.ok as, k⟩ := by
    have hdot : (c.skip k).kind ≠ .dot := by
      intro hk
      rw [modifiers_of_none (by rw [Cursor.modifier?, hk])] at hm
      cases hm
      rw [Cursor.opening?, Nat.add_zero, hk] at ho
      cases ho
    rw [attributes_alike halike (by rw [ha]; exact hshows.of_le (Nat.le_add_right k l))
      (by rw [ha]; exact fun hk => absurd hk hdot), ha, mapSpans_move_zero]
  obtain ⟨hi', halike'⟩ := alike_cut (c := c.skip k) (p := l + (1 + p))
    (by rw [Cursor.length_rest_skip]; omega) r
  have hl : (c.skip k).modifiers.2 = l := by
    have := (Outcome.mk.inj hm).2
    rwa [Nat.min_eq_left (modifiers_le _)] at this
  have hm' : modifiers ((c.skip k).cut (l + (1 + p)) r) = ⟨.ok ms, l⟩ := by
    have hshows' : Shows (l + (1 + p)) l (c.skip k).rest := by
      have := hshows.drop
      rwa [Nat.add_sub_cancel_left] at this
    rw [modifiers_apply_alike halike' (by rwa [hl]) ?_, hm, mapSpans_move_zero]
    rw [hl, Cursor.skip_skip, Cursor.modifierReach]
    rcases hletvar with hk | hk <;> rw [hk] <;> dsimp only <;> omega
  have hspan : (c.cut (k + (l + (1 + p))) r).span = c.span := by
    rw [halike.span (by omega), Span.move_zero]
    rfl
  have hhead : Cuts (k + (l + (1 + p))) r
      (attributes >>= fun as => modifiers >>= headRest c.span as) c := by
    refine Cuts.after ha ha' (by omega) (Cuts.after hm hm' ?_ ?_)
    · rw [Cursor.length_rest_skip]
      omega
    · rwa [Cursor.skip_skip]
  rw [Cuts, head_apply, head_apply, hspan]
  exact hhead

end Parser

/-- Declarations are read the same where `r` tokens are cut out `p` places ahead, and a token after
these is taken. -/
def CutsDeclarations (p r : Nat) (inBlock : Bool) (c : Cursor) : Prop :=
  declarations inBlock (c.cut p r)
    = { declarations inBlock c with taken := (declarations inBlock c).taken - r }
  ∧ p + r < (declarations inBlock c).taken

/-- So it is with one round. -/
def CutsFinding (p r : Nat) (inBlock : Bool) (c : Cursor) : Prop :=
  finding inBlock (c.cut p r)
    = { finding inBlock c with taken := (finding inBlock c).taken - r }
  ∧ p + r < (finding inBlock c).taken

theorem recovered_past_cut (hm : p + r < m) (hp : p + r < c.rest.length) (errors : List ParseError)
    (e : ParseError) : Finding.recovered inBlock (c.cut p r) errors e (m - r)
      = { Finding.recovered inBlock c errors e m with
          taken := (Finding.recovered inBlock c errors e m).taken - r }
    ∧ p + r < (Finding.recovered inBlock c errors e m).taken := by
  have hsame := same_past_cut (c := c) (r := r) (m := m - r) (p := p) (by omega) hp
  rw [Nat.sub_add_cancel (by omega)] at hsame
  rw [Finding.recovered, Finding.recovered, hsame.rest]
  refine ⟨?_, ?_⟩
  · rw [Finding.mk.injEq]
    refine ⟨rfl, rfl, ?_⟩
    dsimp only
    omega
  · dsimp only
    omega

theorem cutsFinding_of_head (hk : c.kind ≠ .rightBrace) (hh : Parser.Cuts p r Parser.head c)
    (hp : p + r < c.rest.length) (hpos : 0 < p)
    (ht : ∀ d m, Parser.head c ≠ ⟨.ok (.type d), m⟩) : CutsFinding p r inBlock c := by
  obtain ⟨hi, halike⟩ := alike_cut (c := c) (p := p) (by omega) r
  have hk' : (c.cut p r).kind ≠ .rightBrace := by rwa [halike.kind hpos]
  obtain ⟨hcut, hlt⟩ := hh
  cases ho : Parser.head c with
  | mk result m =>
    rw [ho] at hcut hlt
    dsimp only at hcut hlt
    cases result with
    | error e =>
      rw [CutsFinding, finding_of_error hk ho, finding_of_error hk' hcut]
      exact recovered_past_cut hlt hp [] e
    | ok o =>
      cases o with
      | directive =>
        rw [CutsFinding, finding_of_directive hk ho, finding_of_directive hk' hcut,
          Finding.mk.injEq]
        exact ⟨⟨rfl, rfl, by dsimp only; omega⟩, by dsimp only; omega⟩
      | complete a =>
        rw [CutsFinding, finding_of_complete hk ho, finding_of_complete hk' hcut,
          Finding.mk.injEq]
        exact ⟨⟨rfl, rfl, by dsimp only; omega⟩, by dsimp only; omega⟩
      | type a => exact absurd ho (ht a m)

theorem cutsFinding_of_type {a : Declaration} (hk : c.kind ≠ .rightBrace)
    (hh : Parser.head c = ⟨.ok (.type a), m⟩) (hb : (c.skip m).kind = .leftBrace)
    (hi : CutsDeclarations p r true (c.skip (m + 1))) (hp : m + 1 + p + r < c.rest.length) :
    CutsFinding (m + 1 + p) r inBlock c := by
  obtain ⟨hi, halike⟩ := alike_cut (c := c) (p := m + 1 + p) (by omega) r
  obtain ⟨hblock, hlt⟩ := ‹CutsDeclarations p r true (c.skip (m + 1))›
  have hk' : (c.cut (m + 1 + p) r).kind ≠ .rightBrace := by rwa [halike.kind (by omega)]
  have hh' : Parser.head (c.cut (m + 1 + p) r) = ⟨.ok (.type a), m⟩ := by
    have hs : Shows (m + 1 + p) m c.rest :=
      Parser.shows_of_kind (by rw [hb]; decide) (by omega)
    rw [Parser.head_alike halike (by rwa [hh]), hh, mapSpans_move_zero]
  have hb' : ((c.cut (m + 1 + p) r).skip m).kind = .leftBrace := by
    rw [(halike.skip (by omega)).kind (by omega), hb]
  rw [← skip_cut (by omega)] at hblock
  have hsame := same_past_cut (c := c) (r := r) (p := m + 1 + p)
    (m := m + 1 + ((declarations true (c.skip (m + 1))).taken - r)) (by omega) (by omega)
  rw [show m + 1 + ((declarations true (c.skip (m + 1))).taken - r) + r
    = m + 1 + (declarations true (c.skip (m + 1))).taken by omega] at hsame
  rw [CutsFinding, finding_of_type hk hh, finding_of_type hk' hh', hblock]
  generalize declarations true (c.skip (m + 1)) = b at hlt hsame ⊢
  by_cases hc : (c.skip (m + 1 + b.taken)).kind = .rightBrace
  case pos =>
    rw [Finding.ofBlock_of_closed hb hc, Finding.ofBlock_of_closed hb' (hsame.kind.trans hc),
      hsame.span, Finding.mk.injEq]
    exact ⟨⟨rfl, rfl, by dsimp only; omega⟩, by dsimp only; omega⟩
  case neg =>
    have hspan : ((c.cut (m + 1 + p) r).skip m).span = (c.skip m).span := by
      rw [(halike.skip (by omega)).span (by omega), Span.move_zero]
      rfl
    rw [Finding.ofBlock_of_unclosed hb hc, Finding.ofBlock_of_unclosed hb' (by rwa [hsame.kind]),
      hsame.span, hspan, show m + 1 + (b.taken - r) = m + 1 + b.taken - r by omega]
    exact recovered_past_cut (by omega) hp b.errors _

theorem declarations_same {c d : Cursor} (h : c.Same d) :
    declarations inBlock d = declarations inBlock c :=
  h.eq _ declarations_alike

theorem cutsDeclarations_of_finding (he : ¬(c.skip c.separators).Ends inBlock)
    (hf : CutsFinding p r inBlock (c.skip c.separators)) (hpos : 0 < p)
    (hp : c.separators + p + r < c.rest.length) :
    CutsDeclarations (c.separators + p) r inBlock c := by
  obtain ⟨hi, halike⟩ := alike_cut (c := c) (p := c.separators + p) (by omega) r
  obtain ⟨hcut, hlt⟩ := hf
  have hsep : (c.cut (c.separators + p) r).separators = c.separators := halike.separators (by omega)
  have he' : ¬((c.cut (c.separators + p) r).skip c.separators).Ends inBlock := by
    rwa [(halike.skip (by omega)).ends (by omega)]
  rw [← skip_cut (by omega)] at hcut
  generalize hm : (finding inBlock (c.skip c.separators)).taken = m at hcut hlt
  have hsame := same_past_cut (c := c) (r := r) (p := c.separators + p)
    (m := c.separators + (m - r)) (by omega) (by omega)
  rw [show c.separators + (m - r) + r = c.separators + m by omega] at hsame
  have hlater : declarations inBlock _ = declarations inBlock _ := declarations_same hsame
  rw [CutsDeclarations, declarations_of_not_ends he,
    declarations_of_not_ends (c := c.cut (c.separators + p) r) (by rwa [hsep]), hsep, hcut, hlater, hm]
  refine ⟨?_, ?_⟩
  · rw [Parsed.preceded, Parsed.preceded, Parsed.mk.injEq]
    exact ⟨rfl, rfl, by dsimp only; omega⟩
  · rw [Parsed.preceded]
    dsimp only
    omega

theorem not_ends_of_lt (hk : (c.skip c.separators).kind ≠ .rightBrace)
    (h : c.separators < c.rest.length) : ¬(c.skip c.separators).Ends inBlock := by
  rintro (hr | ⟨-, hb⟩)
  · have := congrArg List.length hr
    rw [Cursor.length_rest_skip, List.length_nil] at this
    omega
  · exact hk hb

/-- A property is no type. -/
theorem head_ne_type_of_property {as : List Attribute} {ms : List Modifier} {k l : Nat}
    (ha : Parser.attributes c = ⟨.ok as, k⟩) (hm : Parser.modifiers (c.skip k) = ⟨.ok ms, l⟩)
    (ho : (c.skip (k + l)).opening? = some .property) (d : Declaration) (m : Nat) :
    Parser.head c ≠ ⟨.ok (.type d), m⟩ := by
  intro h
  rw [Parser.head_apply, Parser.bind_of_ok ha, Parser.bind_of_ok hm, Cursor.skip_skip,
    Parser.headRest_of_property ho] at h
  cases hp : Parser.property (c.skip (k + l)) with
  | mk result j =>
    cases result with
    | error e =>
      rw [Parser.bind_of_error hp] at h
      cases h
    | ok kind =>
      rw [Parser.bind_of_ok hp] at h
      cases h

/-- **Declarations are read the same** without the line ends. -/
theorem cutsDeclarations (h : InDeclarations inBlock c p) (hc : (c.skip p).Continued r) :
    CutsDeclarations p r inBlock c := by
  have hlt := hc.lt_length
  rw [Cursor.length_rest_skip] at hlt
  induction h with
  | @property inBlock c as ms k l p hk ha hm ho h =>
    have hplace : c.separators + k + l + 1 + p = c.separators + (k + l + 1 + p) := by omega
    have hplace' : k + l + 1 + p = k + (l + (1 + p)) := by omega
    simp only [Nat.add_assoc c.separators] at hm ho h
    simp only [← Cursor.skip_skip _ c.separators] at hm ho h
    have he : ¬(c.skip c.separators).Ends inBlock := not_ends_of_lt hk (by omega)
    rw [hplace] at hc hlt ⊢
    rw [← Cursor.skip_skip] at hc
    have hhead := Parser.cuts_head_of_property ha hm ho h hc
    rw [hplace'] at hlt ⊢
    exact cutsDeclarations_of_finding he
      (cutsFinding_of_head hk hhead (by rw [Cursor.length_rest_skip]; omega) (by omega)
        (head_ne_type_of_property ha hm ho)) (by omega) (by omega)
  | @block inBlock c d m p hk hh hb h ih =>
    have hplace : c.separators + m + 1 + p = c.separators + (m + 1 + p) := by omega
    have he : ¬(c.skip c.separators).Ends inBlock := not_ends_of_lt hk (by omega)
    have ih := ih (by rwa [Cursor.skip_skip]) (by rw [Cursor.length_rest_skip]; omega)
    rw [← Cursor.skip_skip] at hb
    rw [show c.separators + m + 1 = c.separators + (m + 1) by omega, ← Cursor.skip_skip] at ih
    rw [hplace] at hlt ⊢
    exact cutsDeclarations_of_finding he
      (cutsFinding_of_type hk hh hb ih (by rw [Cursor.length_rest_skip]; omega)) (by omega) (by omega)
  | @later inBlock c m p he hm h ih =>
    have ih := ih (by rwa [Cursor.skip_skip]) (by rw [Cursor.length_rest_skip]; omega)
    obtain ⟨hi, halike⟩ := alike_cut (c := c) (p := c.separators + m + p) (by omega) r
    have halike' := halike.skip (m := c.separators) (by omega)
    have hpos : 0 < p := h.shows.pos
    have hsep : (c.cut (c.separators + m + p) r).separators = c.separators :=
      halike.separators (by omega)
    have he' : ¬((c.cut (c.separators + m + p) r).skip c.separators).Ends inBlock := by
      rwa [halike'.ends (by omega)]
    have hf : finding inBlock ((c.cut (c.separators + m + p) r).skip c.separators)
        = finding inBlock (c.skip c.separators) := by
      have hshows : Shows (c.separators + m + p) (c.separators + m) c.rest := h.shows.add
      rw [finding_alike halike' (by rw [hm]; exact hshows.drop) fun _ h hs =>
        declarations_alike h hs, mapSpans_move_zero]
    obtain ⟨hcut, hlt'⟩ := ih
    rw [← skip_cut (by omega)] at hcut
    rw [CutsDeclarations, declarations_of_not_ends he,
      declarations_of_not_ends (c := c.cut (c.separators + m + p) r) (by rwa [hsep]), hsep, hf, hm,
      hcut]
    refine ⟨?_, ?_⟩
    · rw [Parsed.preceded, Parsed.preceded, Parsed.mk.injEq]
      exact ⟨rfl, rfl, by dsimp only; omega⟩
    · rw [Parsed.preceded]
      dsimp only
      omega

/-! ## Line ends that end the initializer -/

namespace Parser

/-- A stretch ends where it comes to a token that stops it. -/
theorem stretch_eq_of_stop {stride : Cursor → Stride} (h : Strides stride c p)
    (hs : stride (c.skip p) = .stop) : stretch stride c = ⟨.ok (), p⟩ := by
  induction h with
  | here c => exact stretch_of_stop (by rwa [Cursor.skip_zero] at hs)
  | pass hr hp later ih => rw [stretch_of_pass hr hp, ih (by rwa [Cursor.skip_skip])]; rfl
  | group hr hg hm later ih =>
    rw [stretch_of_group (by simp [hr]) hg (group_of_closed hr hm), ih (by rwa [Cursor.skip_skip])]
    rfl

theorem binding_eq_of_stop {i : Nat} (h : HasInitializer c i)
    (hs : Strides Cursor.initializerStride (c.skip i) p)
    (hstop : (c.skip (i + p)).initializerStride = .stop)
    (hk : (c.skip (i + p)).kind ≠ .leftBrace) : ∃ b, binding c = ⟨.ok b, i + p⟩ := by
  cases h with
  | @mk pattern type m l hp ht he =>
    have hr := Cursor.rest_ne_nil_of_kind (c := c.skip (m + l)) (by rw [he]; decide)
    have heat : eat .equal (c.skip (m + l)) = ⟨.ok true, 1⟩ := by
      rw [eat, if_pos he, Nat.min_eq_left (List.length_pos_iff.mpr hr)]
    have hinit : initializer (c.skip (m + l + 1)) = ⟨.ok (), p⟩ :=
      stretch_eq_of_stop hs (by rwa [Cursor.skip_skip])
    have hend : ∃ b, bindingEnd c.span pattern type true (c.skip (m + l + 1 + p)) = ⟨.ok b, 0⟩ := by
      rw [bindingEnd, here_bind]
      dsimp only
      rw [if_neg (by simpa using hk), here_bind]
      exact ⟨_, rfl⟩
    obtain ⟨b, hb⟩ := hend
    refine ⟨b, ?_⟩
    have hvalue : bindingValue c.span pattern type (c.skip (m + l)) = ⟨.ok b, 1 + p⟩ := by
      rw [bindingValue, bind_of_ok heat, Cursor.skip_skip]
      have : (initializer >>= fun _ => bindingEnd c.span pattern type true) (c.skip (m + l + 1))
          = ⟨.ok b, p⟩ := by
        rw [bind_of_ok hinit, Cursor.skip_skip, hb]
        rfl
      exact congrArg (Outcome.after 1) this
    rw [binding_apply, bind_of_ok hp, bind_of_ok ht, Cursor.skip_skip, hvalue, Outcome.after,
      Outcome.after]
    dsimp only
    congr 1
    omega

theorem bindings_eq_of_stop (h : InBindings c p)
    (hstop : (c.skip p).initializerStride = .stop) (hk : (c.skip p).kind = .newline) :
    ∃ bs, bindings c = ⟨.ok bs, p⟩ := by
  induction h with
  | @own c i p h hs =>
    obtain ⟨b, hb⟩ := binding_eq_of_stop h hs hstop (by rw [hk]; decide)
    have hf : furtherBindings (c.skip (i + p)) = ⟨.ok [], 0⟩ :=
      furtherBindings_of_ne (by rw [hk]; decide)
    rw [bindings, bind_of_ok hb, bind_of_ok hf]
    exact ⟨[b], rfl⟩
  | @further c b m l p hb hc hl later ih =>
    obtain ⟨bs, hbs⟩ := ih (by rwa [Cursor.skip_skip]) (by rwa [Cursor.skip_skip])
    have hf : furtherBindings (c.skip m) = ⟨.ok bs, 1 + l + p⟩ := by
      rw [furtherBindings_of_comma hc, Cursor.skip_skip, Cursor.skip_skip, hl, ← Nat.add_assoc, hbs]
      rfl
    rw [bindings, bind_of_ok hb, bind_of_ok hf]
    refine ⟨b :: bs, ?_⟩
    rw [Outcome.after, Outcome.after]
    dsimp only
    congr 1
    dsimp only [pure_apply]
    omega

theorem head_eq_of_stop {as : List Attribute} {ms : List Modifier} {k l : Nat}
    (ha : attributes c = ⟨.ok as, k⟩) (hm : modifiers (c.skip k) = ⟨.ok ms, l⟩)
    (ho : (c.skip (k + l)).opening? = some .property) (h : InBindings (c.skip (k + l + 1)) p)
    (hstop : (c.skip (k + l + 1 + p)).initializerStride = .stop)
    (hk : (c.skip (k + l + 1 + p)).kind = .newline) :
    ∃ d, head c = ⟨.ok (.complete d), k + l + 1 + p⟩ := by
  obtain ⟨bs, hbs⟩ := bindings_eq_of_stop h (by rwa [Cursor.skip_skip]) (by rwa [Cursor.skip_skip])
  have hr := Cursor.rest_ne_nil_of_opening? ho
  have hnext : next (c.skip (k + l)) = ⟨.ok (c.skip (k + l)).current, 1⟩ := by
    rw [next, Nat.min_eq_left (List.length_pos_iff.mpr hr)]
  have hproperty : ∃ kind, property (c.skip (k + l)) = ⟨.ok kind, 1 + p⟩ := by
    rw [property_apply]
    exact ⟨_, inside_eq_ok.mpr (bind_eq_ok.mpr ⟨_, 1, p, hnext,
      bind_eq_ok.mpr ⟨bs, p, 0, by rwa [Cursor.skip_skip], rfl, rfl⟩, rfl⟩)⟩
  obtain ⟨kind, hkind⟩ := hproperty
  refine ⟨attached (.ofKind kind .none) as ms
    (c.span.merge ((c.skip (k + l)).skip (1 + p)).previousSpan), ?_⟩
  rw [head_apply]
  refine bind_eq_ok.mpr ⟨as, k, l + (1 + p), ha, bind_eq_ok.mpr ⟨ms, l, 1 + p, hm, ?_, rfl⟩, by omega⟩
  rw [Cursor.skip_skip, headRest_of_property ho]
  exact bind_eq_ok.mpr ⟨kind, 1 + p, 0, hkind, here_bind _ _, rfl⟩

end Parser

/-- No declaration begins with a binary operator, and no line is empty before one. -/
theorem facts_of_atBinaryOperator (h : c.atBinaryOperator = true) :
    c.kind ∉ [.atSign, .hash, .rightBrace, .newline, .semicolon] ∧ c.modifier? = none
      ∧ c.opening? = none := by
  rw [Cursor.atBinaryOperator] at h
  rw [Cursor.modifier?, Cursor.opening?]
  cases hk : c.kind with
  | operator => exact ⟨by decide, rfl, rfl⟩
  | ampersand => exact ⟨by decide, rfl, rfl⟩
  | andAnd => exact ⟨by decide, rfl, rfl⟩
  | equalEqual => exact ⟨by decide, rfl, rfl⟩
  | less => exact ⟨by decide, rfl, rfl⟩
  | greater => exact ⟨by decide, rfl, rfl⟩
  | bang => exact ⟨by decide, rfl, rfl⟩
  | _ =>
    rw [hk] at h
    cases h

theorem head_of_atBinaryOperator (h : c.atBinaryOperator = true) :
    Parser.head c = ⟨.error ⟨.expectedDeclaration c.kind, c.span, none⟩, 0⟩ := by
  obtain ⟨hk, hm, ho⟩ := facts_of_atBinaryOperator h
  simp only [List.mem_cons, not_or] at hk
  rw [Parser.head_apply, Parser.bind_of_ok (Parser.attributes_of_ne hk.1), Cursor.skip_zero,
    Parser.bind_of_ok (Parser.modifiers_of_none hm), Cursor.skip_zero, Parser.headRest_of_none ho,
    if_pos ⟨rfl, rfl⟩, if_neg hk.2.1]
  rfl

/-- A round that begins with a binary operator reports it. -/
theorem mem_errors_finding (h : c.atBinaryOperator = true) (inBlock : Bool) :
    (⟨.expectedDeclaration c.kind, c.span, some (levelConstruct inBlock)⟩ : ParseError)
      ∈ (finding inBlock c).errors := by
  obtain ⟨hk, -, -⟩ := facts_of_atBinaryOperator h
  simp only [List.mem_cons, not_or] at hk
  rw [finding_of_error hk.2.2.1 (head_of_atBinaryOperator h)]
  exact List.mem_singleton_self _

theorem errors_of_not_ends (h : ¬(c.skip c.separators).Ends inBlock) :
    (declarations inBlock c).errors = (finding inBlock (c.skip c.separators)).errors
      ++ (declarations inBlock (c.skip
        (c.separators + (finding inBlock (c.skip c.separators)).taken))).errors := by
  rw [declarations_of_not_ends h]
  rfl

theorem errors_ofBlock {d : Declaration} {block : Parsed} (hb : (c.skip m).kind = .leftBrace)
    {e : ParseError} (he : e ∈ block.errors) :
    e ∈ (Finding.ofBlock inBlock c d m block).errors := by
  by_cases hc : (c.skip (m + 1 + block.taken)).kind = .rightBrace
  case pos =>
    rw [Finding.ofBlock_of_closed hb hc]
    exact he
  case neg =>
    rw [Finding.ofBlock_of_unclosed hb hc]
    exact List.mem_append_left _ he

theorem separators_eq_newlines (h : (c.skip c.newlines).kind ≠ .semicolon) :
    c.separators = c.newlines := by
  have hne := kind_skip_newlines c
  rw [Cursor.kind, Cursor.current, Cursor.ahead, Cursor.rest_skip, Cursor.newlines,
    Cursor.countWhile] at h hne
  rw [Cursor.separators, Cursor.newlines, Cursor.countWhile, Cursor.countWhile]
  generalize c.rest = ts at h hne
  induction ts with
  | nil => rfl
  | cons t ts ih =>
    by_cases ht : t.kind = .newline
    · simp only [List.takeWhile_cons, ht, beq_self_eq_true, Bool.true_or, if_true, List.length_cons,
        List.drop_succ_cons] at h hne ⊢
      rw [ih h hne]
    · have hnl : (t.kind == .newline) = false := by simpa using ht
      simp only [List.takeWhile_cons, hnl, Bool.false_eq_true, if_false, List.length_nil,
        List.drop_zero] at h
      have hsemi : (t.kind == .semicolon) = false := by simpa using h
      simp [hnl, hsemi]

theorem Cursor.Stopped.mem_errors {d : Cursor} (h : d.Stopped r) (inBlock : Bool) :
    (⟨.expectedDeclaration (d.skip r).kind, (d.skip r).span, some (levelConstruct inBlock)⟩
      : ParseError) ∈ (declarations inBlock d).errors := by
  obtain ⟨hk, -, -⟩ := facts_of_atBinaryOperator h.operator
  simp only [List.mem_cons, not_or] at hk
  have hsep : d.separators = r := by
    rw [separators_eq_newlines (by rw [h.newlines]; exact hk.2.2.2.2.1), h.newlines]
  have he : ¬(d.skip d.separators).Ends inBlock :=
    not_ends_of_lt (by rw [hsep]; exact hk.2.2.1) (by rw [hsep]; exact h.lt_length)
  rw [errors_of_not_ends he, hsep]
  exact List.mem_append_left _ (mem_errors_finding h.operator inBlock)

/-- **The operator is reported** if the initializer ends before it. -/
theorem exists_error_of_stopped (h : InDeclarations inBlock c p) (hc : (c.skip p).Stopped r) :
    ∃ b, (⟨.expectedDeclaration (c.skip (p + r)).kind, (c.skip (p + r)).span,
      some (levelConstruct b)⟩ : ParseError) ∈ (declarations inBlock c).errors := by
  have hstop : (c.skip p).initializerStride = .stop := by
    rw [Cursor.initializerStride, hc.kind]
    dsimp only
    rw [hc.stops]
    rfl
  have hlt := hc.lt_length
  rw [Cursor.length_rest_skip] at hlt
  induction h with
  | @property inBlock c as ms k l p hk ha hm ho h =>
    have hplace : c.separators + k + l + 1 + p = c.separators + (k + l + 1 + p) := by omega
    simp only [Nat.add_assoc c.separators] at hm ho h
    simp only [← Cursor.skip_skip _ c.separators] at hm ho h
    have he : ¬(c.skip c.separators).Ends inBlock := not_ends_of_lt hk (by omega)
    rw [hplace] at hc hstop ⊢
    obtain ⟨d, hd⟩ := Parser.head_eq_of_stop ha hm ho h (by rwa [Cursor.skip_skip])
      (by rw [Cursor.skip_skip]; exact hc.kind)
    refine ⟨inBlock, ?_⟩
    rw [errors_of_not_ends he, finding_of_complete hk hd]
    refine List.mem_append_right _ ?_
    have hmem := hc.mem_errors inBlock
    rw [Cursor.skip_skip] at hmem
    rwa [Nat.max_eq_right (by omega)]
  | @block inBlock c d m p hk hh hb h ih =>
    have hplace : c.separators + m + 1 + p = c.separators + (m + 1 + p) := by omega
    have he : ¬(c.skip c.separators).Ends inBlock := not_ends_of_lt hk (by omega)
    obtain ⟨b, ih⟩ := ih (by rwa [Cursor.skip_skip]) (by rwa [Cursor.skip_skip])
      (by rw [Cursor.length_rest_skip]; omega)
    refine ⟨b, ?_⟩
    rw [Cursor.skip_skip, ← Nat.add_assoc] at ih
    rw [errors_of_not_ends he, finding_of_type hk hh]
    refine List.mem_append_left _ (errors_ofBlock (by rwa [Cursor.skip_skip]) ?_)
    rwa [Cursor.skip_skip]
  | @later inBlock c m p he hm h ih =>
    obtain ⟨b, ih⟩ := ih (by rwa [Cursor.skip_skip]) (by rwa [Cursor.skip_skip])
      (by rw [Cursor.length_rest_skip]; omega)
    refine ⟨b, ?_⟩
    rw [Cursor.skip_skip, ← Nat.add_assoc] at ih
    rw [errors_of_not_ends he, hm]
    exact List.mem_append_right _ ih

/-! ## Line ends before an operator -/

/-- Whether an initializer goes on over line ends before a binary operator, as it does if the line
before is left open or the operator is one of a list. -/
theorem initializerContinues_iff {d : Cursor} (h : d.BeforeOperator r) :
    d.initializerContinues = true ↔ d.previousKind?.any Cursor.endsOpen = true
      ∨ (d.skip r).kind ∈ [TokenKind.operator, .andAnd, .equalEqual] := by
  have hop := h.operator
  have hpast : d.pastNewlines.kind = (d.skip r).kind := by
    rw [Cursor.pastNewlines_eq_ahead, h.newlines, Cursor.kind, Cursor.current, Cursor.ahead_skip]
    rfl
  have hstarts : d.startsDeclaration d.pastNewlines = false := by
    rw [Cursor.startsDeclaration, hpast]
    rw [Cursor.atBinaryOperator] at hop
    cases hk : (d.skip r).kind <;> rw [hk] at hop <;> first | rfl | cases hop
  rw [Cursor.initializerContinues, hstarts, hpast, Bool.not_false, Bool.true_and, Bool.or_eq_true]
  refine or_congr Iff.rfl ?_
  rw [Cursor.atBinaryOperator] at hop
  cases hk : (d.skip r).kind <;> rw [hk] at hop <;> first | decide | cases hop

end

/-- The list with `r` of its tokens cut out, after the first `p`. -/
def TokenList.cut (p r : Nat) (ts : TokenList) : TokenList :=
  { ts with tokens := ts.tokens.take p ++ ts.tokens.drop (p + r) }

/-- **Line ends in front of a binary operator.**  Where reading comes to them inside an initializer
and the line before is left open, or the operator is `&&`, `==` or a single character other than
`&`, `<` and `>`, the file is the same without them.  Before any other operator the initializer ends
with its line, and the operator is reported where a declaration should begin. -/
theorem SourceFile.ofTokens_cut {source : List Char} {tokens : TokenList} {p r : Nat}
    (h : InDeclarations false (.start source tokens) p)
    (hd : ((Cursor.start source tokens).skip p).BeforeOperator r) :
    (((Cursor.start source tokens).skip p).previousKind?.any Cursor.endsOpen = true
        ∨ ((Cursor.start source tokens).skip (p + r)).kind
          ∈ [TokenKind.operator, .andAnd, .equalEqual] →
      SourceFile.ofTokens source (tokens.cut p r) = SourceFile.ofTokens source tokens)
    ∧ (((Cursor.start source tokens).skip p).previousKind?.any Cursor.endsOpen = false →
      ((Cursor.start source tokens).skip (p + r)).kind
        ∉ [TokenKind.operator, .andAnd, .equalEqual] →
      ∃ inBlock, (⟨.expectedDeclaration ((Cursor.start source tokens).skip (p + r)).kind,
        ((Cursor.start source tokens).skip (p + r)).span, some (levelConstruct inBlock)⟩ : ParseError)
          ∈ (SourceFile.ofTokens source tokens).errors) := by
  have hiff := initializerContinues_iff hd
  rw [Cursor.skip_skip] at hiff
  refine ⟨fun hgoes => ?_, fun hprevious hkind => ?_⟩
  · obtain ⟨hcut, -⟩ := cutsDeclarations h ⟨hd, hiff.mpr hgoes⟩
    have hstart : (Cursor.start source tokens).cut p r = .start source (tokens.cut p r) := rfl
    rw [SourceFile.ofTokens, ← hstart, hcut]
    rfl
  · refine exists_error_of_stopped h ⟨hd, ?_⟩
    rw [← Bool.not_eq_true, hiff]
    rintro (hopen | hmem)
    · rw [hprevious] at hopen
      cases hopen
    · exact hkind hmem

/-- The operator `&` ends the initializer before it, and is reported. -/
theorem SourceFile.ofTokens_cut_ampersand :
    let source := "let x = a\n& b\n"
    let tokens : TokenList := ⟨[⟨.letKw, ⟨0, 3⟩⟩, ⟨.ident, ⟨4, 5⟩⟩, ⟨.equal, ⟨6, 7⟩⟩,
      ⟨.ident, ⟨8, 9⟩⟩, ⟨.newline, ⟨9, 10⟩⟩, ⟨.ampersand, ⟨10, 11⟩⟩, ⟨.ident, ⟨12, 13⟩⟩,
      ⟨.newline, ⟨13, 14⟩⟩], 14⟩
    let c := Cursor.start source.toList tokens
    lex source = ⟨tokens, []⟩ ∧ InDeclarations false c 4 ∧ (c.skip 4).BeforeOperator 1
      ∧ ∃ inBlock, (⟨.expectedDeclaration .ampersand, ⟨10, 11⟩, some (levelConstruct inBlock)⟩
        : ParseError) ∈ (SourceFile.ofTokens source.toList tokens).errors := by
  intro source tokens c
  have hpattern : Parser.pattern (c.skip 1) = ⟨.ok (.name "x"), 1⟩ := by
    have htext : (c.skip 1).currentText = ['x'] := by decide +kernel
    have hname : String.ofList (unescapeText ['x']) = "x" := by decide +kernel
    rw [Parser.pattern_of_ident (by rfl), htext, if_neg (by decide), hname]
  have htype : Parser.bindingType? ((c.skip 1).skip 1) = ⟨.ok none, 0⟩ := by rfl
  have hinit : HasInitializer (c.skip 1) 2 := .mk hpattern htype (by rfl)
  have hstrides : Strides Cursor.initializerStride ((c.skip 1).skip 2) 1 :=
    .pass (List.cons_ne_nil _ _) (by rfl) (.here _)
  have hattributes : Parser.attributes (c.skip 0) = ⟨.ok [], 0⟩ :=
    Parser.attributes_of_ne (by decide)
  have hmodifiers : Parser.modifiers (c.skip 0) = ⟨.ok [], 0⟩ := Parser.modifiers_of_none (by rfl)
  have hreached : InDeclarations false c 4 :=
    .property (c := c) (k := 0) (l := 0) (p := 3)
      (by decide) hattributes hmodifiers (by rfl) (.own hinit hstrides)
  have hoperator : (c.skip 4).BeforeOperator 1 := ⟨by rfl, by rfl, by rfl⟩
  exact ⟨by decide +kernel, hreached, hoperator,
    (SourceFile.ofTokens_cut hreached hoperator).2 (by rfl) (by decide)⟩

end Memberwise
