import Memberwise.Proofs.Declaration.Ending
import Memberwise.Proofs.Token.Joining

/-!
# Proofs/Declaration/Joining — two texts, a line end between them

Where a text ends, another may go on with a line end and what can begin a declaration.  What is read
of the first text is then read of both (`Joined`): within it nothing changes, and an initializer that
comes to its end stops there at the latest.  Only if the initializer is left open, and the second
text begins with nothing that ends it (`Cursor.endsInitializers`), it goes on.

* `declarations_joined` — **the declarations of the first text come first**, then those of the
  second;
* `Reading.ofSource_append` — **two texts without errors have none when a line end joins them**, and
  their declarations are read one after the other.
-/

namespace Memberwise

open Text

/-- An initializer that comes to the cursor is left open where its text ends. -/
def Cursor.LeftOpen (c : Cursor) : Prop :=
  (∀ t ∈ c.rest, t.kind = .newline) ∧ c.previousKind?.any Cursor.endsOpen = true

/-- A line that begins with the token ends every initializer before it. -/
def Cursor.EndsInitializers (c : Cursor) (t : Token) : Prop :=
  c.startsDeclaration t = true ∨ t.kind = .semicolon ∨ t.kind = .endOfFile

/-- Every initializer that comes to a line that begins with the token stops before it: the token ends
them all, or it closes what stands around the first text. -/
def Cursor.StopsInitializers (c : Cursor) (t : Token) : Prop :=
  c.EndsInitializers t ∨ t.kind.isClose = true

/-- What is read where the first text ends, at the first cursor, and where the second one follows.
Either it is read before that and the same, or both take all tokens of the first text and differ in
no more than spans. -/
inductive Joined {α : Type} [Spanned α] (B : List Token) (q : Nat) (c d : Cursor) :
    Outcome α → Outcome α → Prop
  | within {o : Outcome α} (hm : o.taken ≤ q) : Joined B q c d o o
  | ended {a a' : α} {m m' : Nat} (ha : unplaced a' = unplaced a) (hm : q ≤ m) (hm' : q ≤ m')
      (hend : Ended B (c.skip m) (d.skip m')) : Joined B q c d ⟨.ok a, m⟩ ⟨.ok a', m'⟩

section

variable {α β : Type} [Spanned α] [Spanned β] {hi q m l : Nat} {B : List Token} {c d : Cursor}

namespace Joined

theorem after {o o' : Outcome α} (hl : l ≤ q)
    (h : Joined B (q - l) (c.skip l) (d.skip l) o o') : Joined B q c d (o.after l) (o'.after l) := by
  cases h with
  | within hm => exact .within (by rw [Outcome.taken_after]; omega)
  | ended ha hm hm' hend =>
    rw [Cursor.skip_skip, Cursor.skip_skip] at hend
    exact .ended ha (by dsimp only; omega) (by dsimp only; omega) hend

theorem inside {p : Parser α} (h : Joined B q c d (p c) (p d)) (construct : Construct) :
    Joined B q c d (Parser.inside construct p c) (Parser.inside construct p d) := by
  rw [Parser.inside, Parser.inside]
  revert h
  generalize p c = o
  generalize p d = o'
  intro h
  cases h with
  | within hm => exact .within hm
  | ended ha hm hm' hend => exact .ended ha hm hm' hend

/-- What goes on after something that is read so, if past the end of the first text nothing more is
taken. -/
theorem bind {p : Parser α} {f : α → Parser β} {b : β} (hok : (p >>= f) c = ⟨.ok b, m⟩)
    (hp : Joined B q c d (p c) (p d))
    (hwithin : ∀ {a l j}, p c = ⟨.ok a, l⟩ → l ≤ q → f a (c.skip l) = ⟨.ok b, j⟩ →
      Joined B (q - l) (c.skip l) (d.skip l) (f a (c.skip l)) (f a (d.skip l)))
    (hended : ∀ {a a' : α} {c d : Cursor}, unplaced a' = unplaced a → Ended B c d →
      ∃ b b', f a c = ⟨.ok b, 0⟩ ∧ f a' d = ⟨.ok b', 0⟩ ∧ unplaced b' = unplaced b) :
    Joined B q c d ((p >>= f) c) ((p >>= f) d) := by
  obtain ⟨a, l, j, hpc, hfc, rfl⟩ := Parser.bind_eq_ok.mp hok
  rw [hpc] at hp
  rw [Parser.bind_of_ok hpc]
  generalize hpd : p d = o' at hp
  cases hp with
  | within hm =>
    rw [Parser.bind_of_ok hpd]
    exact (hwithin hpc hm hfc).after hm
  | @ended _ a' _ l' ha hm hm' hend =>
    obtain ⟨b, b', hb, hb', hbb⟩ := hended ha hend
    rw [Parser.bind_of_ok hpd, hb, hb']
    exact .ended hbb hm hm' hend

end Joined

theorem Ended.skip (h : Ended B c d) (i : Nat) {j : Nat} (hj : j ≤ d.newlines) :
    Ended B (c.skip i) (d.skip j) where
  newlines t ht := h.newlines t (List.mem_of_mem_drop ht)
  rest_eq := by
    obtain ⟨N, hN, hr⟩ := h.rest_eq
    have hle : j ≤ N.length := by
      refine Nat.le_trans hj ?_
      rw [Cursor.newlines, Cursor.countWhile, hr, List.takeWhile_append_of_pos fun t ht => by
        simp [hN t ht], List.length_append]
      cases hB : B with
      | nil => simp
      | cons t ts => simp [(h.begins t (by rw [hB]; rfl)).1]
    refine ⟨N.drop j, fun t ht => hN t (List.mem_of_mem_drop ht), ?_⟩
    rw [Cursor.rest_skip, hr, List.drop_append_of_le_length hle]
  begins := h.begins

theorem Ended.kind_ne (h : Ended B c d) (kind : TokenKind) (hk : kind ∈ goesBack) :
    c.kind ≠ kind ∧ d.kind ≠ kind := by
  refine ⟨?_, fun hd => h.kind_not_mem (by rwa [hd])⟩
  rcases kind_newline_or_end h.newlines with hc | hc <;> rw [hc] <;> rintro rfl
  · exact absurd hk (by decide)
  · exact absurd hk (by decide)

theorem Ending.previousSpan (h : Ending hi B q c d) (hb : c.Behind) :
    d.previousSpan = c.previousSpan := h.alike.previousSpan hb

/-! ## Initializers -/

namespace Parser

/-- Line ends close no group. -/
theorem groupLength?_of_newlines {ts : List Token} (h : ∀ t ∈ ts, t.kind = .newline) :
    groupLength? 0 ts = none := by
  cases hm : groupLength? 0 ts with
  | none => rfl
  | some n =>
    obtain ⟨pre, t, post, rfl, -, hk⟩ := isClosingLength_group.exists_close hm
    rw [h t (by simp)] at hk
    cases hk

/-- The strides of an initializer before the end of the text are decided alike, unless one fails. -/
theorem initializerStride_ending (h : Ending hi B q c d) (hb : c.Behind) (hq : 0 < q) :
    d.initializerStride = c.initializerStride
      ∨ c.initializerStride = .group ∧ groupLength? 0 (c.skip 1).rest = none := by
  have hpeek := c.initializerPeek_le
  by_cases hlt : c.initializerPeek < q
  · exact .inl (Cursor.initializerStride_alike h.alike hb (h.shows hlt))
  · -- A brace comes last in the text.
    have hk : c.kind = .leftBrace := by
      by_contra hk
      rw [Cursor.initializerPeek, if_neg hk] at hlt
      exact hlt hq
    obtain rfl : q = 1 := by omega
    have hobservers : c.opensObservers = false := by
      rw [Cursor.opensObservers, h.ended.pastNewlines_kind.1]
      rfl
    refine .inr ⟨?_, groupLength?_of_newlines h.ended.newlines⟩
    rw [Cursor.initializerStride, hk]
    dsimp only
    rw [if_neg (by rw [hobservers]; decide)]

theorem lt_of_initializerStride (h : Ending hi B q c d) (hq : 0 < q)
    (hs : c.initializerStride = .pass m) : m < q := by
  have hlt : c.newlines < q := (h.shows hq).newlines_lt
  rw [Cursor.initializerStride] at hs
  split at hs
  case h_4 =>
    split at hs <;> cases hs
    omega
  case h_5 => split at hs <;> cases hs
  case h_6 =>
    split at hs
    · cases hs
    · split at hs <;> cases hs
      exact hq
  all_goals cases hs

/-- At the end of the text an initializer stops before what can begin a declaration, or what begins
there ends it. -/
theorem initializer_of_ended (h : Ending hi B 0 c d) (hb : c.Behind)
    (hopen : c.LeftOpen → d.StopsInitializers (B.head?.getD d.last)) :
    ∃ m ≤ d.newlines, initializer d = ⟨.ok (), m⟩ := by
  have hended := h.ended
  rw [Cursor.skip_zero, Cursor.skip_zero] at hended
  have hk := h.kind_eq.2
  have hr := Cursor.rest_ne_nil_of_kind (c := d) (by rw [hk]; decide)
  cases hc : d.initializerContinues with
  | false =>
    refine ⟨0, Nat.zero_le _, stretch_of_stop ?_⟩
    rw [Cursor.initializerStride, hk]
    dsimp only
    rw [hc, if_neg (by decide)]
  | true =>
    rw [Cursor.initializerContinues, Bool.and_eq_true, Bool.not_eq_true', Bool.or_eq_true] at hc
    obtain ⟨hstarts, hgoes⟩ := hc
    have hback := hended.pastNewlines_kind.2
    have hprevious : d.previousKind?.any Cursor.endsOpen = true := by
      refine hgoes.resolve_right fun hgoes => hback ?_
      cases hX : d.pastNewlines.kind <;> rw [hX] at hgoes <;> first | decide | cases hgoes
    rw [h.alike.previousKind? hb] at hprevious
    have hends := hopen ⟨hended.newlines, hprevious⟩
    rw [← hended.pastNewlines] at hends
    -- What comes next is a semicolon, the end or a closing bracket.
    have hstop : (d.skip d.newlines).initializerStride = .stop := by
      have hkind : (d.skip d.newlines).kind = d.pastNewlines.kind := by
        rw [Cursor.kind, Cursor.current, Cursor.ahead_skip, Cursor.pastNewlines_eq_ahead]
        rfl
      rw [Cursor.initializerStride, hkind]
      rcases hends with (hends | hends | hends) | hclose
      · rw [hstarts] at hends
        cases hends
      · rw [hends]
      · rw [hends]
      · cases hX : d.pastNewlines.kind <;> rw [hX] at hclose <;> first | rfl | cases hclose
    have hcontinues : d.initializerContinues = true := by
      rw [Cursor.initializerContinues, hstarts, Bool.not_false, Bool.true_and, Bool.or_eq_true]
      exact hgoes
    refine ⟨d.newlines, Nat.le_refl _, ?_⟩
    rw [initializer_of_continues hk hcontinues, initializer, stretch_of_stop hstop]
    rfl

/-- **An initializer ends where its text ends**, if it is not left open there or what follows ends
it. -/
theorem initializer_joined (h : Ending hi B q c d) (hb : c.Behind)
    (hok : initializer c = ⟨.ok (), m⟩)
    (hopen : ∀ p, Strides Cursor.initializerStride c p → (c.skip p).LeftOpen →
      d.StopsInitializers (B.head?.getD d.last)) :
    Joined B q c d (initializer c) (initializer d) := by
  have hending := stretch_ending Cursor.initializerStride Cursor.Behind
    (fun m hb => hb.skip m)
    (fun h hb hq hs => (initializerStride_ending h hb hq).elim (fun heq => heq.trans hs)
      fun hg => by rw [hs] at hg; cases hg.1)
    (fun h hb hq hs => ⟨lt_of_initializerStride h hq hs,
      (initializerStride_ending h hb hq).elim (fun heq => heq.trans hs)
        fun hg => by rw [hs] at hg; cases hg.1⟩)
    (fun h hb hq hs hn => (initializerStride_ending h hb hq).elim (fun heq => heq.trans hs)
      fun hg => by rw [hn] at hg; cases hg.2)
    h hb (by rw [← initializer, hok])
  rcases hending with ⟨hlt, heq⟩ | ⟨hs, hc, hd⟩
  · rw [initializer, heq]
    exact .within (Nat.le_of_lt hlt)
  · have h' := h.skip (Nat.le_refl q)
    rw [Nat.sub_self] at h'
    obtain ⟨m', hm', hd'⟩ := initializer_of_ended h' (hb.skip q) (hopen q hs)
    have hm : q ≤ m := by
      rw [← initializer, hok] at hc
      have := congrArg Outcome.taken hc
      rw [Outcome.taken_after] at this
      dsimp only at this
      omega
    have hended := h.ended.skip (m - q) hm'
    rw [Cursor.skip_skip, Cursor.skip_skip, Nat.add_sub_cancel' hm] at hended
    rw [hok, initializer, hd, ← initializer, hd']
    exact .ended rfl hm (Nat.le_add_right q m') hended

/-! ## Bindings -/

theorem bindingEnd_settles (h : Ending hi B q c d) (hb : c.Behind) {first : Span} {p : Pattern}
    {type : Option String} {hasInitializer : Bool} {b : Binding}
    (hok : bindingEnd first p type hasInitializer c = ⟨.ok b, m⟩) :
    m ≤ q ∧ bindingEnd first p type hasInitializer d = ⟨.ok b, m⟩ := by
  have hiff := h.kind_iff .leftBrace (by decide) (by decide)
  have hkind : (d.kind == .leftBrace) = (c.kind == .leftBrace) := by
    rw [Bool.eq_iff_iff, beq_iff_eq, beq_iff_eq, hiff]
  rw [bindingEnd, here_bind] at hok ⊢
  rw [hkind]
  dsimp only at hok ⊢
  split at hok
  case isTrue hk =>
    rw [if_pos hk]
    refine bind_settles h (settles_group.map _) hok fun {u l j} h' _ hp => ?_
    rw [here_bind] at hp ⊢
    obtain ⟨rfl, rfl⟩ := pure_eq_ok.mp hp
    exact ⟨Nat.zero_le _, pure_eq_ok.mpr ⟨by rw [h'.previousSpan (hb.skip l)], rfl⟩⟩
  case isFalse hk =>
    rw [if_neg hk]
    rw [here_bind] at hok ⊢
    obtain ⟨rfl, rfl⟩ := pure_eq_ok.mp hok
    exact ⟨Nat.zero_le _, pure_eq_ok.mpr ⟨by rw [h.previousSpan hb], rfl⟩⟩

/-- Past the end of a text no accessors follow. -/
theorem bindingEnd_of_ended (h : Ended B c d) (first : Span) (p : Pattern) (type : Option String)
    (hasInitializer : Bool) : ∃ b b', bindingEnd first p type hasInitializer c = ⟨.ok b, 0⟩
      ∧ bindingEnd first p type hasInitializer d = ⟨.ok b', 0⟩ ∧ unplaced b' = unplaced b := by
  obtain ⟨hc, hd⟩ := h.kind_ne .leftBrace (by decide)
  refine ⟨⟨p, type, hasInitializer, false, first.merge c.previousSpan⟩,
    ⟨p, type, hasInitializer, false, first.merge d.previousSpan⟩, ?_, ?_, rfl⟩
  · rw [bindingEnd, here_bind, show (c.kind == .leftBrace) = false by simpa using hc]
    exact here_bind _ _
  · rw [bindingEnd, here_bind, show (d.kind == .leftBrace) = false by simpa using hd]
    exact here_bind _ _

theorem bindingValue_joined (h : Ending hi B q c d) (hb : c.Behind) {first : Span} {p : Pattern}
    {type : Option String} {b : Binding} (hok : bindingValue first p type c = ⟨.ok b, m⟩)
    (hopen : c.kind = .equal → ∀ p, Strides Cursor.initializerStride (c.skip 1) p →
      (c.skip (1 + p)).LeftOpen → d.StopsInitializers (B.head?.getD d.last)) :
    Joined B q c d (bindingValue first p type c) (bindingValue first p type d) := by
  obtain ⟨x, l, j, heat, hrest, rfl⟩ := bind_eq_ok.mp hok
  obtain ⟨hl, heat'⟩ := (settles_eat (by decide) (by decide)).within h heat
  rw [bindingValue, bind_of_ok heat, bind_of_ok heat']
  refine Joined.after hl ?_
  have h' := h.skip hl
  cases x with
  | false =>
    obtain ⟨hj, hd⟩ := bindingEnd_settles h' (hb.skip l) hrest
    have hc : bindingEnd first p type false (c.skip l) = ⟨.ok b, j⟩ := hrest
    change Joined _ _ _ _ (bindingEnd first p type false (c.skip l))
      (bindingEnd first p type false (d.skip l))
    rw [hc, hd]
    exact .within hj
  | true =>
    obtain ⟨hk, hl⟩ : c.kind = .equal ∧ l = 1 := by
      rcases eat_eq_ok heat with ⟨-, hk⟩ | ⟨hx, -⟩
      · refine ⟨hk, ?_⟩
        have hr := List.length_pos_iff.mpr (Cursor.rest_ne_nil_of_kind (c := c) (by rw [hk]; decide))
        rw [eat, if_pos hk] at heat
        have := (Outcome.mk.inj heat).2
        omega
      · cases hx
    subst hl
    refine Joined.bind (p := initializer) (f := fun _ => bindingEnd first p type true) hrest ?_
      (fun {_ i n} _ hi hend => ?_) fun _ hended => bindingEnd_of_ended hended first p type true
    · obtain ⟨u, i, n, hinit, -, -⟩ := bind_eq_ok.mp hrest
      refine initializer_joined h' (hb.skip 1) hinit fun p hs hleft => ?_
      exact hopen hk p hs (by rwa [Cursor.skip_skip] at hleft)
    · obtain ⟨hn, hd⟩ := bindingEnd_settles (h'.skip hi) ((hb.skip 1).skip i) hend
      rw [hend, hd]
      exact .within hn

/-- **A binding is read where a text ends as where another follows**, unless its initializer is left
open. -/
theorem binding_joined (h : Ending hi B q c d) {b : Binding} (hok : binding c = ⟨.ok b, m⟩)
    (hopen : ∀ i p, HasInitializer c i → Strides Cursor.initializerStride (c.skip i) p →
      (c.skip (i + p)).LeftOpen → d.StopsInitializers (B.head?.getD d.last)) :
    Joined B q c d (binding c) (binding d) := by
  rw [binding_apply] at hok
  obtain ⟨p, l, j, hpattern, hrest, rfl⟩ := bind_eq_ok.mp hok
  obtain ⟨type, i, n, htype, hvalue, rfl⟩ := bind_eq_ok.mp hrest
  obtain ⟨hl, hpattern'⟩ := settles_pattern.within h hpattern
  obtain ⟨hi', htype'⟩ := settles_bindingType?.within (h.skip hl) htype
  have hspan : d.span = c.span := by
    obtain ⟨i, rfl, -⟩ := kind_of_pattern hpattern
    rw [h.alike.span (by omega), Span.move_zero]
    rfl
  have hb := (behind_of_pattern hpattern).skip i
  rw [binding_apply, binding_apply, hspan, bind_of_ok hpattern, bind_of_ok hpattern',
    bind_of_ok htype, bind_of_ok htype']
  refine Joined.after hl (Joined.after hi' ?_)
  refine bindingValue_joined ((h.skip hl).skip hi') hb hvalue fun hk p hs hleft => ?_
  simp only [Cursor.skip_skip, ← Nat.add_assoc] at hk hs hleft
  exact hopen _ p (.mk hpattern htype hk) hs hleft

theorem kind_of_bindings {bs : List Binding} (h : bindings c = ⟨.ok bs, m⟩) :
    c.kind = .ident ∨ c.kind = .leftParen := by
  obtain ⟨b, l, -, hb, -, -⟩ := bind_eq_ok.mp h
  rw [binding_apply] at hb
  obtain ⟨p, i, -, hp, -, -⟩ := bind_eq_ok.mp hb
  by_contra hne
  rw [not_or] at hne
  rw [pattern_of_ne hne.1 hne.2] at hp
  cases hp

theorem furtherBindings_joined (h : Ending hi B q c d) {bs : List Binding}
    (hok : furtherBindings c = ⟨.ok bs, m⟩)
    (ih : ∀ {l m bs}, c.kind = .comma → 1 + (c.skip 1).newlines = l →
      Ending hi B (q - l) (c.skip l) (d.skip l) → bindings (c.skip l) = ⟨.ok bs, m⟩ →
      Joined B (q - l) (c.skip l) (d.skip l) (bindings (c.skip l)) (bindings (d.skip l))) :
    Joined B q c d (furtherBindings c) (furtherBindings d) := by
  have hiff := h.kind_iff .comma (by decide) (by decide)
  by_cases hk : c.kind = .comma
  case neg =>
    rw [furtherBindings_of_ne hk, furtherBindings_of_ne (mt hiff.mp hk)]
    exact .within (Nat.zero_le q)
  case pos =>
    rw [furtherBindings_of_comma hk] at hok
    rw [furtherBindings_of_comma hk, furtherBindings_of_comma (hiff.mpr hk)]
    generalize hl : 1 + (c.skip 1).newlines = l at hok ⊢
    cases hlater : bindings (c.skip l) with
    | mk result j =>
    rw [hlater] at hok
    obtain ⟨hres, -⟩ := Outcome.mk.inj hok
    obtain rfl : result = .ok bs := hres
    -- The next binding stands before the end of the text, so the line ends before it do.
    have hlt : l < q := by
      have hkind := kind_of_bindings hlater
      refine h.lt_of_kind_skip ?_ ?_ <;> rcases hkind with hk | hk <;> rw [hk] <;> decide
    have hnewlines : 1 + (d.skip 1).newlines = l := by
      rw [(h.alike.skip (m := 1) (by omega)).newlines (by omega), hl]
    rw [hnewlines, ← hlater]
    exact (ih hk hl (h.skip (Nat.le_of_lt hlt)) hlater).after (Nat.le_of_lt hlt)

/-- **Bindings are read where a text ends as where another follows**, unless an initializer is left
open. -/
theorem bindings_joined (h : Ending hi B q c d) {bs : List Binding}
    (hok : bindings c = ⟨.ok bs, m⟩)
    (hopen : ∀ p, InBindings c p → (c.skip p).LeftOpen →
      d.StopsInitializers (B.head?.getD d.last)) :
    Joined B q c d (bindings c) (bindings d) := by
  induction hlen : c.rest.length using Nat.strongRecOn generalizing q c d bs m with
  | ind len ih =>
    subst hlen
    obtain ⟨b, _, _, hbinding, -, -⟩ := bind_eq_ok.mp hok
    refine Joined.bind hok (binding_joined h hbinding fun i p hi hs => hopen _ (.own hi hs))
      (fun {b l j} hb hl hrest => ?_) fun {b b' c d} hbb hended => ?_
    · obtain ⟨further, _, _, hfurther, -, -⟩ := bind_eq_ok.mp hrest
      refine Joined.bind hrest (furtherBindings_joined (h.skip hl) hfurther
        fun {i n bs} hk hi h' hlater => ?_) (fun _ _ _ => .within (Nat.zero_le _))
        fun {bs bs' c d} hbs _ => ⟨b :: bs, b :: bs', rfl, rfl, congrArg (unplaced b :: ·) hbs⟩
      have hr := List.length_pos_iff.mpr (Cursor.rest_ne_nil_of_kind (c := c.skip l)
        (by rw [hk]; decide))
      rw [Cursor.length_rest_skip] at hr
      refine ih _ (by rw [Cursor.length_rest_skip, Cursor.length_rest_skip]; omega) h' hlater
        (fun p hp hleft => ?_) rfl
      rw [Cursor.skip_skip] at hi
      rw [Cursor.skip_skip] at hp hleft
      rw [Cursor.skip_skip] at hleft
      have hplace : l + 1 + (c.skip (l + 1)).newlines = l + i := by omega
      exact hopen _ (.further hb hk rfl (by rwa [hplace]))
        (by rwa [hplace, Nat.add_assoc l])
    · obtain ⟨hc, hd⟩ := hended.kind_ne .comma (by decide)
      refine ⟨[b], [b'], ?_, ?_, congrArg (fun x => [x]) hbb⟩
      · rw [bind_of_ok (furtherBindings_of_ne hc)]
        rfl
      · rw [bind_of_ok (furtherBindings_of_ne hd)]
        rfl

theorem property_joined (h : Ending hi B q c d) (hn : c.kind ≠ .newline)
    (he : c.kind ≠ .endOfFile) {kind : DeclarationKind} (hok : property c = ⟨.ok kind, m⟩)
    (hopen : ∀ p, InBindings (c.skip 1) p → (c.skip (1 + p)).LeftOpen →
      d.StopsInitializers (B.head?.getD d.last)) :
    Joined B q c d (property c) (property d) := by
  rw [property_apply] at hok ⊢
  refine Joined.inside ?_ _
  rw [inside_eq_ok] at hok
  obtain ⟨t, l, j, hnext, hrest, rfl⟩ := bind_eq_ok.mp hok
  obtain ⟨bs, i, n, hbs, -, -⟩ := bind_eq_ok.mp hrest
  obtain ⟨hl, hnext'⟩ := next_settles h hn he hnext
  obtain rfl := next_eq_ok he hnext
  rw [bind_of_ok hnext, bind_of_ok hnext']
  refine Joined.after hl (Joined.bind hrest (bindings_joined (h.skip hl) hbs fun p hp hleft => ?_)
    (fun _ _ _ => .within (Nat.zero_le _)) fun {bs bs' c d} hbs _ => ⟨_, _, rfl, rfl, ?_⟩)
  · exact hopen p hp (by rwa [Cursor.skip_skip] at hleft)
  · exact congrArg (fun x => (.property ⟨if t.kind = .letKw then .let else .var, x⟩
      : DeclarationKind)) hbs

/-! ## Heads -/

theorem complete_joined (h : Ending hi B q c d) (hb : c.Behind) (first : Span) (as : List Attribute)
    (ms : List Modifier) (a : Declaration) :
    Joined B q c d (complete first as ms a c) (complete first as ms a d) := by
  rw [complete, here_bind, here_bind, h.previousSpan hb]
  exact .within (Nat.zero_le q)

/-- What is read alike before the end of a text makes a declaration there. -/
theorem complete_after_joined (h : Ending hi B q c d) (hr : c.rest ≠ []) {p : Parser Declaration}
    {a : Declaration} (hc : p c = ⟨.ok a, l⟩) (hpos : 0 < (p c).taken)
    (hsettles : l ≤ q ∧ p d = ⟨.ok a, l⟩) (first : Span) (as : List Attribute)
    (ms : List Modifier) :
    Joined B q c d ((p >>= complete first as ms) c) ((p >>= complete first as ms) d) := by
  obtain ⟨hl, hd⟩ := hsettles
  rw [hc] at hpos
  rw [bind_of_ok hc, bind_of_ok hd]
  exact (complete_joined (h.skip hl) (Cursor.behind_skip hr hpos) first as ms a).after hl

/-- Past the end of a text a declaration ends. -/
theorem unplaced_complete {a a' : Declaration} (ha : ∀ as ms s s',
    unplaced (attached a' as ms s') = unplaced (attached a as ms s)) (first : Span)
    (as : List Attribute) (ms : List Modifier) (c d : Cursor) :
    ∃ b b', complete first as ms a c = ⟨.ok b, 0⟩ ∧ complete first as ms a' d = ⟨.ok b', 0⟩
      ∧ unplaced b' = unplaced b :=
  ⟨_, _, here_bind _ _, here_bind _ _, congrArg Head.complete (ha as ms _ _)⟩


/-- A word that opens a declaration stands before a name. -/
theorem ident_of_opening? {o : Opening} (ho : c.opening? = some o) (hk : c.kind = .ident) :
    (c.ahead 1).kind = .ident := by
  have hword : ∀ word, c.isContextualKeyword word = true → (c.ahead 1).kind = .ident := by
    intro word hw
    rw [Cursor.isContextualKeyword, Bool.and_eq_true, beq_iff_eq] at hw
    exact hw.2
  rw [Cursor.opening?, hk] at ho
  dsimp only at ho
  split at ho
  case isTrue hw => exact hword _ hw
  split at ho
  case isTrue hw => exact hword _ hw
  split at ho
  case isTrue hw => exact hword _ hw
  cases ho

/-- What a declaration or a directive begins with. -/
theorem opening?_of_headRest {first : Span} {as : List Attribute} {ms : List Modifier} {r : Head}
    (hok : headRest first as ms c = ⟨.ok r, m⟩) : c.kind = .hash ∨ ∃ o, c.opening? = some o := by
  cases ho : c.opening? with
  | some o => exact .inr ⟨o, rfl⟩
  | none =>
    refine .inl ?_
    by_contra hk
    rw [headRest_of_none ho, if_neg hk] at hok
    split at hok <;> cases hok

/-- The kinds of token that no declaration begins with. -/
def beginsNothing : List TokenKind := .newline :: .endOfFile :: .rightBrace :: goesBack

theorem kind_of_opens {k : TokenKind} (ho : c.kind = .hash ∨ ∃ o, c.opening? = some o)
    (hk : k ∈ beginsNothing) :
    c.kind ≠ k := by
  rintro rfl
  rcases ho with ho | ⟨o, ho⟩
  · rw [ho] at hk
    revert hk
    decide
  · rw [Cursor.opening?] at ho
    cases hc : c.kind <;> rw [hc] at ho hk <;> first | (revert hk; decide) | cases ho

theorem openingReach_le_of_ending (h : Ending hi B q c d)
    (ho : c.kind = .hash ∨ ∃ o, c.opening? = some o) : c.openingReach ≤ q := by
  have hq := h.pos_of_kind (kind_of_opens ho (by decide)) (kind_of_opens ho (by decide))
  rw [Cursor.openingReach]
  split
  case isFalse => exact hq
  case isTrue hk =>
    obtain ⟨o, ho⟩ := ho.resolve_left (by rw [hk]; decide)
    have hident := ident_of_opening? ho hk
    exact h.lt_of_kind (i := 1) (by rw [hident]; decide) (by rw [hident]; decide)

theorem modifierReach_le_of_ending (h : Ending hi B q c d)
    (ho : c.kind = .hash ∨ ∃ o, c.opening? = some o) (hclass : c.kind ≠ .classKw) :
    c.modifierReach ≤ q := by
  have hq := h.pos_of_kind (kind_of_opens ho (by decide)) (kind_of_opens ho (by decide))
  by_cases hk : c.kind = .ident
  · obtain ⟨o, ho⟩ := ho.resolve_left (by rw [hk]; decide)
    have hident := ident_of_opening? ho hk
    exact Nat.le_trans (modifierReach_le_of_opening? ho)
      (h.lt_of_kind (i := 1) (by rw [hident]; decide) (by rw [hident]; decide))
  · rw [Cursor.modifierReach]
    split
    · exact absurd ‹_› hclass
    · exact absurd ‹_› hk
    · exact hq

theorem headRest_joined (h : Ending hi B q c d) {first : Span} {as : List Attribute}
    {ms : List Modifier} {r : Head} (hok : headRest first as ms c = ⟨.ok r, m⟩)
    (ht : ∀ a, r ≠ .type a)
    (hopen : c.opening? = some .property → ∀ p, InBindings (c.skip 1) p →
      (c.skip (1 + p)).LeftOpen → d.StopsInitializers (B.head?.getD d.last)) :
    Joined B q c d (headRest first as ms c) (headRest first as ms d) := by
  have hopens := opening?_of_headRest hok
  have hn : c.kind ≠ .newline := kind_of_opens hopens (by decide)
  have he : c.kind ≠ .endOfFile := kind_of_opens hopens (by decide)
  have hopening := Cursor.opening?_alike h.alike (openingReach_le_of_ending h hopens)
  have hr := Cursor.rest_ne_nil_of_kind he
  cases ho : c.opening? with
  | none =>
    have hk := hopens.resolve_right (by simp [ho])
    rw [ho] at hopening
    rw [headRest_of_none ho] at hok ⊢
    rw [headRest_of_none hopening, (h.kind_iff .hash (by decide) (by decide)).mpr hk]
    rw [hk] at hok ⊢
    split at hok
    case isFalse => cases hok
    case isTrue hempty =>
      rw [if_pos hempty, if_pos hempty, if_pos rfl, if_pos rfl]
      rw [if_pos rfl] at hok
      obtain ⟨hm, hd⟩ := (settles_restOfLine.bind fun _ => .pure Head.directive).within h hok
      rw [hok, hd]
      exact .within hm
  | some o =>
    rw [ho] at hopening
    cases o with
    | type kind =>
      rw [headRest_of_type ho] at hok
      obtain ⟨a, l, j, -, ha, -⟩ := bind_eq_ok.mp hok
      exact absurd (pure_eq_ok.mp ha).1.symm (ht _)
    | function kind =>
      rw [headRest_of_function ho] at hok ⊢
      rw [headRest_of_function hopening]
      obtain ⟨a, l, j, hf, -, rfl⟩ := bind_eq_ok.mp hok
      exact complete_after_joined h hr hf (function_taken_pos hr kind)
        (function_settles h hn he kind hf) first as ms
    | line kind =>
      rw [headRest_of_line ho] at hok ⊢
      rw [headRest_of_line hopening]
      obtain ⟨a, l, j, hf, -, rfl⟩ := bind_eq_ok.mp hok
      exact complete_after_joined h hr hf (line_taken_pos hr kind)
        (line_settles h hn he kind hf) first as ms
    | property =>
      rw [headRest_of_property ho] at hok ⊢
      rw [headRest_of_property hopening]
      obtain ⟨kind, l, j, hp, -, rfl⟩ := bind_eq_ok.mp hok
      have hpos := property_taken_pos hr
      refine Joined.bind hok (property_joined h hn he hp (hopen ho)) (fun {kind l _} hp hl _ => ?_)
        fun {kind kind' c d} hkind _ => unplaced_complete (fun as ms s s' => ?_) first as ms c d
      · rw [hp] at hpos
        exact complete_joined (h.skip hl) (Cursor.behind_skip hr hpos) first as ms _
      · exact congrArg (fun k => (⟨k, _, unplaced as, unplaced ms, [], none, .none⟩ : Declaration))
          hkind

/-- A class declaration is one of a type. -/
theorem kind_ne_classKw_of_headRest {first : Span} {as : List Attribute} {ms : List Modifier}
    {r : Head} (hok : headRest first as ms c = ⟨.ok r, m⟩) (ht : ∀ a, r ≠ .type a) :
    c.kind ≠ .classKw := by
  intro hk
  obtain ⟨o, ho⟩ := (opening?_of_headRest hok).resolve_left (by rw [hk]; decide)
  have htype : o = .type .class := by
    rw [Cursor.opening?, hk] at ho
    exact (Option.some.inj ho).symm
  subst htype
  rw [headRest_of_type ho] at hok
  obtain ⟨a, _, _, -, ha, -⟩ := bind_eq_ok.mp hok
  exact ht _ (pure_eq_ok.mp ha).1.symm

theorem attributes_ending (h : Ending hi B q c d) {as : List Attribute} (hm : m < q)
    (hok : attributes c = ⟨.ok as, m⟩) (hdot : (c.skip m).kind ≠ .dot) :
    attributes d = ⟨.ok as, m⟩ := by
  rw [attributes_alike h.alike (h.shows (by rw [hok]; exact hm)) fun hk => ?_, hok,
    mapSpans_move_zero]
  rw [hok] at hk
  exact absurd hk hdot

theorem modifiers_ending (h : Ending hi B q c d) {ms : List Modifier} (hm : m < q)
    (hok : modifiers c = ⟨.ok ms, m⟩) (hreach : (c.skip m).modifierReach ≤ q - m) :
    modifiers d = ⟨.ok ms, m⟩ := by
  have htaken : c.modifiers.2 = m := by
    rw [modifiers, Nat.min_eq_left (modifiers_le _)] at hok
    exact (Outcome.mk.inj hok).2
  rw [modifiers_apply_alike h.alike (h.shows (by omega)) (by rwa [htaken]), hok, mapSpans_move_zero]

/-- **A declaration without a block, or a directive, is read where a text ends as where another
follows**, unless an initializer is left open. -/
theorem head_joined (h : Ending hi B q c d) {r : Head} (hok : head c = ⟨.ok r, m⟩)
    (ht : ∀ a, r ≠ .type a)
    (hopen : ∀ {as ms k l p}, attributes c = ⟨.ok as, k⟩ → modifiers (c.skip k) = ⟨.ok ms, l⟩ →
      (c.skip (k + l)).opening? = some .property → InBindings (c.skip (k + l + 1)) p →
      (c.skip (k + l + 1 + p)).LeftOpen → d.StopsInitializers (B.head?.getD d.last)) :
    Joined B q c d (head c) (head d) := by
  rw [head_apply] at hok
  obtain ⟨as, k, _, ha, hlater, rfl⟩ := bind_eq_ok.mp hok
  obtain ⟨ms, l, j, hm, hrest, rfl⟩ := bind_eq_ok.mp hlater
  have hopens := opening?_of_headRest hrest
  have hlt : k + l < q := by
    have hn : ((c.skip k).skip l).kind ≠ .newline := kind_of_opens hopens (by decide)
    have he : ((c.skip k).skip l).kind ≠ .endOfFile := kind_of_opens hopens (by decide)
    rw [Cursor.skip_skip] at hn he
    exact h.lt_of_kind_skip hn he
  have hspan : d.span = c.span := by
    rw [h.alike.span (by omega), Span.move_zero]
    rfl
  have hdot : (c.skip k).kind ≠ .dot := by
    -- No declaration begins with a dot.
    intro hk
    have hnone : (c.skip k).modifier? = none := by rw [Cursor.modifier?, hk]
    rw [modifiers_of_none hnone] at hm
    obtain rfl := (Outcome.mk.inj hm).2
    rw [Cursor.skip_zero] at hopens
    exact absurd hk (kind_of_opens hopens (by decide))
  have ha' := attributes_ending h (by omega) ha hdot
  have h' := h.skip (m := k) (by omega)
  have hm' := modifiers_ending h' (by omega) hm
    (modifierReach_le_of_ending (h'.skip (by omega)) hopens (kind_ne_classKw_of_headRest hrest ht))
  rw [head_apply, head_apply, hspan, bind_of_ok ha, bind_of_ok ha', bind_of_ok hm, bind_of_ok hm']
  refine Joined.after (by omega) (Joined.after (by omega) ?_)
  refine headRest_joined (h'.skip (by omega)) hrest ht fun ho p hp hleft => ?_
  simp only [Cursor.skip_skip, ← Nat.add_assoc] at ho hp hleft
  exact hopen ha hm ho hp hleft

/-- What no declaration begins with. -/
theorem kind_of_head {k : TokenKind} {r : Head} (hok : head c = ⟨.ok r, m⟩)
    (hk : k ∈ beginsNothing) :
    c.kind ≠ k := by
  rintro rfl
  have hfacts : c.kind ≠ .atSign ∧ c.modifier? = none := by
    rw [Cursor.modifier?]
    cases hc : c.kind <;> rw [hc] at hk <;> first | exact ⟨by decide, rfl⟩ | (exfalso; revert hk; decide)
  rw [head_apply, bind_of_ok (attributes_of_ne hfacts.1), Cursor.skip_zero,
    bind_of_ok (modifiers_of_none hfacts.2), Cursor.skip_zero, Outcome.after_zero,
    Outcome.after_zero] at hok
  exact kind_of_opens (opening?_of_headRest hok) hk rfl

end Parser

/-! ## Declarations -/

theorem head_of_finding {inBlock : Bool} (he : (finding inBlock c).errors = []) :
    c.kind ≠ .rightBrace ∧ ∃ r m, Parser.head c = ⟨.ok r, m⟩ := by
  have hbrace : c.kind ≠ .rightBrace := by
    intro hk
    rw [finding_of_brace hk] at he
    cases he
  refine ⟨hbrace, ?_⟩
  cases ho : Parser.head c with
  | mk result m =>
    cases result with
    | ok r => exact ⟨r, m, rfl⟩
    | error e =>
      rw [finding_of_error hbrace ho] at he
      cases he

/-- A round that finds no error in a type has read its block. -/
theorem braces_of_ofBlock {inBlock : Bool} {a : Declaration} {block : Parsed}
    (he : (Finding.ofBlock inBlock c a m block).errors = []) :
    (c.skip m).kind = .leftBrace ∧ (c.skip (m + 1 + block.taken)).kind = .rightBrace := by
  have hfailed : ∀ {errors e n}, (Finding.recovered inBlock c errors e n).errors ≠ [] := by
    intro errors e n
    exact List.append_ne_nil_of_right_ne_nil _ (List.cons_ne_nil _ _)
  by_cases hk : (c.skip m).kind = .leftBrace
  case neg =>
    rw [Finding.ofBlock_of_ne hk] at he
    exact absurd he hfailed
  by_cases hc : (c.skip (m + 1 + block.taken)).kind = .rightBrace
  case neg =>
    rw [Finding.ofBlock_of_unclosed hk hc] at he
    exact absurd he hfailed
  exact ⟨hk, hc⟩

/-- A type is found alike, as its block ends before the end of the text. -/
theorem finding_settles_of_type (inBlock : Bool) (h : Ending hi B q c d)
    (he : (finding false c).errors = []) (hbrace : c.kind ≠ .rightBrace)
    (hbrace' : d.kind ≠ .rightBrace) {a : Declaration} (hok : Parser.head c = ⟨.ok (.type a), m⟩) :
    (finding false c).taken ≤ q ∧ finding inBlock d = finding false c := by
  rw [finding_of_type hbrace hok] at he ⊢
  obtain ⟨hk, hc⟩ := braces_of_ofBlock he
  generalize hblock : declarations true (c.skip (m + 1)) = block at hc he ⊢
  have hlt : m + 1 + block.taken < q :=
    h.lt_of_kind_skip (by rw [hc]; decide) (by rw [hc]; decide)
  have hok' : Parser.head d = ⟨.ok (.type a), m⟩ := by
    have hreach : Parser.headReach (Parser.head c) c = m := by rw [hok, Parser.headReach]
    rw [Parser.head_alike h.alike (h.shows (by omega)), hok, mapSpans_move_zero]
  have h' := h.skip (m := m + 1) (by omega)
  have hblock' : declarations true (d.skip (m + 1)) = block := by
    rw [declarations_alike h'.alike (h'.shows (by rw [hblock]; omega)), hblock, mapSpans_move_zero]
  have hkm : (d.skip m).kind = .leftBrace := by
    rw [(h.alike.skip (m := m) (by omega)).kind (by omega), hk]
  have hend := h.alike.skip (m := m + 1 + block.taken) (by omega)
  have hcm : (d.skip (m + 1 + block.taken)).kind = .rightBrace := by
    rw [hend.kind (by omega), hc]
  rw [finding_of_type hbrace' hok', hblock', Finding.ofBlock_of_closed hk hc,
    Finding.ofBlock_of_closed hkm hcm, hend.span (by omega), Span.move_zero]
  exact ⟨hlt, rfl⟩

/-- **A round finds the same where a text ends as where another follows**, unless an initializer is
left open. -/
theorem finding_joined (inBlock : Bool) (h : Ending hi B q c d) (hn : c.kind ≠ .newline)
    (he : (finding false c).errors = [])
    (hopen : ∀ {as ms k l p}, Parser.attributes c = ⟨.ok as, k⟩ →
      Parser.modifiers (c.skip k) = ⟨.ok ms, l⟩ → (c.skip (k + l)).opening? = some .property →
      InBindings (c.skip (k + l + 1)) p → (c.skip (k + l + 1 + p)).LeftOpen →
      d.StopsInitializers (B.head?.getD d.last)) :
    (finding false c).taken ≤ q ∧ finding inBlock d = finding false c
      ∨ (finding inBlock d).errors = []
        ∧ unplaced (finding inBlock d).declaration = unplaced (finding false c).declaration
        ∧ Ended B (c.skip (finding false c).taken) (d.skip (finding inBlock d).taken) := by
  obtain ⟨hbrace, r, m, hok⟩ := head_of_finding he
  have hq := h.pos_of_kind hn (Parser.kind_of_head hok (by decide))
  have hbrace' : d.kind ≠ .rightBrace := by rwa [h.alike.kind hq]
  cases r with
  | type a => exact .inl (finding_settles_of_type inBlock h he hbrace hbrace' hok)
  | directive =>
    have hjoined := Parser.head_joined h hok (fun a => by rintro ⟨⟩) hopen
    rw [hok] at hjoined
    generalize hd : Parser.head d = o at hjoined
    rw [finding_of_directive hbrace hok]
    cases hjoined with
    | within hm =>
      rw [finding_of_directive hbrace' hd]
      exact .inl ⟨Nat.max_le.mpr ⟨hq, hm⟩, rfl⟩
    | @ended _ r' _ m' hr hm hm' hend =>
      obtain rfl : r' = .directive := by cases r' <;> first | rfl | cases hr
      rw [finding_of_directive hbrace' hd]
      exact .inr ⟨rfl, rfl, by rwa [Nat.max_eq_right (by omega), Nat.max_eq_right (by omega)]⟩
  | complete a =>
    have hjoined := Parser.head_joined h hok (fun a => by rintro ⟨⟩) hopen
    rw [hok] at hjoined
    generalize hd : Parser.head d = o at hjoined
    rw [finding_of_complete hbrace hok]
    cases hjoined with
    | within hm =>
      rw [finding_of_complete hbrace' hd]
      exact .inl ⟨Nat.max_le.mpr ⟨hq, hm⟩, rfl⟩
    | @ended _ r' _ m' hr hm hm' hend =>
      obtain ⟨a', rfl, ha⟩ : ∃ a', r' = .complete a' ∧ unplaced a' = unplaced a := by
        cases r' with
        | complete a' => exact ⟨a', rfl, Head.complete.inj hr⟩
        | directive => cases hr
        | type => cases hr
      rw [finding_of_complete hbrace' hd]
      exact .inr ⟨rfl, congrArg some ha,
        by rwa [Nat.max_eq_right (by omega), Nat.max_eq_right (by omega)]⟩

/-- Separators before the declarations are passed. -/
theorem declarations_separators (inBlock : Bool) (hm : m ≤ c.separators) :
    declarations inBlock c = (declarations inBlock (c.skip m)).preceded none [] m := by
  have hsep : m + (c.skip m).separators = c.separators := by
    rw [Cursor.separators, Cursor.countWhile] at hm
    rw [Cursor.separators, Cursor.separators, Cursor.countWhile, Cursor.countWhile,
      Cursor.rest_skip]
    generalize c.rest = ts at hm ⊢
    induction ts generalizing m with
    | nil =>
      obtain rfl := Nat.le_zero.mp hm
      rfl
    | cons t ts ih =>
      cases m with
      | zero => simp
      | succ m =>
        rw [List.takeWhile_cons] at hm ⊢
        split at hm
        · rw [if_pos ‹_›]
          rw [List.length_cons] at hm ⊢
          rw [List.drop_succ_cons, ← ih (Nat.le_of_succ_le_succ hm)]
          omega
        · cases hm
  have hskip : (c.skip m).skip (c.skip m).separators = c.skip c.separators := by
    rw [Cursor.skip_skip, hsep]
  by_cases he : (c.skip c.separators).Ends inBlock
  case pos =>
    rw [declarations_of_ends he, declarations_of_ends (by rwa [hskip]), ← hsep]
    rfl
  case neg =>
    rw [declarations_of_not_ends he, declarations_of_not_ends (c := c.skip m) (by rwa [hskip])]
    rw [hskip, Cursor.skip_skip, ← Nat.add_assoc, hsep, Parsed.preceded, Parsed.preceded,
      Parsed.preceded, ← Nat.add_assoc m, ← Nat.add_assoc m, hsep]
    rfl

/-- Separators before the declarations make no difference. -/
theorem declarations_skip_separators (inBlock : Bool) (hm : m ≤ c.separators) :
    (declarations inBlock (c.skip m)).declarations = (declarations inBlock c).declarations
      ∧ (declarations inBlock (c.skip m)).errors = (declarations inBlock c).errors := by
  rw [declarations_separators inBlock hm]
  exact ⟨rfl, rfl⟩

theorem unplaced_append {α : Type} [Spanned α] (as bs : List α) :
    unplaced (as ++ bs) = unplaced as ++ unplaced bs := List.map_append

theorem unplaced_toList {α : Type} [Spanned α] {a b : Option α} (h : unplaced a = unplaced b) :
    unplaced a.toList = unplaced b.toList := by
  cases a <;> cases b <;> first | rfl | cases h | exact congrArg (fun x => [x]) (Option.some.inj h)

/-- If the first text has only separators left, these are separators of both. -/
theorem le_separators (h : Ending hi B q c d) (hr : (c.skip c.separators).rest = []) :
    q ≤ d.separators := by
  rcases Nat.eq_zero_or_pos q with rfl | hq
  · exact Nat.zero_le _
  obtain ⟨t, ts, -, hd⟩ := h.rest_eq
  have hall : c.rest.takeWhile (fun t => t.kind == .newline || t.kind == .semicolon) = c.rest := by
    refine (List.takeWhile_prefix _).eq_of_length_le ?_
    rw [Cursor.rest_skip, List.drop_eq_nil_iff] at hr
    exact hr
  rw [Cursor.separators, Cursor.countWhile, hd, List.takeWhile_append_of_pos fun u hu =>
    List.takeWhile_eq_self_iff.mp hall u (List.mem_of_mem_take hu), List.length_append,
    List.length_take_of_le (h.lt_length hq)]
  exact Nat.le_add_right q _

/-- Where there are only line ends, there are no declarations. -/
theorem declarations_of_newlines (inBlock : Bool) (h : ∀ t ∈ c.rest, t.kind = .newline) :
    declarations inBlock c = .nothing c.separators := by
  refine declarations_of_ends (.inl (List.drop_of_length_le ?_))
  rw [Cursor.separators, Cursor.countWhile,
    List.takeWhile_eq_self_iff.mpr fun t ht => by simp [h t ht]]

theorem kind_skip_separators (hr : (c.skip c.separators).rest ≠ []) :
    (c.skip c.separators).kind ≠ .newline := by
  intro hk
  obtain ⟨t, ts, hts⟩ := List.exists_cons_of_ne_nil hr
  rw [Cursor.kind, Cursor.current_of_rest hts] at hk
  rw [Cursor.rest_skip, Cursor.separators, Cursor.countWhile] at hts
  generalize c.rest = us at hts
  induction us with
  | nil => cases hts
  | cons u us ih =>
    rw [List.takeWhile_cons] at hts
    split at hts
    · exact ih hts
    · obtain ⟨rfl, -⟩ := List.cons.inj hts
      simp [hk] at *

/-- What is read after some declarations, `n` tokens further on. -/
def Parsed.behind (ds : List Declaration) (n : Nat) (later : Parsed) : Parsed :=
  ⟨ds ++ later.declarations, later.errors, n + later.taken⟩

theorem Parsed.preceded_behind (a : Option Declaration) (m n : Nat) (ds : List Declaration)
    (later : Parsed) : (later.behind ds n).preceded a [] m = later.behind (a.toList ++ ds) (m + n) := by
  rw [preceded, behind, behind, List.append_assoc, Nat.add_assoc, List.nil_append]

/-- A round that begins before the end of the first text begins at the same place in both, and what
it finds is as in `finding_joined`. -/
theorem round_joined (inBlock : Bool) (h : Ending hi B q c d)
    (hends : ¬(c.skip c.separators).Ends false)
    (he : (finding false (c.skip c.separators)).errors = [])
    (hopen : ∀ p, InDeclarations false c p → (c.skip p).LeftOpen →
      d.StopsInitializers (B.head?.getD d.last)) :
    c.separators < q ∧ d.separators = c.separators ∧ ¬(d.skip c.separators).Ends inBlock
      ∧ ((finding false (c.skip c.separators)).taken ≤ q - c.separators
          ∧ finding inBlock (d.skip c.separators) = finding false (c.skip c.separators)
        ∨ (finding inBlock (d.skip c.separators)).errors = []
          ∧ unplaced (finding inBlock (d.skip c.separators)).declaration
            = unplaced (finding false (c.skip c.separators)).declaration
          ∧ Ended B ((c.skip c.separators).skip (finding false (c.skip c.separators)).taken)
            ((d.skip c.separators).skip (finding inBlock (d.skip c.separators)).taken)) := by
  have hr : (c.skip c.separators).rest ≠ [] := fun hr => hends (.inl hr)
  have hn := kind_skip_separators hr
  obtain ⟨hbrace, r, m, hok⟩ := head_of_finding he
  have hlt : c.separators < q := h.lt_of_kind_skip hn (Parser.kind_of_head hok (by decide))
  have h' := h.skip (Nat.le_of_lt hlt)
  have hends' : ¬(d.skip c.separators).Ends inBlock := by
    rw [h'.alike.ends (by omega)]
    exact fun hends => hends.elim hr fun hclosed => hbrace hclosed.2
  refine ⟨hlt, h.alike.separators hlt, hends', ?_⟩
  refine finding_joined inBlock h' hn he fun {as ms k l p} ha hm ho hp hleft => ?_
  rw [Cursor.skip_skip] at hm
  rw [Cursor.skip_skip, ← Nat.add_assoc] at ho
  simp only [Cursor.skip_skip, ← Nat.add_assoc] at hp hleft
  exact hopen _ (.property hbrace ha hm ho hp) hleft

/-- **The declarations of the first text come first**, in a file or in a block, and then what follows
the line ends is read, unless an initializer is left open. -/
theorem declarations_ending (inBlock : Bool) (h : Ending hi B q c d)
    (he : (declarations false c).errors = [])
    (hopen : ∀ p, InDeclarations false c p → (c.skip p).LeftOpen →
      d.StopsInitializers (B.head?.getD d.last)) :
    ∃ j N ds, (∀ t ∈ N, t.kind = .newline) ∧ (d.skip j).rest = N ++ B
      ∧ unplaced ds = unplaced (declarations false c).declarations
      ∧ declarations inBlock d = (declarations inBlock (d.skip j)).behind ds j := by
  induction hlen : c.rest.length using Nat.strongRecOn generalizing q c d with
  | ind len ih =>
    subst hlen
    by_cases hends : (c.skip c.separators).Ends false
    case pos =>
      -- The first text has only separators left.
      have hr : (c.skip c.separators).rest = [] := hends.resolve_right (by simp)
      obtain ⟨N, hN, hd⟩ := h.ended.rest_eq
      refine ⟨q, N, [], hN, hd, ?_, ?_⟩
      · rw [declarations_of_ends hends]
        rfl
      · rw [declarations_separators inBlock (le_separators h hr)]
        rfl
    case neg =>
      rw [errors_of_not_ends hends, List.append_eq_nil_iff] at he
      obtain ⟨hfinding, hlater⟩ := he
      obtain ⟨hlt, hsep, hends', hjoined⟩ := round_joined inBlock h hends hfinding hopen
      rw [← hsep] at hends'
      rw [declarations_of_not_ends hends, declarations_of_not_ends hends', hsep]
      generalize hf : finding false (c.skip c.separators) = f at hjoined hlater hfinding ⊢
      rcases hjoined with ⟨htaken, heq⟩ | ⟨herrors, hdeclaration, hended⟩
      · rw [heq]
        have hpos := finding_taken_pos false (c.skip c.separators)
        rw [hf] at hpos
        have hlength := h.lt_length (by omega)
        have h'' := (h.skip (Nat.le_of_lt hlt)).skip htaken
        rw [Cursor.skip_skip, Cursor.skip_skip] at h''
        obtain ⟨j, N, ds, hN, hrest, hds, hdecls⟩ := ih _
          (by rw [Cursor.length_rest_skip]; omega) h'' hlater
          (fun p hp hleft => by
            rw [Cursor.skip_skip] at hleft
            exact hopen _ (.later hends (by rw [hf]) hp) hleft) rfl
        rw [Cursor.skip_skip] at hrest hdecls
        refine ⟨_, N, f.declaration.toList ++ ds, hN, hrest, ?_, ?_⟩
        · rw [unplaced_append, hds, ← unplaced_append]
          rfl
        · rw [hdecls, hfinding, Parsed.preceded_behind]
      · generalize finding inBlock (d.skip c.separators) = g at herrors hdeclaration hended ⊢
        rw [Cursor.skip_skip, Cursor.skip_skip] at hended
        obtain ⟨N, hN, hrest⟩ := hended.rest_eq
        have hnothing := declarations_of_newlines false hended.newlines
        refine ⟨_, N, g.declaration.toList, hN, hrest, ?_, ?_⟩
        · rw [hnothing]
          refine (unplaced_toList hdeclaration).trans ?_
          rw [Parsed.preceded, Parsed.nothing, List.append_nil]
        · rw [Parsed.preceded, herrors]
          rfl

/-- **The declarations of the first text come first**, and those of the second follow, unless an
initializer is left open. -/
theorem declarations_joined (h : Ending hi B q c d) (he : (declarations false c).errors = [])
    (hopen : ∀ p, InDeclarations false c p → (c.skip p).LeftOpen →
      d.EndsInitializers (B.head?.getD d.last)) :
    ∃ j N ds, (∀ t ∈ N, t.kind = .newline) ∧ (d.skip j).rest = N ++ B
      ∧ unplaced ds = unplaced (declarations false c).declarations
      ∧ (declarations false d).declarations
        = ds ++ (declarations false (d.skip j)).declarations
      ∧ (declarations false d).errors = (declarations false (d.skip j)).errors := by
  obtain ⟨j, N, ds, hN, hrest, hds, hd⟩ := declarations_ending false h he
    fun p hp hleft => .inl (hopen p hp hleft)
  rw [hd]
  exact ⟨j, N, ds, hN, hrest, hds, rfl, rfl⟩

end

end Memberwise
