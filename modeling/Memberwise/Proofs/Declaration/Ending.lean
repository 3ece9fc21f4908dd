import Memberwise.Proofs.Declaration.Continuation

/-!
# Proofs/Declaration/Ending — what the end of a text and a line end have in common

A text may end where another one goes on with a line end and what can begin a declaration
(`Ending`).  A form of declaration that is read up to there without an error ends there in both
(`Parser.Settles`): it takes no token of the line ends, and it is the same.  Initializers are the
exception, because one that is left open takes the line ends at the end of a text; they are not
treated here.

* `settles_function`, `settles_line` — **functions and declarations of one line settle**.
-/

namespace Memberwise

open Text

/-- The kinds of token that go on with what stands before them on an earlier line; no declaration
begins with one. -/
def goesBack : List TokenKind :=
  [.leftBrace, .arrow, .whereKw, .comma, .dot, .operator, .andAnd, .equalEqual, .question, .colon]

/-- The first cursor shows line ends and the end, the second one line ends and then `B`, which begins
neither with a line end nor with what goes on with a line before. -/
structure Ended (B : List Token) (c d : Cursor) : Prop where
  newlines : ∀ t ∈ c.rest, t.kind = .newline
  rest_eq : ∃ N, (∀ t ∈ N, t.kind = .newline) ∧ d.rest = N ++ B
  begins : ∀ t, B.head? = some t → t.kind ≠ .newline ∧ t.kind ∉ goesBack

/-- After `q` tokens, which are the same and the last of which is no line end, the first cursor shows
line ends and the end, the second one at least one line end and then `B`. -/
structure Ending (hi : Nat) (B : List Token) (q : Nat) (c d : Cursor) : Prop where
  alike : Alike 0 hi q c d
  ended : Ended B (c.skip q) (d.skip q)
  newline : (d.ahead q).kind = .newline
  last : 0 < q → (c.ahead (q - 1)).kind ≠ .newline ∧ (c.ahead (q - 1)).kind ≠ .endOfFile

section

variable {hi q m i : Nat} {B : List Token} {c d : Cursor}

theorem kind_newline_or_end (h : ∀ t ∈ c.rest, t.kind = .newline) :
    c.kind = .newline ∨ c.kind = .endOfFile := by
  cases hr : c.rest with
  | nil => exact .inr (Cursor.kind_of_rest_eq_nil hr)
  | cons t ts =>
    refine .inl ?_
    rw [Cursor.kind, Cursor.current_of_rest hr]
    exact h t (by simp [hr])

theorem pastNewlines_of_newlines {N : List Token} (h : ∀ t ∈ N, t.kind = .newline)
    (hr : d.rest = N ++ B) (hB : ∀ t, B.head? = some t → t.kind ≠ .newline) :
    d.pastNewlines = B.head?.getD d.last := by
  rw [Cursor.pastNewlines, hr, List.find?_append,
    List.find?_eq_none.mpr fun t ht => by simp [h t ht], Option.none_or]
  cases B with
  | nil => rfl
  | cons t ts => simp [hB t rfl]

namespace Ended

variable (h : Ended B c d)

include h

/-- Past the line ends, nothing goes on with what stands before them. -/
theorem pastNewlines : d.pastNewlines = B.head?.getD d.last := by
  obtain ⟨N, hN, hr⟩ := h.rest_eq
  exact pastNewlines_of_newlines hN hr fun t ht => (h.begins t ht).1

theorem pastNewlines_kind : c.pastNewlines.kind = .endOfFile ∧ d.pastNewlines.kind ∉ goesBack := by
  constructor
  · rw [pastNewlines_of_newlines (B := []) h.newlines (by simp) (by simp)]
    rfl
  · rw [h.pastNewlines]
    cases hB : B.head? with
    | none => exact (by decide : TokenKind.endOfFile ∉ goesBack)
    | some t => exact (h.begins t hB).2

theorem kind_not_mem : d.kind ∉ goesBack := by
  obtain ⟨N, hN, hr⟩ := h.rest_eq
  cases N with
  | nil =>
    have hpast := h.pastNewlines_kind.2
    rw [h.pastNewlines] at hpast
    have hd : d.current = B.head?.getD d.last := by
      rw [Cursor.current, Cursor.ahead, hr]
      cases B <;> rfl
    rwa [Cursor.kind, hd]
  | cons t ts =>
    rw [Cursor.kind, Cursor.current_of_rest hr, hN t List.mem_cons_self]
    decide

end Ended

namespace Ending

/-- A token that ends no line is one of the `q`. -/
theorem lt_of_kind (h : Ending hi B q c d) (hn : (c.ahead i).kind ≠ .newline)
    (he : (c.ahead i).kind ≠ .endOfFile) : i < q := by
  refine Nat.lt_of_not_le fun hle => ?_
  have hlt := Cursor.lt_length_of_ahead he
  refine hn (h.ended.newlines _ ?_)
  rw [Cursor.rest_skip, Cursor.ahead, List.getD_eq_getElem?_getD, List.getElem?_eq_getElem hlt,
    Option.getD_some, List.mem_iff_getElem]
  refine ⟨i - q, by rw [List.length_drop]; omega, ?_⟩
  rw [List.getElem_drop]
  congr 1
  omega

theorem lt_of_kind_skip (h : Ending hi B q c d) (hn : (c.skip i).kind ≠ .newline)
    (he : (c.skip i).kind ≠ .endOfFile) : i < q := by
  rw [Cursor.kind, Cursor.current, Cursor.ahead_skip] at hn he
  exact h.lt_of_kind hn he

theorem pos_of_kind (h : Ending hi B q c d) (hn : c.kind ≠ .newline) (he : c.kind ≠ .endOfFile) :
    0 < q := h.lt_of_kind hn he

theorem shows (h : Ending hi B q c d) (hm : m < q) : Shows q m c.rest := by
  refine ⟨q - 1, by omega, by omega, fun t ht => ?_⟩
  have := (h.last (by omega)).1
  rwa [Cursor.ahead, List.getD_eq_getElem?_getD, ht] at this

theorem lt_length (h : Ending hi B q c d) (hq : 0 < q) : q ≤ c.rest.length := by
  have := Cursor.lt_length_of_ahead (h.last hq).2
  omega

theorem skip (h : Ending hi B q c d) (hm : m ≤ q) :
    Ending hi B (q - m) (c.skip m) (d.skip m) where
  alike := h.alike.skip hm
  ended := by
    rw [Cursor.skip_skip, Cursor.skip_skip, Nat.add_sub_cancel' hm]
    exact h.ended
  newline := by
    rw [Cursor.ahead_skip, Nat.add_sub_cancel' hm]
    exact h.newline
  last hq := by
    rw [Cursor.ahead_skip, show m + (q - m - 1) = q - 1 by omega]
    exact h.last (by omega)

/-- At the end only line ends and the end are seen. -/
theorem kind_eq (h : Ending hi B 0 c d) :
    (c.kind = .newline ∨ c.kind = .endOfFile) ∧ d.kind = .newline := by
  have hended := h.ended
  rw [Cursor.skip_zero, Cursor.skip_zero] at hended
  exact ⟨kind_newline_or_end hended.newlines, h.newline⟩

/-- The cursors show the same next kind, if it is neither a line end nor the end. -/
theorem kind_iff (h : Ending hi B q c d) (kind : TokenKind) (hn : kind ≠ .newline)
    (he : kind ≠ .endOfFile) : d.kind = kind ↔ c.kind = kind := by
  rcases Nat.eq_zero_or_pos q with rfl | hq
  · obtain ⟨hc, hd⟩ := h.kind_eq
    rw [hd]
    rcases hc with hc | hc <;> rw [hc]
    · simp [he.symm, hn.symm]
  · rw [h.alike.kind hq]

/-- The cursors show the same tokens and then line ends, the second one at least one. -/
theorem rest_eq (h : Ending hi B q c d) : ∃ t ts, t.kind = .newline
    ∧ d.rest = c.rest.take q ++ t :: ts := by
  have hlt := Cursor.lt_length_of_ahead (c := d) (i := q) (by rw [h.newline]; decide)
  have htake : d.rest.take q = c.rest.take q := by
    have := h.alike.known.take (Nat.le_refl q)
    rwa [show (mapSpans (.move 0) : Token → Token) = id from funext mapSpans_move_zero,
      List.map_id] at this
  refine ⟨d.rest[q], d.rest.drop (q + 1), ?_, ?_⟩
  · have := h.newline
    rwa [Cursor.ahead, List.getD_eq_getElem?_getD, List.getElem?_eq_getElem hlt,
      Option.getD_some] at this
  · rw [← htake, ← List.drop_eq_getElem_cons hlt, List.take_append_drop]

end Ending

end

/-! ## Parsers that settle -/

namespace Parser

/-- The parser ends where a text ends just as before a line end there, if it succeeds. -/
structure Settles {α : Type} (p : Parser α) : Prop where
  within : ∀ {hi q : Nat} {B : List Token} {c d : Cursor} {a : α} {m : Nat}, Ending hi B q c d →
    p c = ⟨.ok a, m⟩ → m ≤ q ∧ p d = ⟨.ok a, m⟩

section

variable {α β : Type} {hi q m i : Nat} {B : List Token} {c d : Cursor}

/-- What goes on after a parser that settles. -/
theorem bind_settles {p : Parser α} {f g : α → Parser β} {b : β} (h : Ending hi B q c d)
    (hp : Settles p) (hok : (p >>= f) c = ⟨.ok b, m⟩)
    (hf : ∀ {a l j}, Ending hi B (q - l) (c.skip l) (d.skip l) → p c = ⟨.ok a, l⟩ →
      f a (c.skip l) = ⟨.ok b, j⟩ → j ≤ q - l ∧ g a (d.skip l) = ⟨.ok b, j⟩) :
    m ≤ q ∧ (p >>= g) d = ⟨.ok b, m⟩ := by
  obtain ⟨a, l, j, hpc, hfc, rfl⟩ := bind_eq_ok.mp hok
  obtain ⟨hl, hpd⟩ := hp.within h hpc
  obtain ⟨hj, hfd⟩ := hf (h.skip hl) hpc hfc
  exact ⟨by omega, bind_eq_ok.mpr ⟨a, l, j, hpd, hfd, rfl⟩⟩

theorem Settles.bind {p : Parser α} {f : α → Parser β} (hp : Settles p)
    (hf : ∀ a, Settles (f a)) : Settles (p >>= f) where
  within h hok := bind_settles h hp hok fun h' _ hfc => (hf _).within h' hfc

theorem Settles.pure (a : α) : Settles (Pure.pure a : Parser α) := by
  constructor
  intro hi q B c d b m _ hok
  obtain ⟨rfl, rfl⟩ := pure_eq_ok.mp hok
  exact ⟨Nat.zero_le q, rfl⟩

theorem Settles.map {p : Parser α} (hp : Settles p) (f : α → β) : Settles (f <$> p) :=
  hp.bind fun a => .pure (f a)

theorem Settles.inside {p : Parser α} (hp : Settles p) (construct : Construct) :
    Settles (Parser.inside construct p) := by
  constructor
  intro hi q B c d a m h hok
  rw [inside_eq_ok] at hok ⊢
  exact hp.within h hok

/-- A parser that looks whether some kind of token comes next, and decides by that. -/
theorem Settles.ite {kind : TokenKind} (hn : kind ≠ .newline) (he : kind ≠ .endOfFile)
    {p r : Parser α} (hp : Settles p) (hr : Settles r) :
    Settles (here >>= fun c => if c.kind = kind then p else r) := by
  constructor
  intro hi q B c d a m h hok
  rw [here_bind] at hok ⊢
  have hiff := h.kind_iff kind hn he
  split at hok
  case isTrue hk =>
    rw [if_pos (hiff.mpr hk)]
    exact hp.within h hok
  case isFalse hk =>
    rw [if_neg (mt hiff.mp hk)]
    exact hr.within h hok

/-! ### Single tokens -/

theorem settles_eat {kind : TokenKind} (hn : kind ≠ .newline) (he : kind ≠ .endOfFile) :
    Settles (eat kind) := by
  constructor
  intro hi q B c d b m h hok
  have hiff := h.kind_iff kind hn he
  rw [eat] at hok ⊢
  split at hok
  case isTrue hk =>
    have hq := h.pos_of_kind (by rwa [hk]) (by rwa [hk])
    have hm := h.alike.min_length (m := 1) hq
    rw [if_pos (hiff.mpr hk), hm]
    refine ⟨?_, hok⟩
    have := (Outcome.mk.inj hok).2
    omega
  case isFalse hk =>
    cases hok
    rw [if_neg (mt hiff.mp hk)]
    exact ⟨Nat.zero_le q, rfl⟩

theorem settles_identifier : Settles identifier := by
  constructor
  intro hi q B c d r m h hok
  obtain ⟨hk, rfl, rfl⟩ := identifier_eq_ok hok
  have hq := h.pos_of_kind (by rw [hk]; decide) (by rw [hk]; decide)
  refine ⟨hq, ?_⟩
  rw [identifier_alike h.alike hq, hok, mapSpans_move_zero]

theorem next_settles {t : Token} (h : Ending hi B q c d) (hn : c.kind ≠ .newline)
    (he : c.kind ≠ .endOfFile) (hok : next c = ⟨.ok t, m⟩) : m ≤ q ∧ next d = ⟨.ok t, m⟩ := by
  have hq := h.pos_of_kind hn he
  refine ⟨by rw [next_eq_ok he hok]; exact hq, ?_⟩
  rw [next_alike h.alike hq, hok, mapSpans_move_zero]

/-! ### Groups and types -/

/-- What is closed is closed before the line ends that are there, which are no brackets. -/
theorem closingLength_lt {isOpen isClose : TokenKind → Bool} {length? : Nat → List Token → Option Nat}
    (hl : IsClosingLength isOpen isClose length?) (hn : isClose .newline = false)
    (he : isClose .endOfFile = false) (h : Ending hi B q c d)
    (hm : length? 0 (c.skip 1).rest = some m) : m < q := by
  have hclose := hl.isClose_ahead hm
  refine h.lt_of_kind ?_ ?_ <;> intro hk <;> rw [hk] at hclose
  · exact Bool.noConfusion (hn.symm.trans hclose)
  · exact Bool.noConfusion (he.symm.trans hclose)

theorem settles_group : Settles group := by
  constructor
  intro hi q B c d r m h hok
  have hgroup : ∃ n, groupLength? 0 (c.skip 1).rest = some n ∧ m = 1 + n := by
    rw [group] at hok
    split at hok
    · cases hok
      exact ⟨_, ‹_›, rfl⟩
    · cases hok
  obtain ⟨n, hn, rfl⟩ := hgroup
  have hlt := closingLength_lt isClosingLength_group rfl rfl h hn
  refine ⟨by omega, ?_⟩
  rw [group_alike h.alike (by rw [hok]; dsimp only; omega) (by rw [hn]; rintro ⟨⟩), hok,
    mapSpans_move_zero]

theorem settles_generics : Settles generics := by
  constructor
  intro hi q B c d u m h hok
  have hiff := h.kind_iff .less (by decide) (by decide)
  rw [generics] at hok ⊢
  split at hok
  case isFalse hk =>
    rw [if_neg (mt hiff.mp hk)]
    cases hok
    exact ⟨Nat.zero_le q, rfl⟩
  case isTrue hk =>
    rw [if_pos (hiff.mpr hk)]
    split at hok
    case h_2 => cases hok
    case h_1 n hn =>
      cases hok
      have hlt := closingLength_lt isClosingLength_generics rfl rfl h hn
      rw [closingLength_alike isClosingLength_generics h.alike
        (fun j hj => by cases hn.symm.trans hj; exact hlt) (by rw [hn]; rintro ⟨⟩), hn]
      exact ⟨by omega, rfl⟩

/-- A type that no line end can be part of ends where the line ends begin, wherever its brackets are
closed by then. -/
theorem typeLength_append {ends : TokenKind → Bool} (hends : ends .newline = true)
    {A N : List Token} {opened : List Token} (hN : ∀ t ∈ N, t.kind = .newline)
    (h : typeLength ends opened (A ++ N) = .ok m) (t : Token) (ht : t.kind = .newline)
    (rest : List Token) :
    m ≤ A.length ∧ typeLength ends opened (A ++ t :: rest) = .ok m := by
  induction A generalizing opened m with
  | nil =>
    -- Line ends close no bracket, so none is open.
    have hopened : opened = [] ∧ m = 0 := by
      rw [List.nil_append] at h
      clear ht
      induction N generalizing m with
      | nil =>
        cases opened with
        | nil =>
          cases h
          exact ⟨rfl, rfl⟩
        | cons => cases h
      | cons u N ih =>
        have hu := hN u List.mem_cons_self
        have hlater := fun t ht => hN t (List.mem_cons_of_mem u ht)
        obtain ⟨hstop, rfl⟩ | ⟨hgo, j, hj, -⟩ := typeLength_cons_eq_ok.mp h
        · exact ⟨List.isEmpty_iff.mp hstop.1, rfl⟩
        · rw [bracketsAfter, hu] at hj
          obtain ⟨rfl, -⟩ := ih hlater hj
          exact absurd ⟨rfl, .inl (by rw [hu, hends])⟩ hgo
    obtain ⟨rfl, rfl⟩ := hopened
    refine ⟨Nat.le_refl 0, ?_⟩
    exact typeLength_of_ends ⟨rfl, .inl (by rw [ht, hends])⟩ rest
  | cons a A ih =>
    obtain ⟨hstop, rfl⟩ | ⟨hgo, j, hj, rfl⟩ := typeLength_cons_eq_ok.mp h
    · exact ⟨Nat.zero_le _, typeLength_of_ends hstop _⟩
    · obtain ⟨hle, hrest⟩ := ih hj
      exact ⟨Nat.succ_le_succ hle, typeLength_cons_eq_ok.mpr (.inr ⟨hgo, j, hrest, rfl⟩)⟩

theorem settles_typeText {ends : TokenKind → Bool} (hends : ends .newline = true) :
    Settles (typeText ends) := by
  constructor
  intro hi q B c d text m h hok
  obtain ⟨t, ts, ht, hd⟩ := h.rest_eq
  have hended := h.ended.newlines
  rw [Cursor.rest_skip] at hended
  rw [typeText] at hok
  split at hok
  case h_1 => cases hok
  case h_2 => cases hok
  case h_3 n hn =>
    cases hok
    rw [← List.take_append_drop q c.rest] at hn
    obtain ⟨hle, hn'⟩ := typeLength_append hends hended hn t ht ts
    rw [List.length_take] at hle
    rw [typeText, hd, hn']
    have hfirst : c.span.stop ≤ hi := (h.alike.ahead_le (by omega) (by omega)).2
    have hlast := h.alike.ahead_le (i := n) (by omega) (by omega)
    refine ⟨by omega, ?_⟩
    dsimp only
    rw [h.alike.span (by omega), h.alike.ahead (by omega), span_mapSpans,
      h.alike.textBetween hfirst hlast.2]

/-! ### Stretches -/

/-- A stretch ends before a place at both cursors and alike, or comes to the place at both. -/
inductive StretchEnding (stride : Cursor → Stride) (q : Nat) (c d : Cursor) : Prop
  | before (hlt : (stretch stride c).taken < q) (heq : stretch stride d = stretch stride c)
  | through (hs : Strides stride c q) (hc : stretch stride c = (stretch stride (c.skip q)).after q)
      (hd : stretch stride d = (stretch stride (d.skip q)).after q)

theorem StretchEnding.zero (stride : Cursor → Stride) (c d : Cursor) :
    StretchEnding stride 0 c d :=
  .through (.here c) (by rw [Cursor.skip_zero, Outcome.after_zero])
    (by rw [Cursor.skip_zero, Outcome.after_zero])

/-- A stride passes tokens at both cursors, and then the stretch goes on. -/
theorem StretchEnding.step {stride : Cursor → Stride} {j : Nat} (hj : j ≤ q)
    (hc : stretch stride c = (stretch stride (c.skip j)).after j)
    (hd : stretch stride d = (stretch stride (d.skip j)).after j)
    (hs : ∀ {p : Nat}, Strides stride (c.skip j) p → Strides stride c (j + p))
    (h : StretchEnding stride (q - j) (c.skip j) (d.skip j)) : StretchEnding stride q c d := by
  cases h with
  | before hlt heq =>
    refine .before ?_ (by rw [hc, hd, heq])
    rw [hc, Outcome.taken_after]
    omega
  | through hs' hc' hd' =>
    have hs := hs hs'
    rw [Nat.add_sub_cancel' hj] at hs
    refine .through hs ?_ ?_
    · rw [hc, hc', Outcome.after_after, Cursor.skip_skip, Nat.add_sub_cancel' hj]
    · rw [hd, hd', Outcome.after_after, Cursor.skip_skip, Nat.add_sub_cancel' hj]

/-- **A stretch that comes to the line ends comes to them at both cursors**, and one that ends before
ends before them at both, as far as its strides are decided alike, where some condition holds and
keeps holding. -/
theorem stretch_ending (stride : Cursor → Stride) (P : Cursor → Prop)
    (hP : ∀ {c : Cursor} (m : Nat), P c → P (c.skip m))
    (hstop : ∀ {q : Nat} {c d : Cursor}, Ending hi B q c d → P c → 0 < q → stride c = .stop →
      stride d = .stop)
    (hpass : ∀ {q : Nat} {c d : Cursor} {n : Nat}, Ending hi B q c d → P c → 0 < q →
      stride c = .pass n → n < q ∧ stride d = .pass n)
    (hgroup : ∀ {q : Nat} {c d : Cursor} {n : Nat}, Ending hi B q c d → P c → 0 < q →
      stride c = .group → groupLength? 0 (c.skip 1).rest = some n → stride d = .group)
    (h : Ending hi B q c d) (hb : P c) (hok : (stretch stride c).result = .ok ()) :
    StretchEnding stride q c d := by
  rcases Nat.eq_zero_or_pos q with rfl | hq
  · exact .zero stride c d
  induction hlen : c.rest.length using Nat.strongRecOn generalizing q c d with
  | ind len ih =>
    subst hlen
    have hlength := h.lt_length hq
    have hr : c.rest ≠ [] := List.ne_nil_of_length_pos (by omega)
    have hr' : d.rest ≠ [] := by
      rwa [Ne, h.alike.rest_eq_nil_iff hq]
    have hnext : ∀ {j : Nat}, 0 < j → j ≤ q → (stretch stride (c.skip j)).result = .ok () →
        StretchEnding stride (q - j) (c.skip j) (d.skip j) := by
      intro j hpos hj hres
      rcases Nat.eq_zero_or_pos (q - j) with hz | hpos'
      · rw [hz]
        exact .zero stride _ _
      · exact ih _ (by rw [Cursor.length_rest_skip]; omega) (h.skip hj) (hP j hb) hres hpos' rfl
    cases hs : stride c with
    | stop =>
      have hc := stretch_of_stop hs
      exact .before (by rwa [hc]) (by rw [hc, stretch_of_stop (hstop h hb hq hs)])
    | pass n =>
      obtain ⟨hn, hd⟩ := hpass h hb hq hs
      have hc := stretch_of_pass hr hs
      rw [hc, Outcome.result_after] at hok
      exact .step hn hc (stretch_of_pass hr' hd) (.pass hr hs) (hnext (Nat.succ_pos n) hn hok)
    | group =>
      obtain ⟨t, ts, hts⟩ := List.exists_cons_of_ne_nil hr
      cases hn : groupLength? 0 ts with
      | none =>
        rw [stretch_of_unclosed hr hs (group_of_unclosed hts hn)] at hok
        cases hok
      | some n =>
        have hclosed := group_of_closed hts hn
        obtain ⟨hle, hclosed'⟩ := settles_group.within h hclosed
        have hd := hgroup h hb hq hs (by rwa [Cursor.rest_skip_one hts])
        have hc := stretch_of_group hr hs hclosed
        rw [hc, Outcome.result_after] at hok
        exact .step hle hc (stretch_of_group hr' hd hclosed') (.group hts hs hn)
          (hnext (Nat.succ_pos n) hle hok)

/-- A stretch settles if its strides are decided alike and it ends at the line ends. -/
theorem settles_stretch {stride : Cursor → Stride}
    (hstride : ∀ {hi q : Nat} {B : List Token} {c d : Cursor}, Ending hi B q c d → 0 < q →
      stride d = stride c)
    (hpass : ∀ {hi q : Nat} {B : List Token} {c d : Cursor} {n : Nat}, Ending hi B q c d → 0 < q →
      stride c = .pass n → n < q)
    (hend : ∀ {hi : Nat} {B : List Token} {c d : Cursor}, Ending hi B 0 c d →
      (c.kind = .newline → stride c = .stop) ∧ stride d = .stop) : Settles (stretch stride) := by
  constructor
  intro hi q B c d u m h hok
  have hending := stretch_ending stride (fun _ => True) (fun _ _ => trivial)
    (fun h _ hq hs => by rw [hstride h hq, hs])
    (fun h _ hq hs => ⟨hpass h hq hs, by rw [hstride h hq, hs]⟩)
    (fun h _ hq hs _ => by rw [hstride h hq, hs]) h trivial (by rw [hok])
  rcases hending with ⟨hlt, heq⟩ | ⟨-, hc, hd⟩
  · rw [hok] at hlt heq
    exact ⟨Nat.le_of_lt hlt, heq⟩
  · have h' := h.skip (Nat.le_refl q)
    rw [Nat.sub_self] at h'
    obtain ⟨hstop, hstop'⟩ := hend h'
    have hzero : stretch stride (c.skip q) = ⟨.ok (), 0⟩ := by
      rcases h'.kind_eq.1 with hk | hk
      · exact stretch_of_stop (hstop hk)
      · have hr : (c.skip q).rest = [] := by
          cases hr : (c.skip q).rest with
          | nil => rfl
          | cons t ts =>
            have hnewline := h'.ended.newlines t (by rw [Cursor.skip_zero, hr]; simp)
            rw [Cursor.kind, Cursor.current_of_rest hr, hnewline] at hk
            cases hk
        exact stretch_of_nil hr
    rw [hc, hzero] at hok
    obtain rfl := (Outcome.mk.inj hok).2
    exact ⟨Nat.le_refl q, by rw [hd, stretch_of_stop hstop']; rfl⟩

theorem settles_restOfLine : Settles restOfLine := by
  refine settles_stretch (fun h hq => lineStride_alike h.alike (h.shows hq)) (fun h hq hs => ?_)
    fun h => ?_
  · have hn : ∀ {c : Cursor} {n : Nat}, lineStride c = .pass n → n = 0 := by
      intro c n hs
      rw [lineStride] at hs
      split at hs
      · cases hs
      · cases hs
      · cases hs
      · split at hs
        · cases hs
        · split at hs <;> cases hs
          rfl
    rw [hn hs]
    exact hq
  · refine ⟨fun hk => ?_, ?_⟩
    · rw [lineStride, hk]
    · rw [lineStride, h.kind_eq.2]

/-- A signature goes on over a line end only to what goes on with it. -/
theorem signatureStride_of_newline (hk : c.kind = .newline) (hp : c.pastNewlines.kind ∉ goesBack) :
    signatureStride c = .stop := by
  rw [signatureStride, hk]
  dsimp only
  split
  · rename_i h
    rw [h] at hp
    exact absurd (by decide) hp
  · rename_i h
    rw [h] at hp
    exact absurd (by decide) hp
  · rename_i h
    rw [h] at hp
    exact absurd (by decide) hp
  · rfl

theorem settles_signatureAndBody : Settles signatureAndBody := by
  have hsignature : Settles (stretch signatureStride) := by
    refine settles_stretch (fun h hq => signatureStride_alike h.alike (h.shows hq))
      (fun {_ q _ c _ n} h hq hs => ?_) fun h => ?_
    · have hlt : c.newlines < q := (h.shows hq).newlines_lt
      rw [signatureStride] at hs
      split at hs
      case h_4 =>
        split at hs <;> cases hs
        all_goals omega
      case h_5 =>
        split at hs
        · cases hs
        · split at hs <;> cases hs
          exact hq
      all_goals cases hs
    · have hended := h.ended
      rw [Cursor.skip_zero, Cursor.skip_zero] at hended
      obtain ⟨hc, hd⟩ := hended.pastNewlines_kind
      exact ⟨fun hk => signatureStride_of_newline hk (by rw [hc]; decide),
        signatureStride_of_newline h.kind_eq.2 hd⟩
  exact hsignature.bind fun _ => .ite (by decide) (by decide) (settles_group.map _) (.pure _)

/-! ### Functions and lines -/

/-- An operator is made of no line ends. -/
theorem operatorLength_append {A N : List Token} (previous : Option Span)
    (hN : ∀ t ∈ N, t.kind = .newline) {t : Token} (ht : t.kind = .newline) (rest : List Token) :
    operatorLength previous (A ++ N) ≤ A.length
      ∧ operatorLength previous (A ++ t :: rest) = operatorLength previous (A ++ N) := by
  have hnot : ∀ {k : TokenKind}, k = .newline → isOperatorPart k = false := by
    rintro _ rfl
    rfl
  induction A generalizing previous with
  | nil =>
    have hzero : operatorLength previous N = 0 := by
      cases N with
      | nil => rfl
      | cons u N => rw [operatorLength, if_neg (by simp [hnot (hN u List.mem_cons_self)])]
    rw [List.nil_append, List.nil_append, hzero, operatorLength, if_neg (by simp [hnot ht])]
    exact ⟨Nat.le_refl 0, rfl⟩
  | cons a A ih =>
    rw [List.cons_append, List.cons_append, operatorLength, operatorLength]
    obtain ⟨hle, heq⟩ := ih (some a.span)
    split
    · exact ⟨Nat.succ_le_succ hle, by rw [heq]⟩
    · exact ⟨Nat.zero_le _, rfl⟩

theorem settles_functionName : Settles functionName := by
  constructor
  intro hi q B c d name m h hok
  have hiff := h.kind_iff .ident (by decide) (by decide)
  by_cases hk : c.kind = .ident
  · rw [functionName_of_ident hk] at hok
    rw [functionName_of_ident (hiff.mpr hk)]
    exact (settles_identifier.map _).within h hok
  · rw [functionName_of_ne hk] at hok
    split at hok
    case h_1 => cases hok
    case h_2 l hl =>
      cases hok
      obtain ⟨t, ts, ht, hd⟩ := h.rest_eq
      have hended := h.ended.newlines
      rw [Cursor.rest_skip] at hended
      obtain ⟨hle, heq⟩ := operatorLength_append (A := c.rest.take q) none hended ht ts
      rw [List.take_append_drop] at hle heq
      rw [hl, List.length_take] at hle
      rw [functionName_of_ne (mt hiff.mp hk), hd, heq, hl]
      have hfirst : c.span.stop ≤ hi := (h.alike.ahead_le (by omega) (by omega)).2
      have hlast := h.alike.ahead_le (i := l) (by omega) (by omega)
      refine ⟨by omega, ?_⟩
      dsimp only
      rw [h.alike.span (by omega), h.alike.ahead (by omega), span_mapSpans,
        h.alike.textBetween hfirst hlast.2]

theorem settles_functionEnd (kind : DeclarationKind) (name : String) :
    Settles (functionEnd kind name) :=
  settles_generics.bind fun _ => settles_signatureAndBody.bind fun _ => .pure _

theorem settles_functionMark (kind : DeclarationKind) (name : String) :
    Settles (functionMark kind name) := by
  constructor
  intro hi q B c d a m h hok
  cases kind with
  | initializer =>
    have hquestion := h.kind_iff .question (by decide) (by decide)
    have hbang := h.kind_iff .bang (by decide) (by decide)
    rw [functionMark_initializer] at hok ⊢
    split at hok
    case isTrue hk =>
      rw [if_pos ((or_congr hquestion hbang).mpr hk)]
      have hq : 0 < q := h.pos_of_kind (by rcases hk with hk | hk <;> rw [hk] <;> decide)
        (by rcases hk with hk | hk <;> rw [hk] <;> decide)
      obtain ⟨u, l, j, htake, hend, rfl⟩ := bind_eq_ok.mp hok
      have hl : l ≤ 1 := by
        have := (Outcome.mk.inj htake).2
        omega
      have htake' : take 1 d = ⟨.ok u, l⟩ := by rw [take_alike h.alike hq, htake, mapSpans_move_zero]
      obtain ⟨hj, hend'⟩ := (settles_functionEnd _ _).within (h.skip (by omega : l ≤ q)) hend
      exact ⟨by omega, bind_eq_ok.mpr ⟨u, l, j, htake', hend', rfl⟩⟩
    case isFalse hk =>
      rw [if_neg (mt (or_congr hquestion hbang).mp hk)]
      exact (settles_functionEnd _ _).within h hok
  | _ => exact (settles_functionEnd _ _).within h hok

theorem settles_nameAfter (keyword : List Char) (kind : DeclarationKind) :
    Settles (nameAfter keyword kind) := by
  cases kind with
  | function => exact settles_functionName
  | _ => exact .pure _

/-- **A function ends where a text ends as before a line end there.** -/
theorem function_settles (h : Ending hi B q c d) (hn : c.kind ≠ .newline) (he : c.kind ≠ .endOfFile)
    (kind : DeclarationKind) {a : Declaration} (hok : function kind c = ⟨.ok a, m⟩) :
    m ≤ q ∧ function kind d = ⟨.ok a, m⟩ := by
  have hq := h.pos_of_kind hn he
  rw [function_apply, inside_eq_ok] at hok ⊢
  rw [h.alike.currentText hq he]
  obtain ⟨t, l, j, hnext, hrest, rfl⟩ := bind_eq_ok.mp hok
  obtain ⟨hl, hnext'⟩ := next_settles h hn he hnext
  obtain ⟨hj, hrest'⟩ := ((settles_nameAfter c.currentText kind).bind
    (settles_functionMark kind)).within (h.skip hl) hrest
  exact ⟨by omega, bind_eq_ok.mpr ⟨t, l, j, hnext', hrest', rfl⟩⟩

theorem settles_identifier? : Settles identifier? :=
  .ite (by decide) (by decide) ((settles_identifier.map _).map _) (Settles.pure none)

/-- **A declaration of one line ends where a text ends as before a line end there.** -/
theorem line_settles (h : Ending hi B q c d) (hn : c.kind ≠ .newline) (he : c.kind ≠ .endOfFile)
    (kind : DeclarationKind) {a : Declaration} (hok : line kind c = ⟨.ok a, m⟩) :
    m ≤ q ∧ line kind d = ⟨.ok a, m⟩ := by
  rw [line_apply] at hok ⊢
  obtain ⟨t, l, j, hnext, hrest, rfl⟩ := bind_eq_ok.mp hok
  obtain ⟨hl, hnext'⟩ := next_settles h hn he hnext
  obtain ⟨hj, hrest'⟩ := (settles_identifier?.bind fun name =>
    settles_restOfLine.bind fun _ => .pure _).within (h.skip hl) hrest
  exact ⟨by omega, bind_eq_ok.mpr ⟨t, l, j, hnext', hrest', rfl⟩⟩

/-! ### Patterns and the types of bindings -/

/-- A pattern ends in a name or a parenthesis. -/
theorem kind_of_pattern {p : Pattern} (h : pattern c = ⟨.ok p, m⟩) :
    ∃ i, m = i + 1 ∧ ((c.ahead i).kind = .ident ∨ (c.ahead i).kind = .rightParen) := by
  by_cases hi : c.kind = .ident
  · rw [pattern_of_ident hi] at h
    exact ⟨0, (Outcome.mk.inj h).2.symm, .inl hi⟩
  by_cases hp : c.kind = .leftParen
  · cases ho : elements (c.skip 1) with
    | mk result l =>
    rw [pattern_of_leftParen hp ho] at h
    cases result with
    | error e => cases h
    | ok ps =>
      dsimp only at h
      have hk : (c.skip (1 + l)).kind = .rightParen := by
        by_contra hk
        rw [expect, if_neg hk] at h
        cases h
      rw [expect, if_pos hk, next] at h
      have hlt := Cursor.lt_length_of_ahead (c := c.skip (1 + l)) (i := 0) (by
        change (c.skip (1 + l)).kind ≠ _
        rw [hk]
        decide)
      refine ⟨1 + l, ?_, .inr ?_⟩
      · have := (Outcome.mk.inj h).2
        dsimp only [Outcome.map] at this
        omega
      · rwa [Cursor.kind, Cursor.current, Cursor.ahead_skip] at hk
  · rw [pattern_of_ne hi hp] at h
    cases h

theorem settles_pattern : Settles pattern := by
  constructor
  intro hi q B c d p m h hok
  obtain ⟨i, rfl, hk⟩ := kind_of_pattern hok
  have hlt : i < q := h.lt_of_kind (by rcases hk with hk | hk <;> rw [hk] <;> decide)
    (by rcases hk with hk | hk <;> rw [hk] <;> decide)
  refine ⟨hlt, ?_⟩
  rw [pattern_alike h.alike ⟨by rw [hok]; exact hlt, by rw [hok]; rintro _ ⟨⟩⟩, hok,
    mapSpans_move_zero]

theorem settles_bindingType? : Settles bindingType? := by
  refine (settles_eat (by decide) (by decide)).bind fun b => ?_
  cases b with
  | false => exact .pure _
  | true => exact ((settles_typeText rfl).inside _).bind fun _ => .pure _

end

end Parser

end Memberwise
