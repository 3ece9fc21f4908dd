import Memberwise.Proofs.Expansion.Remains

/-!
# Proofs/Expansion/Trimming — the words of a trimmed text

A source is trimmed when attributes are cut out of it and text is put in after closing braces
(`Trimming`).  Piece by piece from the back, what is left of it says what its pieces say, unless a
removal brings two characters of a name together (`Joins`):

* `words_marked_iff` — **the words are those expected exactly if no two names are joined**.

The step is one piece (`Trimming.words_piece_iff`): a piece that is left fits before what is left
after it, whatever was removed there, or it is a name and swallows what comes to stand next to it.
-/

namespace Memberwise

open Text Token

/-- Whether a span lies in one of some others. -/
def Span.isIn (s : Span) (as : List Span) : Bool :=
  as.any fun a => a.start ≤ s.start && s.stop ≤ a.stop

namespace Removal

/-! ## Names that meet -/

/-- Whether a text begins with something removed and goes on with a character of a name. -/
def Meets (removed : Nat → Bool) (n : Nat) (s : List Char) : Prop :=
  ∃ gap d after, s = gap ++ d :: after ∧ gap ≠ [] ∧ isXidContinue d = true
    ∧ IsGone removed n gap ∧ removed (n + byteLength gap) = false

/-- Whether two characters of a name come to stand side by side because what was between them is
removed. -/
def Joins (removed : Nat → Bool) (n : Nat) (s : List Char) : Prop :=
  ∃ before c gap d after, s = before ++ c :: (gap ++ d :: after) ∧ gap ≠ []
    ∧ isXidContinue c = true ∧ isXidContinue d = true ∧ removed (n + byteLength before) = false
    ∧ IsGone removed (n + byteLength (before ++ [c])) gap
    ∧ removed (n + byteLength (before ++ c :: gap)) = false

section Joins

variable {removed : Nat → Bool} {inserted : Nat → List Char} {n : Nat} {s t : List Char} {c d : Char}

theorem IsLeft.of_cons (h : IsLeft removed n (c :: s)) :
    removed n = false ∧ IsLeft removed (n + c.utf8Size) s :=
  ⟨h n c List.mem_cons_self, fun o d hd => h o d (List.mem_cons_of_mem _ hd)⟩

theorem IsGone.of_cons (h : IsGone removed n (c :: s)) :
    removed n = true ∧ IsGone removed (n + c.utf8Size) s :=
  ⟨h n c List.mem_cons_self, fun o d hd => h o d (List.mem_cons_of_mem _ hd)⟩

theorem isGone_cons (hr : removed n = true) (h : IsGone removed (n + c.utf8Size) s) :
    IsGone removed n (c :: s) := by
  intro o d hd
  rcases List.mem_cons.mp hd with hd | hd
  · obtain ⟨rfl, -⟩ := Prod.mk.inj hd
    exact hr
  · exact h o d hd

/-- Nothing is met where a text begins with what is left. -/
theorem not_meets_of_left (h : removed n = false) : ¬ Meets removed n (c :: s) := by
  rintro ⟨gap, d, after, hs, hne, -, hg, -⟩
  obtain ⟨e, gap, rfl⟩ := List.exists_cons_of_ne_nil hne
  rw [hg.of_cons.1] at h
  cases h

theorem not_meets_nil : ¬ Meets removed n [] := by
  rintro ⟨gap, d, after, hs, -⟩
  simp at hs

theorem not_joins_nil : ¬ Joins removed n [] := by
  rintro ⟨before, c, gap, d, after, hs, -⟩
  simp at hs

theorem joins_cons : Joins removed n (c :: s) ↔
    removed n = false ∧ isXidContinue c = true ∧ Meets removed (n + c.utf8Size) s
      ∨ Joins removed (n + c.utf8Size) s := by
  constructor
  · rintro ⟨before, c', gap, d, after, hs, hne, hc, hd, hk, hg, hk'⟩
    cases before with
    | nil =>
      obtain ⟨rfl, rfl⟩ := List.cons.inj hs
      refine .inl ⟨hk, hc, gap, d, after, rfl, hne, hd, hg, ?_⟩
      rwa [List.nil_append, byteLength_cons, ← Nat.add_assoc] at hk'
    | cons e before =>
      obtain ⟨rfl, rfl⟩ := List.cons.inj hs
      refine .inr ⟨before, c', gap, d, after, rfl, hne, hc, hd, ?_, ?_, ?_⟩
      · rwa [byteLength_cons, ← Nat.add_assoc] at hk
      · rwa [List.cons_append, byteLength_cons, ← Nat.add_assoc] at hg
      · rwa [List.cons_append, byteLength_cons, ← Nat.add_assoc] at hk'
  · rintro (⟨hk, hc, gap, d, after, rfl, hne, hd, hg, hk'⟩
      | ⟨before, c', gap, d, after, rfl, hne, hc, hd, hk, hg, hk'⟩)
    · refine ⟨[], c, gap, d, after, rfl, hne, hc, hd, hk, hg, ?_⟩
      rwa [List.nil_append, byteLength_cons, ← Nat.add_assoc]
    · refine ⟨c :: before, c', gap, d, after, rfl, hne, hc, hd, ?_, ?_, ?_⟩
      · rwa [byteLength_cons, ← Nat.add_assoc]
      · rwa [List.cons_append, byteLength_cons, ← Nat.add_assoc]
      · rwa [List.cons_append, byteLength_cons, ← Nat.add_assoc]

/-- A text none of whose characters is left and of a name joins nothing. -/
theorem joins_append_of_quiet
    (h : ∀ o c, (o, c) ∈ located n s → removed o = true ∨ isXidContinue c = false) :
    Joins removed n (s ++ t) ↔ Joins removed (n + byteLength s) t := by
  induction s generalizing n with
  | nil => rfl
  | cons c s ih =>
    have hlater := ih fun o d hd => h o d (List.mem_cons_of_mem _ hd)
    rw [List.cons_append, joins_cons, hlater, byteLength_cons, ← Nat.add_assoc]
    refine or_iff_right ?_
    rintro ⟨hk, hc, -⟩
    rcases h n c List.mem_cons_self with hr | hx
    · rw [hr] at hk
      cases hk
    · rw [hx] at hc
      cases hc

/-- A text that is left can be joined at its end only. -/
theorem joins_append_of_left (h : IsLeft removed n (s ++ [c])) :
    Joins removed n (s ++ [c] ++ t) ↔
      isXidContinue c = true ∧ Meets removed (n + byteLength (s ++ [c])) t
        ∨ Joins removed (n + byteLength (s ++ [c])) t := by
  induction s generalizing n with
  | nil =>
    rw [List.nil_append, List.singleton_append, joins_cons, byteLength_cons, byteLength_nil,
      Nat.add_zero]
    simp [h.of_cons.1]
  | cons e s ih =>
    rw [List.cons_append, List.cons_append, joins_cons, ih h.of_cons.2, byteLength_cons,
      ← Nat.add_assoc]
    refine or_iff_right ?_
    rintro ⟨-, -, hm⟩
    obtain ⟨e', s', hs⟩ := List.exists_cons_of_ne_nil (l := s ++ [c]) (by simp)
    have hleft : IsLeft removed (n + e.utf8Size) (s ++ [c]) := h.of_cons.2
    rw [hs] at hm hleft
    exact not_meets_of_left hleft.of_cons.1 hm

/-- What is left of a text begins with the first character that is left. -/
theorem head?_marked (h : ∀ o c, (o, c) ∈ located n s → removed o = true →
      inserted (o + c.utf8Size) = []) :
    (marked removed inserted n s).head? = some d ↔ ∃ gap after, s = gap ++ d :: after
      ∧ IsGone removed n gap ∧ removed (n + byteLength gap) = false := by
  induction s generalizing n with
  | nil => simp
  | cons c s ih =>
    rw [marked_cons]
    cases hr : removed n with
    | false =>
      constructor
      · intro hd
        obtain rfl : c = d := by simpa using hd
        exact ⟨[], s, rfl, (fun o e he => by cases he), hr⟩
      · rintro ⟨gap, after, hs, hg, -⟩
        cases gap with
        | nil => simp [(List.cons.inj hs).1]
        | cons e gap =>
          rw [hg.of_cons.1] at hr
          cases hr
    | true =>
      rw [h n c List.mem_cons_self hr]
      simp only [if_true, List.nil_append]
      rw [ih fun o e he => h o e (List.mem_cons_of_mem _ he)]
      constructor
      · rintro ⟨gap, after, rfl, hg, hk⟩
        refine ⟨c :: gap, after, rfl, isGone_cons hr hg, ?_⟩
        rwa [byteLength_cons, ← Nat.add_assoc]
      · rintro ⟨gap, after, hs, hg, hk⟩
        cases gap with
        | nil =>
          rw [byteLength_nil, Nat.add_zero, hr] at hk
          cases hk
        | cons e gap =>
          obtain ⟨rfl, rfl⟩ := List.cons.inj hs
          refine ⟨gap, after, rfl, hg.of_cons.2, ?_⟩
          rwa [byteLength_cons, ← Nat.add_assoc] at hk

/-- What a text meets is what is left of it begins with. -/
theorem meets_iff (h : ∀ o e, (o, e) ∈ located n (c :: s) → removed o = true →
      inserted (o + e.utf8Size) = []) (hr : removed n = true) : Meets removed n (c :: s) ↔
    ∃ d, (marked removed inserted n (c :: s)).head? = some d ∧ isXidContinue d = true := by
  constructor
  · rintro ⟨gap, d, after, hs, -, hd, hg, hk⟩
    exact ⟨d, (head?_marked h).mpr ⟨gap, after, hs, hg, hk⟩, hd⟩
  · rintro ⟨d, hhead, hd⟩
    obtain ⟨gap, after, hs, hg, hk⟩ := (head?_marked h).mp hhead
    refine ⟨gap, d, after, hs, ?_, hd, hg, hk⟩
    rintro rfl
    rw [byteLength_nil, Nat.add_zero, hr] at hk
    cases hk

end Joins

/-! ## Parts that are left or removed -/

section Marked

variable {removed : Nat → Bool} {inserted : Nat → List Char} {n : Nat} {s : List Char}

theorem marked_of_isLeft (h : IsLeft removed n s)
    (hi : ∀ o, n < o → o ≤ n + byteLength s → inserted o = []) :
    marked removed inserted n s = s := by
  have hs : marked removed inserted n s = marked (fun _ => false) (fun _ => []) n s := by
    refine marked_congr fun o c hc => ?_
    have hle := le_of_mem_located hc
    have hpos := c.utf8Size_pos
    exact ⟨h o c hc, hi _ (by omega) (by omega)⟩
  rw [hs, marked_of_untouched (fun _ _ _ => rfl) fun _ _ _ => rfl]

theorem marked_of_isGone (h : IsGone removed n s)
    (hi : ∀ o c, (o, c) ∈ located n s → inserted (o + c.utf8Size) = []) :
    marked removed inserted n s = [] := by
  refine List.flatMap_eq_nil_iff.mpr fun x hx => ?_
  rw [h x.1 x.2 hx, hi x.1 x.2 hx]
  rfl

end Marked

/-! ## Pieces that a number may go on with -/

theorem endsItself_wordKind (word : List Char) (next : Option Char) :
    endsItself (wordKind word next) = false := by
  have hkeywords : ∀ p ∈ keywords, endsItself p.2 = false := by decide
  rcases wordKind_cases word next with hk | hk
  · rw [hk]
    rfl
  · exact hkeywords _ hk

/-- A number does not go on with a sign right behind its first digit. -/
theorem number_sign (d : Char) {b : Char} (hb : b = '+' ∨ b = '-') (r : List Char) :
    (number d (b :: r)).2 = 0 := by
  rcases hb with rfl | rfl <;>
    cases r <;> simp [number, radixLength, radixDigit?, run, orUnderscore, fractionLength,
      exponentLength, Char.isDigit]

/-- Of the marks, only dots and operators begin with what a number may go on with. -/
theorem markKind?_of_not_dull {c : Char} {k : TokenKind} (hc : isDull c = false)
    (hk : markKind? c = some k) : k = .dot ∨ k = .operator := by
  unfold markKind? at hk
  split at hk <;> cases hk <;> first
    | exact .inl rfl
    | exact .inr rfl
    | exact absurd hc (by decide)

/-- A piece that begins with a character a number may go on with is a token that more can follow. -/
theorem exists_kind_of_not_dull {q : Piece} {r x : List Char} {d : Char} (hfits : q.Fits r)
    (hs : q.lexeme.isSound = true) (ht : q.text = d :: x) (hd : isDull d = false) :
    ∃ k, q.lexeme = .token k ∧ endsItself k = false ∧ k ≠ .newline
      ∧ ((d = '+' ∨ d = '-') → k ≠ .ident)
      ∧ ∀ b, x = [b] → b ≠ '+' ∧ b ≠ '-' := by
  obtain ⟨c, y, ht', hf⟩ := hfits
  obtain ⟨rfl, rfl⟩ := List.cons.inj (ht.symm.trans ht')
  generalize q.lexeme = l at hf hs
  generalize hn : x.length = n at hf
  have hnot : ∀ e : Char, isDull e = true → d ≠ e := by
    rintro e he rfl
    rw [hd] at he
    cases he
  cases fronts hf with
  | blank hb =>
    simp only [isBlank, Bool.or_eq_true, beq_iff_eq] at hb
    rcases hb with ((hb | hb) | hb) | hb <;> exact absurd hb (hnot _ (by decide))
  | word hc hrun =>
    refine ⟨_, rfl, endsItself_wordKind _ _, (wordKind_ne _ _).1, ?_, ?_⟩
    · rintro (rfl | rfl) <;> exact absurd hc (by decide)
    · rintro b rfl
      have hb := forall_mem_of_run_append (x := [b]) (hrun.symm.trans hn.symm) b (by simp)
      constructor <;> · rintro rfl; revert hb; decide
  | number hdigit hkind hnum =>
    refine ⟨_, rfl, ?_, ?_, ?_, ?_⟩
    · rcases hkind with rfl | rfl <;> rfl
    · rcases hkind with rfl | rfl <;> decide
    · rintro (rfl | rfl) <;> exact absurd hdigit (by decide)
    · rintro b rfl
      rw [← not_or]
      intro hb
      have := number_sign d hb r
      rw [← List.singleton_append, hnum, ← hn] at this
      cases this
  | lineComment hc => exact absurd hc (hnot _ (by decide))
  | blockComment hc => exact absurd hc (hnot _ (by decide))
  | literal he =>
    rcases head_of_literal? he with hc | hc <;> exact absurd hc (hnot _ (by decide))
  | hash hc => exact absurd hc (hnot _ (by decide))
  | backtick hc => exact absurd hc (hnot _ (by decide))
  | dollar hc => exact absurd hc (hnot _ (by decide))
  | @pair e t k hx hp =>
    rcases markPairKind?_eq_some hp with ⟨hc, -⟩ | ⟨hc, -⟩ | ⟨hc, rfl⟩
    · exact absurd hc (hnot _ (by decide))
    · exact absurd hc (hnot _ (by decide))
    · subst hc
      cases hp
      refine ⟨_, rfl, rfl, by decide, fun _ => by decide, ?_⟩
      rintro b rfl
      obtain rfl := (List.cons.inj hx).1
      decide
  | @mark k hk =>
    have hmark := markKind?_of_not_dull hd hk
    refine ⟨k, rfl, ?_, ?_, fun _ => ?_, ?_⟩
    · rcases hmark with rfl | rfl <;> rfl
    · rcases hmark with rfl | rfl <;> decide
    · rcases hmark with rfl | rfl <;> decide
    · rintro b rfl
      cases hn
  | invalid => cases hs

/-! ## The last character of a piece -/

section Last

variable {p : Piece} {r u : List Char} {c : Char}

theorem isXidContinue_of_markKind? {k : TokenKind} (h : markKind? c = some k) :
    isXidContinue c = false := by
  unfold markKind? at h
  split at h <;> first | decide | cases h

/-- A piece that is complete whatever comes after it does not end in a character of a name. -/
theorem isXidContinue_of_isHard (hfits : p.Fits r) (hp : p.isHard = true)
    (ht : p.text = u ++ [c]) : isXidContinue c = false := by
  obtain ⟨d, x, ht', hf⟩ := hfits
  have hx : x = (x ++ r).take x.length := by simp
  unfold Piece.isHard at hp
  split at hp
  · rename_i closed hl
    rw [hl] at hf
    obtain ⟨rfl, t, hxr, rfl, hlen⟩ := front_blockComment hf
    obtain ⟨v, hv⟩ := blockComment_closed hp
    rw [hlen, hxr, Nat.add_comm, List.take_succ_cons, hv] at hx
    have hlast : u ++ [c] = ('/' :: '*' :: v ++ ['*']) ++ ['/'] := by
      rw [← ht, ht', hx]
      simp
    obtain ⟨-, hc⟩ := List.append_inj' hlast rfl
    rw [(List.cons.inj hc).1]
    decide
  · rename_i k hl
    rw [hl] at hf
    rcases Bool.or_eq_true_iff.mp hp with hk | hk
    · obtain ⟨hlen, -, hmark⟩ := exists_soloMark hk hf
      rw [List.length_eq_zero_iff.mp hlen, ht] at ht'
      obtain ⟨-, hc⟩ := List.append_inj' (ht'.trans (List.nil_append _).symm) rfl
      rw [(List.cons.inj hc).1]
      exact isXidContinue_of_markKind? hmark
    · rw [Bool.and_eq_true, beq_iff_eq, beq_iff_eq, ht', List.head?_cons, Option.some.injEq] at hk
      obtain ⟨rfl, rfl⟩ := hk
      rw [Begins.backtick.front_eq] at hf
      rcases backtickFront_cases hf with ⟨-, v, hv⟩ | hl
      · rw [List.take_left] at hv
        rw [hv, ht, ← List.cons_append] at ht'
        obtain ⟨-, hc⟩ := List.append_inj' ht' rfl
        rw [(List.cons.inj hc).1]
        decide
      · cases hl
  · cases hp

/-- A name that is not complete before anything ends in a character of a name. -/
theorem exists_last_of_ident (hfits : p.Fits r) (hl : p.lexeme = .token .ident)
    (hp : p.isHard = false) : ∃ u c, p.text = u ++ [c] ∧ isXidContinue c = true := by
  obtain ⟨d, x, ht, hrun, hname⟩ := hfits.exists_run hl hp
  have hall := forall_mem_of_run_append hrun
  rcases List.eq_nil_or_concat' x with rfl | ⟨y, e, rfl⟩
  · rcases hname with ⟨hd, -⟩ | ⟨-, hne⟩
    · exact ⟨[], d, ht, isXidContinue_of_isNameStart hd⟩
    · exact absurd rfl hne
  · exact ⟨d :: y, e, by rw [ht]; rfl, hall e (by simp)⟩

end Last

/-! ## Trimming -/

/-- Attributes are cut out of a text without errors, and text is put in after closing braces that
are left. -/
structure Trimming (source : List Char) (as : List Span) (inserted : Nat → List Char) : Prop where
  attributes : AreAttributes source as
  sound : ∀ q ∈ pieces source, q.lexeme.isSound = true
  anchored : Anchored (removedBy source as) inserted source
  braces : ∀ n, inserted n ≠ [] → ∃ P p Q, pieces source = P ++ p :: Q
    ∧ p.lexeme = .token .rightBrace ∧ n = width (P ++ [p])

namespace Trimming

variable {source : List Char} {as : List Span} {inserted : Nat → List Char} {P Q : List Piece}
  {p : Piece}

/-- Nothing is put in after a character that is removed. -/
theorem inserted_of_removed (h : Trimming source as inserted) (hps : pieces source = P ++ Q)
    {o : Nat} {c : Char} (hc : (o, c) ∈ located (width P) (Q.flatMap Piece.text))
    (hr : removedBy source as o = true) : inserted (o + c.utf8Size) = [] := by
  by_contra hne
  have hmem : (o, c) ∈ located 0 source := by
    rw [source_eq_of_pieces hps, List.flatMap_append, located_append, Nat.zero_add]
    exact List.mem_append_right _ hc
  rw [(h.anchored o c hmem hne).2.1] at hr
  cases hr

/-- Nothing is put in after a piece, or inside of it, that is no closing brace. -/
theorem inserted_eq_nil (h : Trimming source as inserted) (hps : pieces source = P ++ p :: Q)
    (hp : p.lexeme ≠ .token .rightBrace) {o : Nat} (ho : width P < o)
    (ho' : o ≤ width P + byteLength p.text) : inserted o = [] := by
  by_contra hne
  obtain ⟨P', q, Q', hps', hq, rfl⟩ := h.braces o hne
  have hcut : (P' ++ [q]) ++ Q' = P ++ (p :: Q) := by
    rw [← hps, hps', List.append_assoc]
    rfl
  rcases List.append_eq_append_iff.mp hcut with ⟨X, rfl, -⟩ | ⟨X, hX, hQ⟩
  · rw [width_append] at ho
    omega
  · cases X with
    | nil =>
      rw [hX, List.append_nil] at ho
      exact Nat.lt_irrefl _ ho
    | cons r X =>
      obtain ⟨rfl, hXQ⟩ := List.cons.inj hQ
      have hnil : X = [] := by
        refine eq_nil_of_width_eq_zero (fun y hy => ?_) ?_
        · refine text_ne_nil_of_mem_pieces (s := source) ?_
          rw [hps, hXQ]
          simp [hy]
        · rw [hX, width_append, width_cons] at ho'
          omega
      subst hnil
      obtain ⟨-, hqp⟩ := List.append_inj' hX rfl
      obtain rfl := (List.cons.inj hqp).1
      exact hp hq

theorem byteLength_pos_of_piece (hps : pieces source = P ++ p :: Q) : 0 < byteLength p.text := by
  refine Nat.pos_of_ne_zero fun h => ?_
  exact text_ne_nil_of_mem_pieces (s := source) (by rw [hps]; simp) (byteLength_eq_zero.mp h)

/-- A piece that is left stays, with what is put in after it. -/
theorem marked_of_left (h : Trimming source as inserted) (hps : pieces source = P ++ p :: Q)
    (hk : IsLeft (removedBy source as) (width P) p.text) (t : List Char) :
    marked (removedBy source as) inserted (width P) (p.text ++ t) = p.text
      ++ (inserted (width P + byteLength p.text)
        ++ marked (removedBy source as) inserted (width P + byteLength p.text) t) := by
  by_cases hp : p.lexeme = .token .rightBrace
  · have ht : p.text = "\x7d".toList :=
      spelling?_of_mem_pieces (s := source) (by rw [hps]; simp) hp rfl
    have hr := hk (width P) '\x7d' (by rw [ht]; exact List.mem_cons_self)
    rw [ht]
    change marked _ _ _ ('\x7d' :: t) = '\x7d' :: (inserted (width P + 1) ++ marked _ _ (width P + 1) t)
    rw [marked_cons, hr]
    simp
    rfl
  · have hpos : 0 < byteLength p.text := byteLength_pos_of_piece hps
    rw [Removal.marked_append, h.inserted_eq_nil hps hp (by omega) (Nat.le_refl _),
      List.nil_append, marked_of_isLeft hk fun o => h.inserted_eq_nil hps hp]

/-- A piece that is removed leaves nothing. -/
theorem marked_of_gone (h : Trimming source as inserted) (hps : pieces source = P ++ p :: Q)
    (hg : IsGone (removedBy source as) (width P) p.text) (t : List Char) :
    marked (removedBy source as) inserted (width P) (p.text ++ t)
      = marked (removedBy source as) inserted (width P + byteLength p.text) t := by
  rw [Removal.marked_append, marked_of_isGone hg fun o c hc => ?_, List.nil_append]
  refine h.inserted_of_removed (P := P) hps ?_ (hg o c hc)
  rw [List.flatMap_cons, located_append]
  exact List.mem_append_left _ hc

/-- Of a blank only blanks are left. -/
theorem exists_marked_of_blank (h : Trimming source as inserted)
    (hps : pieces source = P ++ p :: Q) (hb : p.lexeme = .blank) (t : List Char) :
    ∃ b, (∀ c ∈ b, isBlank c = true)
      ∧ marked (removedBy source as) inserted (width P) (p.text ++ t)
        = b ++ marked (removedBy source as) inserted (width P + byteLength p.text) t := by
  refine ⟨_, fun c hc => ?_, Removal.marked_append⟩
  obtain ⟨⟨o, d⟩, hd, hmem⟩ := List.mem_flatMap.mp hc
  have hle := le_of_mem_located hd
  have hpos := d.utf8Size_pos
  have hi : inserted (o + d.utf8Size) = [] :=
    h.inserted_eq_nil hps (by rw [hb]; simp) (by omega) hle.2
  obtain ⟨x, y, hxy, -⟩ := exists_append_of_mem_located hd
  have hblank := (fits_of_pieces_eq hps).isBlank.1 hb d (by rw [hxy]; simp)
  dsimp only at hmem
  rw [hi, List.append_nil] at hmem
  split at hmem
  · cases hmem
  · rwa [List.mem_singleton.mp hmem]

/-- What is left begins with a character of ASCII or of a name. -/
theorem head?_marked_cases (h : Trimming source as inserted) (hps : pieces source = P ++ Q)
    {d : Char} (hd : (marked (removedBy source as) inserted (width P)
      (Q.flatMap Piece.text)).head? = some d) : d.toNat < 128 ∨ isXidContinue d = true := by
  induction Q generalizing P with
  | nil => cases hd
  | cons p Q ih =>
    have hnext : pieces source = (P ++ [p]) ++ Q := by
      rw [hps, List.append_assoc]
      rfl
    have hw : width (P ++ [p]) = width P + byteLength p.text := by simp
    rw [List.flatMap_cons] at hd
    by_cases hb : p.lexeme = .blank
    · obtain ⟨b, hblank, hm⟩ := h.exists_marked_of_blank hps hb (Q.flatMap Piece.text)
      rw [hm] at hd
      cases b with
      | nil => exact ih hnext (by rw [hw]; exact hd)
      | cons c b =>
        obtain rfl : c = d := Option.some.inj hd
        have hc := hblank c List.mem_cons_self
        simp only [Token.isBlank, Bool.or_eq_true, beq_iff_eq] at hc
        rcases hc with ((rfl | rfl) | rfl) | rfl <;> decide
    · rcases left_or_removed h.attributes h.sound hps hb with hk | ⟨hg, -⟩
      · rw [h.marked_of_left hps hk] at hd
        obtain ⟨c, x, ht, hc⟩ := (fits_of_pieces_eq hps).head_cases (h.sound p (by rw [hps]; simp))
        rw [ht] at hd
        obtain rfl : c = d := Option.some.inj hd
        exact hc
      · rw [h.marked_of_gone hps hg] at hd
        exact ih hnext (by rw [hw]; exact hd)

/-! ### Before what is removed -/

/-- What may precede an attribute, by the last piece that gives a token. -/
theorem mayPrecede_concat {k : TokenKind} (hl : p.lexeme = .token k) :
    mayPrecede (rowTokens 0 (P ++ [p])).reverse
      = (endsItself k || k == .ident && (rowTokens 0 P).reverse.head?.all (!·.kind.isNumber)) := by
  rw [rowTokens_append, List.reverse_append, rowTokens, rowTokens, placed, placed,
    List.flatMap_singleton, Placed.tokens, hl]
  rfl

/-- A token of which nothing can be removed after it but an attribute of its own declaration: where
something is removed the token ends itself or is a name with no number before it. -/
theorem token_before_removed (h : Trimming source as inserted) (hps : pieces source = P ++ p :: Q)
    {k : TokenKind} (hl : p.lexeme = .token k) (hn : k ≠ .newline)
    (hk : IsLeft (removedBy source as) (width P) p.text) {d : Char} {w : List Char}
    (hQ : Q.flatMap Piece.text = d :: w)
    (hr : removedBy source as (width P + byteLength p.text) = true) :
    d = '@' ∧ (endsItself k = true
      ∨ k = .ident ∧ (rowTokens 0 P).reverse.head?.all (!·.kind.isNumber) = true) := by
  obtain ⟨hd, hm⟩ := mayPrecede_of_removed h.attributes h.sound hps (by rw [hl]; simp)
    (by rw [hl]; simpa using hn) hk hQ hr
  rw [mayPrecede_concat hl, Bool.or_eq_true, Bool.and_eq_true, beq_iff_eq] at hm
  exact ⟨hd, hm⟩

/-! ### After a number -/

/-- A token that more can follow stays as it is, if it is left. -/
theorem marked_of_token (h : Trimming source as inserted) (hps : pieces source = P ++ p :: Q)
    {k : TokenKind} (hl : p.lexeme = .token k) (he : endsItself k = false)
    (hk : IsLeft (removedBy source as) (width P) p.text) (t : List Char) :
    marked (removedBy source as) inserted (width P) (p.text ++ t) = p.text
      ++ marked (removedBy source as) inserted (width P + byteLength p.text) t := by
  have hpos : 0 < byteLength p.text := byteLength_pos_of_piece hps
  have hp : p.lexeme ≠ .token .rightBrace := by
    rw [hl]
    rintro ⟨⟩
    cases he
  rw [h.marked_of_left hps hk, h.inserted_eq_nil hps hp (by omega) (Nat.le_refl _),
    List.nil_append]

/-- What is left begins with a token that more can follow, if what stood there began with a
character of such a token and that is left. -/
theorem exists_token_of_not_dull (h : Trimming source as inserted) (hps : pieces source = P ++ Q)
    {d : Char} {w : List Char} (hQ : Q.flatMap Piece.text = d :: w)
    (hr : removedBy source as (width P) = false) (hd : isDull d = false) :
    ∃ q Q' x k, Q = q :: Q' ∧ q.text = d :: x ∧ q.lexeme = .token k ∧ endsItself k = false
      ∧ k ≠ .newline ∧ ((d = '+' ∨ d = '-') → k ≠ .ident) ∧ (∀ b, x = [b] → b ≠ '+' ∧ b ≠ '-')
      ∧ IsLeft (removedBy source as) (width P) q.text
      ∧ marked (removedBy source as) inserted (width P) (Q.flatMap Piece.text)
        = q.text ++ marked (removedBy source as) inserted (width (P ++ [q]))
          (Q'.flatMap Piece.text) := by
  cases Q with
  | nil => cases hQ
  | cons q Q =>
    obtain ⟨e, x, ht⟩ := List.exists_cons_of_ne_nil
      (text_ne_nil_of_mem_pieces (s := source) (p := q) (by rw [hps]; simp))
    rw [List.flatMap_cons, ht] at hQ
    obtain ⟨rfl, -⟩ := List.cons.inj hQ
    obtain ⟨k, hl, he, hn, hsign, htwo⟩ := exists_kind_of_not_dull (fits_of_pieces_eq hps)
      (h.sound q (by rw [hps]; simp)) ht hd
    have hleft : IsLeft (removedBy source as) (width P) q.text := by
      refine (left_or_removed h.attributes h.sound hps (by rw [hl]; simp)).resolve_right ?_
      rintro ⟨hg, -⟩
      have := hg (width P) e (by rw [ht]; exact List.mem_cons_self)
      rw [hr] at this
      cases this
    refine ⟨q, Q, x, k, rfl, ht, hl, he, hn, hsign, htwo, hleft, ?_⟩
    rw [List.flatMap_cons, h.marked_of_token hps hl he hleft, width_append, width_cons, width_nil,
      Nat.add_zero]

/-- Whether one text settles the end of a number before it as another does: it is the other, or it
begins alike for long enough. -/
def SettlesAlike (s t : List Char) : Prop :=
  t = s ∨ ∃ u r r', s = u ++ r ∧ t = u ++ r' ∧ settles u = true

theorem SettlesAlike.fits {s t : List Char} (h : SettlesAlike s t) (hp : p.Fits s)
    (hs : p.lexeme.isSound = true) : p.Fits t := by
  rcases h with rfl | ⟨u, r, r', rfl, rfl, hu⟩
  · exact hp
  · exact hp.of_settles hs hu

/-- What is left after a sign is left with the character after the sign. -/
theorem settlesAlike_of_sign (h : Trimming source as inserted) (hps : pieces source = P ++ Q)
    {d e : Char} {w : List Char} (hQ : Q.flatMap Piece.text = e :: w)
    (hr : removedBy source as (width P) = false) (he : e = '+' ∨ e = '-') :
    SettlesAlike (d :: Q.flatMap Piece.text)
      (d :: marked (removedBy source as) inserted (width P) (Q.flatMap Piece.text)) := by
  have hdull : isDull e = false := by
    rcases he with rfl | rfl <;> decide
  obtain ⟨q, Q, x, k, rfl, hx, hl, hends, hn, hident, -, hk, hm⟩ :=
    h.exists_token_of_not_dull hps hQ hr hdull
  rw [hm, List.flatMap_cons, hx]
  cases x with
  | cons b x => exact .inr ⟨d :: e :: b :: x, _, _, rfl, rfl, rfl⟩
  | nil =>
    cases hQ' : Q.flatMap Piece.text with
    | nil => exact .inl rfl
    | cons f w' =>
      cases hr' : removedBy source as (width (P ++ [q])) with
      | false =>
        rw [marked_cons, hr']
        exact .inr ⟨[d, e, f], _, _, rfl, rfl, rfl⟩
      | true =>
        -- A sign does not end itself, and is no name.
        rw [width_concat] at hr'
        obtain ⟨-, hstop | ⟨hstop, -⟩⟩ := h.token_before_removed hps hl hn hk hQ' hr'
        · rw [hends] at hstop
          cases hstop
        · exact absurd hstop (hident he)

/-- What is left after a number and one more character that the number may go on with. -/
theorem settlesAlike_of_single (h : Trimming source as inserted) {q : Piece}
    (hps : pieces source = P ++ [p] ++ q :: Q) {k k' : TokenKind} (hl : p.lexeme = .token k)
    (hnum : k.isNumber = true) {d : Char} (hl' : q.lexeme = .token k')
    (he : endsItself k' = false) (hn : k' ≠ .newline)
    (hk : IsLeft (removedBy source as) (width (P ++ [p])) q.text) :
    SettlesAlike (d :: Q.flatMap Piece.text)
      (d :: marked (removedBy source as) inserted (width (P ++ [p] ++ [q]))
        (Q.flatMap Piece.text)) := by
  cases hQ : Q.flatMap Piece.text with
  | nil => exact .inl rfl
  | cons e w =>
    cases hr : removedBy source as (width (P ++ [p] ++ [q])) with
    | true =>
      rw [width_concat] at hr
      obtain ⟨-, hstop | ⟨-, hstop⟩⟩ := h.token_before_removed hps hl' hn hk hQ hr
      · rw [he] at hstop
        cases hstop
      · -- The token before is the number.
        rw [rowTokens_append, List.reverse_append, rowTokens, rowTokens, placed, placed,
          List.flatMap_singleton, Placed.tokens, hl] at hstop
        simp [hnum] at hstop
    | false =>
      by_cases hsign : e = '+' ∨ e = '-'
      · rw [← hQ]
        exact h.settlesAlike_of_sign (pieces_eq_concat hps) hQ hr hsign
      · rw [marked_cons, hr]
        rw [not_or] at hsign
        refine .inr ⟨[d, e], _, _, rfl, rfl, ?_⟩
        simp [settles, hsign]

/-- **A number that is left fits before what is left after it**: no removal begins where its end is
not settled yet. -/
theorem fits_of_number (h : Trimming source as inserted) (hps : pieces source = P ++ p :: Q)
    {k : TokenKind} (hl : p.lexeme = .token k) (hnum : k.isNumber = true)
    (hk : IsLeft (removedBy source as) (width P) p.text) :
    p.Fits (marked (removedBy source as) inserted (width (P ++ [p])) (Q.flatMap Piece.text)) := by
  refine SettlesAlike.fits ?_ (fits_of_pieces_eq hps) (h.sound p (by rw [hps]; simp))
  have hends : endsItself k = false ∧ k ≠ .newline ∧ k ≠ .ident := by
    rw [TokenKind.isNumber, Bool.or_eq_true, beq_iff_eq, beq_iff_eq] at hnum
    rcases hnum with rfl | rfl <;> decide
  cases hQ : Q.flatMap Piece.text with
  | nil => exact .inl rfl
  | cons d w =>
    cases hr : removedBy source as (width (P ++ [p])) with
    | true =>
      rw [width_concat] at hr
      obtain ⟨-, hstop | ⟨hstop, -⟩⟩ := h.token_before_removed hps hl hends.2.1 hk hQ hr
      · rw [hends.1] at hstop
        cases hstop
      · exact absurd hstop hends.2.2
    | false =>
      cases hd : isDull d with
      | true =>
        rw [marked_cons, hr]
        exact .inr ⟨[d], _, _, rfl, rfl, hd⟩
      | false =>
        have hps' := pieces_eq_concat hps
        obtain ⟨q, Q, x, k', rfl, hx, hl', he, hn, -, htwo, hk', hm⟩ :=
          h.exists_token_of_not_dull hps' hQ hr hd
        rw [← hQ, hm, List.flatMap_cons, hx]
        rcases x with _ | ⟨b, _ | ⟨c, x⟩⟩
        · exact h.settlesAlike_of_single hps' hl hnum hl' he hn hk'
        · refine .inr ⟨[d, b], _, _, rfl, rfl, ?_⟩
          simp [settles, htwo b rfl]
        · exact .inr ⟨d :: b :: c :: x, _, _, rfl, rfl, rfl⟩

/-! ### After any other piece -/

/-- Where something is removed after a piece that is not complete before anything, the piece is a
name, and an attribute stood there. -/
theorem ident_of_removed (h : Trimming source as inserted) (hps : pieces source = P ++ p :: Q)
    (hb : p.lexeme ≠ .blank) (hp : p.isHard = false)
    (hk : IsLeft (removedBy source as) (width P) p.text) {d : Char} {w : List Char}
    (hQ : Q.flatMap Piece.text = d :: w)
    (hr : removedBy source as (width P + byteLength p.text) = true) :
    d = '@' ∧ p.lexeme = .token .ident := by
  have hsound := h.sound p (by rw [hps]; simp)
  have hn : p.lexeme ≠ .token .newline := by
    intro hn
    rw [Piece.isHard, hn] at hp
    cases hp
  obtain ⟨hd, hm⟩ := mayPrecede_of_removed h.attributes h.sound hps hb hn hk hQ hr
  refine ⟨hd, ?_⟩
  cases hl : p.lexeme with
  | blank => exact absurd hl hb
  | lineComment =>
    have := ((fits_of_pieces_eq hps).lineComment hl).2 d (by rw [hQ]; rfl)
    rw [hd] at this
    cases this
  | blockComment closed =>
    rw [hl] at hsound
    rw [Piece.isHard, hl] at hp
    exact absurd hsound (by simpa [Lexeme.isSound] using hp)
  | literal =>
    rw [rowTokens_append, List.reverse_append, rowTokens, rowTokens, placed, placed,
      List.flatMap_singleton, Placed.tokens, hl] at hm
    cases hm
  | token k =>
    rw [mayPrecede_concat hl, Bool.or_eq_true, Bool.and_eq_true, beq_iff_eq] at hm
    rcases hm with hm | ⟨rfl, -⟩
    · rw [Piece.isHard, hl] at hp
      simp [hm] at hp
    · rfl
  | invalid =>
    rw [hl] at hsound
    cases hsound

/-- Whether a piece ends in a character of a name that meets another one. -/
def JoinsAfter (removed : Nat → Bool) (p : Piece) (n : Nat) (s : List Char) : Prop :=
  ∃ u c, p.text = u ++ [c] ∧ isXidContinue c = true ∧ Meets removed n s

/-- **A piece that is left fits before what is left after it**, unless it is joined to that. -/
theorem fits_of_left (h : Trimming source as inserted) (hps : pieces source = P ++ p :: Q)
    (hb : p.lexeme ≠ .blank) (hk : IsLeft (removedBy source as) (width P) p.text)
    (hj : ¬ JoinsAfter (removedBy source as) p (width (P ++ [p])) (Q.flatMap Piece.text)) :
    p.Fits (marked (removedBy source as) inserted (width (P ++ [p])) (Q.flatMap Piece.text)) := by
  have hfits := fits_of_pieces_eq hps
  have hsound := h.sound p (by rw [hps]; simp)
  cases hp : p.isHard with
  | true => exact hfits.of_isHard hp
  | false =>
  by_cases hnum : ∃ k, p.lexeme = .token k ∧ k.isNumber = true
  · obtain ⟨k, hl, hnum⟩ := hnum
    exact h.fits_of_number hps hl hnum hk
  cases hQ : Q.flatMap Piece.text with
  | nil => rwa [hQ] at hfits
  | cons d w =>
    rw [hQ] at hfits hj
    cases hr : removedBy source as (width (P ++ [p])) with
    | false =>
      rw [marked_cons, hr]
      exact hfits.of_head hsound (fun hl => hnum ⟨_, hl, rfl⟩) fun hl => hnum ⟨_, hl, rfl⟩
    | true =>
      have hr' := hr
      rw [width_concat] at hr'
      obtain ⟨rfl, hl⟩ := h.ident_of_removed hps hb hp hk hQ hr'
      obtain ⟨u, c, ht, hc⟩ := exists_last_of_ident hfits hl hp
      have hps' := pieces_eq_concat hps
      refine hfits.of_ident hl fun e he => ?_
      have hx : isXidContinue e = false := by
        by_contra hx
        have hnone : ∀ o e, (o, e) ∈ located (width (P ++ [p])) ('@' :: w) →
            removedBy source as o = true → inserted (o + e.utf8Size) = [] := by
          rw [← hQ]
          exact fun o x hox => h.inserted_of_removed hps' hox
        exact hj ⟨u, c, ht, hc, (meets_iff hnone hr).mpr ⟨e, he, by simpa using hx⟩⟩
      refine ⟨hx, (h.head?_marked_cases hps' (by rw [hQ]; exact he)).resolve_right ?_⟩
      rw [hx]
      simp

/-- A piece that is joined to what is left after it does not give its word. -/
theorem words_of_joinsAfter (h : Trimming source as inserted) (hps : pieces source = P ++ p :: Q)
    (hb : p.lexeme ≠ .blank) (hk : IsLeft (removedBy source as) (width P) p.text)
    (hj : JoinsAfter (removedBy source as) p (width (P ++ [p])) (Q.flatMap Piece.text)) :
    p.word? = some ⟨.ident, p.text⟩ ∧ ∃ w ws, words (p.text
      ++ marked (removedBy source as) inserted (width (P ++ [p])) (Q.flatMap Piece.text)) = w :: ws
        ∧ w.text ≠ p.text := by
  obtain ⟨u, c, ht, hc, hmeets⟩ := hj
  have hfits := fits_of_pieces_eq hps
  have hp : p.isHard = false := by
    by_contra hp
    rw [isXidContinue_of_isHard hfits (by simpa using hp) ht] at hc
    cases hc
  have hps' := pieces_eq_concat hps
  cases hQ : Q.flatMap Piece.text with
  | nil =>
    rw [hQ] at hmeets
    exact absurd hmeets not_meets_nil
  | cons d w =>
    rw [hQ] at hmeets hfits
    cases hr : removedBy source as (width (P ++ [p])) with
    | false => exact absurd hmeets (not_meets_of_left hr)
    | true =>
      have hr' := hr
      rw [width_concat] at hr'
      obtain ⟨rfl, hl⟩ := h.ident_of_removed hps hb hp hk hQ hr'
      have hnone : ∀ o e, (o, e) ∈ located (width (P ++ [p])) ('@' :: w) →
          removedBy source as o = true → inserted (o + e.utf8Size) = [] := by
        rw [← hQ]
        exact fun o x hox => h.inserted_of_removed hps' hox
      obtain ⟨e, he, hx⟩ := (meets_iff hnone hr).mp hmeets
      obtain ⟨t, ht'⟩ := List.head?_eq_some_iff.mp he
      rw [ht']
      exact ⟨by simp [Piece.word?, hl], hfits.exists_joined hl ⟨u, c, ht, hc⟩ hx⟩

/-! ### All pieces -/

/-- The words to expect of pieces when attributes are cut out and words are added at some places:
those of the pieces that are in no attribute, each with what is added where it ends. -/
def expectedWords (as : List Span) (added : Nat → List Word) (row : List Placed) : List Word :=
  row.flatMap fun q => q.piece.word?.toList.flatMap fun w =>
    (if q.span.isIn as then [] else [w]) ++ added q.span.stop

variable {added : Nat → List Word}

theorem expectedWords_cons (n : Nat) (p : Piece) (Q : List Piece) :
    expectedWords as added (placed n (p :: Q))
      = (p.word?.toList.flatMap fun w => (if Span.isIn ⟨n, n + byteLength p.text⟩ as then [] else [w])
          ++ added (n + byteLength p.text))
        ++ expectedWords as added (placed (n + byteLength p.text) Q) := rfl

theorem added_eq_nil (hadd : ∀ n t, words (inserted n ++ t) = added n ++ words t) {n : Nat}
    (h : inserted n = []) : added n = [] := by
  have := hadd n []
  rw [h] at this
  simpa [words_eq, pieces] using this.symm

/-- A piece that is removed is expected to give no word. -/
theorem expected_of_gone (h : Trimming source as inserted)
    (hadd : ∀ n t, words (inserted n ++ t) = added n ++ words t)
    (hps : pieces source = P ++ p :: Q) (hg : IsGone (removedBy source as) (width P) p.text)
    (hwhy : p.lexeme = .token .newline
      ∨ ∃ a ∈ as, a.start ≤ width P ∧ width P + byteLength p.text ≤ a.stop) :
    (p.word?.toList.flatMap fun w =>
      (if Span.isIn ⟨width P, width P + byteLength p.text⟩ as then [] else [w])
        ++ added (width P + byteLength p.text)) = [] := by
  rcases hwhy with hl | ⟨a, ha, hstart, hstop⟩
  · simp [Piece.word?, hl]
  · have hin : Span.isIn ⟨width P, width P + byteLength p.text⟩ as = true :=
      List.any_eq_true.mpr ⟨a, ha, by simp [hstart, hstop]⟩
    obtain ⟨t, e, ht⟩ := (List.eq_nil_or_concat' p.text).resolve_left
      (text_ne_nil_of_mem_pieces (s := source) (by rw [hps]; simp))
    have hmem : (width P + byteLength t, e) ∈ located (width P) p.text := by
      rw [ht, located_append]
      exact List.mem_append_right _ (List.mem_singleton.mpr rfl)
    have hnil := h.inserted_of_removed (P := P) hps (by
      rw [List.flatMap_cons, located_append]
      exact List.mem_append_left _ hmem) (hg _ e hmem)
    have hlen : width P + byteLength p.text = width P + byteLength t + e.utf8Size := by
      rw [ht, byteLength_append, ← Nat.add_assoc]
      rfl
    rw [hin, hlen, added_eq_nil hadd hnil]
    simp

/-- A piece that is left is in no attribute. -/
theorem isIn_of_left (hps : pieces source = P ++ p :: Q)
    (hk : IsLeft (removedBy source as) (width P) p.text) :
    Span.isIn ⟨width P, width P + byteLength p.text⟩ as = false := by
  rw [Span.isIn, List.any_eq_false]
  intro a ha hin
  simp only [Bool.and_eq_true, decide_eq_true_eq] at hin
  have hpos : 0 < byteLength p.text := byteLength_pos_of_piece hps
  obtain ⟨c, x, ht⟩ := List.exists_cons_of_ne_nil
    (text_ne_nil_of_mem_pieces (s := source) (p := p) (by rw [hps]; simp))
  have hfirst := hk (width P) c (by rw [ht]; exact List.mem_cons_self)
  rw [removedBy_of_mem ha hin.1 (by omega)] at hfirst
  cases hfirst

/-- A closing brace that is left gives its word and those put in after it. -/
theorem words_of_brace (h : Trimming source as inserted)
    (hadd : ∀ n t, words (inserted n ++ t) = added n ++ words t)
    (hps : pieces source = P ++ p :: Q) (hl : p.lexeme = .token .rightBrace)
    (hk : IsLeft (removedBy source as) (width P) p.text) (t : List Char) :
    words (marked (removedBy source as) inserted (width P) (p.text ++ t))
      = (p.word?.toList.flatMap fun w =>
          (if Span.isIn ⟨width P, width P + byteLength p.text⟩ as then [] else [w])
            ++ added (width P + byteLength p.text))
        ++ words (marked (removedBy source as) inserted (width P + byteLength p.text) t) := by
  have hp : p.isHard = true := by
    rw [Piece.isHard, hl]
    rfl
  rw [h.marked_of_left hps hk, words_append ((fits_of_pieces_eq hps).of_isHard hp), hadd,
    isIn_of_left hps hk]
  simp [Piece.word?, hl]

/-- A piece of blanks joins no names: none of its characters is one of a name. -/
theorem joins_append_of_blank (hps : pieces source = P ++ p :: Q) (hb : p.lexeme = .blank)
    (t : List Char) :
    Joins (removedBy source as) (width P) (p.text ++ t)
      ↔ Joins (removedBy source as) (width P + byteLength p.text) t := by
  refine joins_append_of_quiet fun o c hc => .inr ?_
  obtain ⟨x, y, hxy, -⟩ := exists_append_of_mem_located hc
  have hc := (fits_of_pieces_eq hps).isBlank.1 hb c (by rw [hxy]; simp)
  simp only [Token.isBlank, Bool.or_eq_true, beq_iff_eq] at hc
  rcases hc with ((rfl | rfl) | rfl) | rfl <;> decide

/-- From a piece that is left on, names are joined at its end or behind it. -/
theorem joins_append_iff (hps : pieces source = P ++ p :: Q)
    (hk : IsLeft (removedBy source as) (width P) p.text) (t : List Char) :
    Joins (removedBy source as) (width P) (p.text ++ t)
      ↔ JoinsAfter (removedBy source as) p (width P + byteLength p.text) t
        ∨ Joins (removedBy source as) (width P + byteLength p.text) t := by
  obtain ⟨u, c, ht⟩ := (List.eq_nil_or_concat' p.text).resolve_left
    (text_ne_nil_of_mem_pieces (s := source) (by rw [hps]; simp))
  have hlast : JoinsAfter (removedBy source as) p (width P + byteLength p.text) t
      ↔ isXidContinue c = true ∧ Meets (removedBy source as) (width P + byteLength p.text) t := by
    constructor
    · rintro ⟨v, d, hv, hd⟩
      obtain ⟨-, hdc⟩ := List.append_inj' (ht.symm.trans hv) rfl
      rwa [← (List.cons.inj hdc).1] at hd
    · exact fun hc => ⟨u, c, ht, hc⟩
  rw [hlast, ht]
  exact joins_append_of_left (ht ▸ hk)

/-- **One piece more.**  If what is left after a piece says what is expected unless it joins names,
then so does what is left from the piece on. -/
theorem words_piece_iff (h : Trimming source as inserted)
    (hadd : ∀ n t, words (inserted n ++ t) = added n ++ words t)
    (hps : pieces source = P ++ p :: Q)
    (ih : words (marked (removedBy source as) inserted (width (P ++ [p])) (Q.flatMap Piece.text))
        = expectedWords as added (placed (width (P ++ [p])) Q)
      ↔ ¬ Joins (removedBy source as) (width (P ++ [p])) (Q.flatMap Piece.text)) :
    words (marked (removedBy source as) inserted (width P) (p.text ++ Q.flatMap Piece.text))
        = expectedWords as added (placed (width P) (p :: Q))
      ↔ ¬ Joins (removedBy source as) (width P) (p.text ++ Q.flatMap Piece.text) := by
  rw [expectedWords_cons]
  rw [width_concat] at ih
  by_cases hb : p.lexeme = .blank
  · obtain ⟨b, hblank, hm⟩ := h.exists_marked_of_blank hps hb (Q.flatMap Piece.text)
    rw [hm, words_blank_append hblank, joins_append_of_blank hps hb, ← ih]
    simp [Piece.word?, hb]
  rcases left_or_removed h.attributes h.sound hps hb with hk | ⟨hg, hwhy⟩
  · have hjoin := joins_append_iff hps hk (Q.flatMap Piece.text)
    by_cases hl : p.lexeme = .token .rightBrace
    · have hnot : ¬ JoinsAfter (removedBy source as) p (width P + byteLength p.text)
          (Q.flatMap Piece.text) := by
        rintro ⟨v, d, hv, hd, -⟩
        have hhard : p.isHard = true := by
          rw [Piece.isHard, hl]
          rfl
        rw [isXidContinue_of_isHard (fits_of_pieces_eq hps) hhard hv] at hd
        cases hd
      rw [h.words_of_brace hadd hps hl hk, List.append_cancel_left_eq, hjoin, ih, or_iff_right hnot]
    · have hpos : 0 < byteLength p.text := byteLength_pos_of_piece hps
      have hnil := h.inserted_eq_nil hps hl (o := width P + byteLength p.text) (by omega)
        (Nat.le_refl _)
      rw [h.marked_of_left hps hk, hnil, List.nil_append, added_eq_nil hadd hnil,
        isIn_of_left hps hk, hjoin]
      by_cases hj : JoinsAfter (removedBy source as) p (width P + byteLength p.text)
        (Q.flatMap Piece.text)
      · obtain ⟨hw, w, ws, heq, hne⟩ := h.words_of_joinsAfter hps hb hk (by rwa [width_concat])
        rw [width_concat] at heq
        rw [heq, hw]
        refine iff_of_false (fun hcons => hne ?_) (fun hnj => hnj (.inl hj))
        rw [(List.cons.inj hcons).1]
      · have hfits := h.fits_of_left hps hb hk (by rwa [width_concat])
        rw [width_concat] at hfits
        rw [words_append hfits, or_iff_right hj, ← ih]
        cases p.word? <;> simp
  · rw [h.marked_of_gone hps hg, h.expected_of_gone hadd hps hg hwhy, List.nil_append,
      joins_append_of_quiet (fun o c hc => .inl (hg o c hc)), ih]

/-- **What is left of a source says what is expected exactly if no two names are joined.** -/
theorem words_marked_iff (h : Trimming source as inserted)
    (hadd : ∀ n t, words (inserted n ++ t) = added n ++ words t) (hps : pieces source = P ++ Q) :
    words (marked (removedBy source as) inserted (width P) (Q.flatMap Piece.text))
        = expectedWords as added (placed (width P) Q)
      ↔ ¬ Joins (removedBy source as) (width P) (Q.flatMap Piece.text) := by
  induction Q generalizing P with
  | nil => exact iff_of_true (by simp [words_eq, pieces, expectedWords]) not_joins_nil
  | cons p Q ih => exact h.words_piece_iff hadd hps (ih (pieces_eq_concat hps))

end Trimming

end Removal

end Memberwise
