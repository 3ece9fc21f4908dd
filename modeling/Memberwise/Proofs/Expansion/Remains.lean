import Memberwise.Proofs.Declaration.Preceding
import Memberwise.Proofs.Expansion.Removal

/-!
# Proofs/Expansion/Remains — what is left of a source, piece by piece

Attributes are cut out of a source with the blanks around them.  No token is cut in two by that:

* `left_or_removed` — **a piece that is no blank is left or removed as a whole**, and then it lies in
  an attribute or is a line end;
* `exists_start_of_removed` — what is removed begins at an attribute or at the front of a line, so
  `mayPrecede_of_removed` — **an attribute may stand after the tokens that come before a removal**.
-/

namespace Memberwise

open Text Token

namespace Removal

/-- Spans that are those of attributes among the pieces of a source. -/
def AreAttributes (source : List Char) (as : List Span) : Prop :=
  ∀ a ∈ as, ∃ A M B, AttributePieces source a A M B

/-! ## One attribute among the pieces -/

section Attribute

variable {source : List Char} {a : Span} {A M B : List Piece}

theorem source_eq_of_pieces {ps : List Piece} (h : pieces source = ps) :
    source = ps.flatMap Piece.text := by
  rw [← h, flatMap_text_pieces]

/-- An attribute of the pieces has its place in the text. -/
theorem exists_attributeAt_of_pieces (h : AttributePieces source a A M B) : ∃ b e rest,
    B.flatMap Piece.text = b ++ (e ++ rest) ∧ (∀ c ∈ b, isInlineSpace c = true)
      ∧ (∀ c ∈ b ++ e, isGap c = true)
      ∧ AttributeAt source a (A.flatMap Piece.text) (M.flatMap Piece.text) b e rest := by
  have hs := source_eq_of_pieces h.pieces_eq
  rw [List.flatMap_append, List.flatMap_append] at hs
  obtain ⟨b, e, rest, hgap, hat⟩ := exists_attributeAt hs
  have ha : a = ⟨byteLength (A.flatMap Piece.text),
      byteLength (A.flatMap Piece.text ++ M.flatMap Piece.text)⟩ := by
    rw [← List.flatMap_append, ← h.start_eq, ← h.stop_eq]
  rw [← ha] at hat
  refine ⟨b, e, rest, List.append_cancel_left (hs.symm.trans hat.source_eq), ?_, hgap, hat⟩
  intro c hc
  rw [hat.blanks_eq] at hc
  exact List.mem_takeWhile_imp hc

/-- An attribute begins with its at sign. -/
theorem exists_text_of_attributePieces (h : AttributePieces source a A M B) :
    ∃ t, M.flatMap Piece.text = '@' :: t := by
  obtain ⟨p, hp, hl⟩ := h.head
  obtain ⟨M', rfl⟩ := List.head?_eq_some_iff.mp hp
  have htext : p.text = "@".toList :=
    spelling?_of_mem_pieces (s := source) (by rw [h.pieces_eq]; simp) hl rfl
  exact ⟨M'.flatMap Piece.text, by rw [List.flatMap_cons, htext]; rfl⟩

end Attribute

/-! ## What is kept of a text -/

section Kept

variable {removed : Nat → Bool} {u w : List Char} {c : Char}

/-- What is kept from a cut on is what is kept of the text after the cut. -/
theorem keptFrom_append (removed : Nat → Bool) (u w : List Char) :
    keptFrom removed (u ++ w) (byteLength u)
      = ((located (byteLength u) w).filter fun x => !removed x.1).map (·.2) := by
  have hu : (located 0 u).filter (fun x => byteLength u ≤ x.1 && !removed x.1) = [] := by
    refine List.filter_eq_nil_iff.mpr fun x hx => ?_
    have := lt_of_mem_located hx
    simp only [Bool.and_eq_true, decide_eq_true_eq, not_and]
    omega
  have hw : (located (byteLength u) w).filter (fun x => byteLength u ≤ x.1 && !removed x.1)
      = (located (byteLength u) w).filter fun x => !removed x.1 := by
    refine List.filter_congr fun x hx => ?_
    simp [(le_of_mem_located hx).1]
  rw [keptFrom, located_append, Nat.zero_add, List.filter_append, hu, hw, List.nil_append]

/-- What is kept of a text is what is kept before a cut and what is kept after it. -/
theorem keptFrom_zero_append (removed : Nat → Bool) (u w : List Char) :
    keptFrom removed (u ++ w) 0
      = keptFrom removed u 0 ++ keptFrom removed (u ++ w) (byteLength u) := by
  rw [keptFrom_append, keptFrom, keptFrom, located_append, List.filter_append, List.map_append]
  simp

theorem keptFrom_append_cons (hk : removed (byteLength u) = false) :
    keptFrom removed (u ++ c :: w) (byteLength u)
      = c :: keptFrom removed (u ++ c :: w) (byteLength (u ++ [c])) := by
  have hcut : u ++ c :: w = u ++ [c] ++ w := by simp
  have hlen : byteLength u + c.utf8Size = byteLength (u ++ [c]) := by
    rw [byteLength_append]
    rfl
  rw [keptFrom_append, hcut, keptFrom_append, located, List.filter_cons_of_pos (by simp [hk]), hlen]
  rfl

/-- A character that is left keeps the text before it from being blank. -/
theorem all_keptFrom_eq_false {s : List Char} {m o : Nat} (hm : m ≤ o) (hc : (o, c) ∈ located 0 s)
    (hk : removed o = false) (hink : isInlineSpace c = false) :
    (keptFrom removed s m).all isInlineSpace = false := by
  rw [List.all_eq_false]
  refine ⟨c, List.mem_map.mpr ⟨(o, c), List.mem_filter.mpr ⟨hc, ?_⟩, rfl⟩, by simp [hink]⟩
  simp [hm, hk]

end Kept

/-! ## Where a removal begins -/

section Removed

variable {source : List Char} {as : List Span}

theorem AreAttributes.of_concat {a : Span} (h : AreAttributes source (as ++ [a])) :
    AreAttributes source as ∧ ∃ A M B, AttributePieces source a A M B :=
  ⟨fun b hb => h b (List.mem_append_left _ hb), h a (by simp)⟩

/-- What lies in a consumed attribute is removed. -/
theorem removedBy_of_mem {a : Span} {o : Nat} (ha : a ∈ as) (ho : a.start ≤ o) (ho' : o < a.stop) :
    removedBy source as o = true := by
  induction as using List.reverseRecOn with
  | nil => cases ha
  | append_singleton as b ih =>
    rw [Reached.removedBy_concat]
    rcases List.mem_append.mp ha with ha | ha
    · rw [ih ha, Bool.true_or]
    · obtain rfl := List.mem_singleton.mp ha
      have hlt : o < blanksEnd source a.stop := Nat.lt_of_lt_of_le ho' (Nat.le_add_right _ _)
      simp [removal, ho, hlt]

section Place

variable {removed : Nat → Bool} {a : Span} {front attr b e rest u w : List Char} {c d : Char}

/-- Before an attribute, a removal begins at the front of a line: what the attribute takes along is
what is left of its line, and a character before that which is left ends a line. -/
theorem eq_newline_of_removal_before (hat : AttributeAt source a front attr b e rest)
    (hs : source = u ++ c :: d :: w) (hk : removed (byteLength u) = false)
    (hka : removal source removed a (byteLength u) = false)
    (hr : removal source removed a (byteLength (u ++ [c])) = true)
    (hlt : byteLength (u ++ [c]) < byteLength front) : c = '\n' := by
  have hcut : u ++ [c] ++ (d :: w) = front ++ (attr ++ (b ++ (e ++ rest))) := by
    rw [← List.append_assoc, ← hat.source_eq, hs]
    simp
  obtain ⟨x, rfl, -⟩ := exists_append_of_le hcut (Nat.le_of_lt hlt)
  have hlen : byteLength (u ++ [c]) = byteLength u + c.utf8Size := by
    rw [byteLength_append]
    rfl
  rw [List.append_assoc, List.singleton_append] at hat hlt
  rw [hat.removal_before hlt, Bool.and_eq_true] at hr
  obtain ⟨hline, hblank⟩ := hr
  have hcut' := keptFrom_append_cons (c := c) (w := x) hk
  rw [hat.removal_before (by omega), hline, Bool.true_and, hcut', List.all_cons, hblank,
    Bool.and_true] at hka
  rw [hat.takesLine_eq, Bool.and_eq_true, keptFrom_zero_append, hcut', List.reverse_append,
    List.reverse_cons, List.append_assoc, List.takeWhile_append_of_pos] at hline
  · by_contra hc
    simp [hc, hka] at hline
  · intro y hy
    have := List.all_eq_true.mp hblank y (List.mem_reverse.mp hy)
    rw [bne_iff_ne]
    rintro rfl
    revert this
    decide

/-- From an attribute on, what is removed with it is removed without a gap. -/
theorem removal_of_le (hat : AttributeAt source a front attr b e rest) {o o' : Nat}
    (ho : byteLength front ≤ o) (hle : o ≤ o') (hr : removal source removed a o' = true) :
    removal source removed a o = true := by
  by_cases hin : o < byteLength (front ++ attr ++ b)
  · exact hat.removal_inside ho hin
  · rcases hat.lt_of_removal hr with h | ⟨hline, h⟩
    · omega
    · rw [hat.removal_lineEnd (by omega) (by omega), hline]

/-- **The removal of one attribute begins at it**, or at the front of a line. -/
theorem start_of_removal (hat : AttributeAt source a front attr b e rest)
    (hs : source = u ++ c :: d :: w) (hk : removed (byteLength u) = false)
    (hka : removal source removed a (byteLength u) = false)
    (hr : removal source removed a (byteLength (u ++ [c])) = true) :
    c = '\n' ∨ a.start = byteLength (u ++ [c]) := by
  rcases Nat.lt_trichotomy (byteLength (u ++ [c])) (byteLength front) with hlt | heq | hgt
  · exact .inl (eq_newline_of_removal_before hat hs hk hka hr hlt)
  · exact .inr (by rw [hat.start_eq, heq])
  · -- The attribute begins no later than the character that is left, which is past its removal.
    have hcut : front ++ (attr ++ (b ++ (e ++ rest))) = u ++ [c] ++ (d :: w) := by
      rw [← List.append_assoc, ← hat.source_eq, hs]
      simp
    obtain ⟨x, hx, -⟩ := exists_append_of_le hcut (Nat.le_of_lt hgt)
    have hfront : byteLength front ≤ byteLength u := by
      obtain ⟨y, z, rfl⟩ := (List.eq_nil_or_concat' x).resolve_left (by
        rintro rfl
        rw [hx, List.append_nil] at hgt
        exact Nat.lt_irrefl _ hgt)
      rw [← List.append_assoc] at hx
      obtain ⟨rfl, -⟩ := List.append_inj' hx rfl
      rw [byteLength_append]
      omega
    have hle : byteLength u ≤ byteLength (u ++ [c]) := by
      rw [byteLength_append]
      exact Nat.le_add_right _ _
    rw [removal_of_le hat hfront hle hr] at hka
    cases hka

end Place

/-- **What is removed begins at an attribute**, or at the front of a line. -/
theorem exists_start_of_removed (has : AreAttributes source as) {u w : List Char} {c d : Char}
    (hs : source = u ++ c :: d :: w) (hk : removedBy source as (byteLength u) = false)
    (hr : removedBy source as (byteLength (u ++ [c])) = true) :
    c = '\n' ∨ ∃ a ∈ as, a.start = byteLength (u ++ [c]) := by
  induction as using List.reverseRecOn with
  | nil => cases hr
  | append_singleton as a ih =>
    obtain ⟨has, A, M, B, ha⟩ := has.of_concat
    obtain ⟨b, e, rest, -, -, -, hat⟩ := exists_attributeAt_of_pieces ha
    rw [Reached.removedBy_concat, Bool.or_eq_false_iff] at hk
    rw [Reached.removedBy_concat, Bool.or_eq_true_iff] at hr
    rcases hr with hr | hr
    · rcases ih has hk.1 hr with hc | ⟨a', ha', hstart⟩
      · exact .inl hc
      · exact .inr ⟨a', List.mem_append_left _ ha', hstart⟩
    · exact (start_of_removal hat hs hk.1 hk.2 hr).imp_right fun hstart => ⟨a, by simp, hstart⟩

end Removed

/-! ## Pieces as a whole -/

/-- All characters of a text that begins at an offset are left. -/
def IsLeft (removed : Nat → Bool) (n : Nat) (s : List Char) : Prop :=
  ∀ o c, (o, c) ∈ located n s → removed o = false

/-- All characters of a text that begins at an offset are removed. -/
def IsGone (removed : Nat → Bool) (n : Nat) (s : List Char) : Prop :=
  ∀ o c, (o, c) ∈ located n s → removed o = true

/-- A member of a row in two parts is one of the first part or one of the second. -/
theorem append_cons_eq_append {α : Type} {P Q A B : List α} {p : α} (h : P ++ p :: Q = A ++ B) :
    (∃ Q', A = P ++ p :: Q' ∧ Q = Q' ++ B) ∨ ∃ P', P = A ++ P' ∧ B = P' ++ p :: Q := by
  rcases List.append_eq_append_iff.mp h with ⟨X, hA, hB⟩ | ⟨X, hP, hB⟩
  · cases X with
    | nil => exact .inr ⟨[], by simpa using hA.symm, by simpa using hB.symm⟩
    | cons q X =>
      obtain ⟨rfl, hQ⟩ := List.cons.inj hB
      exact .inl ⟨X, hA, hQ⟩
  · exact .inr ⟨X, hP, hB⟩

section Whole

variable {source : List Char} {as : List Span} {P Q : List Piece} {p : Piece}

theorem source_eq_of_piece (hps : pieces source = P ++ p :: Q) :
    source = P.flatMap Piece.text ++ p.text ++ Q.flatMap Piece.text := by
  rw [source_eq_of_pieces hps, List.flatMap_append, List.flatMap_cons, List.append_assoc]

theorem pieces_eq_concat (hps : pieces source = P ++ p :: Q) : pieces source = P ++ [p] ++ Q := by
  rw [hps, List.append_assoc]
  rfl

/-- What is located in a piece is located in the text. -/
theorem mem_located_of_piece {A : List Piece} {o : Nat} {c : Char} (hA : A = P ++ p :: Q)
    (h : (o, c) ∈ located (width P) p.text) : (o, c) ∈ located 0 (A.flatMap Piece.text) := by
  rw [hA, List.flatMap_append, List.flatMap_cons, located_append, located_append, Nat.zero_add]
  exact List.mem_append_right _ (List.mem_append_left _ h)

theorem eq_nil_of_width_eq_zero {ps : List Piece} (h : ∀ q ∈ ps, q.text ≠ [])
    (hw : width ps = 0) : ps = [] := by
  cases ps with
  | nil => rfl
  | cons q ps =>
    rw [width_cons] at hw
    exact absurd (byteLength_eq_zero.mp (by omega)) (h q List.mem_cons_self)

/-- A row of pieces at the front of a text is known by its bytes. -/
theorem eq_of_width_eq {A A' B B' : List Piece} (hA : pieces source = A ++ A')
    (hB : pieces source = B ++ B') (hw : width A = width B) : A = B := by
  have hne : ∀ q ∈ pieces source, q.text ≠ [] := fun q hq => text_ne_nil_of_mem_pieces hq
  rcases List.append_eq_append_iff.mp (hA.symm.trans hB) with ⟨X, rfl, rfl⟩ | ⟨X, rfl, rfl⟩
  · have hX : X = [] := by
      refine eq_nil_of_width_eq_zero (fun q hq => hne q ?_) (by rw [width_append] at hw; omega)
      rw [hA]
      simp [hq]
    rw [hX, List.append_nil]
  · have hX : X = [] := by
      refine eq_nil_of_width_eq_zero (fun q hq => hne q ?_) (by rw [width_append] at hw; omega)
      rw [hB]
      simp [hq]
    rw [hX, List.append_nil]

/-- **What is removed right behind a piece that is left is an attribute**, if the piece does not end
in a line end. -/
theorem exists_attribute_of_removed (has : AreAttributes source as)
    (hps : pieces source = P ++ p :: Q) (hk : IsLeft (removedBy source as) (width P) p.text)
    {t : List Char} {e : Char} (ht : p.text = t ++ [e]) (he : e ≠ '\n') {d : Char} {w : List Char}
    (hQ : Q.flatMap Piece.text = d :: w)
    (hr : removedBy source as (width P + byteLength p.text) = true) :
    d = '@' ∧ ∃ a M B, AttributePieces source a (P ++ [p]) M B := by
  have hs : source = (P.flatMap Piece.text ++ t) ++ e :: d :: w := by
    rw [source_eq_of_piece hps, ht, hQ]
    simp
  have hlen : byteLength ((P.flatMap Piece.text ++ t) ++ [e]) = width P + byteLength p.text := by
    rw [ht, List.append_assoc, byteLength_append]
    rfl
  have hke : removedBy source as (byteLength (P.flatMap Piece.text ++ t)) = false := by
    refine hk _ e ?_
    rw [ht, located_append, byteLength_append]
    exact List.mem_append_right _ (List.mem_singleton.mpr rfl)
  obtain ⟨a, ha, hstart⟩ := (exists_start_of_removed has hs hke (by rw [hlen, hr])).resolve_left he
  obtain ⟨A, M, B, hat⟩ := has a ha
  have hA : A = P ++ [p] := by
    have hleft : pieces source = A ++ (M ++ B) := by rw [hat.pieces_eq, List.append_assoc]
    refine eq_of_width_eq hleft (pieces_eq_concat hps) ?_
    rw [width, ← hat.start_eq, hstart, hlen]
    simp
  subst hA
  refine ⟨?_, a, M, B, hat⟩
  obtain ⟨m, hm⟩ := exists_text_of_attributePieces hat
  have hMB : M ++ B = Q := by
    have h := hat.pieces_eq
    rw [hps, List.append_assoc, List.append_assoc, List.singleton_append] at h
    exact (List.cons.inj (List.append_cancel_left h)).2.symm
  rw [← hMB, List.flatMap_append, hm] at hQ
  exact (List.cons.inj hQ).1.symm

/-- The line end that closes a comment is left if the comment is. -/
theorem left_after_lineComment (has : AreAttributes source as)
    (hps : pieces source = P ++ p :: Q) (hl : p.lexeme = .lineComment)
    (hk : IsLeft (removedBy source as) (width P) p.text) {d : Char} {w : List Char}
    (hQ : Q.flatMap Piece.text = d :: w) :
    d = '\n' ∧ removedBy source as (width P + byteLength p.text) = false := by
  obtain ⟨⟨t, e, ht, he⟩, hnext⟩ := (fits_of_pieces_eq hps).lineComment hl
  have hd : d = '\n' := hnext d (by rw [hQ]; rfl)
  refine ⟨hd, ?_⟩
  by_contra hr
  -- No attribute begins with a line end.
  have hat := (exists_attribute_of_removed has hps hk ht he hQ (by simpa using hr)).1
  rw [hd] at hat
  revert hat
  decide

/-- What is left of a piece before an attribute is not blank up to the attribute. -/
theorem all_keptFrom_of_piece (has : AreAttributes source as)
    (hsound : ∀ q ∈ pieces source, q.lexeme.isSound = true) {a : Span} {A M B : List Piece}
    (hat : AttributePieces source a A M B) (hA : A = P ++ p :: Q) (hb : p.lexeme ≠ .blank)
    (hk : IsLeft (removedBy source as) (width P) p.text) {o : Nat}
    {d : Char} (ho : (o, d) ∈ located (width P) p.text) :
    (keptFrom (removedBy source as) (A.flatMap Piece.text) o).all isInlineSpace = false := by
  have hps : pieces source = P ++ p :: (Q ++ (M ++ B)) := by
    rw [hat.pieces_eq, hA]
    simp
  have hfits := fits_of_pieces_eq hps
  by_cases hc : p.lexeme = .lineComment
  · -- The line end after a comment is what keeps it.
    obtain ⟨m, hm⟩ := exists_text_of_attributePieces hat
    cases Q with
    | nil =>
      have hQ : ([] ++ (M ++ B)).flatMap Piece.text = '@' :: (m ++ B.flatMap Piece.text) := by
        rw [List.nil_append, List.flatMap_append, hm]
        rfl
      exact absurd (left_after_lineComment has hps hc hk hQ).1 (by decide)
    | cons q Q =>
      obtain ⟨e, x, hd⟩ := List.exists_cons_of_ne_nil (text_ne_nil_of_mem_pieces
        (s := source) (p := q) (by rw [hps]; simp))
      have hQ : (q :: Q ++ (M ++ B)).flatMap Piece.text
          = e :: (x ++ (Q ++ (M ++ B)).flatMap Piece.text) := by
        rw [List.cons_append, List.flatMap_cons, hd]
        rfl
      obtain ⟨rfl, hleft⟩ := left_after_lineComment has hps hc hk hQ
      refine all_keptFrom_eq_false (Nat.le_of_lt (lt_of_mem_located ho)) (c := '\n') ?_ hleft
        (by decide)
      have hmem : (width (P ++ [p]), '\n') ∈ located (width (P ++ [p])) q.text := by
        rw [hd]
        exact List.mem_cons_self
      rw [width_append, width_cons, width_nil, Nat.add_zero] at hmem
      refine mem_located_of_piece (P := P ++ [p]) (p := q) (Q := Q) (by rw [hA]; simp) ?_
      rwa [width_append, width_cons, width_nil, Nat.add_zero]
  · obtain ⟨e, c, hlast, hink⟩ : ∃ e c, p.text = e ++ [c] ∧ isInlineSpace c = false := by
      by_cases hn : p.lexeme = .token .newline
      · exact ⟨[], '\n', hfits.text_newline hn, by decide⟩
      · obtain ⟨e, c, hlast, hink⟩ := hfits.exists_isInk (hsound p (by rw [hps]; simp)) hb hn hc
        exact ⟨e, c, hlast, isInlineSpace_of_isInk hink⟩
    have hmem : (width P + byteLength e, c) ∈ located (width P) p.text := by
      rw [hlast, located_append]
      exact List.mem_append_right _ (List.mem_singleton.mpr rfl)
    refine all_keptFrom_eq_false ?_ (mem_located_of_piece hA hmem) (hk _ c hmem) hink
    rw [hlast, located_append, List.mem_append] at ho
    rcases ho with ho | ho
    · exact Nat.le_of_lt (lt_of_mem_located ho)
    · exact Nat.le_of_eq (Prod.mk.inj (List.mem_singleton.mp ho)).1

/-- No piece after an attribute is removed with it, but blanks and line ends. -/
theorem removal_eq_false_of_piece {a : Span} {A M B : List Piece}
    (hat : AttributePieces source a A M B) (hB : B = P ++ p :: Q) (hb : p.lexeme ≠ .blank)
    (hn : p.lexeme ≠ .token .newline) {removed : Nat → Bool} {o : Nat}
    (ho : width (A ++ M ++ P) ≤ o) : removal source removed a o = false := by
  obtain ⟨b, e, rest, hrest, -, hgap, hplace⟩ := exists_attributeAt_of_pieces hat
  have hps : pieces source = A ++ M ++ P ++ p :: Q := by
    rw [hat.pieces_eq, hB, List.append_assoc (A ++ M)]
  have hfits := fits_of_pieces_eq hps
  obtain ⟨c, x, ht, hc⟩ := hfits.isBlank.2 hb
  have hc' : isGap c = false := by
    simp only [Token.isBlank, Bool.or_eq_false_iff, beq_eq_false_iff_ne] at hc
    simp only [isGap, isInlineSpace, Bool.or_eq_false_iff, beq_eq_false_iff_ne]
    refine ⟨⟨⟨hc.1.1.1, hc.1.1.2⟩, hc.1.2⟩, ?_⟩
    rintro rfl
    obtain ⟨c', x', ht', hf⟩ := hfits
    obtain ⟨rfl, rfl⟩ := List.cons.inj (ht.symm.trans ht')
    rw [front_soloMark (k := .newline) (by decide) rfl] at hf
    exact hn (Prod.mk.inj hf).1.symm
  have hcut : (b ++ e) ++ rest = P.flatMap Piece.text ++ c :: (x ++ Q.flatMap Piece.text) := by
    rw [List.append_assoc, ← hrest, hB, List.flatMap_append, List.flatMap_cons, ht]
    rfl
  obtain ⟨y, hy, -⟩ := exists_append_of_not_mem hcut hgap hc'
  by_contra hr
  have hwidth : width (A ++ M ++ P) = byteLength (A.flatMap Piece.text ++ M.flatMap Piece.text ++ b)
      + byteLength e + byteLength y := by
    rw [width, List.flatMap_append, List.flatMap_append, hy]
    simp only [byteLength_append]
    omega
  rcases hplace.lt_of_removal (by simpa using hr) with h | ⟨-, h⟩ <;> omega

/-- **One attribute more** removes all of a piece that is left before it, as one of its own, or
nothing of it. -/
theorem removal_of_piece (has : AreAttributes source as)
    (hsound : ∀ q ∈ pieces source, q.lexeme.isSound = true) {a : Span} {A M B : List Piece}
    (hat : AttributePieces source a A M B) (hps : pieces source = P ++ p :: Q)
    (hb : p.lexeme ≠ .blank) (hn : p.lexeme ≠ .token .newline)
    (hk : IsLeft (removedBy source as) (width P) p.text) :
    (∀ o c, (o, c) ∈ located (width P) p.text →
        removal source (removedBy source as) a o = false) ∨
      (∀ o c, (o, c) ∈ located (width P) p.text →
        removal source (removedBy source as) a o = true)
      ∧ a.start ≤ width P ∧ width P + byteLength p.text ≤ a.stop := by
  obtain ⟨b, e, rest, -, -, -, hplace⟩ := exists_attributeAt_of_pieces hat
  have hps' : P ++ p :: Q = A ++ (M ++ B) := by
    rw [← hps, hat.pieces_eq, List.append_assoc]
  rcases append_cons_eq_append hps' with ⟨Q', hA, -⟩ | ⟨P', rfl, hMB⟩
  · -- The piece is one before the attribute.
    refine .inl fun o c hc => ?_
    have ho := lt_of_mem_located (mem_located_of_piece hA hc)
    rw [Nat.zero_add] at ho
    rw [hplace.removal_before ho, all_keptFrom_of_piece has hsound hat hA hb hk hc, Bool.and_false]
  rcases append_cons_eq_append hMB.symm with ⟨Q', rfl, -⟩ | ⟨P'', rfl, hB⟩
  · refine .inr ⟨fun o c hc => ?_, ?_, ?_⟩
    · have hle := le_of_mem_located hc
      have hp := c.utf8Size_pos
      rw [width_append, width] at hle
      refine hplace.removal_inside (by omega) ?_
      simp only [List.flatMap_append, List.flatMap_cons, byteLength_append]
      rw [width] at hle
      omega
    · rw [hat.start_eq, width_append, width]
      omega
    · rw [hat.stop_eq, ← width]
      simp only [width_append, width_cons]
      omega
  · refine .inl fun o c hc => removal_eq_false_of_piece hat hB hb hn ?_
    have := (le_of_mem_located hc).1
    rwa [← List.append_assoc] at this

/-- **A piece that is no blank is left or removed as a whole**, and if it is removed it lies in an
attribute or is a line end. -/
theorem left_or_removed (has : AreAttributes source as)
    (hsound : ∀ q ∈ pieces source, q.lexeme.isSound = true) (hps : pieces source = P ++ p :: Q)
    (hb : p.lexeme ≠ .blank) : IsLeft (removedBy source as) (width P) p.text
      ∨ IsGone (removedBy source as) (width P) p.text ∧ (p.lexeme = .token .newline
        ∨ ∃ a ∈ as, a.start ≤ width P ∧ width P + byteLength p.text ≤ a.stop) := by
  by_cases hn : p.lexeme = .token .newline
  · -- A line end is one character.
    have ht := (fits_of_pieces_eq hps).text_newline hn
    have hone : ∀ o c, (o, c) ∈ located (width P) p.text → o = width P := by
      intro o c hc
      rw [ht] at hc
      exact (Prod.mk.inj (List.mem_singleton.mp hc)).1
    cases hr : removedBy source as (width P) with
    | false => exact .inl fun o c hc => by rw [hone o c hc, hr]
    | true => exact .inr ⟨fun o c hc => by rw [hone o c hc, hr], .inl hn⟩
  induction as using List.reverseRecOn with
  | nil => exact .inl fun _ _ _ => rfl
  | append_singleton as a ih =>
    obtain ⟨has, A, M, B, hat⟩ := has.of_concat
    rcases ih has with hk | ⟨hgone, hwhy⟩
    · rcases removal_of_piece has hsound hat hps hb hn hk with hleft | ⟨hgone, hin⟩
      · refine .inl fun o c hc => ?_
        rw [Reached.removedBy_concat, hk o c hc, hleft o c hc, Bool.or_false]
      · refine .inr ⟨fun o c hc => ?_, .inr ⟨a, by simp, hin⟩⟩
        rw [Reached.removedBy_concat, hgone o c hc, Bool.or_true]
    · refine .inr ⟨fun o c hc => ?_, hwhy.imp_right ?_⟩
      · rw [Reached.removedBy_concat, hgone o c hc, Bool.true_or]
      · rintro ⟨a', ha', h⟩
        exact ⟨a', List.mem_append_left _ ha', h⟩

/-! ## Before a removal -/

/-- **An attribute may stand after the tokens that come before a removal**: that is where one
stood, unless the removal begins at the front of a line. -/
theorem mayPrecede_of_removed (has : AreAttributes source as)
    (hsound : ∀ q ∈ pieces source, q.lexeme.isSound = true) (hps : pieces source = P ++ p :: Q)
    (hb : p.lexeme ≠ .blank) (hn : p.lexeme ≠ .token .newline)
    (hk : IsLeft (removedBy source as) (width P) p.text) {d : Char} {w : List Char}
    (hQ : Q.flatMap Piece.text = d :: w)
    (hr : removedBy source as (width P + byteLength p.text) = true) :
    d = '@' ∧ mayPrecede (rowTokens 0 (P ++ [p])).reverse = true := by
  have hfits := fits_of_pieces_eq hps
  obtain ⟨t, e, ht, he⟩ : ∃ t e, p.text = t ++ [e] ∧ e ≠ '\n' := by
    by_cases hc : p.lexeme = .lineComment
    · exact (hfits.lineComment hc).1
    · obtain ⟨t, e, ht, hink⟩ := hfits.exists_isInk (hsound p (by rw [hps]; simp)) hb hn hc
      exact ⟨t, e, ht, (isInk_iff.mp hink).2⟩
  obtain ⟨hd, a, M, B, hat⟩ := exists_attribute_of_removed has hps hk ht he hQ hr
  exact ⟨hd, hat.preceded⟩

end Whole

end Removal

end Memberwise
