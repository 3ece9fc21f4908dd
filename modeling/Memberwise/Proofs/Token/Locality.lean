import Memberwise.Proofs.Token.Fronts
import Mathlib.Algebra.GroupWithZero.Nat
import Mathlib.Data.List.TakeWhile

/-!
# Proofs/Token/Locality — how far ahead a piece looks

Where a piece ends is settled by its own characters and what stands right after them.  A run looks
one character past its end, a closed comment or literal none at all, and a number up to three.  So

* `front_append` — **a piece that is no number stays when the text changes further on than one
  character past its end**;
* `number_append_of_dull` — **a number never looks past a dull character**, one that cannot go on
  with a number at all.
-/

namespace Memberwise.Token

open Text

/-! ## Runs -/

section Run

variable {p : Char → Bool} {x r s : List Char}

/-- A run that ends inside a text stays when the text is followed by something else. -/
theorem run_append_of_lt (h : run p (x ++ r) < x.length) : run p (x ++ s) = run p (x ++ r) := by
  induction x with
  | nil => cases h
  | cons a x ih =>
    cases ha : p a with
    | false => simp [run, ha]
    | true =>
      simp only [run, List.cons_append, List.takeWhile_cons, ha, if_true, List.length_cons] at h ih ⊢
      rw [ih (by omega)]

/-- A run goes through all of a class and ends before what is outside. -/
theorem run_append_of_all (hx : ∀ c ∈ x, p c = true) (hs : ∀ c, s.head? = some c → p c = false) :
    run p (x ++ s) = x.length := by
  rw [run, List.takeWhile_append_of_pos hx]
  cases s with
  | nil => simp
  | cons c s => simp [hs c rfl]

/-- A run ends before a character outside its class. -/
theorem run_append_lt {c : Char} (hc : c ∈ x) (hp : p c = false) : run p (x ++ r) < x.length := by
  induction x with
  | nil => cases hc
  | cons a x ih =>
    cases ha : p a with
    | false => simp [run, ha]
    | true =>
      have hx : c ∈ x := by
        rcases List.mem_cons.mp hc with rfl | hx
        · rw [hp] at ha
          cases ha
        · exact hx
      have := ih hx
      simp only [run, List.cons_append, List.takeWhile_cons, ha, if_true, List.length_cons] at this ⊢
      omega

/-- The characters of a run are of its class. -/
theorem forall_mem_of_run_append (h : run p (x ++ r) = x.length) : ∀ c ∈ x, p c = true := by
  induction x with
  | nil => simp
  | cons a x ih =>
    cases ha : p a with
    | false => simp [run, ha] at h
    | true =>
      simp only [run, List.cons_append, List.takeWhile_cons, ha, if_true, List.length_cons,
        Nat.add_right_cancel_iff] at h
      intro c hc
      rcases List.mem_cons.mp hc with rfl | hc
      · exact ha
      · exact ih h c hc

/-- The character after a run is outside its class. -/
theorem head?_of_run_append {c : Char} (h : run p (x ++ r) = x.length) (hr : r.head? = some c) :
    p c = false := by
  have hx := forall_mem_of_run_append h
  rw [run, List.takeWhile_append_of_pos hx, List.length_append] at h
  cases r with
  | nil => cases hr
  | cons d r =>
    cases hr
    cases hc : p c with
    | false => rfl
    | true => simp [hc] at h

end Run

/-! ## Block comments -/

/-- A closed comment has its closing mark. -/
theorem two_le_of_closed_blockComment {d : Nat} {s : List Char}
    (h : (blockComment d s).closed = true) : 2 ≤ (blockComment d s).length := by
  obtain ⟨t, ht⟩ := blockComment_closed h
  have hl := congrArg List.length ht
  simp only [List.length_take, List.length_append, List.length_cons, List.length_nil] at hl
  omega

theorem exists_cons_cons_of_two_le {x : List Char} (h : 2 ≤ x.length) :
    ∃ a b y, x = a :: b :: y := by
  match x, h with
  | a :: b :: y, _ => exact ⟨a, b, y, rfl⟩

/-- A comment that is closed inside a text stays when the text is followed by something else. -/
theorem blockComment_append {d : Nat} {x r s : List Char}
    (hc : (blockComment d (x ++ r)).closed = true)
    (hn : (blockComment d (x ++ r)).length ≤ x.length) :
    blockComment d (x ++ s) = blockComment d (x ++ r) := by
  generalize ht : x ++ r = t at hc hn ⊢
  -- The text goes on for two more characters at least, and those decide.
  obtain ⟨a, b, y, rfl⟩ :=
    exists_cons_cons_of_two_le (Nat.le_trans (two_le_of_closed_blockComment hc) hn)
  fun_induction blockComment d t generalizing a b y with
  | case1 d t ih =>
    obtain ⟨rfl, rfl, rfl⟩ : a = '/' ∧ b = '*' ∧ y ++ r = t := by simpa using ht
    simp only [Extent.length_after, Extent.closed_after, List.length_cons] at hc hn
    obtain ⟨a, b, y, rfl⟩ := exists_cons_cons_of_two_le
      (Nat.le_trans (two_le_of_closed_blockComment hc) (show _ ≤ y.length by omega))
    rw [← ih hc a b y rfl (by simp only [List.length_cons] at hn ⊢; omega)]
    simp [blockComment]
  | case2 t =>
    obtain ⟨rfl, rfl, rfl⟩ : a = '*' ∧ b = '/' ∧ y ++ r = t := by simpa using ht
    simp [blockComment]
  | case3 d t ih =>
    obtain ⟨rfl, rfl, rfl⟩ : a = '*' ∧ b = '/' ∧ y ++ r = t := by simpa using ht
    simp only [Extent.length_after, Extent.closed_after, List.length_cons] at hc hn
    obtain ⟨a, b, y, rfl⟩ := exists_cons_cons_of_two_le
      (Nat.le_trans (two_le_of_closed_blockComment hc) (show _ ≤ y.length by omega))
    rw [← ih hc a b y rfl (by simp only [List.length_cons] at hn ⊢; omega)]
    simp [blockComment]
  | case4 d c t h₁ h₂ h₃ ih =>
    obtain ⟨rfl, rfl⟩ : a = c ∧ b :: (y ++ r) = t := by simpa using ht
    simp only [Extent.length_after, Extent.closed_after, List.length_cons] at hc hn
    obtain ⟨b', e, y', hy⟩ := exists_cons_cons_of_two_le
      (Nat.le_trans (two_le_of_closed_blockComment hc) (show _ ≤ (b :: y).length by simp; omega))
    obtain ⟨rfl, rfl⟩ := List.cons.inj hy
    rw [← ih hc b e y' rfl (by simp only [List.length_cons] at hn ⊢; omega)]
    rw [List.cons_append, blockComment]
    · rintro u rfl hu
      exact h₁ _ rfl (by rw [(List.cons.inj hu).1])
    · rintro u hd rfl hu
      exact h₂ _ hd rfl (by rw [(List.cons.inj hu).1])
    · rintro n u hd rfl hu
      exact h₃ n _ hd rfl (by rw [(List.cons.inj hu).1])
  | case5 => simp at hc

/-! ## String literals -/

/-- The least number of characters that close a construct. -/
def Frame.closingLength : Frame → Nat
  | quote hashes lines => (closing hashes lines).length
  | bracket _ => 1

section

variable {stack stack' : List Frame} {t : List Char} {n : Nat}

/-- A step closes no more than it takes. -/
theorem ScanStep.closingLength_le (h : ScanStep stack t n stack') :
    (stack.map Frame.closingLength).sum ≤ n + (stack'.map Frame.closingLength).sum := by
  cases h with
  | closeQuote | closeBracket => simp [Frame.closingLength]
  | _ =>
    simp only [List.map_append, List.map_cons, List.sum_append, List.sum_cons]
    omega

/-- Constructs that are all closed have their closing characters. -/
theorem closingLength_le_of_closed (hc : (scan stack t).closed = true) :
    (stack.map Frame.closingLength).sum ≤ (scan stack t).length := by
  induction stack, t using scan_induction with
  | stop h =>
    obtain rfl := h.eq_nil hc
    exact Nat.zero_le _
  | step h ih =>
    rw [h.scan_eq] at hc ⊢
    exact h.closingLength_le.trans (Nat.add_le_add_left (ih hc) _)

/-- A step leaves a bracket open, or takes its closing parenthesis. -/
theorem ScanStep.mem_or_mem_take {lines : Bool} (h : ScanStep stack t n stack')
    (hb : .bracket lines ∈ stack) : .bracket lines ∈ stack' ∨ ')' ∈ t.take n := by
  cases h with
  | closeBracket => exact .inr (by simp)
  | closeQuote => exact .inl (by simpa using hb)
  | escape => exact .inl (List.mem_append_right _ hb)
  | openBracket | openQuote => exact .inl (List.mem_cons_of_mem _ hb)
  | passInQuote | passInBracket => exact .inl hb

/-- A closed bracket has its closing parenthesis. -/
theorem mem_take_of_closed_bracket {lines : Bool} (hb : .bracket lines ∈ stack)
    (hc : (scan stack t).closed = true) : ')' ∈ t.take (scan stack t).length := by
  induction stack, t using scan_induction with
  | stop h =>
    obtain rfl := h.eq_nil hc
    cases hb
  | step h ih =>
    rw [h.scan_eq] at hc ⊢
    rw [take_after, List.mem_append]
    exact (h.mem_or_mem_take hb).symm.imp_right fun hb => ih hb hc

end

/-- What opens a literal is seen on the characters up to two after its first quote. -/
theorem opening?_append {y r s : List Char} (h : run (· == '#') (y ++ r) + 3 ≤ y.length) :
    opening? (y ++ s) = opening? (y ++ r) := by
  have hrun : run (· == '#') (y ++ s) = run (· == '#') (y ++ r) := run_append_of_lt (by omega)
  rw [opening?, opening?, hrun]
  generalize run (· == '#') (y ++ r) = n at h
  have hdrop : ∀ z, (y ++ z).drop n = y.drop n ++ z := fun z =>
    List.drop_append_of_le_length (by omega)
  have hlen : 3 ≤ (y.drop n).length := by simp; omega
  rw [hdrop, hdrop]
  rcases hz : y.drop n with _ | ⟨a, _ | ⟨b, _ | ⟨c, z⟩⟩⟩
  case cons.cons.cons => by_cases ha : a = '"' <;> simp [ha, List.isPrefixOf]
  all_goals simp [hz] at hlen

/-- A text that opens no literal opens none when it changes after its number signs. -/
theorem opening?_append_of_none {y r s : List Char} (h : run (· == '#') (y ++ r) < y.length)
    (hn : opening? (y ++ r) = none) : opening? (y ++ s) = none := by
  have hrun : run (· == '#') (y ++ s) = run (· == '#') (y ++ r) := run_append_of_lt h
  rw [opening?] at hn ⊢
  rw [hrun]
  generalize run (· == '#') (y ++ r) = n at h hn
  have hdrop : ∀ z, (y ++ z).drop n = y.drop n ++ z := fun z =>
    List.drop_append_of_le_length (by omega)
  obtain ⟨a, z, hz⟩ := List.exists_cons_of_length_pos (l := y.drop n) (by simp; omega)
  simp only [hdrop, hz, List.cons_append] at hn ⊢
  by_cases ha : a = '"'
  · subst ha
    cases hn
  · simp [ha]

theorem isPrefixOf_append {p y r s : List Char} (h : p.length ≤ y.length) :
    p.isPrefixOf (y ++ s) = p.isPrefixOf (y ++ r) := by
  induction p generalizing y with
  | nil => rfl
  | cons a p ih =>
    match y, h with
    | b :: y, h =>
      have hp := ih (y := y) (by simpa using h)
      rw [List.cons_append, List.cons_append, List.isPrefixOf, List.isPrefixOf, hp]

/-- Whether a run has some length is seen on so many characters. -/
theorem le_run_append {p : Char → Bool} {n : Nat} {x r s : List Char} (h : n ≤ x.length) :
    n ≤ run p (x ++ s) ↔ n ≤ run p (x ++ r) := by
  by_cases hlt : run p (x ++ r) < x.length
  · rw [run_append_of_lt hlt]
  · have hs : ¬ run p (x ++ s) < x.length := by
      intro hlt'
      have := run_append_of_lt (s := r) hlt'
      omega
    omega

/-- The number of number signs that open a literal. -/
theorem run_of_opening? {t : List Char} {hashes : Nat} {lines : Bool}
    (h : opening? t = some (hashes, lines)) : run (· == '#') t = hashes := by
  rw [opening?] at h
  split at h
  · exact (Prod.mk.inj (Option.some.inj h)).1
  · cases h

theorem length_closing (hashes : Nat) (lines : Bool) :
    (closing hashes lines).length = openingLength hashes lines := by
  cases lines <;> simp [closing, openingLength]

theorem le_openingLength (hashes : Nat) (lines : Bool) :
    hashes + 1 ≤ openingLength hashes lines := by
  cases lines <;> simp [openingLength]

theorem exists_cons_of_append_eq_cons {c : Char} {y r t : List Char} (h : y ++ r = c :: t)
    (hy : 0 < y.length) : ∃ y', y = c :: y' ∧ y' ++ r = t := by
  obtain ⟨a, y, rfl⟩ := List.exists_cons_of_length_pos hy
  obtain ⟨rfl, rfl⟩ := List.cons.inj h
  exact ⟨y, rfl, rfl⟩

/-- A step of what is closed inside a text stays when the text is followed by something else: its
closing characters bound how far the step looks ahead. -/
theorem ScanStep.append {stack stack' : List Frame} {y r s : List Char} {n : Nat}
    (h : ScanStep stack (y ++ r) n stack')
    (hn : n + (stack'.map Frame.closingLength).sum ≤ y.length)
    (hb : ∀ lines, .bracket lines ∈ stack' → ')' ∈ y) : ScanStep stack (y ++ s) n stack' := by
  generalize ht : y ++ r = t at h
  cases h with
  | closeQuote h =>
    subst ht
    exact .closeQuote ((isPrefixOf_append (by omega)).trans h)
  | @escape hashes lines outer t h =>
    have hl := le_openingLength hashes lines
    simp only [List.map_append, List.map_cons, List.sum_append, List.sum_cons,
      Frame.closingLength, length_closing] at hn
    obtain ⟨y, rfl, rfl⟩ := exists_cons_of_append_eq_cons ht (by omega)
    rw [List.length_cons] at hn
    have htake : ∀ z, (y ++ z).take (hashes + 1) = y.take (hashes + 1) := fun z =>
      List.take_append_of_le_length (by omega)
    have hescaped : ∀ z, escaped lines ((y ++ z).drop hashes) = escaped lines (y.drop hashes) := by
      intro z
      have hne : y.drop hashes ≠ [] := by
        rw [Ne, List.drop_eq_nil_iff]
        omega
      rw [List.drop_append_of_le_length (by omega), escaped, escaped,
        List.head?_append, List.head?_eq_some_head hne, Option.some_or]
    rw [htake, hescaped, ← htake s, ← hescaped s]
    exact .escape ((le_run_append (by omega)).mpr h)
  | @passInQuote hashes lines outer c t hclose hline hescape =>
    have hl := le_openingLength hashes lines
    simp only [List.map_cons, List.sum_cons, Frame.closingLength, length_closing] at hn
    obtain ⟨y, rfl, rfl⟩ := exists_cons_of_append_eq_cons ht (by omega)
    rw [List.length_cons] at hn
    have hp := isPrefixOf_append (p := closing hashes lines) (y := c :: y) (r := r) (s := s)
      (by rw [length_closing, List.length_cons]; omega)
    rw [← List.cons_append, ← hp] at hclose
    rw [← le_run_append (s := s) (by omega)] at hescape
    exact .passInQuote hclose hline hescape
  | openBracket =>
    obtain ⟨y, rfl, rfl⟩ := exists_cons_of_append_eq_cons ht (by omega)
    exact .openBracket
  | closeBracket =>
    obtain ⟨y, rfl, rfl⟩ := exists_cons_of_append_eq_cons ht (by omega)
    exact .closeBracket
  | @openQuote lines outer t hashes lines' h =>
    subst ht
    have hrun := run_of_opening? h
    have hl := le_openingLength hashes lines'
    simp only [List.map_cons, List.sum_cons, Frame.closingLength, length_closing] at hn
    exact .openQuote ((opening?_append (by omega)).trans h)
  | @passInBracket lines outer c t hopen hclose hline hquote =>
    obtain ⟨y, rfl, rfl⟩ := exists_cons_of_append_eq_cons ht (by omega)
    have hlt : run (· == '#') (c :: y ++ r) < (c :: y).length :=
      run_append_lt (hb lines List.mem_cons_self) (by decide)
    exact .passInBracket hopen hclose hline (opening?_append_of_none hlt hquote)

/-- **A literal that is closed inside a text stays** when the text is followed by something else. -/
theorem scan_append {stack : List Frame} {y r s : List Char}
    (hc : (scan stack (y ++ r)).closed = true) (hn : (scan stack (y ++ r)).length ≤ y.length) :
    scan stack (y ++ s) = scan stack (y ++ r) := by
  generalize ht : y ++ r = t at hc hn ⊢
  induction stack, t using scan_induction generalizing y with
  | stop h =>
    obtain rfl := h.eq_nil hc
    rw [scan, scan]
  | @step stack t n stack' h ih =>
    subst ht
    rw [h.scan_eq] at hc hn ⊢
    rw [Extent.closed_after] at hc
    rw [Extent.length_after] at hn
    have hd : ∀ z, (y ++ z).drop n = y.drop n ++ z := fun z =>
      List.drop_append_of_le_length (by omega)
    rw [hd] at hc hn ⊢
    have hle := closingLength_le_of_closed hc
    have hrest : (scan stack' (y.drop n ++ r)).length ≤ (y.drop n).length := by
      rw [List.length_drop]
      omega
    have hstep : ScanStep stack (y ++ s) n stack' := h.append (by omega) fun lines hb => by
      have hmem := mem_take_of_closed_bracket hb hc
      rw [List.take_append_of_le_length hrest] at hmem
      exact List.mem_of_mem_drop (List.mem_of_mem_take hmem)
    rw [hstep.scan_eq, hd, ih (hd r).symm (by rwa [hd]) (by rwa [hd]), hd]

/-- A literal that is closed before the end of a text stays when the text is followed by something
else: an empty one is known by the character after it. -/
theorem literal?_append {y r s : List Char} {e : Extent} (h : literal? (y ++ r) = some e)
    (hc : e.closed = true) (hn : e.length < y.length) : literal? (y ++ s) = some e := by
  obtain ⟨⟨hashes, lines⟩, ho, rfl⟩ := Option.map_eq_some_iff.mp h
  dsimp only at hc hn ⊢
  rw [Extent.closed_after] at hc
  rw [Extent.length_after] at hn
  have hle := closingLength_le_of_closed hc
  simp only [List.map_cons, List.map_nil, List.sum_cons, List.sum_nil, Frame.closingLength,
    length_closing] at hle
  have hl := le_openingLength hashes lines
  have hrun := run_of_opening? ho
  have hd : ∀ z, (y ++ z).drop (openingLength hashes lines)
      = y.drop (openingLength hashes lines) ++ z := fun z =>
    List.drop_append_of_le_length (by omega)
  have ho' : opening? (y ++ s) = opening? (y ++ r) := opening?_append (by omega)
  rw [hd] at hc hn hle
  rw [literal?, ho', ho, Option.map_some]
  dsimp only
  rw [hd, hd, scan_append hc (by simp; omega)]

/-! ## Numbers -/

/-- Whether a number cannot go on with a character, however it goes on after that. -/
def isDull (c : Char) : Bool := !isXidContinue c && c != '.' && c != '+' && c != '-'

/-- Whether the characters after a number are enough to know that it has ended: one that is dull,
two of which the second is no sign, or any three. -/
def settles : List Char → Bool
  | [] => false
  | [a] => isDull a
  | [a, b] => isDull a || !(b == '+' || b == '-')
  | _ => true

theorem isXidContinue_of_isDigit {c : Char} (h : c.isDigit = true) : isXidContinue c = true := by
  have hlt : c.toNat < 128 := by
    simp only [Char.isDigit, Bool.and_eq_true, decide_eq_true_eq] at h
    have := h.2
    rw [UInt32.le_iff_toNat_le] at this
    exact Nat.lt_of_le_of_lt this (by decide)
  rw [isXidContinue_ascii hlt]
  simp [Char.isAlphanum, h]

theorem radixLength_append {x r s : List Char} (hx : 2 ≤ x.length)
    (h : radixLength (x ++ r) < x.length) : radixLength (x ++ s) = radixLength (x ++ r) := by
  obtain ⟨a, b, x, rfl⟩ := exists_cons_cons_of_two_le hx
  simp only [List.cons_append, radixLength] at h ⊢
  split
  · rename_i digit hdigit
    rw [hdigit] at h
    dsimp only at h
    split
    · rename_i hb
      rw [if_pos hb, List.length_cons, List.length_cons] at h
      rw [run_append_of_lt (r := r) (by omega)]
    · rfl
  · rfl

theorem fractionLength_append {x r s : List Char} (hx : 2 ≤ x.length)
    (h : fractionLength (x ++ r) < x.length) : fractionLength (x ++ s) = fractionLength (x ++ r) := by
  obtain ⟨a, b, x, rfl⟩ := exists_cons_cons_of_two_le hx
  by_cases ha : a = '.'
  · subst ha
    simp only [List.cons_append, fractionLength] at h ⊢
    split
    · rename_i hb
      rw [if_pos hb, List.length_cons, List.length_cons] at h
      rw [run_append_of_lt (r := r) (by omega)]
    · rfl
  · simp [fractionLength, ha]

theorem exponentLength_append {x r s : List Char} (hx : 3 ≤ x.length)
    (h : exponentLength (x ++ r) < x.length) : exponentLength (x ++ s) = exponentLength (x ++ r) := by
  obtain ⟨a, b, x, rfl⟩ := exists_cons_cons_of_two_le (Nat.le_trans (by omega) hx)
  simp only [List.cons_append, exponentLength] at h ⊢
  split
  case isFalse => rfl
  case isTrue ha =>
    rw [if_pos ha] at h
    simp only [List.head?_cons, Option.some.injEq, List.length_cons] at h hx ⊢
    by_cases hb : b = '+' ∨ b = '-'
    · simp only [hb, if_true, List.drop_succ_cons, List.drop_zero] at h ⊢
      have hlt : run Char.isDigit (x ++ r) < x.length := by
        split at h <;> omega
      rw [run_append_of_lt (s := s) hlt]
    · simp only [hb, if_false, List.drop_zero] at h ⊢
      have hlt : run Char.isDigit (b :: x ++ r) < (b :: x).length := by
        rw [List.cons_append, List.length_cons]
        split at h <;> omega
      rw [← List.cons_append, ← List.cons_append, run_append_of_lt (s := s) hlt]

theorem exponentLength_eq_zero {a : Char} {s : List Char} (h : ¬(a = 'e' ∨ a = 'E')) :
    exponentLength (a :: s) = 0 := by
  rw [exponentLength, if_neg h]

theorem isDull_ne {a : Char} (h : isDull a = true) :
    a.isDigit = false ∧ a ≠ '.' ∧ ¬(a = 'e' ∨ a = 'E') ∧ radixDigit? a = none := by
  simp only [isDull, Bool.and_eq_true, Bool.not_eq_true', bne_iff_ne] at h
  obtain ⟨⟨⟨hx, hdot⟩, -⟩, -⟩ := h
  refine ⟨?_, hdot, ?_, ?_⟩
  · by_contra hd
    rw [isXidContinue_of_isDigit (by simpa using hd)] at hx
    cases hx
  · rintro (rfl | rfl) <;> exact absurd hx (by decide)
  · unfold radixDigit?
    split
    · exact absurd hx (by decide)
    · exact absurd hx (by decide)
    · exact absurd hx (by decide)
    · rfl

theorem length_pos_of_settles {u : List Char} (hu : settles u = true) : 0 < u.length := by
  cases u with
  | nil => cases hu
  | cons => simp

/-- An exponent has a letter and a digit. -/
theorem two_le_exponentLength {s : List Char} (h : 0 < exponentLength s) :
    2 ≤ exponentLength s := by
  cases s with
  | nil => cases h
  | cons a s =>
    simp only [exponentLength] at h ⊢
    generalize (if s.head? = some '+' ∨ s.head? = some '-' then 1 else 0) = sign at h ⊢
    split at h
    case isFalse => cases h
    case isTrue ha =>
      split at h
      · cases h
      · rename_i hd
        rw [if_pos ha, if_neg hd]
        omega

section Settled

variable {v u r s : List Char}

theorem radixLength_append_of_settles (hu : settles u = true)
    (h : radixLength (v ++ u ++ r) ≤ v.length) :
    radixLength (v ++ u ++ s) = radixLength (v ++ u ++ r) := by
  have hpos := length_pos_of_settles hu
  by_cases hx : 2 ≤ (v ++ u).length
  · exact radixLength_append hx (by rw [List.length_append]; omega)
  · rw [List.length_append] at hx
    obtain rfl : v = [] := List.length_eq_zero_iff.mp (by omega)
    obtain ⟨a, rfl⟩ := List.length_eq_one_iff.mp (show u.length = 1 by simp at hx; omega)
    have ha := (isDull_ne hu).2.2.2
    have hzero : ∀ z, radixLength (a :: z) = 0 := by
      intro z
      cases z <;> simp [radixLength, ha]
    simp [hzero]

theorem fractionLength_append_of_settles (hu : settles u = true)
    (h : fractionLength (v ++ u ++ r) ≤ v.length) :
    fractionLength (v ++ u ++ s) = fractionLength (v ++ u ++ r) := by
  have hpos := length_pos_of_settles hu
  by_cases hx : 2 ≤ (v ++ u).length
  · exact fractionLength_append hx (by rw [List.length_append]; omega)
  · rw [List.length_append] at hx
    obtain rfl : v = [] := List.length_eq_zero_iff.mp (by omega)
    obtain ⟨a, rfl⟩ := List.length_eq_one_iff.mp (show u.length = 1 by simp at hx; omega)
    simp [fractionLength, (isDull_ne hu).2.1]

theorem exponentLength_append_of_settles (hu : settles u = true)
    (h : exponentLength (v ++ u ++ r) = v.length) :
    exponentLength (v ++ u ++ s) = exponentLength (v ++ u ++ r) := by
  have hpos := length_pos_of_settles hu
  by_cases hx : 3 ≤ (v ++ u).length
  · exact exponentLength_append hx (by rw [List.length_append]; omega)
  rw [List.length_append] at hx
  -- There is no room for an exponent, so what follows the number begins none.
  have hzero : exponentLength (v ++ u ++ r) = 0 := by
    by_contra hne
    have := two_le_exponentLength (Nat.pos_of_ne_zero hne)
    omega
  obtain rfl : v = [] := List.length_eq_zero_iff.mp (h.symm.trans hzero)
  rw [hzero]
  rw [List.nil_append] at hzero ⊢
  match u, hu with
  | [a], hu => exact exponentLength_eq_zero (isDull_ne hu).2.2.1
  | [a, b], hu =>
    simp only [settles, Bool.or_eq_true, Bool.not_eq_true', Bool.or_eq_false_iff,
      beq_eq_false_iff_ne] at hu
    rcases hu with hu | ⟨hb, hb'⟩
    · exact exponentLength_eq_zero (isDull_ne hu).2.2.1
    · by_cases ha : a = 'e' ∨ a = 'E'
      · simp only [List.cons_append, List.nil_append, exponentLength, ha, if_true,
          List.head?_cons, Option.some.injEq, hb, hb', or_self, if_false, List.drop_zero]
          at hzero ⊢
        cases hd : b.isDigit with
        | false => simp [run, hd]
        | true => simp [run, hd] at hzero
      · exact exponentLength_eq_zero ha
  | a :: b :: c :: u, hu => exact absurd hx (by simp)

/-- **A number stays** when the text changes after characters that settle its end. -/
theorem number_append {c : Char} (hu : settles u = true)
    (h : (number c (v ++ u ++ r)).2 = v.length) :
    number c (v ++ u ++ s) = number c (v ++ u ++ r) := by
  have hpos := length_pos_of_settles hu
  have hdrop : ∀ n ≤ v.length, ∀ z, (v ++ u ++ z).drop n = v.drop n ++ u ++ z := fun n hn z => by
    rw [List.append_assoc, List.drop_append_of_le_length hn, List.append_assoc]
  have hradix : (if c = '0' then radixLength (v ++ u ++ r) else 0) ≤ v.length →
      (if c = '0' then radixLength (v ++ u ++ s) else 0)
        = if c = '0' then radixLength (v ++ u ++ r) else 0 := by
    intro hle
    split
    · rw [if_pos ‹_›] at hle
      exact radixLength_append_of_settles hu hle
    · rfl
  unfold number at h ⊢
  dsimp only at h ⊢
  by_cases hr : (if c = '0' then radixLength (v ++ u ++ r) else 0) = 0
  · rw [if_neg (not_not.mpr hr)] at h ⊢
    rw [hradix (by omega), if_neg (not_not.mpr hr)]
    dsimp only at h ⊢
    have hwhole : run (orUnderscore Char.isDigit) (v ++ u ++ s)
        = run (orUnderscore Char.isDigit) (v ++ u ++ r) :=
      run_append_of_lt (by rw [List.length_append]; omega)
    rw [hwhole]
    generalize run (orUnderscore Char.isDigit) (v ++ u ++ r) = w at h ⊢
    have hw : w ≤ v.length := by omega
    rw [hdrop w hw] at h ⊢
    rw [hdrop w hw]
    have hfraction : fractionLength (v.drop w ++ u ++ s) = fractionLength (v.drop w ++ u ++ r) :=
      fractionLength_append_of_settles hu (by rw [List.length_drop]; omega)
    rw [hfraction]
    generalize fractionLength (v.drop w ++ u ++ r) = f at h ⊢
    have hf : w + f ≤ v.length := by omega
    rw [hdrop _ hf] at h ⊢
    rw [hdrop _ hf, exponentLength_append_of_settles (r := r) hu
      (by rw [List.length_drop]; omega)]
  · rw [if_pos hr] at h
    rw [hradix (Nat.le_of_eq h)]
    simp only [hr, ne_eq, not_false_iff, if_true]

end Settled

/-! ## Pieces -/

/-- Whether a piece is part of a text without errors. -/
def Lexeme.isSound : Lexeme → Bool
  | blockComment closed => closed
  | literal closed => closed
  | invalid => false
  | _ => true

section Front

variable {c : Char} {x r s : List Char}

theorem head?_append_of_pos (hx : 0 < x.length) : (x ++ s).head? = (x ++ r).head? := by
  obtain ⟨a, x, rfl⟩ := List.exists_cons_of_length_pos hx
  rfl

theorem backtickFront_append (hn : (backtickFront (x ++ r)).2 ≤ x.length)
    (hs : (backtickFront (x ++ r)).1.isSound = true) :
    backtickFront (x ++ s) = backtickFront (x ++ r) := by
  unfold backtickFront at hn hs ⊢
  dsimp only at hn hs ⊢
  split at hs
  case isTrue => cases hs
  case isFalse h₀ =>
    rw [if_neg h₀] at hn
    split at hs
    case isFalse => cases hs
    case isTrue h₁ =>
      rw [if_pos h₁] at hn
      dsimp only at hn
      have hrun : run (fun d => d != backtick && d != '\n') (x ++ s)
          = run (fun d => d != backtick && d != '\n') (x ++ r) := run_append_of_lt (by omega)
      rw [hrun, if_neg h₀, if_neg h₀, if_pos h₁]
      generalize run (fun d => d != backtick && d != '\n') (x ++ r) = n at hn h₁ ⊢
      obtain ⟨a, y, hy⟩ := List.exists_cons_of_length_pos (l := x.drop n) (by simp; omega)
      rw [List.drop_append_of_le_length (by omega), hy] at h₁ ⊢
      exact if_pos h₁

theorem dollarFront_append (hn : (dollarFront (x ++ r)).2 < x.length) :
    dollarFront (x ++ s) = dollarFront (x ++ r) := by
  have hlt : run isXidContinue (x ++ r) < x.length := by
    unfold dollarFront at hn
    dsimp only at hn
    split at hn
    · omega
    · exact hn
  unfold dollarFront
  rw [run_append_of_lt (s := s) hlt]

theorem hashFront_append (hn : (hashFront (x ++ r)).2 < x.length) :
    hashFront (x ++ s) = hashFront (x ++ r) := by
  have hlt : run (· == '#') (x ++ r) < x.length := by
    unfold hashFront at hn
    dsimp only at hn
    split at hn
    · omega
    · exact hn
  unfold hashFront
  rw [run_append_of_lt (s := s) hlt]

theorem markFront_append (hx : 0 < x.length) : markFront c (x ++ s) = markFront c (x ++ r) := by
  rw [markFront, markFront, head?_append_of_pos hx]

theorem runFront_append {l : Lexeme} {p : Char → Bool} (hn : run p (x ++ r) < x.length) :
    runFront l p (x ++ s) = runFront l p (x ++ r) := by
  rw [runFront, runFront, run_append_of_lt hn]

theorem wordFront_append (hn : run isXidContinue (x ++ r) < x.length) :
    wordFront c (x ++ s) = wordFront c (x ++ r) := by
  rw [wordFront, wordFront, run_append_of_lt (s := s) hn]
  generalize run isXidContinue (x ++ r) = n at hn ⊢
  have hdrop : ((x ++ s).drop n).head? = ((x ++ r).drop n).head? := by
    rw [List.drop_append_of_le_length (by omega), List.drop_append_of_le_length (by omega)]
    exact head?_append_of_pos (by simp; omega)
  rw [hdrop, List.take_append_of_le_length (by omega), List.take_append_of_le_length (by omega)]

theorem blockCommentFront_append (hs : (blockCommentFront (x ++ r)).1.isSound = true)
    (hn : (blockCommentFront (x ++ r)).2 < x.length) :
    blockCommentFront (x ++ s) = blockCommentFront (x ++ r) := by
  simp only [blockCommentFront] at hs hn ⊢
  obtain ⟨a, y, rfl⟩ := List.exists_cons_of_length_pos (show 0 < x.length by omega)
  simp only [List.cons_append, List.tail_cons, List.length_cons] at hs hn ⊢
  rw [blockComment_append (s := s) hs (by omega)]

/-- Number signs that are a token are no more than one. -/
theorem run_of_isSound_hashFront (h : (hashFront s).1.isSound = true) : run (· == '#') s = 0 := by
  unfold hashFront at h
  dsimp only at h
  split at h
  · assumption
  · cases h

/-- **A piece that is no number stays** when the text changes further on than one character past its
end. -/
theorem front_append (hc : c.isDigit = false) (hs : (front c (x ++ r)).1.isSound = true)
    (hn : (front c (x ++ r)).2 < x.length) : front c (x ++ s) = front c (x ++ r) := by
  have hx : 0 < x.length := by omega
  have hhead := head?_append_of_pos (r := r) (s := s) hx
  obtain ⟨f, hf⟩ := exists_begins c (x ++ r)
  rw [hf.front_eq] at hs hn ⊢
  cases hf with
  | blank h => rw [(Begins.blank h).front_eq, runFront_append hn]
  | word h => rw [(Begins.word h).front_eq, wordFront_append hn]
  | number h =>
    rw [hc] at h
    cases h
  | lineComment h => rw [(Begins.lineComment (hhead.trans h)).front_eq, runFront_append hn]
  | blockComment h =>
    rw [(Begins.blockComment (hhead.trans h)).front_eq, blockCommentFront_append hs hn]
  | slash h h' => rw [(Begins.slash (hhead ▸ h) (hhead ▸ h')).front_eq, markFront_append hx]
  | literal h =>
    have hpos := literal?_pos h
    exact (Begins.literal (literal?_append (y := c :: x) h hs (by simp at hn ⊢; omega))).front_eq
  | hash h =>
    have hlt : run (· == '#') ('#' :: x ++ r) < ('#' :: x).length := by
      have hrun := run_of_isSound_hashFront hs
      rw [run] at hrun
      simp [run, hrun]
      omega
    have hopen : opening? ('#' :: (x ++ s)) = none := opening?_append_of_none hlt h
    rw [(Begins.hash hopen).front_eq, hashFront_append hn]
  | backtick => rw [Begins.backtick.front_eq, backtickFront_append hn.le hs]
  | dollar => rw [Begins.dollar.front_eq, dollarFront_append hn]
  | mark h => rw [(Begins.mark h).front_eq, markFront_append hx]

end Front

end Memberwise.Token
