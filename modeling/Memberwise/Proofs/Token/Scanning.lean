import Memberwise.Token.Quoted

/-!
# Proofs/Token/Scanning — the scanner of literals, step by step

The scanner goes from step to step until it has to stop.  `ScanStep` says once all that a step can
do: how many characters it takes, and what is open before and after it.  `ScanStop` says where no
step is made.

* `ScanStop.scan_eq`, `ScanStep.scan_eq` — a scan is its first step, and then the scan from there;
* `scan_induction` — **what holds where the scanner stops, and before a step if it holds after it,
  holds of every scan**.

A result about scans is then one lemma about steps, by cases, and this induction.
-/

namespace Memberwise.Token

/-- What an escape opens, by the text after its number signs: a bracket if an interpolation begins
there. -/
def escaped (lines : Bool) (s : List Char) : List Frame :=
  if s.head? = some '(' then [.bracket lines] else []

/-- One step of the scanner: what is open, the text, how much of it the step takes, and what is open
after that. -/
inductive ScanStep : List Frame → List Char → Nat → List Frame → Prop
  | closeQuote {hashes : Nat} {lines : Bool} {outer : List Frame} {s : List Char}
      (h : (closing hashes lines).isPrefixOf s = true) :
      ScanStep (.quote hashes lines :: outer) s (closing hashes lines).length outer
  | escape {hashes : Nat} {lines : Bool} {outer : List Frame} {s : List Char}
      (h : hashes ≤ run (· == '#') s) :
      ScanStep (.quote hashes lines :: outer) ('\\' :: s) (1 + (s.take (hashes + 1)).length)
        (escaped lines (s.drop hashes) ++ .quote hashes lines :: outer)
  | passInQuote {hashes : Nat} {lines : Bool} {outer : List Frame} {c : Char} {s : List Char}
      (hclose : ¬ (closing hashes lines).isPrefixOf (c :: s) = true)
      (hline : ¬ (c = '\n' ∧ lines = false)) (hescape : ¬ (c = '\\' ∧ hashes ≤ run (· == '#') s)) :
      ScanStep (.quote hashes lines :: outer) (c :: s) 1 (.quote hashes lines :: outer)
  | openBracket {lines : Bool} {outer : List Frame} {s : List Char} :
      ScanStep (.bracket lines :: outer) ('(' :: s) 1 (.bracket lines :: .bracket lines :: outer)
  | closeBracket {lines : Bool} {outer : List Frame} {s : List Char} :
      ScanStep (.bracket lines :: outer) (')' :: s) 1 outer
  | openQuote {lines : Bool} {outer : List Frame} {s : List Char} {hashes : Nat} {lines' : Bool}
      (h : opening? s = some (hashes, lines')) :
      ScanStep (.bracket lines :: outer) s (openingLength hashes lines')
        (.quote hashes lines' :: .bracket lines :: outer)
  | passInBracket {lines : Bool} {outer : List Frame} {c : Char} {s : List Char}
      (hopen : c ≠ '(') (hclose : c ≠ ')') (hline : ¬ (c = '\n' ∧ lines = false))
      (hquote : opening? (c :: s) = none) :
      ScanStep (.bracket lines :: outer) (c :: s) 1 (.bracket lines :: outer)

/-- Where the scanner stops, and whether all is closed there. -/
inductive ScanStop : List Frame → List Char → Bool → Prop
  | closed {s : List Char} : ScanStop [] s true
  | atEnd {f : Frame} {outer : List Frame} : ScanStop (f :: outer) [] false
  | atLineEnd {f : Frame} {outer : List Frame} {s : List Char} (h : f.lines = false) :
      ScanStop (f :: outer) ('\n' :: s) false

/-- What closes a literal begins with a quote. -/
theorem closing_eq_cons (hashes : Nat) (lines : Bool) : ∃ t, closing hashes lines = '"' :: t := by
  cases lines <;> exact ⟨_, rfl⟩

theorem not_closing_isPrefixOf {c : Char} (hashes : Nat) (lines : Bool) (s : List Char)
    (hc : c ≠ '"') : ¬ (closing hashes lines).isPrefixOf (c :: s) = true := by
  obtain ⟨t, ht⟩ := closing_eq_cons hashes lines
  simp [ht, hc.symm]

/-- What opens a literal begins with a number sign or a quote. -/
theorem head_of_opening? {s : List Char} {o : Nat × Bool} (h : opening? s = some o) :
    ∃ c t, s = c :: t ∧ (c = '#' ∨ c = '"') := by
  cases s with
  | nil => cases h
  | cons c t =>
    refine ⟨c, t, rfl, Decidable.byContradiction fun hc => ?_⟩
    rw [not_or] at hc
    simp [opening?, run, hc.1, hc.2] at h

/-- An escape is passed as a whole, as far as the text goes. -/
theorem drop_escape (c : Char) (k : Nat) (t : List Char) :
    (c :: t).drop (1 + (t.take k).length) = t.drop k := by
  rw [Nat.add_comm, List.drop_succ_cons, List.length_take]
  rcases Nat.le_total k t.length with h | h
  · rw [Nat.min_eq_left h]
  · rw [Nat.min_eq_right h, List.drop_length, List.drop_eq_nil_of_le h]

section

variable {stack stack' : List Frame} {s : List Char} {n : Nat} {closed : Bool}

/-- No step is made where the scanner stops. -/
theorem ScanStop.scan_eq (h : ScanStop stack s closed) : scan stack s = ⟨0, closed⟩ := by
  cases h with
  | closed => rw [scan]
  | atEnd => rw [scan]
  | @atLineEnd f outer s h =>
    cases f with
    | quote hashes lines =>
      rw [scan, if_neg (not_closing_isPrefixOf _ _ _ (by decide)), if_pos ⟨rfl, h⟩]
    | bracket lines => rw [scan, if_neg (by decide), if_neg (by decide), if_pos ⟨rfl, h⟩]

/-- All is closed only where nothing is open. -/
theorem ScanStop.eq_nil (h : ScanStop stack s closed) (hc : (scan stack s).closed = true) :
    stack = [] := by
  rw [h.scan_eq] at hc
  cases h with
  | closed => rfl
  | atEnd | atLineEnd => cases hc

/-- **A scan is its first step, and then the scan from there.** -/
theorem ScanStep.scan_eq (h : ScanStep stack s n stack') :
    scan stack s = (scan stack' (s.drop n)).after n := by
  cases h with
  | @closeQuote hashes lines outer s h =>
    obtain ⟨t, ht⟩ := closing_eq_cons hashes lines
    cases s with
    | nil => rw [ht] at h; cases h
    | cons c s => rw [scan, if_pos h]
  | @escape hashes lines outer s h =>
    rw [scan, if_neg (not_closing_isPrefixOf _ _ _ (by decide)),
      if_neg fun h => absurd h.1 (by decide), if_pos ⟨rfl, h⟩, drop_escape, escaped]
    split <;> rfl
  | passInQuote hclose hline hescape =>
    rw [scan, if_neg hclose, if_neg hline, if_neg hescape]
    rfl
  | openBracket => rw [scan, if_pos rfl]; rfl
  | closeBracket => rw [scan, if_neg (by decide), if_pos rfl]; rfl
  | openQuote h =>
    obtain ⟨c, t, rfl, hc⟩ := head_of_opening? h
    have hne : c ≠ '(' ∧ c ≠ ')' ∧ c ≠ '\n' := by
      rcases hc with rfl | rfl <;> decide
    rw [scan, if_neg hne.1, if_neg hne.2.1, if_neg fun h => hne.2.2 h.1, h]
  | passInBracket hopen hclose hline hquote =>
    rw [scan, if_neg hopen, if_neg hclose, if_neg hline, hquote]
    rfl

/-- **What holds where the scanner stops, and before a step if it holds after it, holds of every
scan.** -/
@[elab_as_elim]
theorem scan_induction {motive : List Frame → List Char → Prop}
    (stop : ∀ {stack s closed}, ScanStop stack s closed → motive stack s)
    (step : ∀ {stack s n stack'}, ScanStep stack s n stack' → motive stack' (s.drop n) →
      motive stack s) (stack : List Frame) (s : List Char) : motive stack s := by
  fun_induction scan stack s with
  | case1 => exact stop .closed
  | case2 => exact stop .atEnd
  | case3 hashes lines outer c s h ih => exact step (.closeQuote h) ih
  | case4 hashes lines outer c s _ hline =>
    obtain ⟨rfl, h⟩ := hline
    exact stop (.atLineEnd h)
  | case5 hashes lines outer c s _ _ hescape hparen ih =>
    obtain ⟨rfl, h⟩ := hescape
    refine step (.escape h) ?_
    rwa [drop_escape, escaped, if_pos hparen]
  | case6 hashes lines outer c s _ _ hescape hparen ih =>
    obtain ⟨rfl, h⟩ := hescape
    refine step (.escape h) ?_
    rwa [drop_escape, escaped, if_neg hparen]
  | case7 hashes lines outer c s hclose hline hescape ih =>
    exact step (.passInQuote hclose hline hescape) ih
  | case8 lines outer s ih => exact step .openBracket ih
  | case9 lines outer s _ ih => exact step .closeBracket ih
  | case10 lines outer c s _ _ hline =>
    obtain ⟨rfl, h⟩ := hline
    exact stop (.atLineEnd h)
  | case11 lines outer c s _ _ _ hashes lines' h ih => exact step (.openQuote h) ih
  | case12 lines outer c s hopen hclose hline hquote ih =>
    exact step (.passInBracket hopen hclose hline hquote) ih

/-! ## Closed and unclosed scans -/

/-- What closes a construct. -/
def Frame.closer : Frame → List Char
  | quote hashes lines => closing hashes lines
  | bracket _ => [')']

theorem Extent.after_after (m n : Nat) (e : Extent) : (e.after n).after m = e.after (m + n) := by
  rw [after, after, after, Nat.add_assoc]

theorem drop_after (t : List Char) (n : Nat) (e : Extent) :
    t.drop (e.after n).length = (t.drop n).drop e.length := by
  rw [Extent.length_after, List.drop_drop]

theorem take_after (t : List Char) (n : Nat) (e : Extent) :
    t.take (e.after n).length = t.take n ++ (t.drop n).take e.length := by
  rw [Extent.length_after, List.take_add]

/-- **A scan that does not close stops at a line end or at the end of the text.** -/
theorem scan_unclosed (h : (scan stack s).closed = false) :
    (s.drop (scan stack s).length).head?.all (· == '\n') = true := by
  induction stack, s using scan_induction with
  | stop hstop =>
    rw [hstop.scan_eq] at h ⊢
    cases hstop with
    | closed => cases h
    | atEnd => rfl
    | atLineEnd => rfl
  | step hstep ih =>
    rw [hstep.scan_eq] at h ⊢
    rw [drop_after]
    exact ih h

/-- A step leaves the outermost construct open, or it takes what closes that. -/
theorem ScanStep.getLast?_or {f : Frame} (h : ScanStep stack s n stack')
    (hf : stack.getLast? = some f) :
    stack'.getLast? = some f ∨ stack' = [] ∧ s.take n = f.closer := by
  cases h with
  | @closeQuote hashes lines _ _ h =>
    cases stack' with
    | nil =>
      obtain rfl : Frame.quote hashes lines = f := by simpa using hf
      exact .inr ⟨rfl, (List.prefix_iff_eq_take.mp (List.isPrefixOf_iff_prefix.mp h)).symm⟩
    | cons => exact .inl (by simpa using hf)
  | @closeBracket lines =>
    cases stack' with
    | nil =>
      obtain rfl : Frame.bracket lines = f := by simpa using hf
      exact .inr ⟨rfl, rfl⟩
    | cons => exact .inl (by simpa using hf)
  | escape => exact .inl (by rw [List.getLast?_append, hf, Option.some_or])
  | openBracket | openQuote => exact .inl (by simpa using hf)
  | passInQuote | passInBracket => exact .inl hf

/-- **A scan that closes ends in what closes its outermost construct.** -/
theorem scan_closed (h : (scan stack s).closed = true) {f : Frame}
    (hf : stack.getLast? = some f) : f.closer <:+ s.take (scan stack s).length := by
  induction stack, s using scan_induction with
  | stop hstop =>
    obtain rfl := hstop.eq_nil h
    cases hf
  | step hstep ih =>
    rw [hstep.scan_eq] at h ⊢
    rw [take_after]
    rcases hstep.getLast?_or hf with hf | ⟨rfl, htake⟩
    · exact (ih h hf).trans (List.suffix_append _ _)
    · simp [scan, htake]

/-- A step inside is the same step with more outside. -/
theorem ScanStep.append_stack (h : ScanStep stack s n stack') (outer : List Frame) :
    ScanStep (stack ++ outer) s n (stack' ++ outer) := by
  cases h with
  | closeQuote h => exact .closeQuote h
  | escape h =>
    rw [List.append_assoc]
    exact .escape h
  | passInQuote hclose hline hescape => exact .passInQuote hclose hline hescape
  | openBracket => exact .openBracket
  | closeBracket => exact .closeBracket
  | openQuote h => exact .openQuote h
  | passInBracket hopen hclose hline hquote => exact .passInBracket hopen hclose hline hquote

/-- Where the scanner stops unclosed, it does so with more outside. -/
theorem ScanStop.append_stack (h : ScanStop stack s false) (outer : List Frame) :
    ScanStop (stack ++ outer) s false := by
  cases h with
  | atEnd => exact .atEnd
  | atLineEnd h => exact .atLineEnd h

/-- **What is open outside is scanned from where all inside it is closed.** -/
theorem scan_append_stack (inner outer : List Frame) (s : List Char) :
    scan (inner ++ outer) s = if (scan inner s).closed = true
      then (scan outer (s.drop (scan inner s).length)).after (scan inner s).length
      else scan inner s := by
  induction inner, s using scan_induction with
  | @stop inner s closed hstop =>
    cases closed with
    | true =>
      obtain rfl := hstop.eq_nil (by rw [hstop.scan_eq])
      simp [scan, Extent.after]
    | false => rw [(hstop.append_stack outer).scan_eq, hstop.scan_eq, if_neg (by decide)]
  | step hstep ih =>
    rw [(hstep.append_stack outer).scan_eq, hstep.scan_eq, ih, Extent.closed_after,
      drop_after]
    split
    · rw [Extent.after_after, Extent.length_after]
    · rfl

end

end Memberwise.Token
