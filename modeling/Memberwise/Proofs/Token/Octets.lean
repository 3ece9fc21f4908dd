import Memberwise.Token.Octets
import Memberwise.Proofs.Token.Literals

/-!
# Proofs/Token/Octets — the octets of a literal

The two scanners of octets call one another on what stands behind an index.  They are held to the
one scanner of characters, `scan`, in two steps.  Octets are read as characters of the same number
(`characters`), so that an index into them is a place where `scan` can go on (`scanAt`):

* `exists_quoteMove?`, `exists_bracketMove?` — **one move is in bounds, and is a step of `scan`**;
* `scanLiteral?_eq`, `scanInterpolation?_eq` — **so every run is in bounds, and is one of `scan`**,
  with what is open in a caller further out on the stack.

The octets of a text are more characters than the text has, but `scan` looks for ASCII alone, and
passes what is beyond it (`scan_append_of_not_isAscii`):

* `scan_spread` — **the octets of a text are scanned like its characters**;
* `exists_isExtent` — **the scanners are safe, and end where they say**: behind what closes the
  construct, or before a line end or at the end of the octets; in a text, between two characters.
-/

namespace Memberwise.Token.Octets

open Text

/-! ## Octets as characters -/

/-- Octets, each as the character of its number. -/
def characters (s : List UInt8) : List Char := s.map Char.ofUInt8

theorem toUInt8_ofUInt8 (b : UInt8) : (Char.ofUInt8 b).toUInt8 = b := UInt8.toUInt8_toUInt32 b

theorem ofUInt8_inj {a b : UInt8} : Char.ofUInt8 a = Char.ofUInt8 b ↔ a = b :=
  ⟨fun h => by rw [← toUInt8_ofUInt8 a, h, toUInt8_ofUInt8], fun h => h ▸ rfl⟩

@[simp] theorem length_characters (s : List UInt8) : (characters s).length = s.length :=
  List.length_map _

theorem characters_cons (b : UInt8) (s : List UInt8) :
    characters (b :: s) = Char.ofUInt8 b :: characters s := rfl

theorem drop_characters (n : Nat) (s : List UInt8) :
    (characters s).drop n = characters (s.drop n) := (List.map_drop).symm

theorem isPrefixOf_characters (p s : List UInt8) :
    (characters p).isPrefixOf (characters s) = p.isPrefixOf s := by
  induction p generalizing s with
  | nil => rfl
  | cons a p ih =>
    cases s with
    | nil => rfl
    | cons b s =>
      have hb : (Char.ofUInt8 a == Char.ofUInt8 b) = (a == b) := by
        rw [Bool.eq_iff_iff, beq_iff_eq, beq_iff_eq, ofUInt8_inj]
      rw [characters_cons, characters_cons, List.isPrefixOf, List.isPrefixOf, ih, hb]

theorem characters_closing (hashes : Nat) (lines : Bool) :
    characters (closing hashes lines) = Token.closing hashes lines := by
  have h : Char.ofUInt8 ('#'.toUInt8) = '#' ∧ Char.ofUInt8 ('"'.toUInt8) = '"' := by decide
  cases lines <;> simp [characters, closing, Token.closing, h]

theorem run_characters (s : List UInt8) : run (· == '#') (characters s) = signs s := by
  have h : (· == '#') ∘ Char.ofUInt8 = (· == '#'.toUInt8) := by
    funext b
    rw [Function.comp_apply, Bool.eq_iff_iff, beq_iff_eq, beq_iff_eq, ← ofUInt8_inj]
    rfl
  rw [run, characters, List.takeWhile_map, List.length_map, h, signs]

theorem slice?_of_le {s : List UInt8} {i : Nat} (h : i ≤ s.length) : slice? s i = some (s.drop i) :=
  if_pos h

/-! ## The scan from an index on -/

variable {hashes : Nat} {lines : Bool} {s : List UInt8} {i : Nat} {stack outer : List Frame}

/-- How far the open constructs reach if they are scanned from an index on. -/
def scanAt (stack : List Frame) (s : List UInt8) (i : Nat) : Extent :=
  (scan stack (characters (s.drop i))).after (min i s.length)

theorem scanAt_nil (h : i ≤ s.length) : scanAt [] s i = ⟨i, true⟩ := by
  simp [scanAt, scan, Extent.after, h]

theorem scanAt_of_length_le {f : Frame} (h : s.length ≤ i) :
    scanAt (f :: outer) s i = ⟨s.length, false⟩ := by
  rw [scanAt, List.drop_of_length_le h, characters, List.map_nil, scan, Extent.after,
    Nat.min_eq_right h, Nat.add_zero]

/-- A step of the scan moves the index on. -/
theorem scanAt_eq_of_step {stack' : List Frame} {n : Nat} (hi : i ≤ s.length)
    (h : scan stack (characters (s.drop i))
      = (scan stack' (characters (s.drop (i + n)))).after (min n (s.length - i))) :
    scanAt stack s i = scanAt stack' s (i + n) := by
  rw [scanAt, scanAt, h, Extent.after, Extent.after, Extent.after, ← Nat.add_assoc]
  congr 2
  omega

/-- What is open outside is scanned from where what is open inside has ended; that is told from the
octets behind an index. -/
theorem scanAt_append (inner outer : List Frame) {j k : Nat} (h : j + k ≤ s.length) :
    scanAt (inner ++ outer) s (j + k) = if (scanAt inner (s.drop j) k).closed = true
      then scanAt outer s (j + (scanAt inner (s.drop j) k).length)
      else ⟨j + (scanAt inner (s.drop j) k).length, false⟩ := by
  have hle := scan_le inner (characters (s.drop (j + k)))
  rw [length_characters, List.length_drop] at hle
  rw [scanAt, scan_append_stack, scanAt, List.drop_drop, List.length_drop,
    Nat.min_eq_left (Nat.le_sub_of_add_le' h), Nat.min_eq_left h, Extent.closed_after,
    Extent.length_after, ← Nat.add_assoc]
  split
  case isTrue =>
    rw [scanAt, drop_characters, List.drop_drop, Extent.after_after, Nat.min_eq_left (by omega)]
  case isFalse h => rw [Extent.after, Bool.not_eq_true _ |>.mp h]

/-! ## One move in a literal -/

/-- An octet is that of a character in ASCII. -/
theorem ofUInt8_eq_iff {b : UInt8} {c : Char} (hc : Char.ofUInt8 c.toUInt8 = c) :
    Char.ofUInt8 b = c ↔ b = c.toUInt8 := by
  rw [← ofUInt8_inj, hc]

theorem head?_characters_eq_iff {n : Nat} {c : Char} (hc : Char.ofUInt8 c.toUInt8 = c) :
    (characters (s.drop n)).head? = some c ↔ s[n]? = some c.toUInt8 := by
  rw [characters, List.head?_map, List.head?_drop]
  cases s[n]? with
  | none => simp
  | some b => simpa using ofUInt8_eq_iff hc

/-- The scan of a literal, one octet on. -/
theorem scan_quote (hashes : Nat) (lines : Bool) (outer : List Frame) (b : UInt8) (s : List UInt8) :
    scan (.quote hashes lines :: outer) (characters (b :: s))
      = if (closing hashes lines).isPrefixOf (b :: s) then
          (scan outer (characters ((b :: s).drop (closing hashes lines).length))).after
            (closing hashes lines).length
        else if b = '\n'.toUInt8 ∧ lines = false then ⟨0, false⟩
        else if b = '\\'.toUInt8 ∧ hashes ≤ signs s then
          if s[hashes]? = some '('.toUInt8 then
            (scan (.bracket lines :: .quote hashes lines :: outer)
              (characters (s.drop (hashes + 1)))).after (1 + min (hashes + 1) s.length)
          else
            (scan (.quote hashes lines :: outer)
              (characters (s.drop (hashes + 1)))).after (1 + min (hashes + 1) s.length)
        else (scan (.quote hashes lines :: outer) (characters s)).after 1 := by
  rw [characters_cons, scan]
  simp only [← characters_cons, ← characters_closing, isPrefixOf_characters, length_characters,
    drop_characters, run_characters, head?_characters_eq_iff (c := '(') rfl, List.length_take,
    ofUInt8_eq_iff (c := '\n') rfl, ofUInt8_eq_iff (c := '\\') rfl]

/-- What a move in a literal says about the scan is so. -/
def QuoteMove.IsRight (hashes : Nat) (lines : Bool) (s : List UInt8) (i : Nat) : QuoteMove → Prop
  | .close => scanAt [.quote hashes lines] s i = ⟨i + (closing hashes lines).length, true⟩
  | .stop => scanAt [.quote hashes lines] s i = ⟨i, false⟩
  | .skip n => scanAt [.quote hashes lines] s i = scanAt [.quote hashes lines] s (i + n + 1)
  | .enter n => i + n + 1 ≤ s.length
    ∧ scanAt [.quote hashes lines] s i = scanAt [.bracket lines, .quote hashes lines] s (i + n + 1)

theorem quoteMove?_of_lt (hi : i < s.length) : quoteMove? hashes lines s i = some
    (if (closing hashes lines).isPrefixOf (s.drop i) then .close
    else if s[i] = '\n'.toUInt8 ∧ lines = false then .stop
    else if s[i] = '\\'.toUInt8 ∧ hashes ≤ signs (s.drop (i + 1)) then
      if s[i + 1 + hashes]? = some '('.toUInt8 then .enter (hashes + 1) else .skip (hashes + 1)
    else .skip 0) := by
  simp only [quoteMove?, slice?_of_le hi.le, slice?_of_le (Nat.succ_le_of_lt hi),
    List.getElem?_eq_getElem hi, Option.map_some, ite_and, Nat.succ_eq_add_one]
  split_ifs <;> rfl

/-- **A move in a literal is in bounds and right.** -/
theorem exists_quoteMove? (hashes : Nat) (lines : Bool) (hi : i < s.length) :
    ∃ m, quoteMove? hashes lines s i = some m ∧ m.IsRight hashes lines s i := by
  have hscan := scan_quote hashes lines [] s[i] (s.drop (i + 1))
  rw [← List.drop_eq_getElem_cons hi, List.getElem?_drop, List.drop_drop, List.drop_drop,
    List.length_drop] at hscan
  refine ⟨_, quoteMove?_of_lt hi, ?_⟩
  split_ifs at hscan ⊢ with hc hline hesc hp
  case pos =>
    have hle := (List.isPrefixOf_iff_prefix.mp hc).length_le
    rw [List.length_drop] at hle
    refine (scanAt_eq_of_step hi.le ?_).trans (scanAt_nil (by omega))
    rw [hscan, Nat.min_eq_left hle]
  case pos =>
    rw [QuoteMove.IsRight, scanAt, hscan, Extent.after, Nat.min_eq_left hi.le]
    rfl
  case pos =>
    have hlt := (List.getElem?_eq_some_iff.mp hp).1
    refine ⟨by omega, scanAt_eq_of_step (n := hashes + 1 + 1) hi.le ?_⟩
    rw [hscan, show i + 1 + (hashes + 1) = i + (hashes + 1 + 1) by omega]
    congr 1
    omega
  case neg =>
    refine scanAt_eq_of_step (n := hashes + 1 + 1) hi.le ?_
    rw [hscan, show i + 1 + (hashes + 1) = i + (hashes + 1 + 1) by omega]
    congr 1
    omega
  case neg =>
    refine scanAt_eq_of_step (n := 1) hi.le ?_
    rw [hscan]
    congr 1
    omega

/-! ## One move in an interpolation -/

theorem overLines_eq (s : List UInt8) : ['"', '"'].isPrefixOf (characters s) = overLines s :=
  isPrefixOf_characters ['"'.toUInt8, '"'.toUInt8] s

theorem openingLength_eq (hashes : Nat) (lines : Bool) :
    openingLength hashes lines = hashes + 1 + (furtherQuotes lines).length := by
  cases lines <;> rfl

/-- A literal is opened where a quote stands behind the number signs. -/
theorem opening?_eq (t : List Char) : opening? t
    = if (t.drop (run (· == '#') t)).head? = some '"'
      then some (run (· == '#') t, ['"', '"'].isPrefixOf (t.drop (run (· == '#') t + 1)))
      else none := by
  rw [opening?, ← List.drop_drop]
  split
  case h_1 u hu => rw [hu, if_pos List.head?_cons, List.drop_succ_cons, List.drop_zero]
  case h_2 hno =>
    refine (if_neg fun h => ?_).symm
    obtain ⟨u, hu⟩ := List.head?_eq_some_iff.mp h
    exact hno u hu

/-- The literal that octets open. -/
theorem opening?_characters (s : List UInt8) : opening? (characters s)
    = if s[signs s]? = some '"'.toUInt8 then some (signs s, overLines (s.drop (signs s + 1)))
      else none := by
  rw [opening?_eq, run_characters, drop_characters, drop_characters, overLines_eq]
  simp only [head?_characters_eq_iff (c := '"') rfl]

/-- Number signs that open no literal are passed. -/
theorem scan_signs (lines : Bool) (outer : List Frame) {t : List Char} (h : opening? t = none) :
    scan (.bracket lines :: outer) t
      = (scan (.bracket lines :: outer) (t.drop (run (· == '#') t))).after (run (· == '#') t) := by
  induction t with
  | nil => simp [run, Extent.after]
  | cons c t ih =>
    by_cases hc : c = '#'
    case pos =>
      subst hc
      have hrun : run (· == '#') ('#' :: t) = run (· == '#') t + 1 := by simp [run]
      have ht : opening? t = none := by
        rw [opening?, hrun, List.drop_succ_cons] at h
        rw [opening?]
        split at h
        · cases h
        · rfl
      have hstep : ScanStep (.bracket lines :: outer) ('#' :: t) 1 (.bracket lines :: outer) :=
        .passInBracket (by decide) (by decide) (by simp) h
      rw [hstep.scan_eq, hrun, List.drop_succ_cons, List.drop_succ_cons, List.drop_zero, ih ht,
        Extent.after_after, Nat.add_comm]
    case neg => simp [run, hc, Extent.after]

/-- The scan of an interpolation, one octet on. -/
theorem scan_bracket (lines : Bool) (outer : List Frame) (b : UInt8) (s : List UInt8) :
    scan (.bracket lines :: outer) (characters (b :: s))
      = if b = '('.toUInt8 then
          (scan (.bracket lines :: .bracket lines :: outer) (characters s)).after 1
        else if b = ')'.toUInt8 then (scan outer (characters s)).after 1
        else if b = '\n'.toUInt8 ∧ lines = false then ⟨0, false⟩
        else if b = '"'.toUInt8 ∨ b = '#'.toUInt8 then
          if (b :: s)[signs (b :: s)]? = some '"'.toUInt8 then
            let r := (b :: s).drop (signs (b :: s) + 1)
            let opened := furtherQuotes (overLines r)
            (scan (.quote (signs (b :: s)) (overLines r) :: .bracket lines :: outer)
              (characters (r.drop opened.length))).after (signs (b :: s) + 1 + opened.length)
          else
            (scan (.bracket lines :: outer)
              (characters ((b :: s).drop (signs (b :: s))))).after (signs (b :: s))
        else (scan (.bracket lines :: outer) (characters s)).after 1 := by
  have hopen := opening?_characters (b :: s)
  by_cases hq : b = '"'.toUInt8 ∨ b = '#'.toUInt8
  case pos =>
    have hb : b ≠ '('.toUInt8 ∧ b ≠ ')'.toUInt8 ∧ b ≠ '\n'.toUInt8 := by
      rcases hq with rfl | rfl <;> decide
    rw [if_neg hb.1, if_neg hb.2.1, if_neg fun h => hb.2.2 h.1, if_pos hq]
    split_ifs at hopen ⊢ with hquote
    case pos =>
      rw [(ScanStep.openQuote hopen).scan_eq]
      simp only [openingLength_eq, drop_characters, List.drop_drop]
    case neg => rw [scan_signs lines outer hopen, run_characters, drop_characters]
  case neg =>
    have hsigns : signs (b :: s) = 0 := by
      simp [signs, not_or.mp hq]
    rw [hsigns, List.getElem?_cons_zero, if_neg fun h => hq (.inl (Option.some.inj h))] at hopen
    rw [if_neg hq, characters_cons, scan, ← characters_cons, hopen]
    simp only [ofUInt8_eq_iff (c := '(') rfl, ofUInt8_eq_iff (c := ')') rfl,
      ofUInt8_eq_iff (c := '\n') rfl]

/-- What a move in an interpolation says about the scan is so. -/
def BracketMove.IsRight (lines : Bool) (outer : List Frame) (s : List UInt8) (i : Nat) :
    BracketMove → Prop
  | .open => scanAt (.bracket lines :: outer) s i
    = scanAt (.bracket lines :: .bracket lines :: outer) s (i + 1)
  | .close => scanAt (.bracket lines :: outer) s i = scanAt outer s (i + 1)
  | .stop => scanAt (.bracket lines :: outer) s i = ⟨i, false⟩
  | .skip n => scanAt (.bracket lines :: outer) s i = scanAt (.bracket lines :: outer) s (i + n + 1)
  | .enter n => i + n + 1 ≤ s.length ∧ scanAt (.bracket lines :: outer) s i
    = scanAt (.quote n (overLines (s.drop (i + n + 1))) :: .bracket lines :: outer) s
      (i + n + 1 + (furtherQuotes (overLines (s.drop (i + n + 1)))).length)

theorem bracketMove?_of_lt (hi : i < s.length) : bracketMove? lines s i = some
    (if s[i] = '('.toUInt8 then .open
    else if s[i] = ')'.toUInt8 then .close
    else if s[i] = '\n'.toUInt8 ∧ lines = false then .stop
    else if s[i] = '"'.toUInt8 ∨ s[i] = '#'.toUInt8 then
      if s[i + signs (s.drop i)]? = some '"'.toUInt8 then .enter (signs (s.drop i))
      else .skip (signs (s.drop i) - 1)
    else .skip 0) := by
  simp only [bracketMove?, slice?_of_le hi.le, List.getElem?_eq_getElem hi, Option.bind_some,
    Option.map_some]
  split_ifs <;> rfl

theorem signs_le (s : List UInt8) : signs s ≤ s.length := (List.takeWhile_sublist _).length_le

theorem furtherQuotes_isPrefix (s : List UInt8) : furtherQuotes (overLines s) <+: s := by
  unfold furtherQuotes
  split
  case isTrue h => exact List.isPrefixOf_iff_prefix.mp h
  case isFalse => exact List.nil_prefix

/-- **A move in an interpolation is in bounds and right.** -/
theorem exists_bracketMove? (lines : Bool) (outer : List Frame) (hi : i < s.length) :
    ∃ m, bracketMove? lines s i = some m ∧ m.IsRight lines outer s i := by
  have hscan := scan_bracket lines outer s[i] (s.drop (i + 1))
  rw [← List.drop_eq_getElem_cons hi, List.getElem?_drop, List.drop_drop, List.drop_drop] at hscan
  have hone : min 1 (s.length - i) = 1 := by omega
  refine ⟨_, bracketMove?_of_lt hi, ?_⟩
  split_ifs at hscan ⊢ with ho hc hline hq hquote
  case pos => exact scanAt_eq_of_step hi.le (by rw [hscan, hone])
  case pos => exact scanAt_eq_of_step hi.le (by rw [hscan, hone])
  case pos =>
    rw [BracketMove.IsRight, scanAt, hscan, Extent.after, Nat.min_eq_left hi.le]
    rfl
  case pos =>
    have hlt := (List.getElem?_eq_some_iff.mp hquote).1
    have hle := (furtherQuotes_isPrefix (s.drop (i + (signs (s.drop i) + 1)))).length_le
    rw [List.length_drop] at hle
    refine ⟨hlt, ?_⟩
    rw [Nat.add_assoc i, Nat.add_assoc i]
    refine scanAt_eq_of_step hi.le ?_
    rw [hscan, Nat.min_eq_left (by omega)]
    simp only [List.drop_drop, Nat.add_assoc]
  case neg =>
    -- An octet that is not a quote here is a number sign.
    have hpos : signs (s.drop i) ≠ 0 := fun h => by
      rw [h, Nat.add_zero, List.getElem?_eq_getElem hi, Option.some.injEq] at hquote
      rw [List.drop_eq_getElem_cons hi, hq.resolve_left hquote] at h
      simp [signs] at h
    have hle := signs_le (s.drop i)
    rw [List.length_drop] at hle
    refine scanAt_eq_of_step (n := signs (s.drop i) - 1 + 1) hi.le ?_
    rw [hscan, Nat.sub_add_cancel (Nat.pos_of_ne_zero hpos), Nat.min_eq_left hle]
  case neg => exact scanAt_eq_of_step hi.le (by rw [hscan, hone])

/-! ## The scanners of octets -/

theorem scanAt_drop {stack : List Frame} {j : Nat} (h : j ≤ s.length) :
    (scanAt stack (s.drop j) 0).after j = scanAt stack s j := by
  rw [scanAt, scanAt, Nat.zero_min, Extent.after_after, List.drop_drop, Nat.min_eq_left h]
  rfl

mutual

/-- **A literal is scanned in bounds, and like its characters.** -/
theorem scanLiteral?_eq (hashes : Nat) (s : List UInt8) : scanLiteral? hashes s = some
    (scanAt [.quote hashes (overLines s)] s (furtherQuotes (overLines s)).length) := by
  have hle := (furtherQuotes_isPrefix s).length_le
  rw [scanLiteral?]
  split
  case h_1 h => rw [slice?_of_le hle] at h; cases h
  case h_2 r h =>
    obtain rfl := Option.some.inj ((slice?_of_le hle).symm.trans h)
    rw [scanLiteralFrom?_eq, Option.map_some, scanAt_drop hle]
termination_by (s.length, 1)
decreasing_by
  rw [Prod.lex_def, List.length_drop]
  omega

theorem scanLiteralFrom?_eq (hashes : Nat) (lines : Bool) (s : List UInt8) (i : Nat) :
    scanLiteralFrom? hashes lines s i = some (scanAt [.quote hashes lines] s i) := by
  rw [scanLiteralFrom?]
  split
  case isFalse h => rw [scanAt_of_length_le (Nat.le_of_not_lt h)]
  case isTrue hi =>
    obtain ⟨m, hm, hright⟩ := exists_quoteMove? hashes lines hi
    rw [hm]
    cases m with
    | close => rw [hright]
    | stop => rw [hright]
    | skip n =>
      dsimp only
      rw [hright, scanLiteralFrom?_eq]
    | enter n =>
      obtain ⟨hle, hright⟩ := hright
      have hinner := scanAt_append [.bracket lines] [.quote hashes lines] (k := 0) hle
      dsimp only
      split
      case h_1 h => rw [slice?_of_le hle] at h; cases h
      case h_2 r h =>
        obtain rfl := Option.some.inj ((slice?_of_le hle).symm.trans h)
        rw [scanInterpolation?_eq]
        dsimp only
        rw [scanLiteralFrom?_eq, hright]
        exact (apply_ite some ..).symm.trans (congrArg some hinner.symm)
termination_by (s.length - i, 0)
decreasing_by
  all_goals
    rw [Prod.lex_def]
    grind

theorem scanInterpolation?_eq (lines : Bool) (s : List UInt8) :
    scanInterpolation? lines s = some (scanAt [.bracket lines] s 0) := by
  rw [scanInterpolation?, scanInterpolationFrom?_eq]
  rfl
termination_by (s.length, 1)

theorem scanInterpolationFrom?_eq (lines : Bool) (s : List UInt8) (depth i : Nat) :
    scanInterpolationFrom? lines s depth i
      = some (scanAt (List.replicate (depth + 1) (.bracket lines)) s i) := by
  rw [scanInterpolationFrom?.eq_def, List.replicate_succ]
  split
  case isFalse h => rw [scanAt_of_length_le (Nat.le_of_not_lt h)]
  case isTrue hi =>
    obtain ⟨m, hm, hright⟩ :=
      exists_bracketMove? lines (List.replicate depth (.bracket lines)) hi
    rw [hm]
    cases m with
    | «open» =>
      dsimp only
      rw [hright, scanInterpolationFrom?_eq, List.replicate_succ, List.replicate_succ]
    | close =>
      rw [hright]
      cases depth with
      | zero => rw [List.replicate_zero, scanAt_nil hi]
      | succ depth =>
        dsimp only
        rw [scanInterpolationFrom?_eq]
    | stop => rw [hright]
    | skip n =>
      dsimp only
      rw [hright, scanInterpolationFrom?_eq, List.replicate_succ]
    | enter n =>
      obtain ⟨hle, hright⟩ := hright
      have hquotes := (furtherQuotes_isPrefix (s.drop (i + n + 1))).length_le
      rw [List.length_drop] at hquotes
      have hinner := scanAt_append [.quote n (overLines (s.drop (i + n + 1)))]
        (List.replicate (depth + 1) (.bracket lines)) (s := s) (j := i + n + 1)
        (k := (furtherQuotes (overLines (s.drop (i + n + 1)))).length) (by omega)
      dsimp only
      split
      case h_1 h => rw [slice?_of_le hle] at h; cases h
      case h_2 r h =>
        obtain rfl := Option.some.inj ((slice?_of_le hle).symm.trans h)
        rw [scanLiteral?_eq]
        dsimp only
        rw [scanInterpolationFrom?_eq, hright]
        exact (apply_ite some ..).symm.trans (congrArg some hinner.symm)
termination_by (s.length - i, 0)
decreasing_by
  all_goals
    rw [Prod.lex_def]
    grind

end

/-! ## The octets of a text -/

/-- A character in ASCII. -/
def IsAscii (c : Char) : Prop := c.toNat < 128

instance (c : Char) : Decidable (IsAscii c) := inferInstanceAs (Decidable (c.toNat < 128))

/-- The octets of a text, each as the character of its number. -/
def spread (text : List Char) : List Char := characters (encode text)

/-- An extent on a text, as one on its octets. -/
def onOctets (text : List Char) (e : Extent) : Extent := ⟨byteLength (text.take e.length), e.closed⟩

/-- The octet of a character in ASCII is its number. -/
theorem characters_of_isAscii {c : Char} (h : IsAscii c) :
    characters (String.utf8EncodeChar c) = [c] := by
  have hle : c.val.toNat ≤ 127 := Nat.le_of_lt_succ h
  rw [String.utf8EncodeChar, if_pos hle, characters, List.map_singleton]
  congr 1
  apply Char.ext
  apply UInt32.toNat_inj.mp
  change (UInt8.ofNat c.val.toNat).toUInt32.toNat = c.val.toNat
  rw [UInt8.toNat_toUInt32, UInt8.toNat_ofNat']
  exact Nat.mod_eq_of_lt (Nat.lt_trans h (by decide))

theorem le_toNat_of_mem {c : Char} (h : ¬ IsAscii c) {b : UInt8}
    (hb : b ∈ String.utf8EncodeChar c) : 128 ≤ b.toNat := by
  have hle : ¬ c.val.toNat ≤ 127 := fun hle => h (Nat.lt_succ_of_le hle)
  rw [String.utf8EncodeChar, if_neg hle] at hb
  -- Two, three or four octets, each with its highest bit set.
  split at hb
  case isTrue =>
    simp only [List.mem_cons, List.not_mem_nil, or_false] at hb
    rcases hb with rfl | rfl <;> rw [UInt8.toNat_ofNat'] <;> omega
  case isFalse =>
    split at hb
    all_goals
      simp only [List.mem_cons, List.not_mem_nil, or_false] at hb
      rcases hb with rfl | rfl | rfl | rfl <;> rw [UInt8.toNat_ofNat'] <;> omega

/-- The octets of a character beyond ASCII are beyond ASCII. -/
theorem not_isAscii_of_mem {c d : Char} (h : ¬ IsAscii c)
    (hd : d ∈ characters (String.utf8EncodeChar c)) : ¬ IsAscii d := by
  obtain ⟨b, hb, rfl⟩ := List.mem_map.mp hd
  exact Nat.not_lt_of_le (le_toNat_of_mem h hb)

theorem length_characters_utf8EncodeChar (c : Char) :
    (characters (String.utf8EncodeChar c)).length = c.utf8Size := by
  rw [length_characters, String.length_utf8EncodeChar]

theorem utf8Size_of_isAscii {c : Char} (h : IsAscii c) : c.utf8Size = 1 := by
  rw [← length_characters_utf8EncodeChar, characters_of_isAscii h, List.length_singleton]

@[simp] theorem spread_nil : spread [] = [] := rfl

theorem spread_cons (c : Char) (t : List Char) :
    spread (c :: t) = characters (String.utf8EncodeChar c) ++ spread t := by
  rw [spread, encode, List.flatMap_cons, characters, List.map_append]
  rfl

theorem length_spread (t : List Char) : (spread t).length = byteLength t := by
  induction t with
  | nil => rfl
  | cons c t ih =>
    rw [spread_cons, List.length_append, length_characters_utf8EncodeChar, ih, byteLength_cons]

theorem spread_cons_of_isAscii {c : Char} (h : IsAscii c) (t : List Char) :
    spread (c :: t) = c :: spread t := by
  rw [spread_cons, characters_of_isAscii h, List.singleton_append]

theorem spread_append_of_isAscii {p : List Char} (hp : ∀ c ∈ p, IsAscii c) (t : List Char) :
    spread (p ++ t) = p ++ spread t := by
  induction p with
  | nil => rfl
  | cons c p ih =>
    rw [List.cons_append, spread_cons_of_isAscii (hp c List.mem_cons_self),
      ih fun d hd => hp d (List.mem_cons_of_mem _ hd), List.cons_append]

theorem byteLength_of_isAscii {p : List Char} (hp : ∀ c ∈ p, IsAscii c) :
    byteLength p = p.length := by
  induction p with
  | nil => rfl
  | cons c p ih =>
    rw [byteLength_cons, utf8Size_of_isAscii (hp c List.mem_cons_self),
      ih fun d hd => hp d (List.mem_cons_of_mem _ hd), List.length_cons, Nat.add_comm]

/-- The octets of a character beyond ASCII: one, and more after it. -/
theorem exists_spread_cons {c : Char} (h : ¬ IsAscii c) (t : List Char) :
    ∃ d x, spread (c :: t) = d :: x ++ spread t ∧ x.length + 1 = c.utf8Size
      ∧ ∀ e ∈ d :: x, ¬ IsAscii e := by
  have hlen := length_characters_utf8EncodeChar c
  rw [spread_cons]
  cases hx : characters (String.utf8EncodeChar c) with
  | nil => exact absurd (hlen.symm.trans (congrArg List.length hx)) c.utf8Size_pos.ne'
  | cons d x =>
    refine ⟨d, x, rfl, by rw [← hlen, hx, List.length_cons], fun e he => ?_⟩
    exact not_isAscii_of_mem h (hx ▸ he)

theorem isPrefixOf_spread {p : List Char} (hp : ∀ c ∈ p, IsAscii c) (t : List Char) :
    p.isPrefixOf (spread t) = p.isPrefixOf t := by
  induction p generalizing t with
  | nil => rfl
  | cons a p ih =>
    have ha := hp a List.mem_cons_self
    cases t with
    | nil => rfl
    | cons c t =>
      by_cases hc : IsAscii c
      case pos =>
        rw [spread_cons_of_isAscii hc, List.isPrefixOf, List.isPrefixOf,
          ih fun d hd => hp d (List.mem_cons_of_mem _ hd)]
      case neg =>
        obtain ⟨d, x, hx, -, hd⟩ := exists_spread_cons hc t
        have hne : a ≠ c ∧ a ≠ d :=
          ⟨fun h => hc (h ▸ ha), fun h => hd d List.mem_cons_self (h ▸ ha)⟩
        rw [hx, List.cons_append, List.isPrefixOf, List.isPrefixOf,
          beq_eq_false_iff_ne.mpr hne.1, beq_eq_false_iff_ne.mpr hne.2, Bool.false_and,
          Bool.false_and]

theorem head?_spread {c : Char} (hc : IsAscii c) (t : List Char) :
    (spread t).head? = some c ↔ t.head? = some c := by
  have h := isPrefixOf_spread (p := [c]) (by simpa using hc) t
  have hiff : ∀ u : List Char, u.head? = some c ↔ [c].isPrefixOf u = true := by
    rintro (_ | ⟨d, u⟩)
    · simp
    · simpa [List.isPrefixOf] using eq_comm
  rw [hiff, hiff, h]

/-- The number signs in front of a text are those in front of its octets. -/
theorem run_spread (t : List Char) : run (· == '#') (spread t) = run (· == '#') t := by
  induction t with
  | nil => rfl
  | cons c t ih =>
    by_cases hc : IsAscii c
    case pos =>
      rw [spread_cons_of_isAscii hc, run, run, List.takeWhile_cons, List.takeWhile_cons]
      split
      · exact congrArg (· + 1) ih
      · rfl
    case neg =>
      obtain ⟨d, x, hx, -, hd⟩ := exists_spread_cons hc t
      have hne : c ≠ '#' ∧ d ≠ '#' :=
        ⟨fun h => hc (by rw [h]; decide), fun h => hd d List.mem_cons_self (by rw [h]; decide)⟩
      simp [hx, run, hne.1, hne.2]

/-- Characters in ASCII are as many octets. -/
theorem drop_spread {n : Nat} {t : List Char} (h : ∀ c ∈ t.take n, IsAscii c) (hn : n ≤ t.length) :
    (spread t).drop n = spread (t.drop n) := by
  conv_lhs => rw [← List.take_append_drop n t, spread_append_of_isAscii h]
  exact List.drop_left' (List.length_take_of_le hn)

theorem isAscii_of_mem_take_run {n : Nat} {t : List Char} (h : n ≤ run (· == '#') t) {c : Char}
    (hc : c ∈ t.take n) : IsAscii c := by
  rw [take_run h] at hc
  rw [List.eq_of_mem_replicate hc]
  decide

theorem drop_spread_of_le_run {n : Nat} {t : List Char} (h : n ≤ run (· == '#') t) :
    (spread t).drop n = spread (t.drop n) :=
  drop_spread (fun _ => isAscii_of_mem_take_run h) (h.trans (run_le _ t))

theorem isAscii_of_mem_quotes {c : Char} (h : c ∈ ['"', '"']) : IsAscii c := by
  rw [List.eq_of_mem_replicate (n := 2) h]
  decide

/-- The octets of a text open what the text opens. -/
theorem opening?_spread (t : List Char) : opening? (spread t) = opening? t := by
  have hdrop := drop_spread_of_le_run (Nat.le_refl (run (· == '#') t))
  rw [opening?_eq, opening?_eq t, run_spread, ← List.drop_drop, hdrop]
  by_cases hhead : (t.drop (run (· == '#') t)).head? = some '"'
  case pos =>
    obtain ⟨u, hu⟩ := List.head?_eq_some_iff.mp hhead
    have hspread := spread_cons_of_isAscii (c := '"') (by decide) u
    have hlines := isPrefixOf_spread (fun _ => isAscii_of_mem_quotes) u
    rw [if_pos hhead, if_pos ((head?_spread (by decide) _).mpr hhead), ← List.drop_drop, hu,
      hspread, List.drop_succ_cons, List.drop_succ_cons, List.drop_zero, List.drop_zero, hlines]
  case neg => rw [if_neg hhead, if_neg fun h => hhead ((head?_spread (by decide) _).mp h)]

theorem isAscii_of_mem_closing {c : Char} (h : c ∈ Token.closing hashes lines) : IsAscii c := by
  rcases List.mem_append.mp h with h | h <;> rw [List.eq_of_mem_replicate h] <;> decide

theorem isAscii_of_mem_furtherQuotes (lines : Bool) :
    ∀ c ∈ characters (furtherQuotes lines), IsAscii c := by
  cases lines with
  | false => nofun
  | true => exact fun _ => isAscii_of_mem_quotes

/-- An octet beyond ASCII is passed. -/
theorem scanStep_of_not_isAscii (f : Frame) (outer : List Frame) {d : Char} (hd : ¬ IsAscii d)
    (u : List Char) : ScanStep (f :: outer) (d :: u) 1 (f :: outer) := by
  have hne : ∀ c, IsAscii c → d ≠ c := fun c hc h => hd (h ▸ hc)
  cases f with
  | quote hashes lines =>
    exact .passInQuote (not_closing_isPrefixOf _ _ _ (hne '"' (by decide)))
      (fun h => hne '\n' (by decide) h.1) fun h => hne '\\' (by decide) h.1
  | bracket lines =>
    refine .passInBracket (hne _ (by decide)) (hne _ (by decide))
      (fun h => hne '\n' (by decide) h.1) (Option.eq_none_iff_forall_not_mem.mpr fun o ho => ?_)
    obtain ⟨c, _, hcons, hc⟩ := head_of_opening? ho
    obtain rfl := (List.cons.inj hcons).1
    rcases hc with rfl | rfl <;> exact hd (by decide)

/-- Octets beyond ASCII are passed. -/
theorem scan_append_of_not_isAscii (f : Frame) (outer : List Frame) {x : List Char}
    (hx : ∀ d ∈ x, ¬ IsAscii d) (u : List Char) :
    scan (f :: outer) (x ++ u) = (scan (f :: outer) u).after x.length := by
  induction x with
  | nil => simp [Extent.after]
  | cons d x ih =>
    have hstep := scanStep_of_not_isAscii f outer (hx d List.mem_cons_self) (x ++ u)
    rw [List.cons_append, hstep.scan_eq, List.drop_succ_cons, List.drop_zero,
      ih fun e he => hx e (List.mem_cons_of_mem _ he), Extent.after_after, List.length_cons,
      Nat.add_comm]

/-- What one character more leaves out of its octets is passed. -/
theorem scan_drop_one_spread (hs : stack ≠ []) (t : List Char) :
    scan stack ((spread t).drop 1)
      = (scan stack (spread (t.drop 1))).after (byteLength (t.take 1) - 1) := by
  obtain ⟨f, outer, rfl⟩ := List.exists_cons_of_ne_nil hs
  cases t with
  | nil => simp [Extent.after]
  | cons c t =>
    by_cases hc : IsAscii c
    case pos =>
      rw [spread_cons_of_isAscii hc]
      simp [Extent.after, utf8Size_of_isAscii hc]
    case neg =>
      obtain ⟨d, x, hx, hlen, hd⟩ := exists_spread_cons hc t
      rw [hx, List.cons_append, List.drop_succ_cons, List.drop_zero,
        scan_append_of_not_isAscii f outer fun e he => hd e (List.mem_cons_of_mem _ he)]
      simp [← hlen]

theorem onOctets_after (t : List Char) (n : Nat) (e : Extent) :
    onOctets t (e.after n) = (onOctets (t.drop n) e).after (byteLength (t.take n)) := by
  rw [onOctets, onOctets, Extent.length_after, List.take_add, byteLength_append]
  rfl

section

variable {stack' : List Frame} {t : List Char} {n : Nat}

/-- A scan goes on behind characters in ASCII as it does behind their octets. -/
theorem scan_drop_spread (stack : List Frame) (h : ∀ c ∈ t.take n, IsAscii c) (hn : n ≤ t.length) :
    (scan stack ((spread t).drop n)).after n
      = (scan stack (spread (t.drop n))).after (byteLength (t.take n)) := by
  rw [drop_spread h hn, byteLength_of_isAscii h, List.length_take_of_le hn]

/-- A scan goes on behind an escape as it does behind its octets: of the character escaped there may
be some left, but those are passed. -/
theorem scan_drop_escape_spread (hs : stack ≠ []) (h : hashes ≤ run (· == '#') t) :
    (scan stack ((spread t).drop (hashes + 1))).after (1 + ((spread t).take (hashes + 1)).length)
      = (scan stack (spread (t.drop (hashes + 1)))).after
        (byteLength (('\\' :: t).take (1 + (t.take (hashes + 1)).length))) := by
  have hrun : byteLength (t.take hashes) = hashes := by
    rw [byteLength_of_isAscii fun _ => isAscii_of_mem_take_run h,
      List.length_take_of_le (h.trans (run_le _ t))]
  have hlen : byteLength t = hashes + byteLength (t.drop hashes) := by
    conv_lhs => rw [← List.take_append_drop hashes t, byteLength_append, hrun]
  have hone : 1 + min (hashes + 1) (byteLength t) + (byteLength ((t.drop hashes).take 1) - 1)
      = 1 + (hashes + byteLength ((t.drop hashes).take 1)) := by
    rw [hlen]
    cases t.drop hashes with
    | nil => simp
    | cons d u =>
      have := d.utf8Size_pos
      rw [List.take_succ_cons, List.take_zero, byteLength_cons, byteLength_cons, byteLength_nil]
      omega
  rw [← List.drop_drop, drop_spread_of_le_run h, scan_drop_one_spread hs, List.drop_drop,
    Extent.after_after, List.length_take, length_spread, hone, Nat.add_comm 1 (t.take _).length,
    List.take_succ_cons, byteLength_cons, List.length_take, ← List.take_eq_take_min, List.take_add,
    byteLength_append, hrun]
  rfl

/-- A step over characters in ASCII. -/
theorem scan_spread_of_isAscii (h : ScanStep stack (spread t) n stack')
    (hascii : ∀ c ∈ t.take n, IsAscii c) (hn : n ≤ t.length) :
    scan stack (spread t) = (scan stack' (spread (t.drop n))).after (byteLength (t.take n)) :=
  h.scan_eq.trans (scan_drop_spread stack' hascii hn)

/-- A character that is passed, is passed in its octets. -/
theorem scan_spread_cons {f : Frame} {c : Char}
    (h : IsAscii c → ScanStep (f :: outer) (c :: spread t) 1 (f :: outer)) :
    scan (f :: outer) (spread (c :: t))
      = (scan (f :: outer) (spread t)).after (byteLength ((c :: t).take 1)) := by
  rw [List.take_succ_cons, List.take_zero, byteLength_cons, byteLength_nil, Nat.add_zero]
  by_cases hc : IsAscii c
  case pos =>
    rw [spread_cons_of_isAscii hc, (h hc).scan_eq, utf8Size_of_isAscii hc]
    rfl
  case neg =>
    rw [spread_cons, scan_append_of_not_isAscii f outer fun _ => not_isAscii_of_mem hc,
      length_characters_utf8EncodeChar]

theorem closing_isPrefixOf_spread (hashes : Nat) (lines : Bool) (t : List Char) :
    (Token.closing hashes lines).isPrefixOf (spread t)
      = (Token.closing hashes lines).isPrefixOf t :=
  isPrefixOf_spread (fun _ => isAscii_of_mem_closing) t

/-- **Where the scanner makes a step, it goes on in the octets as it does behind those of the
step.** -/
theorem scan_spread_of_step (h : ScanStep stack t n stack') :
    scan stack (spread t) = (scan stack' (spread (t.drop n))).after (byteLength (t.take n)) := by
  cases h with
  | @closeQuote hashes lines _ _ h =>
    have htake := List.prefix_iff_eq_take.mp (List.isPrefixOf_iff_prefix.mp h)
    have hascii : ∀ c ∈ t.take (Token.closing hashes lines).length, IsAscii c := by
      rw [← htake]
      exact fun _ => isAscii_of_mem_closing
    exact scan_spread_of_isAscii (.closeQuote ((closing_isPrefixOf_spread ..).trans h)) hascii
      (List.isPrefixOf_iff_prefix.mp h).length_le
  | @escape hashes lines outer t h =>
    have hhead : escaped lines ((spread t).drop hashes) = escaped lines (t.drop hashes) := by
      rw [drop_spread_of_le_run h, escaped, escaped]
      exact if_congr (head?_spread (by decide) _) rfl rfl
    rw [drop_escape, ← scan_drop_escape_spread (by simp) h, spread_cons_of_isAscii (by decide),
      (ScanStep.escape (run_spread t ▸ h)).scan_eq, drop_escape, hhead]
  | passInQuote hclose hline hescape =>
    refine scan_spread_cons fun hc => .passInQuote ?_ hline ?_
    · rwa [← spread_cons_of_isAscii hc, closing_isPrefixOf_spread]
    · rwa [run_spread]
  | openBracket | closeBracket =>
    refine scan_spread_of_isAscii ?_ (by simp; decide) (Nat.le_add_left ..)
    rw [spread_cons_of_isAscii (by decide)]
    constructor
  | @openQuote lines outer _ hashes lines' h =>
    have hascii : ∀ c ∈ t.take (openingLength hashes lines'), IsAscii c := by
      rw [take_of_opening? h]
      exact fun _ hc => isAscii_of_mem_closing (List.mem_reverse.mp hc)
    exact scan_spread_of_isAscii (.openQuote ((opening?_spread t).trans h)) hascii
      (openingLength_le h)
  | passInBracket hopen hclose hline hquote =>
    refine scan_spread_cons fun hc => .passInBracket hopen hclose hline ?_
    rwa [← spread_cons_of_isAscii hc, opening?_spread]

/-- Where the scanner stops, it stops in the octets. -/
theorem scanStop_spread {closed : Bool} (h : ScanStop stack t closed) :
    ScanStop stack (spread t) closed := by
  cases h with
  | closed => exact .closed
  | atEnd => exact .atEnd
  | atLineEnd h =>
    rw [spread_cons_of_isAscii (by decide)]
    exact .atLineEnd h

end

/-- **The octets of a text are scanned like its characters.** -/
theorem scan_spread (stack : List Frame) (t : List Char) :
    scan stack (spread t) = onOctets t (scan stack t) := by
  induction stack, t using scan_induction with
  | stop h =>
    rw [(scanStop_spread h).scan_eq, h.scan_eq]
    rfl
  | step h ih => rw [scan_spread_of_step h, ih, h.scan_eq, onOctets_after]

/-! ## What the scanners find -/

/-- What is known of how far a construct reaches in octets: `opening` is what is left of the octets
that open it, `closing` is what closes it. -/
structure IsExtent (s opening closing : List UInt8) (e : Extent) : Prop where
  le : e.length ≤ s.length
  closed : e.closed = true → ∃ inside, s.take e.length = opening ++ inside ++ closing
  unclosed : e.closed = false → e.length = s.length ∨ s[e.length]? = some '\n'.toUInt8

theorem characters_closer (f : Frame) : characters (f.closer.map Char.toUInt8) = f.closer := by
  cases f with
  | quote hashes lines => exact characters_closing hashes lines
  | bracket lines => rfl

theorem suffix_of_characters_suffix {p s : List UInt8} (h : characters p <:+ characters s) :
    p <:+ s := by
  obtain ⟨x, hx⟩ := h
  obtain ⟨y, z, rfl, -, hz⟩ := List.map_eq_append_iff.mp hx.symm
  obtain rfl := List.map_injective_iff.mpr (fun _ _ => ofUInt8_inj.mp) hz
  exact List.suffix_append _ _

/-- **One open construct is scanned to its end, or to where it has to stop.** -/
theorem isExtent_scanAt (f : Frame) {opening : List UInt8} (hopen : opening <+: s) :
    IsExtent s opening (f.closer.map Char.toUInt8) (scanAt [f] s opening.length) := by
  have htake := List.prefix_iff_eq_take.mp hopen
  have hle := scan_le [f] (characters (s.drop opening.length))
  rw [length_characters, List.length_drop] at hle
  rw [scanAt, Nat.min_eq_left hopen.length_le]
  refine ⟨Nat.add_le_of_le_sub' hopen.length_le hle, fun hc => ?_, fun hc => ?_⟩
  case refine_1 =>
    have hclose := scan_closed hc (f := f) rfl
    rw [← characters_closer, characters, characters, ← List.map_take] at hclose
    obtain ⟨inside, hinside⟩ := suffix_of_characters_suffix hclose
    exact ⟨inside, by
      rw [Extent.length_after, List.take_add, ← htake, characters, ← hinside, List.append_assoc]⟩
  case refine_2 =>
    have hstop := scan_unclosed hc
    rw [drop_characters, List.drop_drop, characters, List.head?_map, List.head?_drop] at hstop
    rw [Extent.length_after]
    cases hget : s[opening.length + (scan [f] (characters (s.drop opening.length))).length]? with
    | none =>
      have hend := List.getElem?_eq_none_iff.mp hget
      exact .inl (Nat.le_antisymm (Nat.add_le_of_le_sub' hopen.length_le hle) hend)
    | some b =>
      rw [hget, Option.map_some, Option.all_some, beq_iff_eq] at hstop
      exact .inr (congrArg some ((ofUInt8_eq_iff rfl).mp hstop))

/-- What is open behind ASCII reaches as far in the octets of a text as in the text. -/
theorem scanAt_encode (f : Frame) {opening : List UInt8} (text : List Char)
    (hopen : opening <+: encode text) (hascii : ∀ c ∈ characters opening, IsAscii c) :
    scanAt [f] (encode text) opening.length
      = onOctets text ((scan [f] (text.drop opening.length)).after opening.length) := by
  have hfront : characters opening <+: text := by
    rw [← List.isPrefixOf_iff_prefix, ← isPrefixOf_spread hascii, spread, isPrefixOf_characters]
    exact List.isPrefixOf_iff_prefix.mpr hopen
  have htake := List.prefix_iff_eq_take.mp hfront
  have hle := hfront.length_le
  rw [length_characters] at htake hle
  rw [scanAt, Nat.min_eq_left hopen.length_le, ← drop_characters, ← spread,
    scan_drop_spread _ (htake ▸ hascii) hle, scan_spread, onOctets_after]

/-- A literal with its opening number signs and its first quote before it. -/
theorem literal?_append (hashes : Nat) (text : List Char) :
    literal? (List.replicate hashes '#' ++ '"' :: text)
      = some ((scan [.quote hashes (['"', '"'].isPrefixOf text)]
        (text.drop (furtherQuotes (['"', '"'].isPrefixOf text)).length)).after
          (hashes + 1 + (furtherQuotes (['"', '"'].isPrefixOf text)).length)) := by
  have hrun : run (· == '#') (List.replicate hashes '#' ++ '"' :: text) = hashes := by
    rw [run_append_of_all, List.length_replicate]
    · simp
    · simp
  have hdrop : (List.replicate hashes '#' ++ '"' :: text).drop hashes = '"' :: text :=
    List.drop_left' List.length_replicate
  rw [literal?, opening?_eq, hrun, ← List.drop_drop, hdrop, if_pos List.head?_cons, Option.map_some]
  simp only [openingLength_eq, List.drop_succ_cons, List.drop_zero]
  rw [Nat.add_assoc, ← List.drop_drop, hdrop, Nat.add_comm 1, List.drop_succ_cons]

/-- **A literal and an interpolation are scanned in their octets without an index or a slice out of
bounds**, whatever the octets are, and end where they say; on a text they end between two of its
characters, where the scan of its characters ends. -/
theorem exists_isExtent (s : List UInt8) :
    (∀ hashes, ∃ e, scanLiteral? hashes s = some e
      ∧ IsExtent s (furtherQuotes (overLines s)) (closing hashes (overLines s)) e
      ∧ ∀ text, s = encode text → ∃ n, e.length = byteLength (text.take n)
        ∧ literal? (List.replicate hashes '#' ++ '"' :: text) = some ⟨hashes + 1 + n, e.closed⟩)
    ∧ ∀ lines, ∃ e, scanInterpolation? lines s = some e
      ∧ IsExtent s [] [')'.toUInt8] e
      ∧ ∀ text, s = encode text → ∃ n, e.length = byteLength (text.take n)
        ∧ scan [.bracket lines] text = ⟨n, e.closed⟩ := by
  constructor
  case left =>
    intro hashes
    have hopen := furtherQuotes_isPrefix s
    refine ⟨_, scanLiteral?_eq hashes s, isExtent_scanAt (.quote hashes _) hopen, ?_⟩
    rintro text rfl
    have hlines : overLines (encode text) = ['"', '"'].isPrefixOf text := by
      rw [← overLines_eq]
      exact isPrefixOf_spread (fun _ => isAscii_of_mem_quotes) text
    rw [scanAt_encode _ text hopen (isAscii_of_mem_furtherQuotes _), hlines]
    refine ⟨_, rfl, ?_⟩
    rw [literal?_append, ← Extent.after_after]
    rfl
  case right =>
    intro lines
    refine ⟨_, scanInterpolation?_eq lines s, isExtent_scanAt (.bracket lines) List.nil_prefix,
      ?_⟩
    rintro text rfl
    have hscan := scanAt_encode (.bracket lines) text List.nil_prefix nofun
    rw [List.length_nil] at hscan
    rw [hscan]
    refine ⟨_, rfl, ?_⟩
    simp [Extent.after, onOctets]

/-- An escaped character of two octets, and a line end that cuts the literal short. -/
example : scanLiteral? 0 (encode ['\\', 'é', '\n', '"']) = some ⟨3, false⟩ := by decide +kernel

end Memberwise.Token.Octets
