import Memberwise.Token.Lexeme
import Memberwise.Proofs.Token.Scanning

/-!
# Proofs/Token/Fronts — which reader a text begins with

The first character of a text, and in a few cases what stands after it, settle which reader takes
the piece at its front; the reader alone says how far the piece goes.  `Begins` is that choice, with
one constructor for each reader.

* `Begins.front_eq`, `exists_begins` — **the front of a text is what the reader it begins with
  makes of it**, and every text begins with one;
* `fronts` — so a piece is of one of a few forms (`Fronts`), each with the characters it has.

To compare the fronts of two texts is then to see that both begin with the same reader, and what
that reader makes of the two.
-/

namespace Memberwise.Token

open Text

/-! ## Words -/

/-- A word is a name, or the keyword that it spells. -/
theorem wordKind_cases (word : List Char) (next : Option Char) :
    wordKind word next = .ident ∨ (String.ofList word, wordKind word next) ∈ keywords := by
  unfold wordKind
  split
  · exact .inl rfl
  · cases hl : keywords.lookup (String.ofList word) with
    | none => exact .inl rfl
    | some k =>
      obtain ⟨l₁, l₂, hkw, -⟩ := List.lookup_eq_some_iff.mp hl
      exact .inr (by rw [hkw]; simp)

/-! ## Readers -/

/-- A run of characters of a class. -/
def runFront (l : Lexeme) (p : Char → Bool) (s : List Char) : Lexeme × Nat := (l, run p s)

/-- A keyword or a name. -/
def wordFront (c : Char) (s : List Char) : Lexeme × Nat :=
  (.token (wordKind (c :: s.take (run isXidContinue s)) (s.drop (run isXidContinue s)).head?),
    run isXidContinue s)

/-- A number. -/
def numberFront (c : Char) (s : List Char) : Lexeme × Nat :=
  (.token (number c s).1, (number c s).2)

/-- A comment over lines, from its second character on. -/
def blockCommentFront (s : List Char) : Lexeme × Nat :=
  (.blockComment (blockComment 0 s.tail).closed, 1 + (blockComment 0 s.tail).length)

/-- Whether a character begins nothing but a mark. -/
def beginsMark (c : Char) : Bool :=
  !isBlank c && !isNameStart c && !c.isDigit && c != '/' && c != '"' && c != '#' && c != backtick
    && c != '$'

/-- The text `c :: s` begins with what a reader takes; the reader is given `s`. -/
inductive Begins : Char → List Char → (List Char → Lexeme × Nat) → Prop
  | blank {c : Char} {s : List Char} (hc : isBlank c = true) :
      Begins c s (runFront .blank isBlank)
  | word {c : Char} {s : List Char} (hc : isNameStart c = true) : Begins c s (wordFront c)
  | number {c : Char} {s : List Char} (hc : c.isDigit = true) : Begins c s (numberFront c)
  | lineComment {s : List Char} (hs : s.head? = some '/') :
      Begins '/' s (runFront .lineComment (· != '\n'))
  | blockComment {s : List Char} (hs : s.head? = some '*') : Begins '/' s blockCommentFront
  | slash {s : List Char} (hline : s.head? ≠ some '/') (hblock : s.head? ≠ some '*') :
      Begins '/' s (markFront '/')
  | literal {c : Char} {s : List Char} {e : Extent} (h : literal? (c :: s) = some e) :
      Begins c s fun _ => (.literal e.closed, e.length - 1)
  | hash {s : List Char} (h : opening? ('#' :: s) = none) : Begins '#' s hashFront
  | backtick {s : List Char} : Begins backtick s backtickFront
  | dollar {s : List Char} : Begins '$' s dollarFront
  | mark {c : Char} {s : List Char} (hc : beginsMark c = true) : Begins c s (markFront c)

/-! ## Classes of first characters -/

/-- The letters of ASCII. -/
theorem isAlpha_iff {c : Char} : c.isAlpha = true ↔ 'A' ≤ c ∧ c ≤ 'Z' ∨ 'a' ≤ c ∧ c ≤ 'z' := by
  change (decide (c.val ≥ 'A'.val ∧ c.val ≤ 'Z'.val)
    || (decide (c.val ≥ 'a'.val) && decide (c.val ≤ 'z'.val))) = true ↔ _
  rw [Bool.or_eq_true, Bool.and_eq_true, decide_eq_true_eq, decide_eq_true_eq, decide_eq_true_eq]
  exact Iff.rfl

theorem isBlank_of_isNameStart {c : Char} (h : isNameStart c = true) : isBlank c = false := by
  simp only [isBlank, Bool.or_eq_false_iff, beq_eq_false_iff_ne]
  refine ⟨⟨⟨?_, ?_⟩, ?_⟩, ?_⟩ <;> · rintro rfl; revert h; decide

/-- A digit begins no blank and no name. -/
theorem isBlank_of_isDigit {c : Char} (hc : c.isDigit = true) :
    isBlank c = false ∧ isNameStart c = false := by
  have hascii : 48 ≤ c.toNat ∧ c.toNat ≤ 57 := by
    simp only [Char.isDigit, Bool.and_eq_true, decide_eq_true_eq, ge_iff_le,
      UInt32.le_iff_toNat_le] at hc
    exact hc
  have halpha : c.isAlpha = false := by
    rw [← Bool.not_eq_true, isAlpha_iff]
    rintro (h | h)
    · have hle : 65 ≤ c.toNat := h.1
      omega
    · have hle : 97 ≤ c.toNat := h.1
      omega
  constructor
  · simp only [isBlank, Bool.or_eq_false_iff, beq_eq_false_iff_ne]
    refine ⟨⟨⟨?_, ?_⟩, ?_⟩, ?_⟩ <;> · rintro rfl; revert hc; decide
  · rw [isNameStart, isXidStart_ascii (by omega), halpha, Bool.or_false, beq_eq_false_iff_ne]
    rintro rfl
    revert hc
    decide

/-- A character that begins no blank, name, number or comment. -/
def isOther (c : Char) : Bool := !isBlank c && !isNameStart c && !c.isDigit && c != '/'

/-- What such a character begins. -/
def otherFront (c : Char) (s : List Char) : Lexeme × Nat :=
  match literal? (c :: s) with
  | some e => (.literal e.closed, e.length - 1)
  | none =>
    if c = '#' then hashFront s
    else if c = backtick then backtickFront s
    else if c = '$' then dollarFront s
    else markFront c s

theorem front_of_isOther {c : Char} (h : isOther c = true) (s : List Char) :
    front c s = otherFront c s := by
  simp only [isOther, Bool.and_eq_true, Bool.not_eq_true', bne_iff_ne] at h
  obtain ⟨⟨⟨hb, hn⟩, hd⟩, hslash⟩ := h
  rw [front, if_neg (by simp [hb]), if_neg (by simp [hn]), if_neg (by simp [hd]),
    if_neg fun h => hslash h.1, if_neg fun h => hslash h.1]
  rfl

theorem literal?_eq_none {c : Char} (hhash : c ≠ '#') (hquote : c ≠ '"') (s : List Char) :
    literal? (c :: s) = none := by
  simp [literal?, opening?, run, hhash, hquote]

/-! ## The reader at the front -/

section

variable {c : Char} {s : List Char} {f : List Char → Lexeme × Nat}

/-- **The front of a text is what the reader it begins with makes of it.** -/
theorem Begins.front_eq (h : Begins c s f) : front c s = f s := by
  cases h with
  | blank hc => rw [front, if_pos hc, runFront]
  | word hc => rw [front, if_neg (by simp [isBlank_of_isNameStart hc]), if_pos hc, wordFront]
  | number hc =>
    rw [front, if_neg (by simp [isBlank_of_isDigit hc]), if_neg (by simp [isBlank_of_isDigit hc]),
      if_pos hc, numberFront]
  | lineComment hs =>
    rw [front, if_neg (by decide), if_neg (by decide), if_neg (by decide), if_pos ⟨rfl, hs⟩,
      runFront]
  | blockComment hs =>
    rw [front, if_neg (by decide), if_neg (by decide), if_neg (by decide), if_neg (by simp [hs]),
      if_pos ⟨rfl, hs⟩, blockCommentFront]
  | slash hline hblock =>
    rw [front, if_neg (by decide), if_neg (by decide), if_neg (by decide), if_neg (by simp [hline]),
      if_neg (by simp [hblock]), literal?_eq_none (by decide) (by decide)]
    rfl
  | literal h =>
    obtain ⟨o, ho, -⟩ := Option.map_eq_some_iff.mp h
    obtain ⟨d, t, hcons, hd⟩ := head_of_opening? ho
    obtain ⟨rfl, rfl⟩ := List.cons.inj hcons
    rw [front_of_isOther (by rcases hd with rfl | rfl <;> decide), otherFront, h]
  | hash h =>
    rw [front_of_isOther (by decide), otherFront, literal?, h]
    rfl
  | backtick =>
    rw [front_of_isOther (by decide), otherFront, literal?_eq_none (by decide) (by decide)]
    rfl
  | dollar =>
    rw [front_of_isOther (by decide), otherFront, literal?_eq_none (by decide) (by decide)]
    rfl
  | mark hc =>
    simp only [beginsMark, Bool.and_eq_true, bne_iff_ne] at hc
    obtain ⟨⟨⟨⟨hother, hquote⟩, hhash⟩, htick⟩, hdollar⟩ := hc
    rw [front_of_isOther (by simpa [isOther] using hother), otherFront,
      literal?_eq_none hhash hquote]
    simp [hhash, htick, hdollar]

/-- Every text begins with some reader. -/
theorem exists_begins (c : Char) (s : List Char) : ∃ f, Begins c s f := by
  cases hb : isBlank c with
  | true => exact ⟨_, .blank hb⟩
  | false =>
  cases hn : isNameStart c with
  | true => exact ⟨_, .word hn⟩
  | false =>
  cases hd : c.isDigit with
  | true => exact ⟨_, .number hd⟩
  | false =>
  by_cases hslash : c = '/'
  · subst hslash
    by_cases hline : s.head? = some '/'
    · exact ⟨_, .lineComment hline⟩
    by_cases hblock : s.head? = some '*'
    · exact ⟨_, .blockComment hblock⟩
    exact ⟨_, .slash hline hblock⟩
  cases hl : literal? (c :: s) with
  | some e => exact ⟨_, .literal hl⟩
  | none =>
  have hopen : opening? (c :: s) = none := Option.map_eq_none_iff.mp hl
  by_cases hhash : c = '#'
  · subst hhash
    exact ⟨_, .hash hopen⟩
  by_cases htick : c = Text.backtick
  · subst htick
    exact ⟨_, .backtick⟩
  by_cases hdollar : c = '$'
  · subst hdollar
    exact ⟨_, .dollar⟩
  have hquote : c ≠ '"' := by
    rintro rfl
    cases hopen
  refine ⟨_, .mark ?_⟩
  simp [beginsMark, hb, hn, hd, hslash, hquote, hhash, htick, hdollar]

/-! ## What a reader makes of a text -/

theorem number_kind (c : Char) (s : List Char) :
    (number c s).1 = .int ∨ (number c s).1 = .float := by
  by_cases hr : (if c = '0' then radixLength s else 0) ≠ 0
  · exact .inl (by simp [number, hr])
  · rw [number]
    simp only [hr, if_false]
    split
    · exact .inl rfl
    · exact .inr rfl

theorem backtickFront_cases {s : List Char} {l : Lexeme} {n : Nat}
    (h : backtickFront s = (l, n)) :
    l = .token .ident ∧ (∃ t, s.take n = t ++ [backtick]) ∨ l = .invalid := by
  unfold backtickFront at h
  dsimp only at h
  split at h
  · cases h
    exact .inr rfl
  · split at h <;> cases h
    · rename_i hb
      refine .inl ⟨rfl, s.take (run (fun c => c != backtick && c != '\n') s), ?_⟩
      obtain ⟨t, ht⟩ := List.head?_eq_some_iff.mp hb
      rw [List.take_add, ht]
      rfl
    · exact .inr rfl

theorem markPairKind?_eq_some {c d : Char} {k : TokenKind} (h : markPairKind? c d = some k) :
    c = '=' ∧ d = '=' ∨ c = '&' ∧ d = '&' ∨ c = '-' ∧ d = '>' := by
  unfold markPairKind? at h
  split at h <;> simp_all

theorem backtickFront_le (s : List Char) : (backtickFront s).2 ≤ s.length := by
  have hle := run_le (fun c => c != backtick && c != '\n') s
  unfold backtickFront
  dsimp only
  split
  · exact Nat.zero_le _
  · split
    · rename_i hb
      obtain ⟨t, ht⟩ := List.head?_eq_some_iff.mp hb
      have := congrArg List.length ht
      simp only [List.length_drop, List.length_cons] at this
      omega
    · exact hle

theorem hashFront_le (s : List Char) : (hashFront s).2 ≤ s.length := by
  have hle := run_le (· == '#') s
  unfold hashFront
  dsimp only
  split <;> omega

theorem dollarFront_le (s : List Char) : (dollarFront s).2 ≤ s.length := by
  have hle := run_le isXidContinue s
  unfold dollarFront
  dsimp only
  split <;> omega

theorem markFront_le (c : Char) (s : List Char) : (markFront c s).2 ≤ s.length := by
  cases s with
  | nil => cases hk : markKind? c <;> simp [markFront, hk]
  | cons d t =>
    unfold markFront
    split <;> simp

theorem blockCommentFront_le (hs : s ≠ []) : (blockCommentFront s).2 ≤ s.length := by
  have hle := blockComment_le 0 s.tail
  have hpos := List.length_pos_iff.mpr hs
  rw [List.length_tail] at hle
  simp only [blockCommentFront]
  omega

/-- A piece takes no more than there is. -/
theorem front_le (c : Char) (s : List Char) : (front c s).2 ≤ s.length := by
  obtain ⟨f, hf⟩ := exists_begins c s
  rw [hf.front_eq]
  cases hf with
  | blank | word | lineComment => exact run_le _ _
  | number => exact number_le c s
  | blockComment h => exact blockCommentFront_le (by rintro rfl; cases h)
  | literal h =>
    have hle := literal?_le h
    rw [List.length_cons] at hle
    exact Nat.sub_le_of_le_add hle
  | hash => exact hashFront_le s
  | backtick => exact backtickFront_le s
  | dollar => exact dollarFront_le s
  | slash | mark => exact markFront_le _ s

/-- The piece at the front of `c :: s`, by what it is. -/
inductive Fronts (c : Char) (s : List Char) : Lexeme → Nat → Prop
  | blank (hc : isBlank c = true) : Fronts c s .blank (run isBlank s)
  | word {n : Nat} (hc : isNameStart c = true) (hn : n = run isXidContinue s) :
      Fronts c s (.token (wordKind (c :: s.take n) (s.drop n).head?)) n
  | number {k : TokenKind} {n : Nat} (hc : c.isDigit = true) (hk : k = .int ∨ k = .float)
      (h : number c s = (k, n)) : Fronts c s (.token k) n
  | lineComment {t : List Char} (hc : c = '/') (hs : s = '/' :: t) :
      Fronts c s .lineComment (run (· != '\n') s)
  | blockComment {t : List Char} (hc : c = '/') (hs : s = '*' :: t) :
      Fronts c s (.blockComment (blockComment 0 t).closed) (1 + (blockComment 0 t).length)
  | literal {e : Extent} (h : literal? (c :: s) = some e) :
      Fronts c s (.literal e.closed) (e.length - 1)
  | hash (hc : c = '#') : Fronts c s (.token .hash) 0
  | backtick {t : List Char} {n : Nat} (hc : c = backtick) (ht : s.take n = t ++ [backtick]) :
      Fronts c s (.token .ident) n
  | dollar {n : Nat} (hc : c = '$') (hn : n = run isXidContinue s) (hpos : 0 < n) :
      Fronts c s (.token .ident) n
  | pair {d : Char} {t : List Char} {k : TokenKind} (hs : s = d :: t)
      (hp : markPairKind? c d = some k) : Fronts c s (.token k) 1
  | mark {k : TokenKind} (hk : markKind? c = some k) : Fronts c s (.token k) 0
  | invalid {n : Nat} : Fronts c s .invalid n

theorem fronts_of_hashFront {l : Lexeme} {n : Nat} (h : hashFront s = (l, n)) :
    Fronts '#' s l n := by
  unfold hashFront at h
  dsimp only at h
  split at h <;> cases h
  · exact .hash rfl
  · exact .invalid

theorem fronts_of_dollarFront {l : Lexeme} {n : Nat} (h : dollarFront s = (l, n)) :
    Fronts '$' s l n := by
  unfold dollarFront at h
  dsimp only at h
  split at h <;> cases h
  · exact .invalid
  · exact .dollar rfl rfl (Nat.pos_of_ne_zero ‹_›)

theorem fronts_of_markFront {l : Lexeme} {n : Nat} (h : markFront c s = (l, n)) :
    Fronts c s l n := by
  unfold markFront at h
  split at h <;> cases h
  case h_1 hp =>
    obtain ⟨d, hd, hp⟩ := Option.bind_eq_some_iff.mp hp
    obtain ⟨t, rfl⟩ := List.head?_eq_some_iff.mp hd
    exact .pair rfl hp
  case h_2 hk => exact .mark hk
  case h_3 => exact .invalid

/-- **A piece is of one of the forms.** -/
theorem fronts {l : Lexeme} {n : Nat} (h : front c s = (l, n)) : Fronts c s l n := by
  obtain ⟨f, hf⟩ := exists_begins c s
  rw [hf.front_eq] at h
  cases hf with
  | blank hc =>
    cases h
    exact .blank hc
  | word hc =>
    cases h
    exact .word hc rfl
  | number hc =>
    cases h
    exact .number hc (number_kind c s) rfl
  | lineComment hs =>
    cases h
    obtain ⟨t, rfl⟩ := List.head?_eq_some_iff.mp hs
    exact .lineComment rfl rfl
  | blockComment hs =>
    cases h
    obtain ⟨t, rfl⟩ := List.head?_eq_some_iff.mp hs
    exact .blockComment rfl rfl
  | literal hl =>
    cases h
    exact .literal hl
  | hash => exact fronts_of_hashFront h
  | backtick =>
    rcases backtickFront_cases h with ⟨rfl, t, ht⟩ | rfl
    · exact .backtick rfl ht
    · exact .invalid
  | dollar => exact fronts_of_dollarFront h
  | slash | mark => exact fronts_of_markFront h

end

end Memberwise.Token
