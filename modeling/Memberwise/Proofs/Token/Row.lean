import Memberwise.Proofs.Token.Words

/-!
# Proofs/Token/Row — a text written piece by piece

A text that is put together of words, names, marks and spaces is cut up into just these again, as
long as no two of them run into each other: pieces stand in a row (`IsRow`) if each fits where it
stands.  Marks and line ends fit before anything (`fits_mark`), a word or name before whatever does
not go on with it (`fits_bare`, `fits_name`), spaces before what is not blank (`fits_space`).

* `pieces_row` — **a row is cut up into its pieces**;
* `words_row` — and so gives their words.
-/

namespace Memberwise

open Text

namespace Token

/-! ## Rows -/

/-- Pieces that stand before a text, each of them where it fits. -/
def IsRow : List Piece → List Char → Prop
  | [], _ => True
  | p :: ps, s => p.Fits (ps.flatMap Piece.text ++ s) ∧ IsRow ps s

@[simp] theorem isRow_nil (s : List Char) : IsRow [] s := trivial

@[simp] theorem isRow_cons {p : Piece} {ps : List Piece} {s : List Char} :
    IsRow (p :: ps) s ↔ p.Fits (ps.flatMap Piece.text ++ s) ∧ IsRow ps s := Iff.rfl

/-- **Rows join**, if the first stands before the second. -/
@[simp] theorem isRow_append {ps qs : List Piece} {s : List Char} :
    IsRow (ps ++ qs) s ↔ IsRow ps (qs.flatMap Piece.text ++ s) ∧ IsRow qs s := by
  induction ps with
  | nil => simp
  | cons p ps ih => simp [ih, and_assoc]

/-- **A row is cut up into its pieces.** -/
theorem pieces_row {ps : List Piece} {s : List Char} (h : IsRow ps s) :
    pieces (ps.flatMap Piece.text ++ s) = ps ++ pieces s := by
  induction ps with
  | nil => rfl
  | cons p ps ih =>
    rw [List.flatMap_cons, List.append_assoc, pieces_append h.1, ih h.2]
    rfl

/-- **A row gives the words of its pieces.** -/
theorem words_row {ps : List Piece} {s : List Char} (h : IsRow ps s) :
    words (ps.flatMap Piece.text ++ s) = ps.filterMap Piece.word? ++ words s := by
  rw [words_eq, words_eq, pieces_row h, List.filterMap_append]

/-- What is joined is the first text and, before each later one, what joins them. -/
theorem toList_intercalate_cons {α : Type} (sep : String) (f : α → String) (a : α) (as : List α) :
    (String.intercalate sep ((a :: as).map f)).toList
      = (f a).toList ++ as.flatMap fun b => sep.toList ++ (f b).toList := by
  induction as generalizing a with
  | nil => simp
  | cons b as ih =>
    have hb := ih b
    rw [String.toList_intercalate] at hb ⊢
    simp only [List.map_cons, List.intercalate] at hb ⊢
    rw [List.intersperse_cons_cons, List.flatten_cons, List.flatten_cons, hb]
    simp

/-! ## The tokens of a row -/

/-- The bytes of a row of pieces. -/
def width (ps : List Piece) : Nat := byteLength (ps.flatMap Piece.text)

@[simp] theorem width_nil : width [] = 0 := rfl

@[simp] theorem width_append (ps qs : List Piece) : width (ps ++ qs) = width ps + width qs := by
  rw [width, List.flatMap_append, byteLength_append]
  rfl

@[simp] theorem width_cons (p : Piece) (ps : List Piece) :
    width (p :: ps) = byteLength p.text + width ps := by
  rw [width, List.flatMap_cons, byteLength_append]
  rfl

theorem width_concat (ps : List Piece) (p : Piece) :
    width (ps ++ [p]) = width ps + byteLength p.text := by simp

/-- The tokens of a row of pieces that begins at an offset. -/
def rowTokens (n : Nat) (ps : List Piece) : List Token := (placed n ps).flatMap Placed.tokens

theorem rowTokens_append (n : Nat) (ps qs : List Piece) : rowTokens n (ps ++ qs)
    = rowTokens n ps ++ rowTokens (n + byteLength (ps.flatMap Piece.text)) qs := by
  rw [rowTokens, placed_append, List.flatMap_append]
  rfl

/-- A piece gives one token or none, and the token ends where the piece does. -/
theorem rowTokens_singleton (n : Nat) (p : Piece) : rowTokens n [p] = []
    ∨ ∃ t, rowTokens n [p] = [t] ∧ t.span.stop = n + byteLength p.text
      ∧ (t.kind = .atSign → p.lexeme = .token .atSign ∧ t.span.start = n) := by
  rw [rowTokens, placed, placed, List.flatMap_singleton, Placed.tokens]
  cases p.lexeme with
  | token kind =>
    refine .inr ⟨_, rfl, rfl, ?_⟩
    rintro rfl
    exact ⟨rfl, rfl⟩
  | literal => exact .inr ⟨_, rfl, rfl, fun h => by cases h⟩
  | blockComment =>
    dsimp only
    split
    · exact .inr ⟨_, rfl, rfl, fun h => by cases h⟩
    · exact .inl rfl
  | _ => exact .inl rfl

/-- A token of a row is that of one piece. -/
theorem exists_piece_of_rowTokens {n : Nat} {ps : List Piece} {pre post : List Token} {t : Token}
    (h : rowTokens n ps = pre ++ t :: post) : ∃ A p B, ps = A ++ p :: B ∧ rowTokens n A = pre
      ∧ rowTokens (n + byteLength (A.flatMap Piece.text)) [p] = [t]
      ∧ rowTokens (n + byteLength ((A ++ [p]).flatMap Piece.text)) B = post := by
  induction ps generalizing n pre with
  | nil => simp [rowTokens, placed] at h
  | cons p ps ih =>
    have hcons := rowTokens_append n [p] ps
    rw [List.singleton_append, List.flatMap_singleton] at hcons
    have hlater : ∀ {pre' : List Token},
        rowTokens (n + byteLength p.text) ps = pre' ++ t :: post → rowTokens n [p] ++ pre' = pre →
        ∃ A q B, p :: ps = A ++ q :: B ∧ rowTokens n A = pre
          ∧ rowTokens (n + byteLength (A.flatMap Piece.text)) [q] = [t]
          ∧ rowTokens (n + byteLength ((A ++ [q]).flatMap Piece.text)) B = post := by
      intro pre' h' hpre
      obtain ⟨A, q, B, rfl, hA, hq, hB⟩ := ih h'
      refine ⟨p :: A, q, B, rfl, ?_, ?_, ?_⟩
      · rw [← List.singleton_append, rowTokens_append, List.flatMap_singleton, hA, hpre]
      · rw [List.flatMap_cons, byteLength_append, ← Nat.add_assoc]
        exact hq
      · rw [List.cons_append, List.flatMap_cons, byteLength_append, ← Nat.add_assoc]
        exact hB
    rw [hcons] at h
    rcases rowTokens_singleton n p with hp | ⟨u, hp, -, -⟩
    · rw [hp, List.nil_append] at h
      exact hlater h (by rw [hp, List.nil_append])
    · rw [hp, List.singleton_append] at h
      cases pre with
      | nil =>
        obtain ⟨rfl, hpost⟩ := List.cons.inj h
        refine ⟨[], p, ps, rfl, rfl, by simpa using hp, ?_⟩
        simpa using hpost
      | cons v pre =>
        obtain ⟨rfl, hpre⟩ := List.cons.inj h
        exact hlater hpre (by rw [hp, List.singleton_append])

/-! ## What may follow -/

/-- Whether no name and no keyword goes on with a character. -/
def isBoundary (c : Char) : Bool := !isXidContinue c && c.toNat < 128

/-- A text that no name before it goes on with. -/
def IsBounded (s : List Char) : Prop := s.head?.all isBoundary = true

/-- A text that no spaces before it go on with. -/
def IsSolid (s : List Char) : Prop := s.head?.all (!isBlank ·) = true

@[simp] theorem isBounded_nil : IsBounded [] := rfl

@[simp] theorem isBounded_cons {c : Char} {s : List Char} :
    IsBounded (c :: s) ↔ isBoundary c = true := by
  simp [IsBounded]

@[simp] theorem isSolid_nil : IsSolid [] := rfl

@[simp] theorem isSolid_cons {c : Char} {s : List Char} :
    IsSolid (c :: s) ↔ isBlank c = false := by
  simp [IsSolid]

theorem IsBounded.of_head? {s : List Char} (h : IsBounded s) :
    ∀ d, s.head? = some d → isXidContinue d = false ∧ d.toNat < 128 := by
  intro d hd
  rw [IsBounded, hd, Option.all_some, isBoundary, Bool.and_eq_true, Bool.not_eq_true',
    decide_eq_true_eq] at h
  exact h

/-! ## Marks -/

/-- A mark that stands for itself. -/
def mark (c : Char) : Piece := ⟨.token ((markKind? c).getD .operator), [c]⟩

/-- A mark of two characters. -/
def pair (c d : Char) : Piece := ⟨.token ((markPairKind? c d).getD .operator), [c, d]⟩

@[simp] theorem text_mark (c : Char) : (mark c).text = [c] := rfl

@[simp] theorem text_pair (c d : Char) : (pair c d).text = [c, d] := rfl

/-- The marks that stand for themselves before anything. -/
def plainMarks : List Char := ['@', '(', ')', '\x7b', '\x7d', ':', ',', '.', '\n']

/-- The marks of two characters. -/
def markPairs : List (Char × Char) := [('=', '='), ('&', '&'), ('-', '>')]

theorem fits_mark {c : Char} (hc : plainMarks.contains c = true) (s : List Char) :
    (mark c).Fits s := by
  have hsolo : plainMarks.all (fun c => isSoloMark c && (markKind? c).isSome) = true := by decide
  have hmark := List.all_eq_true.mp hsolo c (by simpa using hc)
  rw [Bool.and_eq_true] at hmark
  obtain ⟨hc, hk⟩ := hmark
  obtain ⟨k, hk⟩ := Option.isSome_iff_exists.mp hk
  refine ⟨c, [], rfl, ?_⟩
  rw [mark, hk]
  exact front_soloMark hc hk s

theorem fits_pair {c d : Char} (h : markPairs.contains (c, d) = true) (s : List Char) :
    (pair c d).Fits s := by
  have hpairs : ∀ p ∈ markPairs, beginsMark p.1 = true ∧ (markPairKind? p.1 p.2).isSome = true := by
    decide
  obtain ⟨hc, hp⟩ := hpairs (c, d) (by simpa using h)
  obtain ⟨k, hk⟩ := Option.isSome_iff_exists.mp hp
  refine ⟨c, [d], rfl, ?_⟩
  rw [(Begins.mark hc).front_eq, markFront, pair, hk]
  simp [hk]

/-! ## Spaces -/

/-- One space or more. -/
def space (n : Nat) : Piece := ⟨.blank, List.replicate (n + 1) ' '⟩

/-- A carriage return. -/
def carriageReturn : Piece := ⟨.blank, ['\r']⟩

@[simp] theorem text_space (n : Nat) : (space n).text = ' ' :: List.replicate n ' ' := rfl

@[simp] theorem text_carriageReturn : carriageReturn.text = ['\r'] := rfl

theorem fits_blank {b : List Char} (hne : b ≠ []) (hb : ∀ c ∈ b, isBlank c = true)
    {s : List Char} (hs : IsSolid s) : Piece.Fits ⟨.blank, b⟩ s := by
  obtain ⟨c, x, rfl⟩ := List.exists_cons_of_ne_nil hne
  refine ⟨c, x, rfl, ?_⟩
  have hrun : run isBlank (x ++ s) = x.length := by
    refine run_append_of_all (fun d hd => hb d (List.mem_cons_of_mem _ hd)) fun d hd => ?_
    rw [IsSolid, hd, Option.all_some, Bool.not_eq_true'] at hs
    exact hs
  rw [(Begins.blank (hb c List.mem_cons_self)).front_eq, runFront, hrun]

theorem fits_space (n : Nat) {s : List Char} (hs : IsSolid s) : (space n).Fits s := by
  refine fits_blank (by simp) (fun c hc => ?_) hs
  rw [List.eq_of_mem_replicate hc]
  decide

theorem fits_carriageReturn {s : List Char} (hs : IsSolid s) : carriageReturn.Fits s := by
  refine fits_blank (List.cons_ne_nil _ _) (fun c hc => ?_) hs
  rw [List.mem_singleton.mp hc]
  decide

/-- Text without white space at its ends is trimmed already. -/
theorem trim_of_ends {s : List Char} (hf : ∀ c, s.head? = some c → isWhite c = false)
    (hl : ∀ c, s.getLast? = some c → isWhite c = false) : trim s = s := by
  have hdrop : ∀ t : List Char, (∀ c, t.head? = some c → isWhite c = false) →
      t.dropWhile isWhite = t := by
    intro t ht
    cases t with
    | nil => rfl
    | cons c t => rw [List.dropWhile_cons_of_neg (by simp [ht c rfl])]
  rw [trim, dropWhileEnd, hdrop s hf, hdrop s.reverse fun c hc => hl c (by rwa [← List.head?_reverse]),
    List.reverse_reverse]

/-- Text without white space is trimmed already. -/
theorem trim_of_forall {s : List Char} (h : ∀ c ∈ s, isWhite c = false) : trim s = s :=
  trim_of_ends (fun c hc => h c (List.mem_of_head? hc)) fun c hc => h c (List.mem_of_getLast? hc)

/-! ## Words and names -/

/-- A word as it is, a keyword or a name. -/
def bare (word : String) : Piece := ⟨.token (wordKind word.toList none), word.toList⟩

/-- A name as it has to be written. -/
def nameOf (name : String) : Piece := ⟨.token .ident, (escape name).toList⟩

@[simp] theorem text_bare (word : String) : (bare word).text = word.toList := rfl

@[simp] theorem isSound_mark (c : Char) : (mark c).lexeme.isSound = true := rfl

@[simp] theorem isSound_pair (c d : Char) : (pair c d).lexeme.isSound = true := rfl

@[simp] theorem isSound_space (n : Nat) : (space n).lexeme.isSound = true := rfl

@[simp] theorem isSound_bare (word : String) : (bare word).lexeme.isSound = true := rfl

@[simp] theorem isSound_nameOf (name : String) : (nameOf name).lexeme.isSound = true := rfl

/-- The characters of an identifier. -/
theorem exists_of_isIdentifier {name : String} (h : isIdentifier name = true) :
    ∃ c x, name.toList = c :: x ∧ isNameStart c = true ∧ ∀ d ∈ c :: x, isXidContinue d = true := by
  cases hn : name.toList with
  | nil =>
    rw [isIdentifier, hn] at h
    cases h
  | cons c x =>
    rw [isIdentifier, hn, isIdentifierText, Bool.and_eq_true] at h
    refine ⟨c, x, rfl, h.1, fun d hd => ?_⟩
    rcases List.mem_cons.mp hd with rfl | hd
    · exact isXidContinue_of_isNameStart h.1
    · exact List.all_eq_true.mp h.2 d hd

theorem wordKind_of_isBounded (word : List Char) {s : List Char} (hs : IsBounded s) :
    wordKind word s.head? = wordKind word none := by
  have hnext : s.head?.any startsLikeNameCharacter = false := by
    cases hd : s.head? with
    | none => rfl
    | some d => exact startsLikeNameCharacter_of_lt (hs.of_head? d hd).2
  rw [wordKind, hnext]
  rfl

/-- **A word fits before whatever does not go on with it.** -/
theorem fits_bare {word : String} (hw : isIdentifier word = true) {s : List Char}
    (hs : IsBounded s) : (bare word).Fits s := by
  obtain ⟨c, x, hn, hc, hall⟩ := exists_of_isIdentifier hw
  have hrun : run isXidContinue (x ++ s) = x.length :=
    run_append_of_all (fun d hd => hall d (List.mem_cons_of_mem _ hd)) fun d hd =>
      (hs.of_head? d hd).1
  refine ⟨c, x, hn, ?_⟩
  rw [(Begins.word hc).front_eq, wordFront, hrun, List.take_left, List.drop_left,
    wordKind_of_isBounded _ hs, bare, hn]

/-- A name that is no reserved word is no keyword. -/
theorem wordKind_of_not_isReserved {name : String} (h : isReserved name = false) :
    wordKind name.toList none = .ident := by
  have hkw : ∀ p ∈ keywords, isReserved p.1 = true := by decide
  rw [wordKind, String.ofList_toList]
  cases hl : keywords.lookup name with
  | none => rfl
  | some k =>
    obtain ⟨l₁, l₂, hk, -⟩ := List.lookup_eq_some_iff.mp hl
    rw [hkw (name, k) (by rw [hk]; simp)] at h
    cases h

theorem nameOf_of_not_isReserved {name : String} (h : isReserved name = false) :
    nameOf name = bare name := by
  rw [nameOf, bare, wordKind_of_not_isReserved h, escape, h]
  rfl

theorem text_nameOf_of_isReserved {name : String} (h : isReserved name = true) :
    (nameOf name).text = backtick :: name.toList ++ [backtick] := by
  rw [nameOf, escape, h]
  simp

/-- **A name fits before whatever does not go on with it.** -/
theorem fits_nameOf {name : String} (hn : isIdentifier name = true) {s : List Char}
    (hs : IsBounded s) : (nameOf name).Fits s := by
  cases hr : isReserved name with
  | false =>
    rw [nameOf_of_not_isReserved hr]
    exact fits_bare hn hs
  | true =>
    obtain ⟨c, x, hname, -, hall⟩ := exists_of_isIdentifier hn
    have hrun : run (fun d => d != backtick && d != '\n') (name.toList ++ backtick :: s)
        = name.toList.length := by
      refine run_append_of_all (fun d hd => ?_) fun d hd => ?_
      · rw [hname] at hd
        have hd := hall d hd
        simp only [Bool.and_eq_true, bne_iff_ne]
        constructor <;> · rintro rfl; revert hd; decide
      · obtain rfl : backtick = d := by simpa using hd
        simp
    refine ⟨backtick, name.toList ++ [backtick], text_nameOf_of_isReserved hr, ?_⟩
    rw [List.append_assoc, List.singleton_append, Begins.backtick.front_eq, backtickFront, hrun]
    simp [hname, nameOf]

@[simp] theorem isSolid_nameOf {name : String} (hn : isIdentifier name = true) (s : List Char) :
    IsSolid ((nameOf name).text ++ s) := by
  cases hr : isReserved name with
  | true =>
    rw [text_nameOf_of_isReserved hr]
    exact isSolid_cons.mpr (by decide)
  | false =>
    obtain ⟨c, x, hname, hc, -⟩ := exists_of_isIdentifier hn
    rw [nameOf_of_not_isReserved hr, bare, hname]
    exact isSolid_cons.mpr (isBlank_of_isNameStart hc)

/-- No line end is part of a name. -/
theorem not_mem_nameOf {name : String} (hn : isIdentifier name = true) :
    '\n' ∉ (nameOf name).text := by
  obtain ⟨c, x, hname, -, hall⟩ := exists_of_isIdentifier hn
  have hnl : '\n' ∉ name.toList := by
    intro hmem
    have := hall '\n' (hname ▸ hmem)
    revert this
    decide
  cases hr : isReserved name with
  | true =>
    rw [text_nameOf_of_isReserved hr]
    simp [hnl, backtick]
  | false =>
    rw [nameOf_of_not_isReserved hr]
    exact hnl

/-- A name is written without white space at its ends. -/
theorem trim_nameOf {name : String} (hn : isIdentifier name = true) :
    trim (nameOf name).text = (nameOf name).text := by
  obtain ⟨c, x, hname, -, hall⟩ := exists_of_isIdentifier hn
  refine trim_of_forall fun d hd => ?_
  have hcases : d ∈ c :: x ∨ d = backtick := by
    cases hr : isReserved name with
    | true =>
      rw [text_nameOf_of_isReserved hr, hname] at hd
      simpa [or_comm, or_left_comm] using hd
    | false =>
      rw [nameOf_of_not_isReserved hr, text_bare, hname] at hd
      exact .inl hd
  rcases hcases with hd | rfl
  · exact isWhite_of_isXidContinue (hall d hd)
  · decide

end Token

end Memberwise
