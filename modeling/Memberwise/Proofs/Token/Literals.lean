import Memberwise.Proofs.Token.Partition

/-!
# Proofs/Token/Literals — where a string literal ends

A literal that may not cross lines, and holds none that may, gets past a line end in one way only,
by escaping it (`LinesEscaped`):

* `lexText_literal` — **the token of such a literal has no line end in it but escaped ones**, and
  ends at its closing delimiter or, with an error, at the end of its line.
-/

namespace Memberwise

open Text Token

namespace Token

/-! ## Line ends in literals -/

/-- Every line end of a text stands behind a backslash and number signs. -/
def LinesEscaped (t : List Char) : Prop :=
  ∀ before after, t = before ++ '\n' :: after → ∃ n, '\\' :: List.replicate n '#' <:+ before

theorem linesEscaped_of_not_mem {t : List Char} (h : '\n' ∉ t) : LinesEscaped t := by
  rintro before after rfl
  simp at h

theorem LinesEscaped.append {t u : List Char} (ht : LinesEscaped t) (hu : LinesEscaped u) :
    LinesEscaped (t ++ u) := by
  intro before after h
  rcases List.append_eq_append_iff.mp h with ⟨x, rfl, hx⟩ | ⟨x, rfl, hx⟩
  · obtain ⟨n, hn⟩ := hu x after hx
    exact ⟨n, hn.trans (List.suffix_append _ _)⟩
  · cases x with
    | nil =>
      obtain ⟨n, hn⟩ := hu [] after hx.symm
      simp at hn
    | cons c x =>
      obtain ⟨rfl, rfl⟩ := List.cons.inj hx
      exact ht before x rfl

/-- Behind a backslash and number signs a line end is escaped. -/
theorem linesEscaped_escape (n : Nat) {x : List Char} (hx : x.length ≤ 1) :
    LinesEscaped ('\\' :: List.replicate n '#' ++ x) := by
  have hn : LinesEscaped ('\\' :: List.replicate n '#') :=
    linesEscaped_of_not_mem (by simp)
  match x, hx with
  | [], _ => simpa using hn
  | [c], _ =>
    intro before after h
    rcases List.eq_nil_or_concat after with rfl | ⟨after, d, rfl⟩
    · obtain ⟨rfl, -⟩ := List.append_inj' h rfl
      exact ⟨n, List.suffix_refl _⟩
    · rw [List.concat_eq_append, ← List.cons_append, ← List.append_assoc] at h
      exact hn _ _ (List.append_inj' h rfl).1

/-- The number signs of a run. -/
theorem take_run {c : Char} {s : List Char} {n : Nat} (h : n ≤ run (· == c) s) :
    s.take n = List.replicate n c := by
  induction n generalizing s with
  | zero => rfl
  | succ n ih =>
    cases s with
    | nil => cases h
    | cons d s =>
      cases hd : d == c with
      | false => simp [run, hd] at h
      | true =>
        simp only [run, List.takeWhile_cons, hd, if_true, List.length_cons] at h
        rw [List.take_succ_cons, List.replicate_succ, beq_iff_eq.mp hd,
          ih (Nat.le_of_succ_le_succ h)]

/-- What opens a literal is written like what closes it, the other way round. -/
theorem take_of_opening? {s : List Char} {hashes : Nat} {lines : Bool}
    (h : opening? s = some (hashes, lines)) :
    s.take (openingLength hashes lines) = (closing hashes lines).reverse := by
  have hrun := run_of_opening? h
  simp only [opening?, hrun] at h
  split at h
  case h_2 => cases h
  rename_i t ht
  obtain ⟨-, rfl⟩ := Prod.mk.inj (Option.some.inj h)
  rw [openingLength, List.take_add, take_run (Nat.le_of_eq hrun.symm), ht, closing,
    List.reverse_append, List.reverse_replicate, List.reverse_replicate]
  congr 1
  cases hq : ['"', '"'].isPrefixOf t with
  | false => rfl
  | true =>
    obtain ⟨t', rfl⟩ := List.isPrefixOf_iff_prefix.mp hq
    rfl

theorem linesEscaped_closing (hashes : Nat) (lines : Bool) :
    LinesEscaped (closing hashes lines) ∧ LinesEscaped (closing hashes lines).reverse := by
  constructor <;> exact linesEscaped_of_not_mem (by simp [closing])

/-- An escape as far as the text goes. -/
theorem take_escape {hashes : Nat} {s : List Char} (h : hashes ≤ run (· == '#') s) :
    ∃ x : List Char, x.length ≤ 1 ∧ ('\\' :: s).take (1 + (s.take (hashes + 1)).length)
      = '\\' :: List.replicate hashes '#' ++ x := by
  refine ⟨(s.drop hashes).take 1, List.length_take_le .., ?_⟩
  rw [Nat.add_comm 1, List.take_succ_cons, List.length_take,
    ← List.take_eq_take_min, List.take_add, take_run h]
  rfl

section

variable {stack stack' : List Frame} {s : List Char} {n : Nat}

/-- A step takes no line end but an escaped one, if its construct may not cross lines. -/
theorem ScanStep.linesEscaped_take (h : ScanStep stack s n stack')
    (hstack : ∀ f ∈ stack, f.lines = false) : LinesEscaped (s.take n) := by
  cases h with
  | @closeQuote hashes lines outer s h =>
    rw [← List.prefix_iff_eq_take.mp (List.isPrefixOf_iff_prefix.mp h)]
    exact (linesEscaped_closing hashes lines).1
  | @escape hashes lines outer s h =>
    obtain ⟨x, hx, htake⟩ := take_escape h
    rw [htake]
    exact linesEscaped_escape hashes hx
  | openQuote h =>
    rw [take_of_opening? h]
    exact (linesEscaped_closing _ _).2
  | passInQuote _ hline | passInBracket _ _ hline =>
    refine linesEscaped_of_not_mem fun h => hline ⟨(List.mem_singleton.mp h).symm, ?_⟩
    exact hstack _ List.mem_cons_self
  | openBracket | closeBracket => exact linesEscaped_of_not_mem (by simp)

/-- A step opens a construct over several lines inside such a one, or with three quotes. -/
theorem ScanStep.lines_eq_false (h : ScanStep stack s n stack')
    (hstack : ∀ f ∈ stack, f.lines = false) (hquotes : ¬ ['"', '"', '"'] <:+: s.take n) :
    ∀ f ∈ stack', f.lines = false := by
  cases h with
  | closeQuote | closeBracket => exact fun f hf => hstack f (List.mem_cons_of_mem _ hf)
  | passInQuote | passInBracket => exact hstack
  | openBracket => simpa using hstack
  | escape =>
    rw [escaped]
    split <;> simpa [Frame.lines] using hstack
  | @openQuote lines outer s hashes lines' h =>
    have hlines : lines' = false := by
      cases lines' with
      | false => rfl
      | true =>
        rw [take_of_opening? h] at hquotes
        refine absurd ?_ hquotes
        exact ⟨List.replicate hashes '#', _, by simp [closing]; rfl⟩
    simpa [hlines, Frame.lines] using hstack

/-- **A scan gets past a line end only where it is escaped**, as long as nothing that is open may
cross lines and no literal that may is opened. -/
theorem linesEscaped_scan (hstack : ∀ f ∈ stack, f.lines = false)
    (hquotes : ¬ ['"', '"', '"'] <:+: s.take (scan stack s).length) :
    LinesEscaped (s.take (scan stack s).length) := by
  induction stack, s using scan_induction with
  | stop hstop =>
    rw [hstop.scan_eq]
    exact linesEscaped_of_not_mem (by simp)
  | step hstep ih =>
    rw [hstep.scan_eq, take_after] at hquotes ⊢
    have hn := fun h : _ <:+: _ => hquotes (h.trans (List.prefix_append _ _).isInfix)
    have hrest := fun h : _ <:+: _ => hquotes (h.trans (List.suffix_append _ _).isInfix)
    exact (hstep.linesEscaped_take hstack).append (ih (hstep.lines_eq_false hstack hn) hrest)

end

/-! ## The piece of a literal -/

theorem wordKind_ne_text (word : List Char) (next : Option Char) : wordKind word next ≠ .text := by
  have hkeywords : ∀ p ∈ keywords, p.2 ≠ .text := by decide
  rcases wordKind_cases word next with hk | hk
  · rw [hk]
    decide
  · exact hkeywords _ hk

/-- A front is a literal, or no front that gives the token of one. -/
theorem front_literal_or {c : Char} {s : List Char} {l : Lexeme} {n : Nat}
    (h : front c s = (l, n)) :
    (∃ e, literal? (c :: s) = some e ∧ l = .literal e.closed ∧ n = e.length - 1)
      ∨ (∀ b, l ≠ .literal b) ∧ l ≠ .token .text := by
  cases fronts h with
  | literal hl => exact .inl ⟨_, hl, rfl, rfl⟩
  | word => exact .inr ⟨nofun, fun h => wordKind_ne_text _ _ (Lexeme.token.inj h)⟩
  | number _ hk => rcases hk with rfl | rfl <;> exact .inr (by simp)
  | pair _ hp =>
    rcases markPairKind?_eq_some hp with ⟨rfl, rfl⟩ | ⟨rfl, rfl⟩ | ⟨rfl, rfl⟩ <;> cases hp <;>
      exact .inr (by simp)
  | mark hk =>
    refine .inr ⟨nofun, fun h => ?_⟩
    obtain rfl := Lexeme.token.inj h
    unfold markKind? at hk
    split at hk <;> cases hk
  | _ => exact .inr (by simp)

/-- What is known of the characters of a literal and of those after it. -/
structure IsLiteral (hashes : Nat) (lines closed : Bool) (text after : List Char) : Prop where
  opens : (closing hashes lines).reverse <+: text
  closes : closed = true → closing hashes lines <:+ text
  stops : closed = false → after.head?.all (· == '\n') = true
  linesEscaped : ¬ ['"', '"', '"'] <:+: text → lines = false ∧ LinesEscaped text

/-- **A literal is read as such from its first character on.** -/
theorem isLiteral_of_literal? {s : List Char} {e : Extent} (h : literal? s = some e) :
    ∃ hashes lines, IsLiteral hashes lines e.closed (s.take e.length) (s.drop e.length) := by
  obtain ⟨⟨hashes, lines⟩, hopen, rfl⟩ := Option.map_eq_some_iff.mp h
  have htake := take_of_opening? hopen
  refine ⟨hashes, lines, ?_⟩
  dsimp only
  rw [take_after, htake, drop_after]
  refine ⟨List.prefix_append _ _, fun hc => ?_, scan_unclosed, fun hquotes => ?_⟩
  · exact (scan_closed (f := .quote hashes lines) hc rfl).trans (List.suffix_append _ _)
  · have hlines : lines = false := by
      cases lines with
      | false => rfl
      | true => exact absurd ⟨List.replicate hashes '#', _, by simp [closing]; rfl⟩ hquotes
    subst hlines
    refine ⟨rfl, (linesEscaped_closing hashes false).2.append (linesEscaped_scan ?_ fun hq => ?_)⟩
    · simp [Frame.lines]
    · exact hquotes (hq.trans (List.suffix_append _ _).isInfix)

/-- The piece that gives the token of a literal is one. -/
theorem Placed.GivesToken.isLiteral {q : Placed} {t : Token} {s : List Char} (h : q.GivesToken t)
    (hk : t.kind = .text) (hf : q.piece.Fits s) : ∃ hashes lines closed,
      q.piece.lexeme = .literal closed ∧ IsLiteral hashes lines closed q.piece.text s := by
  obtain ⟨c, x, ht, hf⟩ := hf
  rcases front_literal_or hf with ⟨e, he, hl, hn⟩ | ⟨hno, hne⟩
  · obtain ⟨hashes, lines, hlit⟩ := isLiteral_of_literal? he
    have hlen : e.length = q.piece.text.length := by
      have := literal?_pos he
      rw [ht, List.length_cons]
      omega
    rw [← List.cons_append, ← ht, hlen, List.take_left, List.drop_left] at hlit
    exact ⟨hashes, lines, e.closed, hl, hlit⟩
  · cases h with
    | token hl => exact absurd (hk ▸ hl) hne
    | literal hl => exact absurd hl (hno _)
    | lineEnd => cases hk

/-- A piece is told by where it stands. -/
theorem eq_of_span_eq {source : List Char} {p q : Placed} (hp : p ∈ placed 0 (pieces source))
    (hq : q ∈ placed 0 (pieces source)) (h : p.span = q.span) : p = q := by
  by_contra hne
  obtain ⟨before, after, hcovers, hfits⟩ := exists_covers_of_mem_placed hq
  have hpos := hfits.byteLength_pos
  have hstart := hcovers.start_eq
  have hstop := hcovers.stop_eq
  rcases disjoint_of_mem_placed hp hq hne with hd | hd <;> rw [h] at hd <;> omega

end Token

/-- What a span covers is its slice. -/
theorem Span.Covers.slice?_eq {s : Span} {source before text after : List Char}
    (h : s.Covers source before text after) : s.slice? source = some text := by
  rw [Span.slice?, h.stop_eq, h.start_eq, h.source_eq, slice?_append]

/-- **A literal ends on its line**, unless it holds three quotes, as one over several lines does,
or the line end is escaped.  A literal that is closed has its closing delimiter; one that is not is
an error, and reaches up to a line end or the end of the source. -/
theorem lexText_literal {source : List Char} {t : Token} (ht : t ∈ (lexText source).tokens.toList)
    (hk : t.kind = .text) :
    ∃ before text after hashes lines, t.span.Covers source before text after
      ∧ (closing hashes lines).reverse <+: text
      ∧ (¬ ['"', '"', '"'] <:+: text → lines = false ∧ LinesEscaped text)
      ∧ if ⟨.unterminatedString, t.span⟩ ∈ (lexText source).errors
        then after.head?.all (· == '\n') = true
        else closing hashes lines <:+ text := by
  rcases mem_tokens_lexText.mp ht with ⟨q, hq, htq⟩ | rfl
  case inr => cases hk
  obtain ⟨before, after, hcovers, hfits⟩ := exists_covers_of_mem_placed hq
  obtain ⟨hashes, lines, closed, hl, hlit⟩ := htq.isLiteral hk hfits
  have hspan : t.span = q.span := by
    cases htq with
    | token | literal => rfl
    | lineEnd => cases hk
  refine ⟨before, q.piece.text, after, hashes, lines, hspan ▸ hcovers, hlit.opens,
    hlit.linesEscaped, ?_⟩
  split
  case isTrue herror =>
    obtain ⟨q', hq', he⟩ := mem_errors_lexText.mp herror
    obtain rfl := eq_of_span_eq hq' hq (he.span_eq ▸ hspan)
    refine hlit.stops (Lexeme.literal.inj (hl.symm.trans ?_))
    generalize hle : LexError.mk .unterminatedString t.span = e at he
    cases he with
    | literal h => exact h
    | comment | invalid => cases hle
  case isFalse herror =>
    refine hlit.closes (Bool.not_eq_false _ ▸ fun hc => herror ?_)
    rw [hspan]
    exact mem_errors_lexText.mpr ⟨q, hq, .literal (hc ▸ hl)⟩

/-- **An escaped line end is passed like any other character**: the declaration on the line after it
becomes part of the literal, though all of it is a single line's. -/
theorem lexText_literal_escaped :
    (⟨.text, ⟨8, 21⟩⟩ : Token) ∈ (lexText "let s = \"a\\\nvar t = 1\n".toList).tokens.toList
      ∧ Span.slice? ⟨8, 21⟩ "let s = \"a\\\nvar t = 1\n".toList = some "\"a\\\nvar t = 1".toList
      ∧ ¬ ['"', '"', '"'] <:+: "\"a\\\nvar t = 1".toList
      ∧ '\n' ∈ "\"a\\\nvar t = 1".toList
      ∧ LinesEscaped "\"a\\\nvar t = 1".toList := by
  have ht : (⟨.text, ⟨8, 21⟩⟩ : Token)
      ∈ (lexText "let s = \"a\\\nvar t = 1\n".toList).tokens.toList := by
    have hlex : (lexText "let s = \"a\\\nvar t = 1\n".toList).tokens.toList
        = [⟨.letKw, ⟨0, 3⟩⟩, ⟨.ident, ⟨4, 5⟩⟩, ⟨.equal, ⟨6, 7⟩⟩, ⟨.text, ⟨8, 21⟩⟩,
          ⟨.newline, ⟨21, 22⟩⟩, ⟨.endOfFile, ⟨22, 22⟩⟩] := by decide +kernel
    rw [hlex]
    decide
  have hslice : Span.slice? ⟨8, 21⟩ "let s = \"a\\\nvar t = 1\n".toList
      = some "\"a\\\nvar t = 1".toList := by decide +kernel
  have hquotes : ¬ ['"', '"', '"'] <:+: "\"a\\\nvar t = 1".toList := fun h =>
    absurd (h.sublist.count_le '"') (by decide)
  obtain ⟨before, text, after, hashes, lines, hcovers, -, hlines, -⟩ := lexText_literal ht rfl
  obtain rfl := Option.some.inj (hcovers.slice?_eq.symm.trans hslice)
  exact ⟨ht, hslice, hquotes, by decide, (hlines hquotes).2⟩

end Memberwise
