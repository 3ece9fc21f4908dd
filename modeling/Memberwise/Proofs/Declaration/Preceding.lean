import Memberwise.Proofs.Declaration.Closing
import Memberwise.Proofs.Declaration.Sequence
import Memberwise.Proofs.Token.Row

/-!
# Proofs/Declaration/Preceding — what may stand before an attribute

Where reading succeeds, an attribute is the first of a declaration or follows another one.  So the
token before it ends something: it is a bracket that closes, a brace that opens a block, a semicolon
or a line end, or else a name, that of an attribute or of a variable, and no number stands right
before that name (`mayPrecede`).

* `declarations_preceded` — **every attribute read without an error stands where it may**;
* `exists_pieces_of_attribute` — its pieces are a part of those of the source.
-/

namespace Memberwise

open Text Token

/-! ## Tokens passed -/

/-- Whether a kind is that of a number. -/
def TokenKind.isNumber (k : TokenKind) : Bool := k == .int || k == .float

/-- Whether an attribute may stand after some tokens, the last one first. -/
def mayPrecede : List Token → Bool
  | [] => true
  | t :: ts => endsItself t.kind || t.kind == .ident && ts.head?.all (!·.kind.isNumber)

namespace Cursor

/-- Whether an attribute that comes next stands where it may. -/
def IsReady (c : Cursor) : Prop := c.kind = .atSign → mayPrecede c.passed = true

variable {c : Cursor}

/-- The tokens passed after some more of those to come. -/
theorem passed_skip {pre post : List Token} {t : Token} (h : c.rest = pre ++ t :: post) :
    (c.skip (pre.length + 1)).passed = t :: pre.reverse ++ c.passed := by
  rw [skip, h, List.take_append, List.take_of_length_le (Nat.le_succ _)]
  simp

theorem isReady_of_last {t : Token} {ts : List Token} (h : c.passed = t :: ts)
    (ht : endsItself t.kind = true) : c.IsReady := by
  intro _
  rw [h, mayPrecede, ht, Bool.true_or]

theorem isReady_of_kind (h : c.kind ≠ .atSign) : c.IsReady := fun hk => absurd hk h

/-- Some tokens of a class end in one of them. -/
theorem exists_last_of_countWhile {p : TokenKind → Bool} (h : c.countWhile p ≠ 0) :
    ∃ t ts, (c.skip (c.countWhile p)).passed = t :: ts ∧ p t.kind = true := by
  rw [countWhile] at h ⊢
  obtain ⟨pre, t, ht⟩ := (List.eq_nil_or_concat' (c.rest.takeWhile (p ·.kind))).resolve_left
    fun hnil => h (by rw [hnil]; rfl)
  have hrest : c.rest = pre ++ t :: c.rest.dropWhile (p ·.kind) := by
    conv_lhs => rw [← List.takeWhile_append_dropWhile (p := fun u => p u.kind) (l := c.rest), ht]
    simp
  have hlen : (c.rest.takeWhile (p ·.kind)).length = pre.length + 1 := by rw [ht]; simp
  refine ⟨t, _, by rw [hlen, passed_skip hrest, List.cons_append], ?_⟩
  exact List.mem_takeWhile_imp (p := fun u : Token => p u.kind) (by rw [ht]; simp)

/-- After line ends and semicolons an attribute stands where it may if it does without them. -/
theorem IsReady.skip_separators (h : c.IsReady) : (c.skip c.separators).IsReady := by
  by_cases hz : c.separators = 0
  · rwa [hz, skip_zero]
  · obtain ⟨t, ts, ht, hk⟩ := exists_last_of_countWhile hz
    refine isReady_of_last ht ?_
    rw [Bool.or_eq_true, beq_iff_eq, beq_iff_eq] at hk
    rcases hk with hk | hk <;> rw [hk] <;> rfl

theorem IsReady.skip_newlines (h : c.IsReady) : (c.skip c.newlines).IsReady := by
  by_cases hz : c.newlines = 0
  · rwa [hz, skip_zero]
  · obtain ⟨t, ts, ht, hk⟩ := exists_last_of_countWhile hz
    refine isReady_of_last ht ?_
    rw [beq_iff_eq.mp hk]
    rfl

end Cursor

/-! ## What reading leaves -/

namespace Parser

variable {α β : Type} {c : Cursor} {n : Nat}

/-- The token that closes a group is the last of a number of tokens. -/
def ClosesAt (ts : List Token) (n : Nat) : Prop :=
  ∃ pre t post, ts = pre ++ t :: post ∧ n = pre.length + 1 ∧ t.kind.isClose = true

/-- A group ends with a bracket that closes. -/
theorem closesAt_of_groupLength? {depth : Nat} {ts : List Token}
    (h : groupLength? depth ts = some n) : ClosesAt ts n :=
  isClosingLength_group.exists_close h

theorem isReady_of_group {r : Span × Span} (h : group c = ⟨.ok r, n⟩) : (c.skip n).IsReady := by
  unfold group at h
  split at h
  · rename_i m hm
    cases h
    obtain ⟨pre, t, post, hts, rfl, ht⟩ := closesAt_of_groupLength? hm
    obtain ⟨first, hrest⟩ : ∃ first, c.rest = (first :: pre) ++ t :: post := by
      rw [Cursor.rest_skip] at hts
      cases hr : c.rest with
      | nil => rw [hr] at hts; simp at hts
      | cons first ts =>
        rw [hr] at hts
        exact ⟨first, by simpa using hts⟩
    have hpassed := Cursor.passed_skip hrest
    rw [List.length_cons] at hpassed
    refine Cursor.isReady_of_last (by rw [Nat.add_comm, hpassed, List.cons_append]) ?_
    simp [endsItself, ht]
  · cases h

/-- A stretch ends at a token that stops it, or with the text. -/
theorem stretch_eq_ok {stride : Cursor → Stride} {u : Unit} (h : stretch stride c = ⟨.ok u, n⟩) :
    (c.skip n).rest = [] ∨ stride (c.skip n) = .stop := by
  fun_induction stretch stride c generalizing n with
  | case1 c hr =>
    cases h
    exact .inl (by simpa using hr)
  | case2 c t ts hr hs =>
    cases h
    exact .inr (by rwa [Cursor.skip_zero])
  | case3 c t ts hr m hs ih =>
    obtain ⟨hres, rfl⟩ := Outcome.mk.inj h
    have := ih (n := (stretch stride (c.skip (m + 1))).taken) (by rw [← hres])
    rwa [Cursor.skip_skip] at this
  | case4 c t ts hr hs m hm ih =>
    obtain ⟨hres, rfl⟩ := Outcome.mk.inj h
    have := ih (n := (stretch stride (c.skip (m + 1))).taken) (by rw [← hres])
    rwa [Cursor.skip_skip] at this
  | case5 => cases h

theorem isReady_of_rest_eq_nil (h : c.rest = []) : c.IsReady :=
  Cursor.isReady_of_kind (by rw [Cursor.kind_of_rest_eq_nil h]; decide)

/-- After a stretch that no at sign ends, an attribute stands where it may. -/
theorem isReady_of_stretch {stride : Cursor → Stride} {u : Unit}
    (hs : ∀ c : Cursor, stride c = .stop → c.kind ≠ .atSign)
    (h : stretch stride c = ⟨.ok u, n⟩) : (c.skip n).IsReady := by
  rcases stretch_eq_ok h with hr | hstop
  · exact isReady_of_rest_eq_nil hr
  · exact Cursor.isReady_of_kind (hs _ hstop)

theorem lineStride_ne (c : Cursor) (h : lineStride c = .stop) : c.kind ≠ .atSign := by
  intro hk
  rw [lineStride, hk] at h
  cases h

theorem signatureStride_ne (c : Cursor) (h : signatureStride c = .stop) : c.kind ≠ .atSign := by
  intro hk
  rw [signatureStride, hk] at h
  cases h

theorem initializerStride_ne (c : Cursor) (h : c.initializerStride = .stop) :
    c.kind ≠ .atSign := by
  intro hk
  rw [Cursor.initializerStride, hk] at h
  cases h

/-- The brackets that are open behind a token of a type. -/
def bracketsAfter (opened : List Token) (t : Token) : List Token :=
  match t.kind with
  | .leftParen | .leftBracket | .less => t :: opened
  | .rightParen | .rightBracket | .greater => opened.tail
  | _ => opened

/-- Whether a type ends before a token of a kind, where these brackets are open. -/
def EndsType (ends : TokenKind → Bool) (opened : List Token) (k : TokenKind) : Prop :=
  opened.isEmpty ∧ (ends k ∨ k.isClose ∨ k = .greater)

instance (ends : TokenKind → Bool) (opened : List Token) (k : TokenKind) :
    Decidable (EndsType ends opened k) := inferInstanceAs (Decidable (_ ∧ _))

theorem typeLength_of_ends {ends : TokenKind → Bool} {opened : List Token} {t : Token}
    (h : EndsType ends opened t.kind) (ts : List Token) : typeLength ends opened (t :: ts) = .ok 0 := by
  unfold EndsType at h
  rw [typeLength, if_pos h]

theorem typeLength_of_not_ends {ends : TokenKind → Bool} {opened : List Token} {t : Token}
    (h : ¬EndsType ends opened t.kind) (ts : List Token) : typeLength ends opened (t :: ts)
      = (typeLength ends (bracketsAfter opened t) ts).map (· + 1) := by
  unfold EndsType at h
  rw [typeLength, if_neg h, bracketsAfter]
  cases t.kind <;> rfl

/-- **A type ends before its next token or takes it.** -/
theorem typeLength_cons_eq_ok {ends : TokenKind → Bool} {opened : List Token} {t : Token}
    {ts : List Token} : typeLength ends opened (t :: ts) = .ok n ↔
      EndsType ends opened t.kind ∧ n = 0 ∨ ¬EndsType ends opened t.kind
        ∧ ∃ m, typeLength ends (bracketsAfter opened t) ts = .ok m ∧ n = m + 1 := by
  by_cases hends : EndsType ends opened t.kind
  · rw [typeLength_of_ends hends]
    simp [hends, eq_comm]
  · rw [typeLength_of_not_ends hends]
    cases typeLength ends (bracketsAfter opened t) ts <;> simp [hends, Except.map, eq_comm]

/-- A type ends at a token that ends it, or with the text. -/
theorem typeLength_eq_ok {ends : TokenKind → Bool} {opened ts : List Token}
    (h : typeLength ends opened ts = .ok n) : ∀ t ∈ (ts.drop n).head?,
      ends t.kind = true ∨ t.kind.isClose = true ∨ t.kind = .greater := by
  induction ts generalizing opened n with
  | nil => simp
  | cons t ts ih =>
    obtain ⟨hstop, rfl⟩ | ⟨-, m, hm, rfl⟩ := typeLength_cons_eq_ok.mp h
    · intro u hu
      cases hu
      exact hstop.2
    · exact ih hm

theorem isReady_of_typeText {ends : TokenKind → Bool} {type : String}
    (hs : ends .atSign = false) (h : typeText ends c = ⟨.ok type, n⟩) : (c.skip n).IsReady := by
  unfold typeText at h
  split at h
  · cases h
  · cases h
  · rename_i m hm
    cases h
    refine Cursor.isReady_of_kind fun hk => ?_
    obtain ⟨ts, hts⟩ := Cursor.exists_rest_of_kind (c := c.skip (m + 1)) (by rw [hk]; decide)
    rw [Cursor.rest_skip] at hts
    have hstop := typeLength_eq_ok hm _ (by rw [hts]; rfl)
    change ends (c.skip (m + 1)).kind = true ∨ (c.skip (m + 1)).kind.isClose = true
      ∨ (c.skip (m + 1)).kind = .greater at hstop
    rw [hk, hs] at hstop
    rcases hstop with h | h | h <;> cases h

/-! ### Patterns -/

/-- After a name, an attribute stands where it may if no number stands before the name. -/
theorem isReady_of_ident (hc : c.passed.head?.all (!·.kind.isNumber) = true)
    (hk : c.kind = .ident) : (c.skip 1).IsReady := by
  intro _
  obtain ⟨ts, hr⟩ := Cursor.exists_rest_of_kind (c := c) (by rw [hk]; decide)
  have hrest : c.rest = [] ++ c.current :: ts := hr
  have hp := Cursor.passed_skip hrest
  change c.current.kind = .ident at hk
  rw [List.length_nil, Nat.zero_add] at hp
  rw [hp, List.reverse_nil, List.cons_append, List.nil_append, mayPrecede, hk, hc]
  rfl

theorem passed_skip_one (hk : c.kind ≠ .endOfFile) : (c.skip 1).passed = c.current :: c.passed := by
  obtain ⟨ts, hr⟩ := Cursor.exists_rest_of_kind hk
  have hrest : c.rest = [] ++ c.current :: ts := hr
  exact Cursor.passed_skip hrest

theorem next_eq_ok {t : Token} (hk : c.kind ≠ .endOfFile) (h : next c = ⟨.ok t, n⟩) : n = 1 := by
  obtain ⟨ts, hr⟩ := Cursor.exists_rest_of_kind hk
  have hn := (Outcome.mk.inj h).2
  rw [hr, List.length_cons] at hn
  omega

theorem isReady_skip_one (hk : endsItself c.kind = true) : (c.skip 1).IsReady := by
  refine Cursor.isReady_of_last (passed_skip_one ?_) hk
  intro he
  rw [he] at hk
  cases hk

theorem isReady_of_expect {kind : TokenKind} {t : Token} (hk : endsItself kind = true)
    (h : expect kind c = ⟨.ok t, n⟩) : (c.skip n).IsReady := by
  unfold expect at h
  split at h
  · rename_i hc
    rw [← hc] at hk
    have hne : c.kind ≠ .endOfFile := by
      intro he
      rw [he] at hk
      cases hk
    obtain rfl := next_eq_ok hne h
    exact isReady_skip_one hk
  · cases h

theorem isReady_of_pattern {p : Pattern} (hc : c.passed.head?.all (!·.kind.isNumber) = true)
    (h : pattern c = ⟨.ok p, n⟩) : (c.skip n).IsReady := by
  rw [pattern] at h
  split at h
  · cases h
  · rename_i t ts hr
    split at h
    · rename_i hk
      have hkind : c.kind = .ident := by rw [Cursor.kind, Cursor.current_of_rest hr, hk]
      split at h <;> · cases h; exact isReady_of_ident hc hkind
    · dsimp only at h
      split at h
      · cases h
      · generalize 1 + (elements (c.skip 1)).taken = k at h
        cases he : expect .rightParen (c.skip k) with
        | mk result m =>
          rw [he] at h
          cases result with
          | error => cases h
          | ok t =>
            cases h
            have := isReady_of_expect rfl he
            rwa [Cursor.skip_skip] at this
    · cases h

/-! ### Bindings -/

theorem eat_eq_ok {kind : TokenKind} {b : Bool} (h : eat kind c = ⟨.ok b, n⟩) :
    b = true ∧ c.kind = kind ∨ b = false ∧ n = 0 := by
  unfold eat at h
  split at h <;> cases h
  · exact .inl ⟨rfl, ‹_›⟩
  · exact .inr ⟨rfl, rfl⟩

theorem isReady_of_bindingType? {type : Option String} (hc : c.IsReady)
    (h : bindingType? c = ⟨.ok type, n⟩) : (c.skip n).IsReady := by
  obtain ⟨b, i, j, hb, h', rfl⟩ := bind_eq_ok.mp h
  rcases eat_eq_ok hb with ⟨rfl, -⟩ | ⟨rfl, rfl⟩
  · obtain ⟨t, k, l, ht, hp, rfl⟩ := bind_eq_ok.mp h'
    obtain ⟨-, rfl⟩ := pure_eq_ok.mp hp
    have := isReady_of_typeText rfl (inside_eq_ok.mp ht)
    rwa [Cursor.skip_skip] at this
  · obtain ⟨-, rfl⟩ := pure_eq_ok.mp h'
    rwa [Nat.zero_add, Cursor.skip_zero]

theorem isReady_of_discard_group {u : Unit} (h : discard group c = ⟨.ok u, n⟩) :
    (c.skip n).IsReady := by
  obtain ⟨r, hr, -⟩ := map_eq_ok.mp h
  exact isReady_of_group hr

theorem isReady_of_binding {b : Binding} (hc : c.passed.head?.all (!·.kind.isNumber) = true)
    (h : binding c = ⟨.ok b, n⟩) : (c.skip n).IsReady := by
  rw [binding, here_bind] at h
  obtain ⟨p, i, _, hp, h₁, rfl⟩ := bind_eq_ok.mp h
  obtain ⟨type, j, _, htype, h₂, rfl⟩ := bind_eq_ok.mp h₁
  obtain ⟨hasInitializer, k, _, heat, h₃, rfl⟩ := bind_eq_ok.mp h₂
  have hready := isReady_of_bindingType? (isReady_of_pattern hc hp) htype
  clear h h₁ h₂
  -- What is left ends with a block, or it ends where the initializer or the type does.
  have key : ∀ {c : Cursor} {first : Span} {n : Nat}, c.IsReady →
      (do
        let hasAccessors := (← here).kind == TokenKind.leftBrace
        if hasAccessors then discard group
        return (⟨p, type, hasInitializer, hasAccessors, first.merge (← here).previousSpan⟩ : Binding))
        c = ⟨.ok b, n⟩ → (c.skip n).IsReady := by
    intro c first n hc h
    rw [here_bind] at h
    dsimp only at h
    split at h
    · obtain ⟨_, m, _, hg, h', rfl⟩ := bind_eq_ok.mp h
      rw [here_bind] at h'
      obtain ⟨-, rfl⟩ := pure_eq_ok.mp h'
      exact isReady_of_discard_group hg
    · rw [here_bind] at h
      obtain ⟨-, rfl⟩ := pure_eq_ok.mp h
      rwa [Cursor.skip_zero]
  rcases eat_eq_ok heat with ⟨rfl, -⟩ | ⟨rfl, rfl⟩
  · obtain ⟨_, m, l, hi, h₄, rfl⟩ := bind_eq_ok.mp h₃
    have := key (isReady_of_stretch initializerStride_ne hi) h₄
    simpa [Nat.add_assoc] using this
  · have := key (by simpa using hready) h₃
    simpa [Nat.add_assoc] using this

/-- After the line ends that follow a token other than a number, no number stands last. -/
theorem all_passed_skip_newlines (h : c.passed.head?.all (!·.kind.isNumber) = true) :
    (c.skip c.newlines).passed.head?.all (!·.kind.isNumber) = true := by
  by_cases hz : c.newlines = 0
  · rwa [hz, Cursor.skip_zero]
  · obtain ⟨t, ts, ht, hk⟩ := Cursor.exists_last_of_countWhile hz
    change (c.skip c.newlines).passed = t :: ts at ht
    rw [ht, List.head?_cons, Option.all_some, beq_iff_eq.mp hk]
    rfl

theorem isReady_of_furtherBindings {bs : List Binding} (hc : c.IsReady)
    (h : furtherBindings c = ⟨.ok bs, n⟩) : (c.skip n).IsReady := by
  fun_induction furtherBindings c generalizing bs n with
  | case1 c hr =>
    cases h
    rwa [Cursor.skip_zero]
  | case2 => cases h
  | case3 =>
    rename_i c t ts hr hk before o b hb ih
    have hne : c.kind ≠ .endOfFile := by
      rw [Cursor.kind, Cursor.current_of_rest hr, hk]
      decide
    have hlast : (c.skip 1).passed.head?.all (!·.kind.isNumber) = true := by
      rw [passed_skip_one hne, Cursor.current_of_rest hr, List.head?_cons, Option.all_some, hk]
      rfl
    have hlast' := all_passed_skip_newlines hlast
    rw [Cursor.skip_skip] at hlast'
    have hready := isReady_of_binding hlast' (show binding _ = ⟨.ok b, o.taken⟩ by rw [← hb])
    rw [Cursor.skip_skip] at hready
    cases hlater : furtherBindings (c.skip (1 + before + o.taken)) with
    | mk result m =>
      rw [hlater] at h
      cases result with
      | error => cases h
      | ok later =>
        cases h
        have := ih hready hlater
        rwa [Cursor.skip_skip] at this
  | case4 c t ts hr hk =>
    cases h
    rwa [Cursor.skip_zero]

/-- Reading after which an attribute stands where it may, wherever it begins. -/
def Leaves (p : Parser α) : Prop := ∀ c a n, p c = ⟨.ok a, n⟩ → (c.skip n).IsReady

theorem Leaves.bind {p : Parser α} {f : α → Parser β} (h : ∀ a, Leaves (f a)) :
    Leaves (p >>= f) := by
  intro c b n hb
  obtain ⟨a, m, k, -, hf, rfl⟩ := bind_eq_ok.mp hb
  have := h a _ _ _ hf
  rwa [Cursor.skip_skip] at this

theorem Leaves.bind_pure {p : Parser α} {f : α → β} (h : Leaves p) :
    Leaves (p >>= fun a => Pure.pure (f a)) := by
  intro c b n hb
  obtain ⟨a, m, k, hp, hf, rfl⟩ := bind_eq_ok.mp hb
  obtain ⟨-, rfl⟩ := pure_eq_ok.mp hf
  exact h _ _ _ hp

theorem Leaves.inside {construct : Construct} {p : Parser α} (h : Leaves p) :
    Leaves (Parser.inside construct p) := fun c a n ha => h c a n (inside_eq_ok.mp ha)

theorem leaves_restOfLine : Leaves restOfLine := fun _ _ _ => isReady_of_stretch lineStride_ne

theorem leaves_line (kind : DeclarationKind) : Leaves (line kind) := by
  refine .bind fun _ => .bind fun c => ?_
  split
  all_goals exact .bind fun _ => .bind_pure leaves_restOfLine

theorem leaves_signatureAndBody : Leaves signatureAndBody := by
  intro c u n h
  obtain ⟨_, m, k, hs, h', rfl⟩ := bind_eq_ok.mp h
  rw [here_bind] at h'
  split at h'
  · have := isReady_of_discard_group h'
    rwa [Cursor.skip_skip] at this
  · obtain ⟨-, rfl⟩ := pure_eq_ok.mp h'
    exact isReady_of_stretch signatureStride_ne hs

theorem leaves_function (kind : DeclarationKind) : Leaves (function kind) := by
  refine .inside (.bind fun _ => .bind fun _ => ?_)
  dsimp only
  split
  all_goals
    refine .bind fun name => ?_
    split
    · refine .bind fun c => ?_
      split
      · exact .bind fun _ => .bind fun _ => .bind_pure leaves_signatureAndBody
      · exact .bind fun _ => .bind_pure leaves_signatureAndBody
    · exact .bind fun _ => .bind_pure leaves_signatureAndBody

theorem isReady_of_property {kind : DeclarationKind} (hk : c.kind = .letKw ∨ c.kind = .varKw)
    (h : property c = ⟨.ok kind, n⟩) : (c.skip n).IsReady := by
  rw [property, inside_eq_ok] at h
  obtain ⟨t, i, _, hnext, h₁, rfl⟩ := bind_eq_ok.mp h
  obtain ⟨first, j, _, hfirst, h₂, rfl⟩ := bind_eq_ok.mp h₁
  obtain ⟨further, k, _, hfurther, hp, rfl⟩ := bind_eq_ok.mp h₂
  obtain ⟨-, rfl⟩ := pure_eq_ok.mp hp
  have hne : c.kind ≠ .endOfFile := by rcases hk with hk | hk <;> rw [hk] <;> decide
  obtain rfl := next_eq_ok hne hnext
  have hlast : (c.skip 1).passed.head?.all (!·.kind.isNumber) = true := by
    rw [passed_skip_one hne, List.head?_cons, Option.all_some]
    change (!c.kind.isNumber) = true
    rcases hk with hk | hk <;> rw [hk] <;> rfl
  have := isReady_of_furtherBindings (isReady_of_binding hlast hfirst) hfurther
  simpa [Nat.add_assoc] using this

/-! ### Attributes -/

/-- The last two of some segments are a dot and a name. -/
theorem exists_of_segmentCount {ts : List Token} {k : Nat} (h : segmentCount ts = k + 1) :
    ∃ pre dot name post, ts = pre ++ dot :: name :: post ∧ pre.length = 2 * k
      ∧ dot.kind = .dot ∧ name.kind = .ident := by
  fun_induction segmentCount ts generalizing k with
  | case1 dot name ts hk ih =>
    cases k with
    | zero => exact ⟨[], dot, name, ts, rfl, rfl, hk.1, hk.2⟩
    | succ k =>
      obtain ⟨pre, dot', name', post, rfl, hl, hd, hn⟩ := ih (Nat.succ.inj h)
      refine ⟨dot :: name :: pre, dot', name', post, rfl, ?_, hd, hn⟩
      rw [List.length_cons, List.length_cons, hl]
      omega
  | case2 => cases h
  | case3 => cases h

theorem isReady_of_qualifiedName {name : String} (hc : c.passed.head?.all (!·.kind.isNumber) = true)
    (h : qualifiedName c = ⟨.ok name, n⟩) : (c.skip n).IsReady := by
  obtain ⟨r, i, _, hr, h₁, rfl⟩ := bind_eq_ok.mp h
  obtain ⟨hk, -, rfl⟩ := identifier_eq_ok hr
  dsimp only at h₁
  rw [here_bind] at h₁
  obtain ⟨_, j, _, htake, hp, rfl⟩ := bind_eq_ok.mp h₁
  obtain ⟨-, rfl⟩ := pure_eq_ok.mp hp
  have hj := (Outcome.mk.inj htake).2
  have hready := isReady_of_ident hc hk
  cases hs : segmentCount (c.skip 1).rest with
  | zero =>
    rw [hs] at hj
    simpa [← hj] using hready
  | succ k =>
    obtain ⟨pre, dot, name, post, hrest, hl, hd, hn⟩ := exists_of_segmentCount hs
    have hrest' : (c.skip 1).rest = (pre ++ [dot]) ++ name :: post := by
      rw [hrest, List.append_assoc]
      rfl
    have hj' : j = (pre ++ [dot]).length + 1 := by
      rw [hs, hrest'] at hj
      simp at hj ⊢
      omega
    intro _
    rw [Nat.add_zero, hj', ← Cursor.skip_skip, Cursor.passed_skip hrest']
    simp [mayPrecede, hd, hn, TokenKind.isNumber]

theorem isReady_of_attributeAfter {s : Span} {a : Attribute}
    (hc : c.passed.head?.all (!·.kind.isNumber) = true)
    (h : attributeAfter s c = ⟨.ok a, n⟩) : (c.skip n).IsReady := by
  rw [attributeAfter, inside_eq_ok] at h
  obtain ⟨name, i, _, hname, h₁, rfl⟩ := bind_eq_ok.mp h
  obtain ⟨arguments, j, _, hargs, h₂, rfl⟩ := bind_eq_ok.mp h₁
  rw [here_bind] at h₂
  obtain ⟨-, rfl⟩ := pure_eq_ok.mp h₂
  have hready := isReady_of_qualifiedName hc hname
  rw [attributeArguments, here_bind] at hargs
  split at hargs
  · obtain ⟨r, k, _, hg, hp, rfl⟩ := bind_eq_ok.mp hargs
    obtain ⟨-, rfl⟩ := pure_eq_ok.mp hp
    have := isReady_of_group hg
    simpa using this
  · obtain ⟨-, rfl⟩ := pure_eq_ok.mp hargs
    exact hready

end Parser

theorem Cursor.kind_of_opening? {c : Cursor} {o : Opening} (h : c.opening? = some o) :
    c.kind ≠ .endOfFile := by
  intro hk
  rw [opening?, hk] at h
  cases h

theorem Cursor.kind_of_opening?_property {c : Cursor} (h : c.opening? = some .property) :
    c.kind = .letKw ∨ c.kind = .varKw := by
  rw [opening?] at h
  cases hk : c.kind with
  | letKw => exact .inl rfl
  | varKw => exact .inr rfl
  | ident =>
    rw [hk] at h
    dsimp only at h
    split at h
    · cases h
    · split at h
      · cases h
      · split at h <;> cases h
  | _ =>
    rw [hk] at h
    cases h

/-- A span is that of an attribute among the tokens to come, at a place where it may stand. -/
def Cursor.Reads (c : Cursor) (s : Span) : Prop :=
  ∃ pre t body final post, c.rest = pre ++ (t :: body ++ [final]) ++ post ∧ t.kind = .atSign
    ∧ mayPrecede (pre.reverse ++ c.passed) = true
    ∧ s.start = t.span.start ∧ s.stop = final.span.stop

theorem Cursor.Reads.of_skip {c : Cursor} {s : Span} {n : Nat} (h : (c.skip n).Reads s) :
    c.Reads s := by
  obtain ⟨pre, t, body, final, post, hr, hk, hp, hstart, hstop⟩ := h
  refine ⟨c.rest.take n ++ pre, t, body, final, post, ?_, hk, ?_, hstart, hstop⟩
  · rw [Cursor.rest_skip] at hr
    conv_lhs => rw [← List.take_append_drop n c.rest, hr]
    simp
  · rw [Cursor.skip] at hp
    simpa using hp

namespace Parser

variable {c : Cursor} {n : Nat} {as : List Attribute}

theorem reads_of_attributeAfter {a : Attribute} (hl : c.IsLaid) (hc : c.IsReady)
    (hk : c.kind = .atSign) (ha : attributeAfter c.span (c.skip 1) = ⟨.ok a, n⟩) :
    c.Reads a.span := by
  obtain ⟨-, hrest, hpos⟩ := attributeAfter_eq_ok ha
  obtain ⟨before, text, after, -, hspan, hstart, -, hstop⟩ := exists_span_of_attributeAfter hl hk ha
  obtain ⟨ts, hr⟩ := Cursor.exists_rest_of_kind (c := c) (by rw [hk]; decide)
  have hts : (c.skip 1).rest = ts := by rw [Cursor.rest_skip, hr]; rfl
  rw [hts] at hrest
  obtain ⟨body, final, hbody⟩ := (List.eq_nil_or_concat' (ts.take n)).resolve_left (by
    rw [List.take_eq_nil_iff]
    rintro (h | h)
    · omega
    · exact hrest h)
  have hcut : ts = body ++ [final] ++ ts.drop n := by rw [← hbody, List.take_append_drop]
  refine ⟨[], c.current, body, final, ts.drop n, ?_, hk, hc hk, ?_, ?_⟩
  · rw [hr]
    conv_lhs => rw [hcut]
    simp
  · rw [hspan]
    exact hstart.symm
  · have hlast : (c.skip (1 + n)).passed.head? = some final := by
      rw [← Cursor.skip_skip, Cursor.skip, hts, hbody]
      simp
    rw [hspan]
    rw [Cursor.previousSpan, hlast] at hstop
    exact hstop.symm

/-- **Attributes read one after the other stand where they may.** -/
theorem AttributeRow.reads (h : AttributeRow c as n) (hl : c.IsLaid) (hc : c.IsReady) :
    ∀ a ∈ as, c.Reads a.span := by
  induction h with
  | nil => simp
  | @cons c a as k m n hk ha hm has ih =>
    have hne : c.kind ≠ .endOfFile := by rw [hk]; decide
    have hlast : (c.skip 1).passed.head?.all (!·.kind.isNumber) = true := by
      rw [passed_skip_one hne, List.head?_cons, Option.all_some]
      change (!c.kind.isNumber) = true
      rw [hk]
      rfl
    have hready := (isReady_of_attributeAfter hlast ha).skip_newlines
    rw [Cursor.skip_skip, Cursor.skip_skip, Cursor.skip_skip, ← Nat.add_assoc, ← hm] at hready
    intro b hb
    rcases List.mem_cons.mp hb with rfl | hb
    · exact reads_of_attributeAfter hl hc hk ha
    · exact (ih (hl.skip m) hready b hb).of_skip

/-! ### Heads -/

/-- What is read of a declaration besides its attributes and modifiers is not empty, and an
attribute after it stands where it may. -/
theorem HeadRest.isReady {first : Span} {ms : List Modifier} {r : Head}
    (h : HeadRest first as ms c r n) (hr : ∀ d, r ≠ .type d) : 0 < n ∧ (c.skip n).IsReady := by
  cases h with
  | directive has hms hk h =>
    refine ⟨?_, leaves_restOfLine _ _ _ h⟩
    have hstride : lineStride c = .pass 0 := by
      rw [lineStride, hk]
      rfl
    rw [restOfLine, stretch_of_pass (Cursor.rest_ne_nil_of_kind (by rw [hk]; decide)) hstride] at h
    have := (Outcome.mk.inj h).2
    omega
  | type => exact absurd rfl (hr _)
  | function ho h =>
    refine ⟨?_, leaves_function _ _ _ _ h⟩
    unfold Parser.function at h
    rw [inside_eq_ok, here_bind] at h
    obtain ⟨t, i, j, hnext, -, rfl⟩ := bind_eq_ok.mp h
    obtain rfl := next_eq_ok (Cursor.kind_of_opening? ho) hnext
    omega
  | line ho h =>
    refine ⟨?_, leaves_line _ _ _ _ h⟩
    obtain ⟨t, i, j, hnext, -, rfl⟩ := bind_eq_ok.mp h
    obtain rfl := next_eq_ok (Cursor.kind_of_opening? ho) hnext
    omega
  | property ho h =>
    refine ⟨?_, isReady_of_property (Cursor.kind_of_opening?_property ho) h⟩
    rw [Parser.property, inside_eq_ok] at h
    obtain ⟨t, i, j, hnext, -, rfl⟩ := bind_eq_ok.mp h
    obtain rfl := next_eq_ok (Cursor.kind_of_opening? ho) hnext
    omega

theorem isReady_of_head {r : Head} (h : head c = ⟨.ok r, n⟩) (hr : ∀ d, r ≠ .type d) :
    0 < n ∧ (c.skip n).IsReady := by
  obtain ⟨as, k, m, l, -, -, hrest, rfl⟩ := head_eq_ok h
  obtain ⟨hpos, hready⟩ := hrest.isReady hr
  rw [Cursor.skip_skip] at hready
  exact ⟨by omega, hready⟩

end Parser

/-- **Every attribute read stands where it may**, if nothing is wrong. -/
theorem declarations_preceded (inBlock : Bool) {c : Cursor} (hl : c.IsLaid) (hc : c.IsReady)
    (he : (declarations inBlock c).errors = []) :
    ∀ d ∈ (declarations inBlock c).declarations, ∀ s ∈ d.attributeSpans, c.Reads s := by
  revert hl hc he
  refine declarations_induction (P := fun _ c p => c.IsLaid → c.IsReady → p.errors = [] →
    ∀ d ∈ p.declarations, ∀ s ∈ d.attributeSpans, c.Reads s) ?_ inBlock c
  intro inBlock c p hround ih hl hc he
  have hready := hc.skip_separators
  -- What is read after a round is read at a place where an attribute may stand.
  have hlater : ∀ {k : Nat}, (c.skip k).rest.length < c.rest.length → (c.skip k).IsReady →
      (declarations inBlock (c.skip k)).errors = [] →
      ∀ d ∈ (declarations inBlock (c.skip k)).declarations, ∀ s ∈ d.attributeSpans, c.Reads s := by
    intro k hk hr he d hd s hs
    exact (ih inBlock (c.skip k) hk (hl.skip k) hr he d hd s hs).of_skip
  have hown : ∀ {as : List Attribute} {k : Nat},
      Parser.attributes (c.skip c.separators) = ⟨.ok as, k⟩ → ∀ a ∈ as, c.Reads a.span := by
    intro as k h a ha
    exact ((Parser.attributes_eq_ok h).reads (hl.skip _) hready a ha).of_skip
  cases hround with
  | done => simp [Parsed.nothing]
  | failed hne => exact absurd (List.append_eq_nil_iff.mp he).1 hne
  | directive h hn =>
    obtain ⟨hpos, hnext⟩ := Parser.isReady_of_head h (by simp)
    rw [Cursor.skip_skip, ← Nat.max_eq_right hpos] at hnext
    exact hlater hn hnext he
  | @complete d n h hn =>
    obtain ⟨hpos, hnext⟩ := Parser.isReady_of_head h (by simp)
    rw [Cursor.skip_skip, ← Nat.max_eq_right hpos] at hnext
    obtain ⟨as, k, m, l, has, -, hrest, rfl⟩ := Parser.head_eq_ok h
    obtain ⟨hda, hdm⟩ := hrest.bare
    intro e hmem s hs
    rcases List.mem_cons.mp hmem with rfl | hmem
    · rw [Declaration.attributeSpans_of_line hdm, hda] at hs
      obtain ⟨a, ha, rfl⟩ := List.mem_map.mp hs
      exact hown has a ha
    · exact hlater hn hnext he e hmem s hs
  | @block d n m inner h ho hi hm hclose hn hn' =>
    obtain ⟨as, k, j, l, has, -, hrest, -⟩ := Parser.head_eq_ok h
    obtain ⟨he₁, he₂⟩ := List.append_eq_nil_iff.mp he
    have hinner : (c.skip (c.separators + n + 1)).IsReady := by
      rw [← Cursor.skip_skip]
      exact Parser.isReady_skip_one (by rw [ho]; rfl)
    have hnext : (c.skip (m + 1)).IsReady := by
      rw [← Cursor.skip_skip]
      exact Parser.isReady_skip_one (by rw [hclose]; rfl)
    intro e hmem s hs
    rcases List.mem_cons.mp hmem with rfl | hmem
    · rw [Declaration.attributeSpans_of_block rfl] at hs
      rcases List.mem_append.mp hs with hs | hs
      · cases hrest with
        | type =>
          obtain ⟨a, ha, rfl⟩ := List.mem_map.mp hs
          exact hown has a ha
      · obtain ⟨f, hf, hs⟩ := List.mem_flatMap.mp hs
        rw [hi] at he₁ hf
        exact (ih true _ hn (hl.skip _) hinner he₁ f hf s hs).of_skip
    · exact hlater hn' hnext he₂ e hmem s hs

/-! ## The pieces of an attribute -/

/-- The pieces of an attribute: they begin with its at sign, and an attribute may stand after the
tokens before it. -/
structure AttributePieces (source : List Char) (s : Span) (A M B : List Piece) : Prop where
  pieces_eq : pieces source = A ++ M ++ B
  start_eq : s.start = byteLength (A.flatMap Piece.text)
  stop_eq : s.stop = byteLength ((A ++ M).flatMap Piece.text)
  head : ∃ p, M.head? = some p ∧ p.lexeme = .token .atSign
  preceded : mayPrecede (rowTokens 0 A).reverse = true

/-- **The pieces of an attribute are a part of those of the source.** -/
theorem exists_attributePieces {source : String} (h : (Reading.ofSource source).diagnostics = [])
    {d : Declaration} (hd : d ∈ (Reading.ofSource source).file.declarations) {s : Span}
    (hs : s ∈ d.attributeSpans) : ∃ A M B, AttributePieces source.toList s A M B := by
  obtain ⟨-, hf⟩ := List.append_eq_nil_iff.mp h
  have he : (Reading.ofSource source).file.errors = [] := List.map_eq_nil_iff.mp hf
  have hc : (Cursor.start source.toList (lex source).tokens).IsLaid := laid_lexText source.toList
  obtain ⟨pre, t, body, final, post, hr, hk, hp, hstart, hstop⟩ :=
    declarations_preceded false hc (fun _ => rfl) he d hd s hs
  have hrow : rowTokens 0 (pieces source.toList) = pre ++ t :: (body ++ final :: post) := by
    refine Eq.trans hr ?_
    simp
  obtain ⟨A, p, B, hps, rfl, ht, hB⟩ := exists_piece_of_rowTokens hrow
  obtain ⟨A', q, B', rfl, -, hfinal, -⟩ := exists_piece_of_rowTokens hB
  rw [Nat.zero_add] at ht
  have hat : p.lexeme = .token .atSign ∧ t.span.start = byteLength (A.flatMap Piece.text) := by
    rcases rowTokens_singleton (byteLength (A.flatMap Piece.text)) p with hnil | ⟨u, hu, -, hat⟩
    · rw [hnil] at ht
      cases ht
    · rw [hu] at ht
      obtain rfl := (List.cons.inj ht).1
      exact hat hk
  have hend : final.span.stop = byteLength ((A ++ (p :: A' ++ [q])).flatMap Piece.text) := by
    generalize hn : 0 + byteLength ((A ++ [p]).flatMap Piece.text)
      + byteLength (A'.flatMap Piece.text) = n at hfinal
    rcases rowTokens_singleton n q with hnil | ⟨u, hu, hstop', -⟩
    · rw [hnil] at hfinal
      cases hfinal
    · rw [hu] at hfinal
      obtain rfl := (List.cons.inj hfinal).1
      rw [hstop', ← hn]
      simp [Nat.add_assoc]
  refine ⟨A, p :: A' ++ [q], B', by rw [hps]; simp, ?_, ?_, ⟨p, rfl, hat.1⟩, ?_⟩
  · rw [hstart, hat.2]
  · rw [hstop, hend]
  · simpa [Cursor.start] using hp

end Memberwise
