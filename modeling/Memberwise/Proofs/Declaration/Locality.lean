import Memberwise.Proofs.Declaration.Agreement

/-!
# Proofs/Declaration/Locality — reading looks no further than it has to

At cursors that agree up to the first token after what is taken that ends no line, attributes,
modifiers and properties are read alike.  Two of them look further: a name goes on after a dot, so
attributes look past a dot after them (`attributes_alike`), and a word before parentheses is a
modifier or not by what stands in them (`modifierReach`).

* `binding_alike`, `furtherBindings_alike` — **bindings look at the token after them**, also where
  an initializer ends before a brace (`initializerPeek`).
-/

namespace Memberwise

open Text

namespace Parser

variable {n hi k m : Nat} {c d : Cursor}

/-! ## Attributes -/

theorem two_mul_segmentCount_le (ts : List Token) : 2 * segmentCount ts ≤ ts.length := by
  fun_induction segmentCount ts with
  | case1 dot name ts hc ih =>
    simp only [List.length_cons]
    omega
  | case2 => exact Nat.zero_le _
  | case3 => exact Nat.zero_le _

/-- The names after dots that come next, without backticks. -/
def segments (c : Cursor) : List String :=
  (List.range (segmentCount c.rest)).map fun i =>
    String.ofList (unescapeText (c.text (c.ahead (2 * i + 1)).span))

theorem qualifiedName_of_ident (hk : c.kind = .ident) : qualifiedName c
    = ⟨.ok (".".intercalate (String.ofList (unescapeText c.currentText) :: segments (c.skip 1))),
      1 + 2 * segmentCount (c.skip 1).rest⟩ := by
  have hi : identifier c = ⟨.ok (String.ofList (unescapeText c.currentText), c.span), 1⟩ := by
    rw [identifier, if_pos hk]
  have hle := two_mul_segmentCount_le (c.skip 1).rest
  have ht : take (2 * segmentCount (c.skip 1).rest) (c.skip 1)
      = ⟨.ok (), 2 * segmentCount (c.skip 1).rest⟩ := by
    rw [take, Nat.min_eq_left hle]
  rw [qualifiedName, bind_of_ok hi]
  dsimp only
  rw [here_bind, bind_of_ok ht]
  rfl

theorem qualifiedName_of_ne (hk : c.kind ≠ .ident) :
    qualifiedName c = fail (.expectedIdentifier c.kind) c := by
  have hi : identifier c = ⟨.error ⟨.expectedIdentifier c.kind, c.span, none⟩, 0⟩ := by
    rw [identifier, if_neg hk, fail]
  rw [qualifiedName, bind_of_error hi, fail]

/-- A name with dots looks at the token after it, and if that is a dot at the one after the dot. -/
theorem qualifiedName_alike (h : Alike n hi k c d) (hs : Shows k (qualifiedName c).taken c.rest)
    (hdot : (c.skip (qualifiedName c).taken).kind = .dot → (qualifiedName c).taken + 1 < k) :
    qualifiedName d = mapSpans (.move n) (qualifiedName c) := by
  have hlt := hs.lt
  by_cases hk : c.kind = .ident
  · rw [qualifiedName_of_ident hk] at hlt hdot ⊢
    dsimp only at hlt hdot
    rw [qualifiedName_of_ident ((h.kind hs.pos).trans hk),
      h.currentText hs.pos (by rw [hk]; decide)]
    have h' := h.skip (m := 1) (by omega)
    have hcount : segmentCount (d.skip 1).rest = segmentCount (c.skip 1).rest := by
      refine h'.known.segmentCount (by omega) fun t ht hd => ?_
      have hkind : (c.skip (1 + 2 * segmentCount (c.skip 1).rest)).kind = .dot := by
        rw [← Cursor.skip_skip, Cursor.kind, Cursor.current, Cursor.ahead_skip, Cursor.ahead,
          List.getD_eq_getElem?_getD, Nat.add_zero, ht]
        exact hd
      have := hdot hkind
      omega
    have hsegments : segments (d.skip 1) = segments (c.skip 1) := by
      have hle := two_mul_segmentCount_le (c.skip 1).rest
      rw [segments, hcount, segments]
      refine List.map_congr_left fun i hi => ?_
      rw [List.mem_range] at hi
      rw [h'.text_ahead (by omega) (by omega)]
    rw [hcount, hsegments]
    rfl
  · rw [qualifiedName_of_ne hk, qualifiedName_of_ne (by rwa [h.kind hs.pos]), h.kind hs.pos]
    exact fail_alike h hs.pos rfl

theorem attributeArguments_alike (h : Alike n hi k c d) (hb : c.Behind)
    (hs : Shows k (attributeArguments c).taken c.rest) :
    attributeArguments d = mapSpans (.move n) (attributeArguments c) := by
  rw [attributeArguments, here_bind] at hs ⊢
  rw [here_bind, h.kind hs.pos, h.previousSpan hb, h.span hs.pos, Span.touches_move]
  split at hs
  case isFalse hk =>
    rw [if_neg hk, if_neg hk]
    rfl
  case isTrue hk =>
    rw [if_pos hk, if_pos hk]
    refine bind_alike h hs (group_alike_of_shows h) fun s m hg _ _ => ?_
    obtain ⟨j, rfl, rfl, hj⟩ := group_eq_ok hg
    have hlt := hs.lt
    rw [bind_of_ok hg, Outcome.taken_after] at hlt
    have htext := h.text ⟨c.span.stop, (c.ahead j).span.start⟩ (h.ahead_le (by omega) hj).1
    exact congrArg (fun x => (⟨.ok (some (String.ofList (trim x))), 0⟩ : Outcome (Option String)))
      htext

/-- No arguments are read before a dot. -/
theorem taken_attributeAfter (s : Span) (hd : (c.skip (qualifiedName c).taken).kind = .dot) :
    (attributeAfter s c).taken = (qualifiedName c).taken := by
  rw [attributeAfter, inside]
  cases hq : qualifiedName c with
  | mk result m =>
    cases result with
    | error e => rw [bind_of_error hq]
    | ok name =>
      rw [hq] at hd
      have ha : attributeArguments (c.skip m) = ⟨.ok none, 0⟩ := by
        rw [attributeArguments, here_bind, if_neg (by rw [hd]; simp)]
        rfl
      rw [bind_of_ok hq, bind_of_ok ha]
      rfl

/-- An attribute looks at the token after it, and if that is a dot at the one after the dot. -/
theorem attributeAfter_alike (h : Alike n hi k c d) (s : Span)
    (hs : Shows k (attributeAfter s c).taken c.rest)
    (hdot : (c.skip (attributeAfter s c).taken).kind = .dot →
      (attributeAfter s c).taken + 1 < k) :
    attributeAfter (s.move n) d = mapSpans (.move n) (attributeAfter s c) := by
  have hdot' : (c.skip (qualifiedName c).taken).kind = .dot → (qualifiedName c).taken + 1 < k := by
    intro hd
    have ht := taken_attributeAfter s hd
    rw [← ht] at hd ⊢
    exact hdot hd
  clear hdot
  rw [attributeAfter] at hs
  rw [attributeAfter, attributeAfter]
  refine inside_alike hs fun hs => ?_
  refine bind_alike h hs (fun hs => qualifiedName_alike h hs hdot') fun name m hq h' hs => ?_
  have hb : (c.skip m).Behind := by
    by_cases hk : c.kind = .ident
    · rw [qualifiedName_of_ident hk] at hq
      refine Cursor.behind_skip (Cursor.rest_ne_nil_of_kind (by rw [hk]; decide)) ?_
      have hm := (Outcome.mk.inj hq).2
      omega
    · rw [qualifiedName_of_ne hk] at hq
      cases hq
  refine bind_alike h' hs (attributeArguments_alike h' hb) fun arguments j _ h'' _ => ?_
  rw [here_bind, here_bind, h''.previousSpan (hb.skip j), ← Span.move_merge]
  rfl

theorem newlines_of_ne (hk : c.kind ≠ .newline) : c.newlines = 0 := by
  cases hr : c.rest with
  | nil => rw [Cursor.newlines, Cursor.countWhile, hr]; rfl
  | cons t ts =>
    rw [Cursor.kind, Cursor.current_of_rest hr] at hk
    rw [Cursor.newlines, Cursor.countWhile, hr, List.takeWhile_cons_of_neg (by simpa using hk)]
    rfl

/-- Nothing more is read where a dot comes after an attribute. -/
theorem attributes_of_dot {a : Attribute} (hk : c.kind = .atSign)
    (ha : attributeAfter c.span (c.skip 1) = ⟨.ok a, m⟩) (hd : (c.skip (1 + m)).kind = .dot) :
    attributes c = ⟨.ok [a], 1 + m⟩ := by
  have hnone : (c.skip (1 + m)).newlines = 0 := newlines_of_ne (by rw [hd]; decide)
  rw [attributes_of_ok hk ha, hnone, Nat.add_zero, attributes_of_ne (by rw [hd]; decide)]
  rfl

/-- Attributes look at the token after them, and if that is a dot at the one after the dot. -/
theorem attributes_alike (h : Alike n hi k c d) (hs : Shows k (attributes c).taken c.rest)
    (hdot : (c.skip (attributes c).taken).kind = .dot → (attributes c).taken + 1 < k) :
    attributes d = mapSpans (.move n) (attributes c) := by
  induction hlen : c.rest.length using Nat.strongRecOn generalizing k c d with
  | ind len ih =>
    subst hlen
    have hkind := h.kind hs.pos
    have hspan := h.span hs.pos
    by_cases hk : c.kind = .atSign
    case neg =>
      rw [attributes_of_ne hk, attributes_of_ne (by rwa [hkind])]
      rfl
    have hk' := hkind.trans hk
    have h1 := h.skip (m := 1) hs.pos
    cases ha : attributeAfter c.span (c.skip 1) with
    | mk result m =>
    cases result with
    | error e =>
      rw [attributes_of_error hk ha] at hs hdot ⊢
      have hd := attributeAfter_alike h1 c.span (by rw [ha]; exact hs.drop) fun hk => by
        rw [ha, Cursor.skip_skip] at hk
        have hlt : 1 + m + 1 < k := hdot hk
        rw [ha]
        dsimp only
        omega
      rw [ha, ← hspan] at hd
      rw [attributes_of_error hk' hd]
      rfl
    | ok a =>
      have hd : attributeAfter d.span (d.skip 1) = ⟨.ok (mapSpans (.move n) a), m⟩ := by
        rw [hspan, attributeAfter_alike h1 c.span, ha]
        · rfl
        · rw [attributes_of_ok hk ha] at hs
          rw [ha]
          refine (hs.of_le ?_).drop
          rw [Outcome.taken_after]
          dsimp only
          omega
        · rw [ha, Cursor.skip_skip]
          intro hk''
          rw [attributes_of_dot hk ha hk''] at hdot
          have hlt : 1 + m + 1 < k := hdot hk''
          dsimp only
          omega
      have hc := attributes_of_ok hk ha
      have hd' := attributes_of_ok hk' hd
      dsimp only at hc hd'
      generalize hl : 1 + (m + (c.skip (1 + m)).newlines) = l at hc
      rw [hc] at hs hdot
      have hlt := hs.lt
      rw [Outcome.taken_after] at hlt
      rw [(h.skip (m := 1 + m) (by omega)).newlines (by omega), hl] at hd'
      obtain ⟨ts, hr⟩ := Cursor.exists_rest_of_kind (c := c) (by rw [hk]; decide)
      have hlater := ih (c.skip l).rest.length
        (by rw [Cursor.length_rest_skip, hr, List.length_cons]; omega) (h.skip (m := l) (by omega))
        hs.drop (fun hk'' => by
          rw [Cursor.skip_skip] at hk''
          have hlt : l + (attributes (c.skip l)).taken + 1 < k := hdot hk''
          omega) rfl
      rw [hc, hd', hlater, Outcome.mapSpans_after, Outcome.mapSpans_cons]

/-! ## Modifiers -/

end Parser

namespace Cursor

variable {n hi k m : Nat} {c d : Cursor}

/-- How many places the question looks at whether a modifier comes next. -/
def modifierReach (c : Cursor) : Nat :=
  match c.kind with
  | .classKw => 2
  | .ident =>
    if isModifierWord c.currentText then
      if (c.ahead 1).kind = .leftParen then if (c.ahead 2).kind = .ident then 4 else 3 else 2
    else 1
  | _ => 1

theorem modifierReach_pos (c : Cursor) : 0 < c.modifierReach := by
  unfold modifierReach
  split
  · exact Nat.zero_lt_two
  · split
    · split
      · split <;> exact Nat.zero_lt_succ _
      · exact Nat.zero_lt_two
    · exact Nat.zero_lt_one
  · exact Nat.zero_lt_one

theorem wordIsModifier_alike (h : Alike n hi k c d) (hc : c.kind = .ident)
    (hk : c.modifierReach ≤ k) : d.wordIsModifier = c.wordIsModifier := by
  have hpos : 0 < k := Nat.lt_of_lt_of_le c.modifierReach_pos hk
  rw [wordIsModifier, wordIsModifier, h.currentText hpos (by rw [hc]; decide)]
  rw [modifierReach, hc] at hk
  dsimp only at hk
  by_cases hw : isModifierWord c.currentText = true
  case neg => simp [hw]
  rw [if_pos hw] at hk
  by_cases hp : (c.ahead 1).kind = .leftParen
  case neg =>
    rw [if_neg hp] at hk
    rw [h.ahead (by omega), kind_mapSpans]
    congr 1
    split
    · exact absurd ‹_› hp
    all_goals rfl
  rw [if_pos hp] at hk
  by_cases hi : (c.ahead 2).kind = .ident
  · rw [if_pos hi] at hk
    rw [h.ahead (by omega), h.ahead (by omega), h.ahead (by omega)]
    rfl
  · rw [if_neg hi] at hk
    have hi' : ((c.ahead 2).kind == .ident) = false := by simpa using hi
    rw [h.ahead (by omega), h.ahead (by omega), kind_mapSpans, kind_mapSpans, hp]
    dsimp only
    rw [hi']
    rfl

/-- **Whether a modifier comes next** is settled by the places looked at for it. -/
theorem modifier?_alike (h : Alike n hi k c d) (hk : c.modifierReach ≤ k) :
    d.modifier? = c.modifier? := by
  have hpos : 0 < k := Nat.lt_of_lt_of_le c.modifierReach_pos hk
  rw [modifier?, modifier?, h.kind hpos]
  cases hc : c.kind with
  | staticKw => rfl
  | classKw =>
    rw [modifierReach, hc] at hk
    dsimp only at hk ⊢
    have hclass : d.classIsModifier = c.classIsModifier := by
      rw [classIsModifier, classIsModifier, h.ahead (by omega), kind_mapSpans]
      cases ha : (c.ahead 1).kind with
      | ident =>
        dsimp only
        rw [← h.ahead hk, h.text_ahead hk (lt_length_of_ahead (by rw [ha]; decide))]
      | _ => rfl
    rw [hclass]
  | ident =>
    dsimp only
    rw [wordIsModifier_alike h hc hk, h.currentText hpos (by rw [hc]; decide)]
    by_cases hw : c.wordIsModifier = true
    case neg => rw [if_neg hw, if_neg hw]
    rw [if_pos hw, if_pos hw]
    rw [modifierReach, hc] at hk
    dsimp only at hk
    rw [wordIsModifier, Bool.and_eq_true] at hw
    rw [if_pos hw.1] at hk
    by_cases hp : (c.ahead 1).kind = .leftParen
    · rw [if_pos hp] at hk
      have hw2 := hw.2
      rw [hp] at hw2
      dsimp only at hw2
      rw [Bool.and_eq_true, beq_iff_eq, beq_iff_eq] at hw2
      rw [if_pos hw2.1] at hk
      rw [h.text_ahead (by omega) (lt_length_of_ahead (by rw [hw2.1]; decide)), h.ahead (by omega)]
      rfl
    · rw [if_neg hp] at hk
      rw [h.ahead (by omega), kind_mapSpans, if_neg hp, if_neg hp]
  | _ => rfl

/-- For a modifier one looks no further than to the token after it. -/
theorem modifierReach_le {kind : ModifierKind} (hm : c.modifier? = some (kind, m)) :
    c.modifierReach ≤ m + 2 := by
  rw [modifier?] at hm
  rw [modifierReach]
  cases hc : c.kind with
  | ident =>
    rw [hc] at hm
    dsimp only at hm ⊢
    split at hm
    case isFalse => cases hm
    case isTrue hw =>
      split at hm
      case isTrue hp =>
        cases hm
        rw [if_pos hp]
        split
        · split <;> omega
        · omega
      case isFalse hp =>
        rw [if_neg hp]
        split <;> omega
  | classKw => exact Nat.le_add_left 2 m
  | _ => exact Nat.le_add_left 1 (m + 1)

/-- Modifiers look at no more than what settles that no further one comes. -/
theorem modifiers_alike (h : Alike n hi k c d) (hs : Shows k c.modifiers.2 c.rest)
    (hlast : (c.skip c.modifiers.2).modifierReach ≤ k - c.modifiers.2) :
    d.modifiers = (mapSpans (.move n) c.modifiers.1, c.modifiers.2) := by
  fun_induction modifiers c generalizing k d with
  | case1 c hr =>
    rw [modifiers.eq_def, h.rest_of_nil hs.pos hr]
    rfl
  | case2 c t ts hr hm =>
    obtain ⟨us, hd⟩ := h.rest_of_cons hs.pos hr
    rw [skip_zero] at hlast
    rw [modifiers.eq_def, hd]
    dsimp only
    rw [modifier?_alike h hlast, hm]
    rfl
  | case3 c t ts hr kind j hm =>
    rename_i m later ih
    obtain ⟨us, hd⟩ := h.rest_of_cons hs.pos hr
    have hlt : m + later.2 < k := hs.lt
    have hm' : m = j + 1 + (c.skip (j + 1)).newlines := rfl
    have hreach := modifierReach_le hm
    have hnewlines : (d.skip (j + 1)).newlines = (c.skip (j + 1)).newlines :=
      (h.skip (by omega)).newlines (by omega)
    have hlast' : ((c.skip m).skip later.2).modifierReach ≤ k - (m + later.2) := by
      rw [skip_skip]
      exact hlast
    have hlater := ih (h.skip (m := m) (by omega)) hs.drop (by rwa [Nat.sub_sub])
    have hb : (c.skip (j + 1)).Behind := behind_skip (by simp [hr]) (Nat.succ_pos j)
    rw [modifiers.eq_def, hd]
    dsimp only
    rw [modifier?_alike h (by omega), hm]
    dsimp only
    rw [hnewlines, ← hm', hlater, (h.skip (by omega)).previousSpan hb, span_mapSpans,
      ← Span.move_merge]
    rfl

end Cursor

namespace Parser

variable {n hi k m : Nat} {c d : Cursor}

theorem modifiers_apply_alike (h : Alike n hi k c d) (hs : Shows k c.modifiers.2 c.rest)
    (hlast : (c.skip c.modifiers.2).modifierReach ≤ k - c.modifiers.2) :
    modifiers d = mapSpans (.move n) (modifiers c) := by
  rw [modifiers, modifiers, Cursor.modifiers_alike h hs hlast,
    h.min_length (Nat.le_of_lt hs.lt)]
  rfl

/-! ## Patterns -/

theorem pattern_of_ident (hk : c.kind = .ident) : pattern c
    = ⟨.ok (if c.currentText = ['_'] then .wildcard
        else .name (String.ofList (unescapeText c.currentText))), 1⟩ := by
  obtain ⟨ts, hr⟩ := Cursor.exists_rest_of_kind (c := c) (by rw [hk]; decide)
  change c.current.kind = .ident at hk
  rw [pattern.eq_def, hr]
  dsimp only
  rw [hk]
  dsimp only
  split <;> rfl

theorem pattern_of_leftParen {o : Outcome (List Pattern)} (hk : c.kind = .leftParen)
    (ho : elements (c.skip 1) = o) : pattern c = match o.result with
      | .error e => ⟨.error e, 1 + o.taken⟩
      | .ok ps => ((expect .rightParen (c.skip (1 + o.taken))).map fun _ => .tuple ps).after
          (1 + o.taken) := by
  obtain ⟨ts, hr⟩ := Cursor.exists_rest_of_kind (c := c) (by rw [hk]; decide)
  change c.current.kind = .leftParen at hk
  rw [pattern.eq_def, hr]
  dsimp only
  rw [hk]
  exact ho ▸ rfl

theorem pattern_of_ne (hi : c.kind ≠ .ident) (hp : c.kind ≠ .leftParen) :
    pattern c = fail (.expectedBindingName c.kind) c := by
  cases hr : c.rest with
  | nil => rw [pattern.eq_def, hr]
  | cons t ts =>
    rw [Cursor.kind, Cursor.current_of_rest hr] at hi hp
    rw [pattern.eq_def, hr]
    dsimp only
    split
    · exact absurd ‹_› hi
    · exact absurd ‹_› hp
    · rfl

section Elements

variable {p : Pattern} {l : Nat}

theorem elements_of_close (hk : (c.skip c.newlines).kind = .rightParen) :
    elements c = ⟨.ok [], c.newlines⟩ := by
  rw [elements.eq_def]
  dsimp only
  rw [if_pos hk]

theorem elements_of_error {e : ParseError} (hk : (c.skip c.newlines).kind ≠ .rightParen)
    (hp : pattern (c.skip c.newlines) = ⟨.error e, m⟩) :
    elements c = ⟨.error e, c.newlines + m⟩ := by
  rw [elements.eq_def]
  dsimp only
  rw [if_neg hk, hp]

theorem elements_of_last (hk : (c.skip c.newlines).kind ≠ .rightParen)
    (hp : pattern (c.skip c.newlines) = ⟨.ok p, m⟩)
    (hl : c.newlines + m + (c.skip (c.newlines + m)).newlines = l)
    (hc : (c.skip l).kind ≠ .comma) : elements c = ⟨.ok [p], l⟩ := by
  rw [elements.eq_def]
  dsimp only
  rw [if_neg hk, hp]
  dsimp only
  rw [hl]
  cases hr : (c.skip l).rest with
  | nil => rfl
  | cons t ts =>
    rw [Cursor.kind, Cursor.current_of_rest hr] at hc
    dsimp only
    rw [if_neg hc]

theorem elements_of_comma (hk : (c.skip c.newlines).kind ≠ .rightParen)
    (hp : pattern (c.skip c.newlines) = ⟨.ok p, m⟩)
    (hl : c.newlines + m + (c.skip (c.newlines + m)).newlines = l)
    (hc : (c.skip l).kind = .comma) :
    elements c = ((elements (c.skip (l + 1))).map (p :: ·)).after (l + 1) := by
  obtain ⟨ts, hr⟩ := Cursor.exists_rest_of_kind (c := c.skip l) (by rw [hc]; decide)
  change (c.skip l).current.kind = .comma at hc
  rw [elements.eq_def]
  dsimp only
  rw [if_neg hk, hp]
  dsimp only
  rw [hl, hr]
  dsimp only
  rw [if_pos hc]

end Elements

/-- What reading looks at: the tokens it takes, and if it fails also the one after them. -/
def Reach {α : Type} (k : Nat) (o : Outcome α) (c : Cursor) : Prop :=
  o.taken ≤ k ∧ ∀ e, o.result = .error e → Shows k o.taken c.rest

theorem reach_of_shows {α : Type} {o : Outcome α} (hs : Shows k o.taken c.rest) : Reach k o c :=
  ⟨Nat.le_of_lt hs.lt, fun _ _ => hs⟩

/-- A place with a token that ends no line shows itself. -/
theorem shows_of_kind (hk : (c.skip m).kind ≠ .newline) (hm : m < k) : Shows k m c.rest := by
  refine ⟨m, Nat.le_refl m, hm, fun t ht => ?_⟩
  rwa [Cursor.kind, Cursor.current, Cursor.ahead_skip, Cursor.ahead, Nat.add_zero,
    List.getD_eq_getElem?_getD, ht] at hk

mutual

/-- A pattern looks at its own tokens only. -/
theorem pattern_alike {n hi k : Nat} {c d : Cursor} (h : Alike n hi k c d)
    (hs : Reach k (pattern c) c) : pattern d = mapSpans (.move n) (pattern c) := by
  obtain ⟨hle, herr⟩ := hs
  by_cases hi : c.kind = .ident
  · rw [pattern_of_ident hi] at hle ⊢
    rw [pattern_of_ident (by rw [h.kind hle, hi]), h.currentText hle (by rw [hi]; decide)]
    rfl
  by_cases hp : c.kind = .leftParen
  · cases ho : elements (c.skip 1) with
    | mk result m =>
    rw [pattern_of_leftParen hp ho] at hle herr ⊢
    cases result with
    | error e =>
      have hs : Shows k (1 + m) c.rest := herr e rfl
      have hd := elements_alike (h.skip (m := 1) (by have := hs.lt; omega)) (by
        rw [ho]
        exact hs.drop)
      rw [ho] at hd
      rw [pattern_of_leftParen (by rw [h.kind hs.pos, hp]) hd]
      rfl
    | ok ps =>
      dsimp only at hle herr ⊢
      -- Where no parenthesis closes the tuple, that is the error, and it is noticed there.
      have hs : Shows k (1 + m) c.rest := by
        by_cases hc : (c.skip (1 + m)).kind = .rightParen
        · refine shows_of_kind (by rw [hc]; decide) ?_
          obtain ⟨ts, hr⟩ := Cursor.exists_rest_of_kind (c := c.skip (1 + m)) (by rw [hc]; decide)
          rw [expect, if_pos hc, next, hr] at hle
          exact hle
        · rw [expect, if_neg hc] at herr
          exact herr _ rfl
      have hlt := hs.lt
      have hd := elements_alike (h.skip (m := 1) (by omega)) (by
        rw [ho]
        exact hs.drop)
      rw [ho] at hd
      rw [pattern_of_leftParen (by rw [h.kind hs.pos, hp]) hd]
      dsimp only [Outcome.mapSpans_ok]
      rw [expect_alike (h.skip (by omega)) (by omega)]
      cases expect .rightParen (c.skip (1 + m)) with
      | mk result j => cases result <;> rfl
  · rw [pattern_of_ne hi hp] at herr ⊢
    have hk := (herr _ rfl).pos
    rw [pattern_of_ne (by rwa [h.kind hk]) (by rwa [h.kind hk]), h.kind hk]
    exact fail_alike h hk rfl
termination_by (c.rest.length, 0)
decreasing_by
  all_goals
    obtain ⟨ts, hr⟩ := Cursor.exists_rest_of_kind (c := c) (by rw [hp]; decide)
    simp [hr, Prod.lex_def]

/-- Patterns between parentheses look at the token after them. -/
theorem elements_alike {n hi k : Nat} {c d : Cursor} (h : Alike n hi k c d)
    (hs : Shows k (elements c).taken c.rest) : elements d = mapSpans (.move n) (elements c) := by
  by_cases hk : (c.skip c.newlines).kind = .rightParen
  · rw [elements_of_close hk] at hs ⊢
    have hlt : c.newlines < k := hs.lt
    rw [← h.newlines hlt, elements_of_close (by
      rw [h.newlines hlt, (h.skip (by omega)).kind (by omega), hk])]
    rfl
  cases hp : pattern (c.skip c.newlines) with
  | mk result m =>
  cases result with
  | error e =>
    rw [elements_of_error hk hp] at hs ⊢
    have hlt : c.newlines + m < k := hs.lt
    have hd := pattern_alike (h.skip (m := c.newlines) (by omega)) (reach_of_shows (by
      rw [hp]
      exact hs.drop))
    rw [hp, ← h.newlines (by omega)] at hd
    rw [elements_of_error (by
      rwa [h.newlines (by omega), (h.skip (by omega)).kind (by omega)]) hd, h.newlines (by omega)]
    rfl
  | ok p =>
    generalize hl : c.newlines + m + (c.skip (c.newlines + m)).newlines = l
    have hlt : l < k := by
      by_cases hc : (c.skip l).kind = .comma
      · have hlt := hs.lt
        rw [elements_of_comma hk hp hl hc, Outcome.taken_after] at hlt
        omega
      · have hlt := hs.lt
        rwa [elements_of_last hk hp hl hc] at hlt
    have hnewlines := h.newlines (by omega)
    have hk' : (d.skip d.newlines).kind ≠ .rightParen := by
      rwa [hnewlines, (h.skip (by omega)).kind (by omega)]
    have hp' := pattern_alike (h.skip (m := c.newlines) (by omega))
      ⟨by rw [hp]; dsimp only; omega, by rw [hp]; rintro _ ⟨⟩⟩
    rw [hp, ← hnewlines] at hp'
    have hl' : d.newlines + m + (d.skip (d.newlines + m)).newlines = l := by
      rw [hnewlines, (h.skip (by omega)).newlines (by omega), hl]
    by_cases hc : (c.skip l).kind = .comma
    · have hlast : l < c.rest.length := Cursor.lt_length_of_kind (by rw [hc]; decide)
      rw [elements_of_comma hk hp hl hc] at hs ⊢
      have hlater := elements_alike (h.skip (m := l + 1) (by omega)) hs.drop
      rw [elements_of_comma hk' hp' hl' (by rw [(h.skip (by omega)).kind (by omega), hc]), hlater]
      cases elements (c.skip (l + 1)) with
      | mk result j => cases result <;> rfl
    · rw [elements_of_last hk hp hl hc] at hs ⊢
      rw [elements_of_last hk' hp' hl' (by rwa [(h.skip (by omega)).kind (by omega)])]
      rfl
termination_by (c.rest.length, 1)
decreasing_by
  all_goals
    have hle := c.newlines_le
    simp only [Cursor.length_rest_skip, Prod.lex_def]
    omega

end

end Parser

/-! ## Initializers -/

namespace Cursor

variable {n hi k m : Nat} {c d : Cursor}

theorem pastNewlines_eq_ahead (c : Cursor) : c.pastNewlines = c.ahead c.newlines := by
  rw [pastNewlines, ahead, newlines, countWhile, List.getD_eq_getElem?_getD]
  congr 1
  induction c.rest with
  | nil => rfl
  | cons t ts ih =>
    by_cases ht : t.kind = .newline
    · simpa [ht] using ih
    · simp [ht]

theorem text_pastNewlines_alike (h : Alike n hi k c d) (hs : Shows k 0 c.rest)
    (hk : c.pastNewlines.kind ≠ .endOfFile) :
    d.text d.pastNewlines.span = c.text c.pastNewlines.span := by
  have hlt : c.newlines < k := hs.newlines_lt
  rw [pastNewlines_eq_ahead] at hk
  rw [pastNewlines_eq_ahead, pastNewlines_eq_ahead, h.newlines hlt,
    h.text_ahead hlt (lt_length_of_ahead hk)]

theorem startsDeclaration_pastNewlines_alike (h : Alike n hi k c d) (hs : Shows k 0 c.rest) :
    d.startsDeclaration d.pastNewlines = c.startsDeclaration c.pastNewlines := by
  rw [startsDeclaration, startsDeclaration, h.pastNewlines hs, kind_mapSpans, ← h.pastNewlines hs]
  cases hk : c.pastNewlines.kind with
  | ident =>
    dsimp only
    rw [text_pastNewlines_alike h hs (by rw [hk]; decide)]
  | _ => rfl

/-- Whether an initializer goes on over a line end is settled by the next token that ends none. -/
theorem initializerContinues_alike (h : Alike n hi k c d) (hb : c.Behind) (hs : Shows k 0 c.rest) :
    d.initializerContinues = c.initializerContinues := by
  rw [initializerContinues, initializerContinues, startsDeclaration_pastNewlines_alike h hs,
    h.previousKind? hb, h.pastNewlines hs, kind_mapSpans]

theorem opensObservers_alike (h : Alike n hi k c d) (hs : Shows k 1 c.rest) :
    d.opensObservers = c.opensObservers := by
  have h' : Alike n hi (k - 1) (c.skip 1) (d.skip 1) := h.skip hs.pos
  have hs' : Shows (k - 1) 0 (c.skip 1).rest := hs.drop
  rw [opensObservers, opensObservers, h'.pastNewlines hs', kind_mapSpans, ← h'.pastNewlines hs']
  cases hk : (c.skip 1).pastNewlines.kind with
  | ident =>
    have ht := text_pastNewlines_alike h' hs' (by rw [hk]; decide)
    rw [text_skip, text_skip] at ht
    rw [ht]
  | _ => rfl

/-- An initializer looks past a brace. -/
def initializerPeek (c : Cursor) : Nat := if c.kind = .leftBrace then 1 else 0

theorem initializerPeek_le (c : Cursor) : c.initializerPeek ≤ 1 := by
  rw [initializerPeek]
  split
  · exact Nat.le_refl 1
  · exact Nat.zero_le 1

theorem initializerStride_alike (h : Alike n hi k c d) (hb : c.Behind)
    (hs : Shows k c.initializerPeek c.rest) : d.initializerStride = c.initializerStride := by
  have hs₀ := hs.of_le (Nat.zero_le _)
  rw [initializerStride, initializerStride, h.kind hs.pos]
  cases hk : c.kind with
  | newline =>
    dsimp only
    rw [initializerContinues_alike h hb hs₀, h.newlines hs₀.newlines_lt]
  | leftBrace =>
    rw [initializerPeek, if_pos hk] at hs
    dsimp only
    rw [opensObservers_alike h hs]
  | _ => rfl

end Cursor

namespace Parser

variable {n hi k m : Nat} {c d : Cursor}

/-- An initializer that a brace ends has looked past the brace. -/
theorem initializer_alike (h : Alike n hi k c d) (hb : c.Behind)
    (hs : Shows k ((initializer c).taken + (c.skip (initializer c).taken).initializerPeek) c.rest) :
    initializer d = mapSpans (.move n) (initializer c) :=
  stretch_alike Cursor.initializerPeek Cursor.initializerPeek_le Cursor.Behind
    (fun m hb => hb.skip m) Cursor.initializerStride_alike h hb hs

/-! ## Bindings -/

theorem bindingType?_alike (h : Alike n hi k c d) (hs : Shows k (bindingType? c).taken c.rest) :
    bindingType? d = mapSpans (.move n) (bindingType? c) := by
  refine bind_alike h hs (fun hs => eat_alike h hs.pos _) fun b m _ h hs => ?_
  cases b with
  | false => exact pure_alike n _ _ _
  | true =>
    exact bind_alike h hs (fun hs => inside_alike hs fun hs => typeText_alike h hs)
      fun _ _ _ _ _ => pure_alike n _ _ _

/-- A binding from after its initializer. -/
def bindingEnd (first : Span) (p : Pattern) (type : Option String) (hasInitializer : Bool) :
    Parser Binding := do
  let hasAccessors := (← here).kind == .leftBrace
  if hasAccessors then discard group
  return ⟨p, type, hasInitializer, hasAccessors, first.merge (← here).previousSpan⟩

/-- A binding from after its type. -/
def bindingValue (first : Span) (p : Pattern) (type : Option String) : Parser Binding := do
  let hasInitializer ← eat .equal
  if hasInitializer then initializer
  bindingEnd first p type hasInitializer

theorem binding_apply (c : Cursor) : binding c
    = (pattern >>= fun p => bindingType? >>= fun type => bindingValue c.span p type) c := by
  rw [binding, here_bind]
  rfl

/-- A stretch fails with all tokens taken, of which there are some. -/
theorem stretch_eq_error {stride : Cursor → Stride} {e : ParseError}
    (h : stretch stride c = ⟨.error e, m⟩) : m = c.rest.length ∧ 0 < m := by
  fun_induction stretch stride c generalizing m with
  | case1 => cases h
  | case2 => cases h
  | case3 c t ts hr j hs ih =>
    obtain ⟨hres, rfl⟩ := Outcome.mk.inj h
    have hlater := ih (m := (stretch stride (c.skip (j + 1))).taken) (by rw [← hres])
    rw [Cursor.length_rest_skip] at hlater
    omega
  | case4 c t ts hr hs j hj ih =>
    obtain ⟨hres, rfl⟩ := Outcome.mk.inj h
    have hlater := ih (m := (stretch stride (c.skip (j + 1))).taken) (by rw [← hres])
    rw [Cursor.length_rest_skip] at hlater
    omega
  | case5 c t ts hr =>
    obtain rfl := (Outcome.mk.inj h).2
    exact ⟨rfl, by simp [hr]⟩

theorem group_taken_pos (hr : c.rest ≠ []) : 0 < (group c).taken := by
  rw [group]
  split
  · exact Nat.lt_of_lt_of_le Nat.zero_lt_one (Nat.le_add_right 1 _)
  · exact List.length_pos_iff.mpr hr

theorem taken_le_bind {α β : Type} (p : Parser α) (f : α → Parser β) (c : Cursor) :
    (p c).taken ≤ ((p >>= f) c).taken := by
  cases hp : p c with
  | mk result m =>
    cases result with
    | error e => rw [bind_of_error hp]
    | ok a =>
      rw [bind_of_ok hp]
      exact Nat.le_add_right _ _

theorem initializerPeek_le_bindingEnd (first : Span) (p : Pattern) (type : Option String)
    (hasInitializer : Bool) :
    c.initializerPeek ≤ (bindingEnd first p type hasInitializer c).taken := by
  rw [Cursor.initializerPeek]
  split
  case isFalse => exact Nat.zero_le _
  case isTrue hk =>
    have hpos : 0 < (group c).taken :=
      group_taken_pos (Cursor.rest_ne_nil_of_kind (by rw [hk]; decide))
    rw [bindingEnd, here_bind, hk]
    exact Nat.le_trans hpos (Nat.le_trans (taken_le_bind _ _ c) (taken_le_bind _ _ c))

theorem bindingEnd_alike (h : Alike n hi k c d) (hb : c.Behind) (first : Span) (p : Pattern)
    (type : Option String) (hasInitializer : Bool)
    (hs : Shows k (bindingEnd first p type hasInitializer c).taken c.rest) :
    bindingEnd (first.move n) p type hasInitializer d
      = mapSpans (.move n) (bindingEnd first p type hasInitializer c) := by
  rw [bindingEnd, here_bind] at hs ⊢
  rw [bindingEnd, here_bind, h.kind hs.pos]
  dsimp only at hs ⊢
  split at hs
  case isTrue hk =>
    rw [if_pos hk, if_pos hk]
    refine bind_alike h hs (fun hs => discard_group_alike h hs) fun _ m _ h' hs => ?_
    rw [here_bind, here_bind, h'.previousSpan (hb.skip m), ← Span.move_merge]
    rfl
  case isFalse hk =>
    rw [if_neg hk, if_neg hk, here_bind, here_bind, h.previousSpan hb, ← Span.move_merge]
    rfl

theorem bindingValue_alike (h : Alike n hi k c d) (hb : c.Behind) (first : Span) (p : Pattern)
    (type : Option String) (hs : Shows k (bindingValue first p type c).taken c.rest) :
    bindingValue (first.move n) p type d = mapSpans (.move n) (bindingValue first p type c) := by
  refine bind_alike h hs (fun hs => eat_alike h hs.pos _) fun b m _ h' hs => ?_
  cases b with
  | false => exact bindingEnd_alike h' (hb.skip m) first p type false hs
  | true =>
    refine bind_alike (f := fun _ => bindingEnd first p type true)
      (g := fun _ => bindingEnd (first.move n) p type true) h' hs (fun hs' => ?_)
      fun _ j _ h'' hs => ?_
    · refine initializer_alike h' (hb.skip m) ?_
      -- A brace that ends the initializer opens the accessors, so more is taken.
      cases hp : initializer (c.skip m) with
      | mk result j =>
        cases result with
        | error e =>
          have hj := stretch_eq_error hp
          rw [hp] at hs'
          rw [Cursor.initializerPeek, Cursor.kind_of_rest_eq_nil (List.drop_of_length_le hj.1.ge),
            if_neg (by decide)]
          exact hs'
        | ok u =>
          refine hs.of_le ?_
          change _ ≤ ((initializer >>= fun _ => bindingEnd first p type true) (c.skip m)).taken
          rw [bind_of_ok hp, Outcome.taken_after]
          exact Nat.add_le_add_left (initializerPeek_le_bindingEnd ..) j
    · exact bindingEnd_alike h'' ((hb.skip m).skip j) first p type true hs

/-- A pattern takes a token. -/
theorem pattern_taken_pos {p : Pattern} (h : pattern c = ⟨.ok p, m⟩) : c.rest ≠ [] ∧ 0 < m := by
  by_cases hi : c.kind = .ident
  · rw [pattern_of_ident hi] at h
    cases h
    exact ⟨Cursor.rest_ne_nil_of_kind (by rw [hi]; decide), Nat.zero_lt_one⟩
  by_cases hp : c.kind = .leftParen
  · rw [pattern_of_leftParen hp rfl] at h
    refine ⟨Cursor.rest_ne_nil_of_kind (by rw [hp]; decide), ?_⟩
    split at h
    · cases h
    · have := (Outcome.mk.inj h).2
      omega
  · rw [pattern_of_ne hi hp] at h
    cases h

theorem behind_of_pattern {p : Pattern} (h : pattern c = ⟨.ok p, m⟩) : (c.skip m).Behind :=
  Cursor.behind_skip (pattern_taken_pos h).1 (pattern_taken_pos h).2

/-- A binding looks at the token after it. -/
theorem binding_alike (h : Alike n hi k c d) (hs : Shows k (binding c).taken c.rest) :
    binding d = mapSpans (.move n) (binding c) := by
  rw [binding_apply] at hs ⊢
  rw [binding_apply, h.span hs.pos]
  refine bind_alike h hs (fun hs => pattern_alike h (reach_of_shows hs)) fun p m hp h' hs => ?_
  have hb := behind_of_pattern hp
  exact bind_alike h' hs (bindingType?_alike h') fun type j _ h'' hs =>
    bindingValue_alike h'' (hb.skip j) c.span p type hs

theorem furtherBindings_alike (h : Alike n hi k c d)
    (hs : Shows k (furtherBindings c).taken c.rest) :
    furtherBindings d = mapSpans (.move n) (furtherBindings c) := by
  fun_induction furtherBindings c generalizing k d with
  | case1 c hr =>
    rw [furtherBindings.eq_def, h.rest_of_nil hs.pos hr]
    rfl
  | case2 c t ts hr hk before o =>
    rename_i e he
    obtain ⟨us, hd⟩ := h.rest_of_cons hs.pos hr
    have hlt : 1 + before + o.taken < k := hs.lt
    have hbefore : (d.skip 1).newlines = before := (h.skip (m := 1) (by omega)).newlines (by omega)
    have ho : binding (d.skip (1 + before)) = mapSpans (.move n) o :=
      binding_alike (h.skip (by omega)) hs.drop
    have ho' : (mapSpans (Span.move n) o).result = .error (mapSpans (.move n) e) := by
      change mapSpans (Span.move n) o.result = _
      rw [he]
      rfl
    rw [furtherBindings.eq_def, hd]
    dsimp only
    rw [kind_mapSpans, if_pos hk, hbefore, ho, ho']
    rfl
  | case3 c t ts hr hk before o =>
    rename_i b hb ih
    obtain ⟨us, hd⟩ := h.rest_of_cons hs.pos hr
    have hlt := hs.lt
    rw [Outcome.taken_after] at hs hlt
    have hbefore : (d.skip 1).newlines = before := (h.skip (m := 1) (by omega)).newlines (by omega)
    have ho : binding (d.skip (1 + before)) = mapSpans (.move n) o :=
      binding_alike (h.skip (by omega)) (hs.of_le (Nat.le_add_right _ _)).drop
    have ho' : (mapSpans (Span.move n) o).result = .ok (mapSpans (.move n) b) := by
      change mapSpans (Span.move n) o.result = _
      rw [hb]
      rfl
    rw [furtherBindings.eq_def, hd]
    dsimp only
    rw [kind_mapSpans, if_pos hk, hbefore, ho, ho']
    dsimp only
    rw [Outcome.taken_mapSpans, ih (h.skip (by omega)) hs.drop, Outcome.mapSpans_after,
      Outcome.mapSpans_cons]
  | case4 c t ts hr hk =>
    obtain ⟨us, hd⟩ := h.rest_of_cons hs.pos hr
    rw [furtherBindings.eq_def, hd]
    dsimp only
    rw [kind_mapSpans, if_neg hk]
    rfl

/-- The bindings of a property, from the first one on. -/
def bindings : Parser (List Binding) := do
  let first ← binding
  let further ← furtherBindings
  return first :: further

theorem property_apply : property = inside .property (next >>= fun t => bindings >>= fun bs =>
    Pure.pure (.property ⟨if t.kind = .letKw then .let else .var, bs⟩)) := by
  rw [property]
  refine congrArg (inside _) (congrArg (next >>= ·) (funext fun t => ?_))
  rw [bindings, bind_assoc]
  refine congrArg (binding >>= ·) (funext fun b => ?_)
  refine Eq.trans ?_ (bind_assoc (m := Parser) furtherBindings _ _).symm
  simp only [pure_bind]

theorem furtherBindings_of_ne (hk : c.kind ≠ .comma) : furtherBindings c = ⟨.ok [], 0⟩ := by
  rw [furtherBindings.eq_def]
  split
  case h_1 => rfl
  case h_2 t ts hr =>
    rw [Cursor.kind, Cursor.current_of_rest hr] at hk
    rw [if_neg hk]

theorem furtherBindings_of_comma (hk : c.kind = .comma) : furtherBindings c
    = (bindings (c.skip (1 + (c.skip 1).newlines))).after (1 + (c.skip 1).newlines) := by
  obtain ⟨ts, hr⟩ := Cursor.exists_rest_of_kind (c := c) (by rw [hk]; decide)
  change c.current.kind = .comma at hk
  rw [furtherBindings.eq_def, hr]
  dsimp only
  rw [if_pos hk]
  generalize 1 + (c.skip 1).newlines = m
  cases hb : binding (c.skip m) with
  | mk result l =>
    cases result with
    | error e =>
      rw [bindings, bind_of_error hb]
      rfl
    | ok b =>
      dsimp only
      rw [bindings, bind_of_ok hb, Cursor.skip_skip]
      cases hf : furtherBindings (c.skip (m + l)) with
      | mk result j =>
        cases result with
        | error e =>
          rw [bind_of_error hf]
          rw [Outcome.after_after]
          rfl
        | ok bs =>
          rw [bind_of_ok hf]
          rw [Outcome.after_after]
          rfl

theorem bindings_alike (h : Alike n hi k c d) (hs : Shows k (bindings c).taken c.rest) :
    bindings d = mapSpans (.move n) (bindings c) := by
  refine bind_alike h hs (binding_alike h) fun b j _ h' hs => ?_
  exact bind_alike h' hs (furtherBindings_alike h') fun bs l _ _ _ => rfl

theorem property_alike (h : Alike n hi k c d) (hs : Shows k (property c).taken c.rest) :
    property d = mapSpans (.move n) (property c) := by
  rw [property_apply] at hs ⊢
  refine inside_alike hs fun hs => ?_
  refine bind_alike h hs (fun hs => next_alike h hs.pos) fun t m ht h' hs => ?_
  exact bind_alike h' hs (bindings_alike h') fun bs l _ _ _ => rfl

end Parser

end Memberwise
