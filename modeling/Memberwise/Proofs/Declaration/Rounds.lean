import Memberwise.Proofs.Token.Layout

/-!
# Proofs/Declaration/Rounds — what a success of reading says

Reading in sequence succeeds only if each part does, from where the part before ends
(`bind_eq_ok`).  So a head that was read has its attributes first, then its modifiers, and the rest
of it after them:

* `head_eq_ok` — **a head is read in these three steps**;
* `declarations_round` — **reading declarations goes by rounds**, each of which ends the stretch,
  passes something that declares nothing, or reads one declaration and goes on.
-/

namespace Memberwise

open Text

/-! ## Sequences -/

namespace Parser

variable {α β : Type} {c : Cursor} {n : Nat}

theorem bind_eq_ok {p : Parser α} {f : α → Parser β} {b : β} : (p >>= f) c = ⟨.ok b, n⟩ ↔
    ∃ a m k, p c = ⟨.ok a, m⟩ ∧ f a (c.skip m) = ⟨.ok b, k⟩ ∧ n = m + k := by
  constructor
  · intro h
    cases hp : p c with
    | mk result m =>
      cases result with
      | error e => rw [bind_of_error hp] at h; cases h
      | ok a =>
        rw [bind_of_ok hp] at h
        obtain ⟨hr, rfl⟩ := Outcome.mk.inj h
        exact ⟨a, m, _, rfl, by rw [← hr], rfl⟩
  · rintro ⟨a, m, k, hp, hf, rfl⟩
    rw [bind_of_ok hp, hf]
    rfl

theorem pure_eq_ok {a b : α} : (Pure.pure a : Parser α) c = ⟨.ok b, n⟩ ↔ a = b ∧ n = 0 := by
  rw [pure_apply]
  simp [eq_comm]

/-- Looking takes nothing. -/
@[simp] theorem here_bind (f : Cursor → Parser β) (c : Cursor) : (here >>= f) c = f c c := by
  rw [bind_of_ok (show here c = ⟨.ok c, 0⟩ from rfl), Cursor.skip_zero, Outcome.after_zero]

theorem map_eq_ok {p : Parser α} {f : α → β} {b : β} : (f <$> p) c = ⟨.ok b, n⟩ ↔
    ∃ a, p c = ⟨.ok a, n⟩ ∧ f a = b := by
  change (p >>= fun a => Pure.pure (f a)) c = _ ↔ _
  simp only [bind_eq_ok, pure_eq_ok]
  constructor
  · rintro ⟨a, m, k, hp, ⟨rfl, rfl⟩, rfl⟩
    exact ⟨a, hp, rfl⟩
  · rintro ⟨a, hp, rfl⟩
    exact ⟨a, n, 0, hp, ⟨rfl, rfl⟩, rfl⟩

theorem inside_eq_ok {construct : Construct} {p : Parser α} {a : α} :
    inside construct p c = ⟨.ok a, n⟩ ↔ p c = ⟨.ok a, n⟩ := by
  cases hp : p c with
  | mk result m =>
    rw [inside, hp]
    cases result with
    | error e => exact ⟨fun h => absurd (Outcome.mk.inj h).1 (by rintro ⟨⟩), fun h => by cases h⟩
    | ok b => exact Iff.rfl

/-! ## Attributes and modifiers -/

theorem attributes_of_ne (hk : c.kind ≠ .atSign) : attributes c = ⟨.ok [], 0⟩ := by
  rw [attributes.eq_def]
  cases hr : c.rest with
  | nil => rfl
  | cons t ts =>
    rw [Cursor.kind, Cursor.current_of_rest hr] at hk
    dsimp only
    rw [if_neg hk]

theorem attributes_of_error {e : ParseError} (hk : c.kind = .atSign)
    (ha : attributeAfter c.span (c.skip 1) = ⟨.error e, n⟩) : attributes c = ⟨.error e, 1 + n⟩ := by
  obtain ⟨ts, hr⟩ := Cursor.exists_rest_of_kind (c := c) (by rw [hk]; decide)
  have hat : c.current.kind = .atSign := hk
  have ha' : attributeAfter c.current.span (c.skip 1) = ⟨.error e, n⟩ := ha
  rw [attributes.eq_def, hr]
  simp only [if_pos hat, ha']

/-- One attribute, the line ends after it, and the attributes after these. -/
theorem attributes_of_ok {a : Attribute} (hk : c.kind = .atSign)
    (ha : attributeAfter c.span (c.skip 1) = ⟨.ok a, n⟩) :
    let m := 1 + (n + (c.skip (1 + n)).newlines)
    attributes c = ((attributes (c.skip m)).map (a :: ·)).after m := by
  obtain ⟨ts, hr⟩ := Cursor.exists_rest_of_kind (c := c) (by rw [hk]; decide)
  have hat : c.current.kind = .atSign := hk
  have ha' : attributeAfter c.current.span (c.skip 1) = ⟨.ok a, n⟩ := ha
  rw [attributes.eq_def, hr]
  simp only [if_pos hat, ha']

/-- Attributes that are read one after the other, and how many tokens they take with the line ends
after each. -/
inductive AttributeRow : Cursor → List Attribute → Nat → Prop
  | nil {c : Cursor} (hk : c.kind ≠ .atSign) : AttributeRow c [] 0
  | cons {c : Cursor} {a : Attribute} {as : List Attribute} {k m n : Nat} (hk : c.kind = .atSign)
      (ha : attributeAfter c.span (c.skip 1) = ⟨.ok a, k⟩)
      (hm : m = 1 + k + (c.skip (1 + k)).newlines) (has : AttributeRow (c.skip m) as n) :
      AttributeRow c (a :: as) (m + n)

theorem attributes_eq_ok {as : List Attribute} (h : attributes c = ⟨.ok as, n⟩) :
    AttributeRow c as n := by
  fun_induction attributes c generalizing as n with
  | case1 c hr =>
    cases h
    refine .nil ?_
    rw [Cursor.kind, Cursor.current, Cursor.ahead, hr]
    rintro ⟨⟩
  | case2 => cases h
  | case3 c t ts hr hk o a ha =>
    rename_i ih
    have hkind : c.kind = .atSign := by rw [Cursor.kind, Cursor.current_of_rest hr, hk]
    have ho : attributeAfter c.span (c.skip 1)
        = ⟨.ok a, o.taken⟩ := by
      rw [Cursor.span, Cursor.current_of_rest hr, ← ha]
    generalize hlater : attributes _ = later at h
    cases later with
    | mk result k =>
      cases result with
      | error e => cases h
      | ok later =>
        cases h
        exact .cons hkind ho (Nat.add_assoc 1 _ _).symm (ih hlater)
  | case4 c t ts hr hk =>
    cases h
    exact .nil (by rwa [Cursor.kind, Cursor.current_of_rest hr])

theorem modifiers_eq_nil (hm : c.modifier? = none) : c.modifiers = ([], 0) := by
  rw [Cursor.modifiers.eq_def, hm]
  split <;> rfl

theorem modifiers_of_none (hm : c.modifier? = none) : modifiers c = ⟨.ok [], 0⟩ := by
  rw [modifiers, modifiers_eq_nil hm, Nat.zero_min]

theorem modifier?_lt {kind : ModifierKind} (hm : c.modifier? = some (kind, n)) :
    n < c.rest.length := by
  rw [Cursor.modifier?] at hm
  split at hm
  case h_1 hk =>
    cases hm
    exact Cursor.lt_length_of_ahead (by change c.kind ≠ _; rw [hk]; decide)
  case h_2 hk =>
    split at hm
    · cases hm
      exact Cursor.lt_length_of_ahead (by change c.kind ≠ _; rw [hk]; decide)
    · cases hm
  case h_3 hk =>
    split at hm
    case isFalse => cases hm
    case isTrue hw =>
      dsimp only at hm
      split at hm
      case isTrue hp =>
        cases hm
        rw [Cursor.wordIsModifier, hp] at hw
        simp only [Bool.and_eq_true, beq_iff_eq] at hw
        exact Cursor.lt_length_of_ahead (by rw [hw.2.2]; decide)
      case isFalse =>
        cases hm
        exact Cursor.lt_length_of_ahead (by change c.kind ≠ _; rw [hk]; decide)
  case h_4 => cases hm

/-- One modifier, the line ends after it, and the modifiers after these. -/
theorem modifiers_of_modifier? {kind : ModifierKind} (h : c.modifier? = some (kind, n)) :
    let m := n + 1 + (c.skip (n + 1)).newlines
    c.modifiers = (⟨kind, c.span.merge (c.skip (n + 1)).previousSpan⟩ :: (c.skip m).modifiers.1,
      m + (c.skip m).modifiers.2) := by
  obtain ⟨t, ts, hr⟩ := List.exists_cons_of_length_pos (Nat.zero_lt_of_lt (modifier?_lt h))
  rw [Cursor.modifiers.eq_def, hr]
  simp only [h, Cursor.span, Cursor.current_of_rest hr]

/-! ## Heads -/

/-- How a head goes on after its attributes and modifiers, which end at the cursor; the head begins
at `first`. -/
inductive HeadRest (first : Span) (as : List Attribute) (ms : List Modifier) (c : Cursor) :
    Head → Nat → Prop
  | directive {n : Nat} (has : as = []) (hms : ms = []) (hk : c.kind = .hash)
      (h : restOfLine c = ⟨.ok (), n⟩) : HeadRest first as ms c .directive n
  | type {kind : DeclarationKind} {d : Declaration} {n : Nat}
      (ho : c.opening? = some (.type kind)) (h : typeHeader kind c = ⟨.ok d, n⟩) :
      HeadRest first as ms c (.type { d with attributes := as, modifiers := ms, span := first }) n
  | function {kind : DeclarationKind} {d : Declaration} {n : Nat}
      (ho : c.opening? = some (.function kind)) (h : function kind c = ⟨.ok d, n⟩) :
      HeadRest first as ms c (.complete { d with
        attributes := as, modifiers := ms, span := first.merge (c.skip n).previousSpan }) n
  | line {kind : DeclarationKind} {d : Declaration} {n : Nat}
      (ho : c.opening? = some (.line kind)) (h : line kind c = ⟨.ok d, n⟩) :
      HeadRest first as ms c (.complete { d with
        attributes := as, modifiers := ms, span := first.merge (c.skip n).previousSpan }) n
  | property {kind : DeclarationKind} {n : Nat}
      (ho : c.opening? = some .property) (h : property c = ⟨.ok kind, n⟩) :
      HeadRest first as ms c (.complete { Declaration.ofKind kind .none with
        attributes := as, modifiers := ms, span := first.merge (c.skip n).previousSpan }) n

/-- **A head is read in three steps**: attributes, modifiers, and what they belong to. -/
theorem head_eq_ok {r : Head} (h : head c = ⟨.ok r, n⟩) : ∃ as k m l,
    attributes c = ⟨.ok as, k⟩ ∧ m = min (c.skip k).modifiers.2 (c.skip k).rest.length
      ∧ HeadRest c.span as (c.skip k).modifiers.1 (c.skip (k + m)) r l ∧ n = k + m + l := by
  rw [head, here_bind] at h
  obtain ⟨as, k, _, has, hms, rfl⟩ := bind_eq_ok.mp h
  obtain ⟨ms, m, l, hm, hrest, rfl⟩ := bind_eq_ok.mp hms
  obtain ⟨hval, rfl⟩ := Outcome.mk.inj hm
  obtain rfl := Except.ok.inj hval
  rw [here_bind, Cursor.skip_skip] at hrest
  refine ⟨as, k, _, l, has, rfl, ?_, by rw [Nat.add_assoc]⟩
  clear h hms hm hval
  generalize ho : (c.skip (k + _)).opening? = o at hrest
  cases o with
  | some o =>
    cases o with
    | type kind =>
      obtain ⟨d, _, _, hd, hp, rfl⟩ := bind_eq_ok.mp hrest
      obtain ⟨rfl, rfl⟩ := pure_eq_ok.mp hp
      exact .type ho hd
    | function kind =>
      obtain ⟨d, _, _, hd, hp, rfl⟩ := bind_eq_ok.mp hrest
      simp only [here_bind] at hp
      obtain ⟨rfl, rfl⟩ := pure_eq_ok.mp hp
      exact .function ho hd
    | line kind =>
      obtain ⟨d, _, _, hd, hp, rfl⟩ := bind_eq_ok.mp hrest
      simp only [here_bind] at hp
      obtain ⟨rfl, rfl⟩ := pure_eq_ok.mp hp
      exact .line ho hd
    | property =>
      obtain ⟨kind, _, _, hd, hp, rfl⟩ := bind_eq_ok.mp hrest
      simp only [here_bind] at hp
      obtain ⟨rfl, rfl⟩ := pure_eq_ok.mp hp
      exact .property ho hd
  | none =>
    dsimp only at hrest
    split at hrest
    case isFalse => cases hrest
    case isTrue hempty =>
      split at hrest
      case isFalse => cases hrest
      case isTrue hk =>
        obtain ⟨_, _, _, hline, hp, rfl⟩ := bind_eq_ok.mp hrest
        obtain ⟨rfl, rfl⟩ := pure_eq_ok.mp hp
        exact .directive (List.isEmpty_iff.mp hempty.1) (List.isEmpty_iff.mp hempty.2) hk hline

/-- What a success of reading ensures, wherever it begins. -/
def Ensures (p : Parser α) (Q : α → Prop) : Prop := ∀ c a n, p c = ⟨.ok a, n⟩ → Q a

theorem Ensures.bind {p : Parser α} {f : α → Parser β} {Q : β → Prop}
    (h : ∀ a, Ensures (f a) Q) : Ensures (p >>= f) Q := by
  intro c b n hb
  obtain ⟨a, m, k, -, hf, -⟩ := bind_eq_ok.mp hb
  exact h a _ _ _ hf

theorem Ensures.pure {a : α} {Q : α → Prop} (h : Q a) : Ensures (Pure.pure a) Q := by
  intro c b n hb
  obtain ⟨rfl, -⟩ := pure_eq_ok.mp hb
  exact h

theorem Ensures.inside {construct : Construct} {p : Parser α} {Q : α → Prop} (h : Ensures p Q) :
    Ensures (Parser.inside construct p) Q :=
  fun c a n ha => h c a n (inside_eq_ok.mp ha)

/-- A declaration of a kind read up to where its block would begin. -/
def IsFresh (kind : DeclarationKind) (d : Declaration) : Prop := d.kind = kind ∧ d.members = none

theorem ensures_typeHeader (kind : DeclarationKind) : Ensures (typeHeader kind) (IsFresh kind) := by
  refine .inside (.bind fun _ => ?_)
  split
  all_goals
    refine .bind fun name => .bind fun _ => .bind fun b => ?_
    dsimp only
    split
    all_goals
      refine .bind fun inherited => .bind fun b => ?_
      split
      · exact .bind fun _ => .bind fun _ => .pure ⟨rfl, rfl⟩
      · exact .bind fun _ => .pure ⟨rfl, rfl⟩

/-- A declaration of which nothing but a kind and a name was read. -/
def IsNamed (kind : DeclarationKind) (d : Declaration) : Prop :=
  ∃ name, d = { Declaration.ofKind kind .none with name := name }

theorem IsNamed.isFresh {kind : DeclarationKind} {d : Declaration} (h : IsNamed kind d) :
    IsFresh kind d := by
  obtain ⟨name, rfl⟩ := h
  exact ⟨rfl, rfl⟩

theorem ensures_function_isNamed (kind : DeclarationKind) :
    Ensures (function kind) (IsNamed kind) := by
  refine .inside (.bind fun _ => .bind fun _ => ?_)
  dsimp only
  split
  all_goals
    refine .bind fun name => ?_
    split
    · refine .bind fun c => ?_
      split
      · exact .bind fun _ => .bind fun _ => .bind fun _ => .pure ⟨_, rfl⟩
      · exact .bind fun _ => .bind fun _ => .pure ⟨_, rfl⟩
    · exact .bind fun _ => .bind fun _ => .pure ⟨_, rfl⟩

theorem ensures_function (kind : DeclarationKind) : Ensures (function kind) (IsFresh kind) :=
  fun c d n h => (ensures_function_isNamed kind c d n h).isFresh

theorem ensures_line_isNamed (kind : DeclarationKind) : Ensures (line kind) (IsNamed kind) := by
  refine .bind fun _ => .bind fun c => ?_
  split
  all_goals exact .bind fun _ => .bind fun _ => .pure ⟨_, rfl⟩

theorem ensures_line (kind : DeclarationKind) : Ensures (line kind) (IsFresh kind) :=
  fun c d n h => (ensures_line_isNamed kind c d n h).isFresh

end Parser

/-! ## Rounds -/

/-- What one round of reading declarations comes to, which begins at the cursor. -/
inductive Round (inBlock : Bool) (c : Cursor) : Parsed → Prop
  /-- No declaration comes next. -/
  | done (h : (c.skip c.separators).rest = []
      ∨ inBlock = true ∧ (c.skip c.separators).kind = .rightBrace) :
      Round inBlock c (.nothing c.separators)
  /-- What comes next is wrong. -/
  | failed {errors : List ParseError} {n : Nat} (he : errors ≠ [])
      (hn : (c.skip n).rest.length < c.rest.length) :
      Round inBlock c ((declarations inBlock (c.skip n)).preceded none errors n)
  | directive {n : Nat} (h : Parser.head (c.skip c.separators) = ⟨.ok .directive, n⟩)
      (hn : (c.skip (c.separators + max 1 n)).rest.length < c.rest.length) :
      Round inBlock c ((declarations inBlock (c.skip (c.separators + max 1 n))).preceded none []
        (c.separators + max 1 n))
  | complete {d : Declaration} {n : Nat}
      (h : Parser.head (c.skip c.separators) = ⟨.ok (.complete d), n⟩)
      (hn : (c.skip (c.separators + max 1 n)).rest.length < c.rest.length) :
      Round inBlock c ((declarations inBlock (c.skip (c.separators + max 1 n))).preceded (some d) []
        (c.separators + max 1 n))
  | block {d : Declaration} {n m : Nat} {inner : Parsed}
      (h : Parser.head (c.skip c.separators) = ⟨.ok (.type d), n⟩)
      (ho : (c.skip (c.separators + n)).kind = .leftBrace)
      (hi : inner = declarations true (c.skip (c.separators + n + 1)))
      (hm : m = c.separators + n + 1 + inner.taken) (hc : (c.skip m).kind = .rightBrace)
      (hn : (c.skip (c.separators + n + 1)).rest.length < c.rest.length)
      (hm' : (c.skip (m + 1)).rest.length < c.rest.length) :
      Round inBlock c ((declarations inBlock (c.skip (m + 1))).preceded
        (some { d with
          members := some inner.declarations, span := d.span.merge (c.skip m).span })
        inner.errors (m + 1))

/-- **Reading declarations goes by rounds.** -/
theorem declarations_round (inBlock : Bool) (c : Cursor) :
    Round inBlock c (declarations inBlock c) := by
  have hlt : ∀ {t : Token} {ts : List Token} {k : Nat}, (c.skip c.separators).rest = t :: ts →
      c.separators < k → (c.skip k).rest.length < c.rest.length := by
    intro t ts k h hk
    have hl := congrArg List.length h
    simp only [Cursor.length_rest_skip, List.length_cons] at hl ⊢
    omega
  rw [declarations]
  dsimp only
  split
  case h_1 h => exact .done (.inl h)
  case h_2 t ts h =>
    have hkind : (c.skip c.separators).kind = t.kind := by
      rw [Cursor.kind, Cursor.current_of_rest h]
    split
    case isTrue hk =>
      split
      case isTrue hb => exact .done (.inr ⟨hb, hkind.trans hk⟩)
      case isFalse => exact .failed (by simp) (hlt h (by omega))
    case isFalse hk =>
      cases ho : Parser.head (c.skip c.separators) with
      | mk result n =>
        dsimp only
        split
        case h_1 => exact .failed (by simp) (hlt h (by omega))
        case h_2 => exact .directive ho (hlt h (by omega))
        case h_3 => exact .complete ho (hlt h (by omega))
        case h_4 d =>
          split
          case h_1 => exact .failed (by simp) (hlt h (by omega))
          case h_2 opened _ hopened =>
            split
            case isFalse => exact .failed (by simp) (hlt h (by omega))
            case isTrue hbrace =>
              split
              case isFalse => exact .failed (by simp) (hlt h (by omega))
              case isTrue hclose =>
                rw [Cursor.skip_skip] at hopened
                simp only [Cursor.skip_skip] at hclose ⊢
                have hleft : (c.skip (c.separators + n)).kind = .leftBrace := by
                  rw [Cursor.kind, Cursor.current_of_rest hopened, hbrace]
                have hmax : ∀ k, c.separators + max 1 (n + 1 + k + 1) = c.separators + n + 1 + k + 1 :=
                  fun k => by omega
                rw [hmax]
                simp only [← Nat.add_assoc] at hclose ⊢
                exact .block ho hleft rfl rfl hclose (hlt h (by omega)) (hlt h (by omega))

/-- What every round keeps, reading declarations keeps. -/
theorem declarations_induction {P : Bool → Cursor → Parsed → Prop}
    (step : ∀ inBlock c p, Round inBlock c p →
      (∀ inBlock' c', c'.rest.length < c.rest.length →
        P inBlock' c' (declarations inBlock' c')) → P inBlock c p)
    (inBlock : Bool) (c : Cursor) : P inBlock c (declarations inBlock c) := by
  induction hl : c.rest.length using Nat.strongRecOn generalizing inBlock c with
  | ind l ih =>
    subst hl
    exact step inBlock c _ (declarations_round inBlock c) fun inBlock' c' hlt =>
      ih _ hlt inBlock' c' rfl

end Memberwise
