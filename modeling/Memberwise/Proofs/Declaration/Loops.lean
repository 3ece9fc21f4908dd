import Memberwise.Proofs.Declaration.Closing
import Memberwise.Proofs.Declaration.Findings

/-!
# Proofs/Declaration/Loops — the loops of reading, turn by turn

Reading steps over what it does not read in loops, which go on from token to token until one of them
ends the stretch.  A loop is given here by what one turn of it does (`Turn`): it goes on in another
state, or it stops.  Most loops have no bound that can be seen; what makes each of them stop is that
a turn which goes on leaves a token behind and does not pass the end (`Cursor.Forward`).

* `RunsTo.of_fits` — **a loop whose turns move forward stops**, and with what no turn changes;
* `runsTo_group`, `runsTo_typeText`, `runsTo_recovery`, `runsTo_stretch` and the others — so **each
  loop stops with what the parser of its name answers, where that parser ends**.
-/

namespace Memberwise

open Text

/-! ## Loops -/

/-- What one turn of a loop comes to. -/
inductive Turn (σ ρ : Type) where
  /-- The loop goes on in another state. -/
  | again (s : σ)
  | stop (r : ρ)

namespace Cursor

variable {c d : Cursor} {n : Nat}

/-- No token to come is an end of the text, so only the place behind the last one is. -/
def NoEnd (c : Cursor) : Prop := ∀ t ∈ c.rest, t.kind ≠ .endOfFile

theorem NoEnd.skip (h : c.NoEnd) (n : Nat) : (c.skip n).NoEnd :=
  fun t ht => h t (List.mem_of_mem_drop ht)

theorem NoEnd.kind_eq_iff (h : c.NoEnd) : c.kind = .endOfFile ↔ c.rest = [] := by
  refine ⟨fun hk => ?_, kind_of_rest_eq_nil⟩
  cases hr : c.rest with
  | nil => rfl
  | cons t ts =>
    rw [kind, current_of_rest hr] at hk
    exact absurd hk (h t (by simp [hr]))

/-- A cursor stands further on than another: past one token at least, and not past the end. -/
def Forward (c d : Cursor) : Prop := ∃ n, 0 < n ∧ n ≤ c.rest.length ∧ d = c.skip n

/-- Moving on from the end moves nowhere. -/
theorem skip_min (c : Cursor) (n : Nat) : c.skip (min n c.rest.length) = c.skip n := by
  rcases Nat.le_total n c.rest.length with h | h
  · rw [Nat.min_eq_left h]
  · rw [Nat.min_eq_right h, skip, skip, List.take_of_length_le h, List.drop_of_length_le h,
      List.take_length, List.drop_length]

theorem forward_skip (hr : c.rest ≠ []) (hn : 0 < n) : c.Forward (c.skip n) :=
  ⟨min n c.rest.length, Nat.lt_min.mpr ⟨hn, List.length_pos_iff.mpr hr⟩, Nat.min_le_right _ _,
    (c.skip_min n).symm⟩

namespace Forward

theorem length_lt (h : c.Forward d) : d.rest.length < c.rest.length := by
  obtain ⟨n, hn, hle, rfl⟩ := h
  rw [length_rest_skip]
  omega

theorem noEnd (h : c.Forward d) (hc : c.NoEnd) : d.NoEnd := by
  obtain ⟨n, -, -, rfl⟩ := h
  exact hc.skip n

end Forward

end Cursor

section Runs

variable {σ ρ : Type} {turn : σ → Turn σ ρ} {cursor : σ → Cursor} {s : σ} {r r' : ρ}

/-- **A loop stops** in a state with a result, and moves forward in every turn before. -/
inductive RunsTo (turn : σ → Turn σ ρ) (cursor : σ → Cursor) : σ → ρ → Prop
  | stop {s : σ} {r : ρ} (h : turn s = .stop r) : RunsTo turn cursor s r
  | again {s s' : σ} {r : ρ} (h : turn s = .again s') (hforward : (cursor s).Forward (cursor s'))
      (hs : RunsTo turn cursor s' r) : RunsTo turn cursor s r

/-- A loop stops with one result only. -/
theorem RunsTo.unique (h : RunsTo turn cursor s r) (h' : RunsTo turn cursor s r') : r = r' := by
  induction h with
  | stop h =>
    cases h' with
    | stop h' => exact Turn.stop.inj (h.symm.trans h')
    | again h' => cases h.symm.trans h'
  | again h _ _ ih =>
    cases h' with
    | stop h' => cases h.symm.trans h'
    | again h' _ hs =>
      obtain rfl := Turn.again.inj (h.symm.trans h')
      exact ih hs

/-- A turn that stops does so with the result, and one that goes on moves forward and leaves the
result as it is. -/
def Turn.Fits (cursor : σ → Cursor) (result : σ → ρ) (s : σ) : Turn σ ρ → Prop
  | stop r => r = result s
  | again s' => (cursor s).Forward (cursor s') ∧ result s' = result s

/-- **A loop whose turns move forward stops, with what no turn changes.** -/
theorem RunsTo.of_fits (result : σ → ρ) (h : ∀ s, (cursor s).NoEnd → (turn s).Fits cursor result s)
    (hs : (cursor s).NoEnd) : RunsTo turn cursor s (result s) := by
  -- What is left to read bounds the turns that are left.
  induction hl : (cursor s).rest.length using Nat.strongRecOn generalizing s with
  | ind l ih =>
    subst hl
    have hfits := h s hs
    cases ht : turn s with
    | stop r =>
      rw [ht] at hfits
      rw [← show r = result s from hfits]
      exact .stop ht
    | again s' =>
      rw [ht] at hfits
      obtain ⟨hforward, hresult⟩ := hfits
      rw [← hresult]
      exact .again ht hforward (ih _ hforward.length_lt (hforward.noEnd hs) rfl)

end Runs

/-! ## Line ends and separators -/

namespace Cursor

/-- Pass tokens as long as they are of the given kinds. -/
def passTurn (p : TokenKind → Bool) (c : Cursor) : Turn Cursor Cursor :=
  if p c.kind then .again c.advance else .stop c

theorem countWhile_of_pos {p : TokenKind → Bool} {c : Cursor} (hr : c.rest ≠ [])
    (h : p c.kind = true) : c.countWhile p = 1 + c.advance.countWhile p := by
  obtain ⟨t, ts, ht⟩ := List.exists_cons_of_ne_nil hr
  rw [kind, current_of_rest ht] at h
  rw [countWhile, countWhile, advance, rest_skip_one ht, ht, List.takeWhile_cons]
  simp [h, Nat.add_comm]

theorem countWhile_of_neg {p : TokenKind → Bool} {c : Cursor} (h : p c.kind = false) :
    c.countWhile p = 0 := by
  rw [countWhile]
  cases hr : c.rest with
  | nil => rfl
  | cons t ts =>
    rw [kind, current_of_rest hr] at h
    rw [List.takeWhile_cons_of_neg (by simp [h])]
    rfl

/-- **Passing tokens of some kinds stops behind the last of them.** -/
theorem runsTo_pass {p : TokenKind → Bool} (hp : p .endOfFile = false) {c : Cursor} (hc : c.NoEnd) :
    RunsTo (passTurn p) id c (c.skip (c.countWhile p)) := by
  refine RunsTo.of_fits (fun c : Cursor => c.skip (c.countWhile p)) (fun c _ => ?_) hc
  rw [passTurn]
  split
  case isTrue h =>
    have hr : c.rest ≠ [] := rest_ne_nil_of_kind fun hk => by rw [hk, hp] at h; cases h
    refine ⟨forward_skip hr Nat.zero_lt_one, ?_⟩
    change c.advance.skip (c.advance.countWhile p) = c.skip (c.countWhile p)
    rw [countWhile_of_pos hr h, ← skip_skip, advance]
  case isFalse h =>
    rw [Bool.not_eq_true] at h
    change c = c.skip (c.countWhile p)
    rw [countWhile_of_neg h, skip_zero]

end Cursor

/-! ## Brackets -/

namespace Parser

/-- Look for the bracket that closes the one opened first, with `depth` others open inside it; what
is answered is made of its span. -/
def closingTurn {α : Type} (isOpen isClose : TokenKind → Bool) (answer : Span → α) (opened : Token) :
    Nat × Cursor → Turn (Nat × Cursor) (Except ParseError α × Cursor)
  | (depth, c) =>
    if c.kind = .endOfFile then
      .stop (.error ⟨.unclosedGroup opened.kind opened.span, c.span, none⟩, c)
    else if isOpen c.kind then .again (depth + 1, c.advance)
    else if isClose c.kind then
      match depth with
      | 0 => .stop (.ok (answer c.span), c.advance)
      | depth + 1 => .again (depth, c.advance)
    else .again (depth, c.advance)

/-- What the search for a closing bracket comes to, if this is how far away it is. -/
def closingResult {α : Type} (answer : Span → α) (opened : Token) (c : Cursor) :
    Option Nat → Except ParseError α × Cursor
  | none => (.error ⟨.unclosedGroup opened.kind opened.span, c.last.span, none⟩, c.skip c.rest.length)
  | some n => (.ok (answer (c.ahead (n - 1)).span), c.skip n)

variable {α : Type} {answer : Span → α} {opened : Token} {c : Cursor}

/-- What the search comes to is the same from the next token on. -/
theorem closingResult_advance {length : Option Nat} (hpos : ∀ n, length = some n → 0 < n) :
    closingResult answer opened c.advance length
      = closingResult answer opened c (length.map (· + 1)) := by
  cases length with
  | none =>
    have hmin : min (1 + (c.rest.length - 1)) c.rest.length = c.rest.length := by omega
    simp only [closingResult, Option.map_none, Cursor.advance, Cursor.last_skip,
      Cursor.length_rest_skip, Cursor.skip_skip]
    rw [← Cursor.skip_min, hmin]
  | some n =>
    have hn := hpos n rfl
    have hahead : 1 + (n - 1) = n + 1 - 1 := by omega
    simp only [closingResult, Option.map_some, Cursor.advance, Cursor.ahead_skip, Cursor.skip_skip,
      hahead, Nat.add_comm 1 n]

/-- **The search for a closing bracket stops behind it**, or at the end if there is none. -/
theorem runsTo_closing {isOpen isClose : TokenKind → Bool} {length? : Nat → List Token → Option Nat}
    (h : IsClosingLength isOpen isClose length?) (answer : Span → α) (opened : Token) (hc : c.NoEnd)
    (depth : Nat) :
    RunsTo (closingTurn isOpen isClose answer opened) (·.2) (depth, c)
      (closingResult answer opened c (length? depth c.rest)) := by
  refine RunsTo.of_fits (s := (depth, c))
    (fun s : Nat × Cursor => closingResult answer opened s.2 (length? s.1 s.2.rest)) ?_ hc
  rintro ⟨depth, c⟩ hc
  have hgo : ∀ {d n : Nat}, c.rest ≠ [] → length? d c.rest = (length? n c.advance.rest).map (· + 1) →
      (Turn.again (n, c.advance)).Fits (·.2)
        (fun s : Nat × Cursor => closingResult answer opened s.2 (length? s.1 s.2.rest)) (d, c) :=
    fun hr hd => ⟨Cursor.forward_skip hr Nat.zero_lt_one, by
      dsimp only
      rw [hd, closingResult_advance fun n => h.pos]⟩
  unfold closingTurn
  dsimp only
  split
  case isTrue hk =>
    have hr := hc.kind_eq_iff.mp hk
    change _ = closingResult answer opened c (length? depth c.rest)
    rw [hr, h.nil, closingResult, hr, List.length_nil, Cursor.skip_zero, Cursor.span, Cursor.current,
      Cursor.ahead, hr]
    rfl
  case isFalse hk =>
    obtain ⟨ts, hr⟩ := Cursor.exists_rest_of_kind hk
    have hne : c.rest ≠ [] := by simp [hr]
    have hadvance : c.advance.rest = ts := Cursor.rest_skip_one hr
    split
    case isTrue ho => exact hgo hne (by rw [hadvance, hr, h.opening ts depth ho])
    case isFalse ho =>
      rw [Bool.not_eq_true] at ho
      split
      case isTrue hclose =>
        cases depth with
        | zero =>
          change _ = closingResult answer opened c (length? 0 c.rest)
          rw [hr, h.closing ts ho hclose]
          rfl
        | succ depth => exact hgo hne (by rw [hadvance, hr, h.closing_succ ts depth ho hclose])
      case isFalse hclose =>
        rw [Bool.not_eq_true] at hclose
        exact hgo hne (by rw [hadvance, hr, h.other ts depth ho hclose])

/-- **Stepping over a group stops.** -/
theorem runsTo_group (hc : c.NoEnd) :
    RunsTo (closingTurn TokenKind.isOpen TokenKind.isClose (fun s => (c.span, s)) c.current) (·.2)
      (0, c.advance) ((group c).result, c.skip (group c).taken) := by
  have hruns := runsTo_closing isClosingLength_group (fun s => (c.span, s)) c.current (hc.skip 1) 0
  rw [← Cursor.advance, closingResult_advance fun n => groupLength?_pos, Cursor.advance] at hruns
  cases hn : groupLength? 0 (c.skip 1).rest with
  | none =>
    rw [hn] at hruns
    rw [group, hn]
    exact hruns
  | some n =>
    rw [hn] at hruns
    rw [group, hn]
    dsimp only
    rw [Nat.add_comm 1 n]
    exact hruns

/-- **Stepping over a generic clause stops.** -/
theorem runsTo_generics (hc : c.NoEnd) (hk : c.kind = .less) :
    RunsTo (closingTurn (· == .less) (· == .greater) (fun _ => ()) c.current) (·.2) (0, c.advance)
      ((generics c).result, c.skip (generics c).taken) := by
  have hruns := runsTo_closing isClosingLength_generics (fun _ => ()) c.current (hc.skip 1) 0
  rw [← Cursor.advance, closingResult_advance fun n => isClosingLength_generics.pos, Cursor.advance] at hruns
  cases hn : genericsLength? 0 (c.skip 1).rest with
  | none =>
    rw [hn] at hruns
    rw [generics, if_pos hk, hn]
    exact hruns
  | some n =>
    rw [hn] at hruns
    rw [generics, if_pos hk, hn]
    dsimp only
    rw [Nat.add_comm 1 n]
    exact hruns

/-! ## Types -/

/-- What has been taken of a type: the brackets open, the span taken last, and what is to come. -/
structure TypeState where
  opened : List Token
  last : Option Span
  cursor : Cursor

/-- The text from the first token of a type to the last, if there is one. -/
def typeAnswer (first : Span) (s : TypeState) : Except ParseError String × Cursor :=
  match s.last with
  | some last => (.ok (String.ofList (s.cursor.textBetween first last)), s.cursor)
  | none => (.error ⟨.expectedType s.cursor.kind, s.cursor.span, none⟩, s.cursor)

/-- Take a type, keeping count of the brackets that are open. -/
def typeTurn (ends : TokenKind → Bool) (first : Span) (s : TypeState) :
    Turn TypeState (Except ParseError String × Cursor) :=
  if s.cursor.kind = .endOfFile then
    match s.opened with
    | b :: _ => .stop (.error ⟨.unclosedGroup b.kind b.span, s.cursor.span, none⟩, s.cursor)
    | [] => .stop (typeAnswer first s)
  else if EndsType ends s.opened s.cursor.kind then .stop (typeAnswer first s)
  else .again ⟨bracketsAfter s.opened s.cursor.current, some s.cursor.span, s.cursor.advance⟩

/-- What a type comes to, if this is how many tokens are left of it. -/
def typeResult (first : Span) (s : TypeState) : Except Token Nat → Except ParseError String × Cursor
  | .error b => (.error ⟨.unclosedGroup b.kind b.span, s.cursor.last.span, none⟩,
      s.cursor.skip s.cursor.rest.length)
  | .ok 0 => typeAnswer first s
  | .ok (n + 1) => (.ok (String.ofList (s.cursor.textBetween first (s.cursor.ahead n).span)),
      s.cursor.skip (n + 1))

/-- A type comes to the same from behind its next token. -/
theorem typeResult_advance {first : Span} {opened opened' : List Token} {last : Option Span}
    (length : Except Token Nat) : typeResult first ⟨opened', some c.span, c.advance⟩ length
      = typeResult first ⟨opened, last, c⟩ (length.map (· + 1)) := by
  rcases length with b | (_ | n)
  · have hmin : min (1 + (c.rest.length - 1)) c.rest.length = c.rest.length := by omega
    simp only [typeResult, Except.map, Cursor.advance, Cursor.last_skip, Cursor.length_rest_skip,
      Cursor.skip_skip]
    rw [← Cursor.skip_min, hmin]
  · rfl
  · have hahead : c.advance.ahead n = c.ahead (n + 1) := by
      rw [Cursor.advance, Cursor.ahead_skip, Nat.add_comm]
    have hskip : c.advance.skip (n + 1) = c.skip (n + 1 + 1) := by
      rw [Cursor.advance, Cursor.skip_skip, Nat.add_comm]
    simp only [typeResult, Except.map, hahead, hskip]
    rfl

/-- **Taking a type stops.** -/
theorem runsTo_typeText (ends : TokenKind → Bool) (hc : c.NoEnd) :
    RunsTo (typeTurn ends c.span) (·.cursor) ⟨[], none, c⟩
      ((typeText ends c).result, c.skip (typeText ends c).taken) := by
  have hruns : RunsTo (typeTurn ends c.span) (·.cursor) ⟨[], none, c⟩
      (typeResult c.span ⟨[], none, c⟩ (typeLength ends [] c.rest)) := by
    refine RunsTo.of_fits (fun s : TypeState =>
      typeResult c.span s (typeLength ends s.opened s.cursor.rest)) ?_ hc
    rintro ⟨opened, last, c'⟩ hc'
    unfold typeTurn
    dsimp only
    split
    case isTrue hk =>
      have hr := hc'.kind_eq_iff.mp hk
      have hspan : c'.last.span = c'.span := by rw [Cursor.span, Cursor.current, Cursor.ahead, hr]; rfl
      cases opened with
      | nil =>
        change _ = typeResult c.span ⟨[], last, c'⟩ (typeLength ends [] c'.rest)
        rw [hr]
        rfl
      | cons b bs =>
        change _ = typeResult c.span ⟨b :: bs, last, c'⟩ (typeLength ends (b :: bs) c'.rest)
        rw [hr, typeLength, typeResult, hspan, hr, List.length_nil, Cursor.skip_zero]
    case isFalse hk =>
      obtain ⟨ts, hr⟩ := Cursor.exists_rest_of_kind hk
      split
      case isTrue hstop =>
        change _ = typeResult c.span ⟨opened, last, c'⟩ (typeLength ends opened c'.rest)
        rw [hr, typeLength_of_ends hstop]
        rfl
      case isFalse hgo =>
        refine ⟨Cursor.forward_skip (by simp [hr]) Nat.zero_lt_one, ?_⟩
        have hadvance : c'.advance.rest = ts := Cursor.rest_skip_one hr
        dsimp only
        rw [hadvance, hr, typeLength_of_not_ends hgo, typeResult_advance]
  rw [typeText]
  rcases hm : typeLength ends [] c.rest with b | (_ | n)
  · rw [hm] at hruns
    exact hruns
  · rw [hm] at hruns
    dsimp only [fail]
    rw [Cursor.skip_zero]
    exact hruns
  · rw [hm] at hruns
    exact hruns

end Parser

/-! ## Recovery -/

/-- Pass tokens up to the end of the line or a bracket that closes what is around it, with `depth`
groups open on the way. -/
def recoveryTurn : Nat × Cursor → Turn (Nat × Cursor) Cursor
  | (depth, c) =>
    if c.kind = .endOfFile then .stop c
    else if depth = 0 ∧ (c.kind = .newline ∨ c.kind = .semicolon) then .stop c
    else if c.kind.isOpen then .again (depth + 1, c.advance)
    else if c.kind.isClose then
      if depth = 0 then .stop c else .again (depth - 1, c.advance)
    else .again (depth, c.advance)

theorem recoveryLength_rest {c : Cursor} (hk : c.kind ≠ .endOfFile) (depth : Nat) :
    recoveryLength depth c.rest =
      if depth = 0 ∧ (c.kind = .newline ∨ c.kind = .semicolon ∨ c.kind.isClose) then 0
      else if c.kind.isOpen then recoveryLength (depth + 1) c.advance.rest + 1
      else if c.kind.isClose then recoveryLength (depth - 1) c.advance.rest + 1
      else recoveryLength depth c.advance.rest + 1 := by
  obtain ⟨ts, hr⟩ := Cursor.exists_rest_of_kind hk
  rw [Cursor.advance, Cursor.rest_skip_one hr, hr, recoveryLength]
  rfl

/-- **Recovery stops.** -/
theorem runsTo_recovery {c : Cursor} (hc : c.NoEnd) :
    RunsTo recoveryTurn (·.2) (0, c) (c.skip (recoveryLength 0 c.rest)) := by
  refine RunsTo.of_fits (s := (0, c))
    (fun s : Nat × Cursor => s.2.skip (recoveryLength s.1 s.2.rest)) ?_ hc
  rintro ⟨depth, c⟩ hc
  have hgo : ∀ {d : Nat}, c.rest ≠ [] →
      recoveryLength depth c.rest = recoveryLength d c.advance.rest + 1 →
      (Turn.again (d, c.advance)).Fits (·.2)
        (fun s : Nat × Cursor => s.2.skip (recoveryLength s.1 s.2.rest)) (depth, c) := by
    intro d hr hd
    refine ⟨Cursor.forward_skip hr Nat.zero_lt_one, ?_⟩
    dsimp only
    rw [hd, Cursor.advance, Cursor.skip_skip, Nat.add_comm]
  have hstay : recoveryLength depth c.rest = 0 → c = c.skip (recoveryLength depth c.rest) := by
    intro h
    rw [h, Cursor.skip_zero]
  unfold recoveryTurn
  dsimp only
  split
  case isTrue hk =>
    refine hstay ?_
    rw [hc.kind_eq_iff.mp hk]
    rfl
  case isFalse hk =>
    have hne := Cursor.rest_ne_nil_of_kind hk
    have hlength := recoveryLength_rest hk depth
    split
    case isTrue hline =>
      rw [if_pos ⟨hline.1, or_assoc.mp (.inl hline.2)⟩] at hlength
      exact hstay hlength
    case isFalse hline =>
      split
      case isTrue ho =>
        have hclose := TokenKind.isClose_eq_false_of_isOpen ho
        rw [if_neg (by grind), if_pos ho] at hlength
        exact hgo hne hlength
      case isFalse ho =>
        split
        case isTrue hclose =>
          split
          case isTrue hdepth =>
            rw [if_pos ⟨hdepth, .inr (.inr hclose)⟩] at hlength
            exact hstay hlength
          case isFalse hdepth =>
            rw [if_neg fun h => hdepth h.1, if_neg ho, if_pos hclose] at hlength
            exact hgo hne hlength
        case isFalse hclose =>
          rw [if_neg (by grind), if_neg ho, if_neg hclose] at hlength
          exact hgo hne hlength

/-! ## Stretches with groups in them -/

namespace Parser

variable {c : Cursor}

/-- Step over a stretch, deciding at each token by what the cursor shows there. -/
def stretchTurn (stride : Cursor → Stride) (c : Cursor) :
    Turn Cursor (Except ParseError Unit × Cursor) :=
  match stride c with
  | .stop => .stop (.ok (), c)
  | .pass n => .again (c.skip (n + 1))
  | .group =>
    match (group c).result with
    | .ok _ => .again (c.skip (group c).taken)
    | .error e => .stop (.error e, c.skip (group c).taken)

/-- A turn of a stretch stops with what the stretch comes to, where it is if that is no failure, or
moves forward to where the rest of it is stepped over. -/
theorem stretchTurn_cases {stride : Cursor → Stride}
    (hend : ∀ c : Cursor, c.kind = .endOfFile → stride c = .stop) (c : Cursor) :
    (stretchTurn stride c = .stop ((stretch stride c).result, c.skip (stretch stride c).taken)
        ∧ ∀ u n, stretch stride c = ⟨.ok u, n⟩ → n = 0)
      ∨ ∃ n, stretchTurn stride c = .again (c.skip n) ∧ c.Forward (c.skip n)
        ∧ stretch stride c = (stretch stride (c.skip n)).after n := by
  unfold stretchTurn
  have hrest : stride c ≠ .stop → c.rest ≠ [] :=
    fun h => Cursor.rest_ne_nil_of_kind fun hk => h (hend c hk)
  cases hs : stride c with
  | stop =>
    rw [stretch_of_stop hs, Cursor.skip_zero]
    exact .inl ⟨rfl, fun u n h => (Outcome.mk.inj h).2.symm⟩
  | pass n =>
    have hr := hrest (by rw [hs]; nofun)
    exact .inr ⟨n + 1, rfl, Cursor.forward_skip hr (Nat.succ_pos n), stretch_of_pass hr hs⟩
  | group =>
    have hr := hrest (by rw [hs]; nofun)
    have hpos := group_taken_pos hr
    cases hg : group c with
    | mk result m =>
      rw [hg] at hpos
      cases result with
      | ok r => exact .inr ⟨m, rfl, Cursor.forward_skip hr hpos, stretch_of_group hr hs hg⟩
      | error e =>
        rw [stretch_of_unclosed hr hs hg]
        exact .inl ⟨rfl, nofun⟩

/-- **Stepping over a stretch stops**, if the end of the text ends it. -/
theorem runsTo_stretch {stride : Cursor → Stride}
    (hend : ∀ c : Cursor, c.kind = .endOfFile → stride c = .stop) (hc : c.NoEnd) :
    RunsTo (stretchTurn stride) id c
      ((stretch stride c).result, c.skip (stretch stride c).taken) := by
  refine RunsTo.of_fits
    (fun c : Cursor => ((stretch stride c).result, c.skip (stretch stride c).taken)) ?_ hc
  intro c _
  obtain ⟨hstop, -⟩ | ⟨n, hagain, hforward, hstretch⟩ := stretchTurn_cases hend c
  · rw [hstop]
    rfl
  · rw [hagain]
    refine ⟨hforward, ?_⟩
    dsimp only
    rw [hstretch, Outcome.result_after, Outcome.taken_after, Cursor.skip_skip]

theorem lineStride_endOfFile (c : Cursor) (hk : c.kind = .endOfFile) : lineStride c = .stop := by
  rw [lineStride, hk]

theorem signatureStride_endOfFile (c : Cursor) (hk : c.kind = .endOfFile) :
    signatureStride c = .stop := by
  rw [signatureStride, hk]

theorem initializerStride_endOfFile (c : Cursor) (hk : c.kind = .endOfFile) :
    c.initializerStride = .stop := by
  rw [Cursor.initializerStride, hk]

/-- Step over a signature, and stop with the body if there is one. -/
def signatureTurn (c : Cursor) : Turn Cursor (Except ParseError Unit × Cursor) :=
  if c.kind = .leftBrace then .stop ((discard group c).result, c.skip (discard group c).taken)
  else stretchTurn signatureStride c

theorem bind_after {α β : Type} {p : Parser α} (f : α → Parser β) {n : Nat}
    (h : p c = (p (c.skip n)).after n) : (p >>= f) c = ((p >>= f) (c.skip n)).after n := by
  cases hp : p (c.skip n) with
  | mk result m =>
    rw [hp] at h
    cases result with
    | error e => rw [bind_of_error hp, bind_of_error h]; rfl
    | ok a => rw [bind_of_ok hp, bind_of_ok h, Cursor.skip_skip, Outcome.after_after]

/-- **Stepping over a signature and a body stops.** -/
theorem runsTo_signatureAndBody (hc : c.NoEnd) : RunsTo signatureTurn id c
    ((signatureAndBody c).result, c.skip (signatureAndBody c).taken) := by
  refine RunsTo.of_fits
    (fun c : Cursor => ((signatureAndBody c).result, c.skip (signatureAndBody c).taken)) ?_ hc
  intro c _
  unfold signatureTurn
  split
  case isTrue hk =>
    have hs : stretch signatureStride c = ⟨.ok (), 0⟩ :=
      stretch_of_stop (by rw [signatureStride, hk])
    change _ = ((signatureAndBody c).result, c.skip (signatureAndBody c).taken)
    rw [signatureAndBody, bind_of_ok hs, Cursor.skip_zero, Outcome.after_zero, here_bind, if_pos hk]
  case isFalse hk =>
    obtain ⟨hstop, hzero⟩ | ⟨n, hagain, hforward, hstretch⟩ :=
      stretchTurn_cases signatureStride_endOfFile c
    · rw [hstop]
      change _ = ((signatureAndBody c).result, c.skip (signatureAndBody c).taken)
      cases hs : stretch signatureStride c with
      | mk result n =>
        cases result with
        | error e => rw [signatureAndBody, bind_of_error hs]
        | ok u =>
          obtain rfl := hzero u n hs
          rw [signatureAndBody, bind_of_ok hs, Cursor.skip_zero, Outcome.after_zero, here_bind,
            if_neg hk]
          rfl
    · rw [hagain]
      refine ⟨hforward, ?_⟩
      dsimp only
      rw [signatureAndBody, bind_after _ hstretch, Outcome.result_after, Outcome.taken_after,
        Cursor.skip_skip]

/-! ## Attributes and modifiers -/

/-- Read one more attribute and the line ends after it, if one comes next. -/
def attributesTurn : List Attribute × Cursor →
    Turn (List Attribute × Cursor) (Except ParseError (List Attribute) × Cursor)
  | (as, c) =>
    if c.kind = .atSign then
      let o := attributeAfter c.span c.advance
      let c' := c.advance.skip o.taken
      match o.result with
      | .ok a => .again (as ++ [a], c'.skip c'.newlines)
      | .error e => .stop (.error e, c')
    else .stop (.ok as, c)

/-- **Reading attributes stops.** -/
theorem runsTo_attributes (hc : c.NoEnd) : RunsTo attributesTurn (·.2) ([], c)
    ((attributes c).result, c.skip (attributes c).taken) := by
  have hruns : RunsTo attributesTurn (·.2) ([], c)
      ((attributes c).result.map ([] ++ ·), c.skip (attributes c).taken) := by
    refine RunsTo.of_fits (s := ([], c)) (fun s : List Attribute × Cursor =>
      ((attributes s.2).result.map (s.1 ++ ·), s.2.skip (attributes s.2).taken)) ?_ hc
    rintro ⟨as, c⟩ _
    unfold attributesTurn
    dsimp only
    split
    case isFalse hk =>
      change _ = ((attributes c).result.map (as ++ ·), c.skip (attributes c).taken)
      rw [attributes_of_ne hk, Cursor.skip_zero]
      simp [Except.map]
    case isTrue hk =>
      have hr := Cursor.rest_ne_nil_of_kind (c := c) (by rw [hk]; decide)
      cases ha : attributeAfter c.span c.advance with
      | mk result n =>
        cases result with
        | error e =>
          change _ = ((attributes c).result.map (as ++ ·), c.skip (attributes c).taken)
          rw [attributes_of_error hk ha, Cursor.advance, Cursor.skip_skip]
          rfl
        | ok a =>
          dsimp only
          rw [Cursor.advance, Cursor.skip_skip, Cursor.skip_skip, Cursor.skip_skip]
          refine ⟨Cursor.forward_skip hr (by omega), ?_⟩
          dsimp only
          rw [attributes_of_ok hk ha, Outcome.taken_after, Outcome.result_after, Cursor.skip_skip]
          generalize attributes (c.skip (1 + (n + (c.skip (1 + n)).newlines))) = later
          obtain ⟨result, m⟩ := later
          cases result <;> simp [Outcome.map, Except.map]
  have hid : ∀ r : Except ParseError (List Attribute), r.map ([] ++ ·) = r := by
    intro r
    cases r <;> rfl
  rwa [hid] at hruns

/-- Read one more modifier and the line ends after it, if one comes next. -/
def modifiersTurn : List Modifier × Cursor → Turn (List Modifier × Cursor) (List Modifier × Cursor)
  | (ms, c) =>
    match c.modifier? with
    | none => .stop (ms, c)
    | some (kind, n) =>
      let c' := c.skip (n + 1)
      .again (ms ++ [⟨kind, c.span.merge c'.previousSpan⟩], c'.skip c'.newlines)

/-- **Reading modifiers stops.** -/
theorem runsTo_modifiers (hc : c.NoEnd) :
    RunsTo modifiersTurn (·.2) ([], c) (c.modifiers.1, c.skip c.modifiers.2) := by
  refine RunsTo.of_fits (s := ([], c)) (fun s : List Modifier × Cursor =>
    (s.1 ++ s.2.modifiers.1, s.2.skip s.2.modifiers.2)) ?_ hc
  rintro ⟨ms, c⟩ _
  unfold modifiersTurn
  dsimp only
  cases hm : c.modifier? with
  | none =>
    change _ = (ms ++ c.modifiers.1, c.skip c.modifiers.2)
    rw [modifiers_eq_nil hm, List.append_nil, Cursor.skip_zero]
  | some m =>
    obtain ⟨kind, n⟩ := m
    have hr := List.ne_nil_of_length_pos (Nat.zero_lt_of_lt (modifier?_lt hm))
    dsimp only
    rw [Cursor.skip_skip]
    refine ⟨Cursor.forward_skip hr (by omega), ?_⟩
    dsimp only
    rw [modifiers_of_modifier? hm, List.append_assoc, List.singleton_append, Cursor.skip_skip]

end Parser

/-! ## Declarations -/

/-- What a round finds, and how many tokens it takes by itself. -/
def attempt (inBlock : Bool) (c : Cursor) : Finding :=
  if c.kind = .rightBrace then ⟨none, [⟨.strayBrace, c.span, some .sourceFile⟩], 1⟩
  else
    let o := Parser.head c
    let failed (errors : List ParseError) (e : ParseError) (n : Nat) : Finding :=
      ⟨none, errors ++ [e.within (levelConstruct inBlock)], n + recoveryLength 0 (c.skip n).rest⟩
    match o.result with
    | .error e => failed [] e o.taken
    | .ok .directive => ⟨none, [], o.taken⟩
    | .ok (.complete d) => ⟨some d, [], o.taken⟩
    | .ok (.type d) =>
      if (c.skip o.taken).kind = .leftBrace then
        let block := declarations true (c.skip (o.taken + 1))
        let n := o.taken + 1 + block.taken
        if (c.skip n).kind = .rightBrace then
          ⟨some (Finding.closed d block.declarations (c.skip n).span), block.errors, n + 1⟩
        else
          failed block.errors
            ⟨.unclosedBlock (c.skip o.taken).span, (c.skip n).span, some .memberBlock⟩ n
      else failed [] (declarations.expectedBlock (c.skip o.taken)) o.taken

/-- **A round takes what it takes by itself, or one token if that is none.** -/
theorem finding_eq_attempt (inBlock : Bool) (c : Cursor) : finding inBlock c
    = { attempt inBlock c with taken := max 1 (attempt inBlock c).taken } := by
  by_cases hk : c.kind = .rightBrace
  · rw [finding_of_brace hk, attempt, if_pos hk]
    rfl
  rw [attempt, if_neg hk]
  cases ho : Parser.head c with
  | mk result n =>
    rcases result with e | r
    · rw [finding_of_error hk ho]
      rfl
    cases r with
    | directive => rw [finding_of_directive hk ho]
    | complete d => rw [finding_of_complete hk ho]
    | type d =>
      rw [finding_of_type hk ho]
      dsimp only
      by_cases hopen : (c.skip n).kind = .leftBrace
      case neg =>
        rw [Finding.ofBlock_of_ne hopen, if_neg hopen]
        rfl
      rw [if_pos hopen]
      by_cases hclose : (c.skip (n + 1 + (declarations true (c.skip (n + 1))).taken)).kind = .rightBrace
      · rw [Finding.ofBlock_of_closed hopen hclose, if_pos hclose,
          Nat.max_eq_right (Nat.le_add_left 1 _)]
      · rw [Finding.ofBlock_of_unclosed hopen hclose, if_neg hclose]
        rfl

/-- What has been read of a stretch of declarations, and where reading goes on. -/
structure RoundState where
  declarations : List Declaration
  errors : List ParseError
  cursor : Cursor

/-- Read one more declaration, if the stretch goes on behind the separators.  A round that has taken
no token by itself is made to take one. -/
def roundTurn (inBlock : Bool) (s : RoundState) : Turn RoundState RoundState :=
  let c := s.cursor.skip s.cursor.separators
  if c.kind = .endOfFile ∨ inBlock = true ∧ c.kind = .rightBrace then .stop { s with cursor := c }
  else
    let f := attempt inBlock c
    let c' := c.skip f.taken
    .again ⟨s.declarations ++ f.declaration.toList, s.errors ++ f.errors,
      if c'.position = c.position then c'.advance else c'⟩

theorem position_guard {c : Cursor} (hr : c.rest ≠ []) (n : Nat) :
    (if (c.skip n).position = c.position then (c.skip n).advance else c.skip n)
      = c.skip (max 1 n) := by
  have hlen := List.length_pos_iff.mpr hr
  rw [Cursor.position_skip]
  cases n with
  | zero => simp [Cursor.advance]
  | succ n => rw [if_neg (by omega), Nat.max_eq_right (Nat.succ_pos n)]

/-- **Reading declarations stops.** -/
theorem runsTo_declarations (inBlock : Bool) {c : Cursor} (hc : c.NoEnd) :
    RunsTo (roundTurn inBlock) (·.cursor) ⟨[], [], c⟩
      ⟨(declarations inBlock c).declarations, (declarations inBlock c).errors,
        c.skip (declarations inBlock c).taken⟩ := by
  refine RunsTo.of_fits (s := ⟨[], [], c⟩) (fun s : RoundState =>
    RoundState.mk (s.declarations ++ (declarations inBlock s.cursor).declarations)
      (s.errors ++ (declarations inBlock s.cursor).errors)
      (s.cursor.skip (declarations inBlock s.cursor).taken)) ?_ hc
  rintro ⟨ds, es, c⟩ hc
  unfold roundTurn
  dsimp only
  have hends : (c.skip c.separators).kind = .endOfFile ∨ inBlock = true
      ∧ (c.skip c.separators).kind = .rightBrace ↔ (c.skip c.separators).Ends inBlock := by
    rw [(hc.skip _).kind_eq_iff]
    rfl
  split
  case isTrue h =>
    change _ = RoundState.mk (ds ++ (declarations inBlock c).declarations)
      (es ++ (declarations inBlock c).errors) (c.skip (declarations inBlock c).taken)
    rw [declarations_of_ends (hends.mp h)]
    simp [Parsed.nothing]
  case isFalse h =>
    have hr := Cursor.rest_ne_nil_of_kind fun hk => h (.inl hk)
    have hne : c.rest ≠ [] := fun hnil => hr (by rw [Cursor.rest_skip, hnil, List.drop_nil])
    rw [hends] at h
    have hfinding := finding_eq_attempt inBlock (c.skip c.separators)
    rw [position_guard hr, Cursor.skip_skip]
    refine ⟨Cursor.forward_skip hne (by omega), ?_⟩
    dsimp only
    rw [declarations_of_not_ends h, hfinding]
    simp [Parsed.preceded]

end Memberwise
