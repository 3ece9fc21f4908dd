import Memberwise.Declaration.Parser

/-!
# Declaration/Balanced — stepping over what is not read

Bodies, initializers and types are never read into trees: they are stepped over by keeping brackets
balanced, and a type is kept as its text.  Each function here counts the tokens of such a stretch.

**A group ends at the bracket that balances its first one**: `groupLength?` counts through that
bracket, `none` if there is none, and is never zero (`groupLength?_pos`).  A stretch that may hold
groups (`Parser.stretch`) ends before the first token that ends it outside any group; one that meets
an unclosed group fails there and takes all tokens (`Parser.stretch_of_unclosed`).
-/

namespace Memberwise

/-! ## Groups -/

/-- The number of tokens through the one that closes the group they stand in, which is `depth`
groups deep inside another. -/
def groupLength? : (depth : Nat) → List Token → Option Nat
  | _, [] => none
  | depth, t :: ts =>
    if t.kind.isOpen then (groupLength? (depth + 1) ts).map (· + 1)
    else if t.kind.isClose then
      match depth with
      | 0 => some 1
      | depth + 1 => (groupLength? depth ts).map (· + 1)
    else (groupLength? depth ts).map (· + 1)

/-- The number of tokens through the `>` that closes a generic clause, `depth` clauses deep. -/
def genericsLength? : (depth : Nat) → List Token → Option Nat
  | _, [] => none
  | depth, t :: ts =>
    if t.kind = .less then (genericsLength? (depth + 1) ts).map (· + 1)
    else if t.kind = .greater then
      match depth with
      | 0 => some 1
      | depth + 1 => (genericsLength? depth ts).map (· + 1)
    else (genericsLength? depth ts).map (· + 1)

theorem groupLength?_pos {depth : Nat} {ts : List Token} {n : Nat}
    (h : groupLength? depth ts = some n) : 0 < n := by
  fun_induction groupLength? depth ts generalizing n <;> simp_all <;> omega

theorem groupLength?_le {depth : Nat} {ts : List Token} {n : Nat}
    (h : groupLength? depth ts = some n) : n ≤ ts.length := by
  fun_induction groupLength? depth ts generalizing n <;> simp_all <;> grind

namespace Parser

/-- The failure at the end of the text, inside what `opened` opened; it takes every token. -/
def unclosed (opened : Token) (c : Cursor) : Outcome α :=
  ⟨.error ⟨.unclosedGroup opened.kind opened.span, c.last.span, none⟩, c.rest.length⟩

/-- Step over the group that the next token opens, and answer the spans of its two brackets. -/
def group : Parser (Span × Span) := fun c =>
  match groupLength? 0 (c.skip 1).rest with
  | some n => ⟨.ok (c.span, (c.ahead n).span), 1 + n⟩
  | none => unclosed c.current c

/-- Step over a generic clause, if one comes next. -/
def generics : Parser Unit := fun c =>
  if c.kind = .less then
    match genericsLength? 0 (c.skip 1).rest with
    | some n => ⟨.ok (), 1 + n⟩
    | none => unclosed c.current c
  else ⟨.ok (), 0⟩

end Parser

/-! ## Types -/

/-- The number of tokens of a type, up to the first one outside its brackets for which `ends` holds
or that closes something else; `opened` are the brackets open so far, the innermost first, and the
error is the innermost one still open at the end. -/
def typeLength (ends : TokenKind → Bool) : (opened : List Token) → List Token → Except Token Nat
  | [], [] => .ok 0
  | b :: _, [] => .error b
  | opened, t :: ts =>
    if opened.isEmpty ∧ (ends t.kind ∨ t.kind.isClose ∨ t.kind = .greater) then .ok 0
    else
      match t.kind with
      | .leftParen | .leftBracket | .less => (typeLength ends (t :: opened) ts).map (· + 1)
      | .rightParen | .rightBracket | .greater => (typeLength ends opened.tail ts).map (· + 1)
      | _ => (typeLength ends opened ts).map (· + 1)

/-- Take a type, and answer its text. -/
def Parser.typeText (ends : TokenKind → Bool) : Parser String := fun c =>
  match typeLength ends [] c.rest with
  | .error opened => unclosed opened c
  | .ok 0 => fail (.expectedType c.kind) c
  | .ok (n + 1) => ⟨.ok (String.ofList (c.textBetween c.span (c.ahead n).span)), n + 1⟩

/-! ## Stretches with groups in them -/

/-- What to do with the next token of a stretch. -/
inductive Stride where
  /-- The stretch ends before it. -/
  | stop
  /-- It and the `n` tokens after it belong to the stretch. -/
  | pass (n : Nat)
  /-- It opens a group that belongs to the stretch. -/
  | group
  deriving DecidableEq, Repr

/-- Step over a stretch of tokens, deciding at each one by what the cursor shows there. -/
def Parser.stretch (stride : Cursor → Stride) (c : Cursor) : Outcome Unit :=
  match _h : c.rest with
  | [] => ⟨.ok (), 0⟩
  | t :: ts =>
    match stride c with
    | .stop => ⟨.ok (), 0⟩
    | .pass n => (stretch stride (c.skip (n + 1))).after (n + 1)
    | .group =>
      match groupLength? 0 ts with
      | some n => (stretch stride (c.skip (n + 1))).after (n + 1)
      | none => unclosed t c
termination_by c.rest.length
decreasing_by
  all_goals
    simp only [Cursor.length_rest_skip, _h, List.length_cons]
    omega

namespace Parser

variable {stride : Cursor → Stride} {c : Cursor} {t : Token} {ts : List Token} {n : Nat}

theorem group_of_closed (hr : c.rest = t :: ts) (hn : groupLength? 0 ts = some n) :
    group c = ⟨.ok (c.span, (c.ahead n).span), n + 1⟩ := by
  rw [group, Cursor.rest_skip, hr, List.drop_one, List.tail_cons, hn, Nat.add_comm n 1]

theorem group_of_unclosed (hr : c.rest = t :: ts) (hn : groupLength? 0 ts = none) :
    group c = unclosed t c := by
  have hcurrent : c.current = t := by
    rw [Cursor.current, Cursor.ahead, hr]
    rfl
  rw [group, Cursor.rest_skip, hr, List.drop_one, List.tail_cons, hn, hcurrent]

theorem stretch_of_nil (hr : c.rest = []) : stretch stride c = ⟨.ok (), 0⟩ := by
  rw [stretch.eq_def, hr]

theorem stretch_of_stop (hs : stride c = .stop) : stretch stride c = ⟨.ok (), 0⟩ := by
  rw [stretch.eq_def]
  split
  · rfl
  · rw [hs]

theorem stretch_of_pass (hr : c.rest ≠ []) (hs : stride c = .pass n) :
    stretch stride c = (stretch stride (c.skip (n + 1))).after (n + 1) := by
  obtain ⟨t, ts, ht⟩ := List.exists_cons_of_ne_nil hr
  rw [stretch.eq_def, ht]
  dsimp only
  rw [hs]

/-- A group in a stretch is stepped over like one that stands alone. -/
theorem stretch_of_group {r : Span × Span} (hr : c.rest ≠ []) (hs : stride c = .group)
    (h : group c = ⟨.ok r, n⟩) : stretch stride c = (stretch stride (c.skip n)).after n := by
  obtain ⟨t, ts, ht⟩ := List.exists_cons_of_ne_nil hr
  rw [stretch.eq_def, ht]
  dsimp only
  rw [hs]
  dsimp only
  cases hm : groupLength? 0 ts with
  | none =>
    rw [group_of_unclosed ht hm] at h
    cases h
  | some m =>
    rw [group_of_closed ht hm] at h
    obtain rfl := (Outcome.mk.inj h).2
    rfl

/-- A stretch fails at a group that is never closed. -/
theorem stretch_of_unclosed {e : ParseError} (hr : c.rest ≠ []) (hs : stride c = .group)
    (h : group c = ⟨.error e, n⟩) : stretch stride c = ⟨.error e, n⟩ := by
  obtain ⟨t, ts, ht⟩ := List.exists_cons_of_ne_nil hr
  rw [stretch.eq_def, ht]
  dsimp only
  rw [hs]
  dsimp only
  cases hm : groupLength? 0 ts with
  | none =>
    rw [group_of_unclosed ht hm] at h
    obtain ⟨hres, rfl⟩ := Outcome.mk.inj h
    rw [← Except.error.inj hres]
    rfl
  | some m =>
    rw [group_of_closed ht hm] at h
    cases h

end Parser

/-- A token of the rest of a line: a group or one token, up to a line end, a semicolon or a bracket
that closes something else. -/
def lineStride (c : Cursor) : Stride :=
  match c.kind with
  | .endOfFile | .newline | .semicolon => .stop
  | k => if k.isClose then .stop else if k.isOpen then .group else .pass 0

/-- Step over the rest of a line. -/
def Parser.restOfLine : Parser Unit := stretch lineStride

/-- A token of a function's signature.  A line end is passed only if the next line opens the body or
goes on with the signature. -/
def signatureStride (c : Cursor) : Stride :=
  match c.kind with
  | .leftBrace | .endOfFile | .semicolon => .stop
  | .newline =>
    match c.pastNewlines.kind with
    | .leftBrace | .arrow | .whereKw => .pass (c.newlines - 1)
    | _ => .stop
  | k => if k.isClose then .stop else if k.isOpen then .group else .pass 0

/-- Step over a function's signature, and its body if it has one. -/
def Parser.signatureAndBody : Parser Unit := do
  stretch signatureStride
  if (← here).kind = .leftBrace then
    discard group

end Memberwise
