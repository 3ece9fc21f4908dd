import Memberwise.Proofs.Declaration.Loops
import Memberwise.Proofs.Declaration.Nesting

/-!
# Proofs/Declaration/Progress — reading goes forward, and to the end

A parser answers with how many tokens it takes, and it never takes more than there are
(`Parser.Confined`): wherever it is used, the cursor behind it has moved on by just that many, and not
past the end of the text.

* `Parser.confined_head`, `declarations_taken_le` — **heads and declarations take no more tokens than
  there are**;
* `SourceFile.progress` — **reading goes forward in every round and every loop stops**, a block ends
  at its closing brace or with the text, and a file with the text.
-/

namespace Memberwise

open Text

namespace Parser

variable {α β : Type} {p : Parser α} {f : α → Parser β} {c : Cursor}

/-! ## Parsers that take no more than there is -/

/-- Wherever it is used, a parser takes no more tokens than there are. -/
def Confined (p : Parser α) : Prop := ∀ c, (p c).taken ≤ c.rest.length

namespace Confined

theorem pure (a : α) : Confined (Pure.pure a) := fun _ => Nat.zero_le _

theorem here : Confined here := fun _ => Nat.zero_le _

theorem fail (fault : ParseFault) : Confined (Parser.fail fault : Parser α) := fun _ => Nat.zero_le _

theorem take (n : Nat) : Confined (take n) := fun _ => Nat.min_le_right _ _

theorem next : Confined next := fun _ => Nat.min_le_right _ _

theorem skipNewlines : Confined skipNewlines := fun c => c.newlines_le

theorem bind (hp : Confined p) (hf : ∀ a, Confined (f a)) : Confined (p >>= f) := by
  intro c
  cases h : p c with
  | mk result n =>
    have hle : n ≤ c.rest.length := by
      have := hp c
      rwa [h] at this
    cases result with
    | error e => rwa [bind_of_error h]
    | ok a =>
      have hlater := hf a (c.skip n)
      rw [Cursor.length_rest_skip] at hlater
      rw [bind_of_ok h, Outcome.taken_after]
      omega

theorem map (hp : Confined p) (g : α → β) : Confined (g <$> p) := hp.bind fun a => pure (g a)

theorem inside (hp : Confined p) (construct : Construct) : Confined (inside construct p) :=
  fun c => hp c

theorem ite {q : Parser α} {b : Prop} [Decidable b] (hp : Confined p) (hq : Confined q) :
    Confined (if b then p else q) := by
  split
  · exact hp
  · exact hq

end Confined

theorem confined_eat (kind : TokenKind) : Confined (eat kind) := by
  intro c
  rw [eat]
  split
  · exact Nat.min_le_right _ _
  · exact Nat.zero_le _

theorem confined_expect (kind : TokenKind) : Confined (expect kind) := by
  intro c
  rw [expect]
  split
  · exact Confined.next c
  · exact Confined.fail _ c

theorem confined_identifier : Confined identifier := by
  intro c
  rw [identifier]
  split
  case isTrue hk =>
    exact List.length_pos_iff.mpr (Cursor.rest_ne_nil_of_kind (by rw [hk]; decide))
  case isFalse => exact Confined.fail _ c

/-! ### Groups and stretches -/

theorem confined_group : Confined group := by
  intro c
  rw [group]
  split
  case h_1 n hn =>
    exact isClosingLength_group.one_add_le hn
  case h_2 => exact Nat.le_refl _

theorem confined_generics : Confined generics := by
  intro c
  rw [generics]
  split
  case isTrue =>
    split
    case h_1 n hn =>
      exact isClosingLength_generics.one_add_le hn
    case h_2 => exact Nat.le_refl _
  case isFalse => exact Nat.zero_le _

theorem confined_typeText (ends : TokenKind → Bool) : Confined (typeText ends) := by
  intro c
  rw [typeText]
  split
  case h_1 => exact Nat.le_refl _
  case h_2 => exact Nat.zero_le _
  case h_3 n hn => exact typeLength_le hn

/-- A stretch takes no more than there is, if no step of it does. -/
theorem confined_stretch {stride : Cursor → Stride}
    (h : ∀ c n, stride c = .pass n → n < c.rest.length) : Confined (stretch stride) := by
  intro c
  fun_induction stretch stride c with
  | case1 => exact Nat.zero_le _
  | case2 => exact Nat.zero_le _
  | case3 c t ts hr n hs ih =>
    have hlt := h c n hs
    rw [Cursor.length_rest_skip] at ih
    rw [Outcome.taken_after]
    omega
  | case4 c t ts hr hs n hn ih =>
    have hle := groupLength?_le hn
    rw [Cursor.length_rest_skip] at ih
    rw [Outcome.taken_after]
    rw [hr, List.length_cons] at ih ⊢
    omega
  | case5 => exact Nat.le_refl _

/-- A step over the next token, or over the line ends that come next, is none past the end. -/
theorem pass_lt {n : Nat} (hk : c.kind ≠ .endOfFile) (hn : n = 0 ∨ n = c.newlines - 1) :
    n < c.rest.length := by
  have hpos := List.length_pos_iff.mpr (Cursor.rest_ne_nil_of_kind hk)
  have hle := c.newlines_le
  omega

theorem lineStride_lt {n : Nat} (h : lineStride c = .pass n) : n < c.rest.length := by
  refine pass_lt (fun hk => ?_) (.inl (lineStride_eq_pass h).1)
  rw [lineStride_endOfFile c hk] at h
  cases h

theorem signatureStride_lt {n : Nat} (h : signatureStride c = .pass n) : n < c.rest.length := by
  refine pass_lt (fun hk => ?_) ?_
  · rw [signatureStride_endOfFile c hk] at h
    cases h
  · unfold signatureStride at h
    split at h
    case h_4 =>
      split at h
      all_goals first | cases h; exact .inr rfl | cases h
    case h_5 =>
      split at h
      · cases h
      · split at h <;> cases h
        exact .inl rfl
    all_goals cases h

theorem initializerStride_lt {n : Nat} (h : c.initializerStride = .pass n) : n < c.rest.length := by
  refine pass_lt (fun hk => ?_) ?_
  · rw [initializerStride_endOfFile c hk] at h
    cases h
  · unfold Cursor.initializerStride at h
    split at h
    case h_4 =>
      split at h <;> cases h
      exact .inr rfl
    case h_5 => split at h <;> cases h
    case h_6 =>
      split at h
      · cases h
      · split at h <;> cases h
        exact .inl rfl
    all_goals cases h

theorem confined_restOfLine : Confined restOfLine := confined_stretch fun _ _ => lineStride_lt

theorem confined_initializer : Confined initializer :=
  confined_stretch fun _ _ => initializerStride_lt

theorem confined_signatureAndBody : Confined signatureAndBody := by
  refine .bind (confined_stretch fun _ _ => signatureStride_lt) fun _ => .bind .here fun c => ?_
  exact .ite (confined_group.map _) (.pure _)

/-! ### Attributes and modifiers -/

theorem confined_attributeAfter (atSign : Span) : Confined (attributeAfter atSign) := by
  have hname : Confined qualifiedName :=
    .bind confined_identifier fun _ => .bind .here fun _ => .bind (.take _) fun _ => .pure _
  have harguments : Confined attributeArguments :=
    .bind .here fun _ => .ite (.bind confined_group fun _ => .pure _) (.pure _)
  exact .inside (.bind hname fun _ => .bind harguments fun _ => .bind .here fun _ => .pure _) _

/-- What is taken before a place and behind it is no more than there is. -/
theorem add_taken_le {n m : Nat} (hn : n ≤ c.rest.length) (hm : m ≤ (c.skip n).rest.length) :
    n + m ≤ c.rest.length := by
  rw [Cursor.length_rest_skip] at hm
  omega

theorem confined_attributes : Confined attributes := by
  intro c
  fun_induction attributes c with
  | case1 => exact Nat.zero_le _
  | case2 c t ts hr =>
    rename_i hk o e ho
    exact add_taken_le (by simp [hr]) (confined_attributeAfter _ _)
  | case3 c t ts hr =>
    rename_i hk o a ho n ih
    have htaken := add_taken_le (n := 1) (by simp [hr]) (confined_attributeAfter t.span (c.skip 1))
    have hn := add_taken_le htaken (c.skip (1 + o.taken)).newlines_le
    rw [Nat.add_assoc] at hn
    exact add_taken_le hn ih
  | case4 => exact Nat.zero_le _

theorem confined_modifiers : Confined modifiers := fun _ => Nat.min_le_right _ _

/-! ### Properties -/

mutual

/-- A pattern takes no more tokens than there are. -/
theorem pattern_taken_le (c : Cursor) : (pattern c).taken ≤ c.rest.length := by
  by_cases hi : c.kind = .ident
  · rw [pattern_of_ident hi]
    exact List.length_pos_iff.mpr (Cursor.rest_ne_nil_of_kind (by rw [hi]; decide))
  by_cases hp : c.kind = .leftParen
  · have hr := List.length_pos_iff.mpr (Cursor.rest_ne_nil_of_kind (c := c) (by rw [hp]; decide))
    have hle := add_taken_le hr (elements_taken_le (c.skip 1))
    cases ho : elements (c.skip 1) with
    | mk result m =>
      rw [ho] at hle
      rw [pattern_of_leftParen hp ho]
      cases result with
      | error e => exact hle
      | ok ps => exact add_taken_le hle (confined_expect _ _)
  · rw [pattern_of_ne hi hp]
    exact Nat.zero_le _
termination_by (c.rest.length, 0)
decreasing_by
  obtain ⟨ts, hr⟩ := Cursor.exists_rest_of_kind (c := c) (by rw [hp]; decide)
  simp [hr, Prod.lex_def]

/-- Patterns between parentheses take no more tokens than there are. -/
theorem elements_taken_le (c : Cursor) : (elements c).taken ≤ c.rest.length := by
  by_cases hk : (c.skip c.newlines).kind = .rightParen
  · rw [elements_of_close hk]
    exact c.newlines_le
  have hle := add_taken_le c.newlines_le (pattern_taken_le (c.skip c.newlines))
  cases hp : pattern (c.skip c.newlines) with
  | mk result m =>
    rw [hp] at hle
    cases result with
    | error e =>
      rw [elements_of_error hk hp]
      exact hle
    | ok p =>
      have hl := add_taken_le hle (c.skip (c.newlines + m)).newlines_le
      by_cases hc : (c.skip (c.newlines + m + (c.skip (c.newlines + m)).newlines)).kind = .comma
      · have hlt := Cursor.lt_length_of_kind (c := c) (by rw [hc]; decide)
        rw [elements_of_comma hk hp rfl hc, Outcome.taken_after]
        exact add_taken_le hlt (elements_taken_le _)
      · rw [elements_of_last hk hp rfl hc]
        exact hl
termination_by (c.rest.length, 1)
decreasing_by
  all_goals
    have hle := c.newlines_le
    simp only [Cursor.length_rest_skip, Prod.lex_def]
    omega

end

theorem confined_bindingType? : Confined bindingType? :=
  .bind (confined_eat _) fun _ => .ite (.bind (.inside (confined_typeText _) _) fun _ => .pure _) (.pure _)

theorem confined_bindingValue (first : Span) (p : Pattern) (type : Option String) :
    Confined (bindingValue first p type) := by
  have hend : ∀ hasInitializer, Confined (bindingEnd first p type hasInitializer) := by
    intro hasInitializer
    refine .bind .here fun c => ?_
    dsimp only
    split
    · exact .bind (confined_group.map _) fun _ => .bind .here fun _ => .pure _
    · exact .bind .here fun _ => .pure _
  refine .bind (confined_eat _) fun hasInitializer => ?_
  split
  · exact .bind confined_initializer fun _ => hend _
  · exact hend _

theorem confined_binding : Confined binding := by
  intro c
  rw [binding_apply]
  exact Confined.bind pattern_taken_le
    (fun _ => .bind confined_bindingType? fun _ => confined_bindingValue _ _ _) c

theorem confined_furtherBindings : Confined furtherBindings := by
  intro c
  fun_induction furtherBindings c with
  | case1 => exact Nat.zero_le _
  | case2 c t ts hr =>
    rename_i hk before o e ho
    have hbefore := add_taken_le (n := 1) (by simp [hr]) (c.skip 1).newlines_le
    exact add_taken_le hbefore (confined_binding _)
  | case3 c t ts hr =>
    rename_i hk before o b ho ih
    have hbefore := add_taken_le (n := 1) (by simp [hr]) (c.skip 1).newlines_le
    exact add_taken_le (add_taken_le hbefore (confined_binding _)) ih
  | case4 => exact Nat.zero_le _

theorem confined_property : Confined property := by
  rw [property_apply]
  refine .inside (.bind .next fun _ => .bind ?_ fun _ => .pure _) _
  exact .bind confined_binding fun _ => .bind confined_furtherBindings fun _ => .pure _

/-! ### Types, functions and lines -/

theorem confined_inheritedTypes : Confined inheritedTypes := by
  intro c
  fun_induction inheritedTypes c with
  | case1 c =>
    rename_i before o e ho
    exact add_taken_le c.newlines_le (confined_typeText _ _)
  | case2 c =>
    rename_i before o type ho n hr
    exact add_taken_le (add_taken_le c.newlines_le (confined_typeText _ _)) (Cursor.newlines_le _)
  | case3 c =>
    rename_i before o type ho n t ts hr hk ih
    have hlt : n + 1 ≤ c.rest.length := by
      have hlength := congrArg List.length hr
      rw [Cursor.length_rest_skip, List.length_cons] at hlength
      omega
    rw [Outcome.taken_after]
    exact add_taken_le hlt ih
  | case4 c =>
    rename_i before o type ho n t ts hr hk
    exact add_taken_le (add_taken_le c.newlines_le (confined_typeText _ _)) (Cursor.newlines_le _)

theorem confined_typeHeader (kind : DeclarationKind) : Confined (typeHeader kind) := by
  rw [typeHeader_apply]
  have hname : Confined (headerName kind) := by
    cases kind with
    | «extension» => exact confined_typeText _
    | _ => exact confined_identifier.map _
  have hinheritance : Confined inheritance :=
    .bind (confined_eat _) fun _ => .ite (.inside confined_inheritedTypes _) (.pure _)
  have hrequirements : Confined requirements :=
    .bind (confined_eat _) fun _ => .ite ((confined_typeText _).map _) (.pure _)
  refine .inside (.bind .next fun _ => .bind hname fun name => ?_) _
  refine .bind confined_generics fun _ => .bind hinheritance fun inherited => ?_
  exact .bind hrequirements fun _ => .bind .skipNewlines fun _ => .pure _

theorem confined_function (kind : DeclarationKind) : Confined (function kind) := by
  intro c
  rw [function_apply]
  have hname : Confined (nameAfter c.currentText kind) := by
    cases kind with
    | function =>
      refine .bind .here fun c => .ite (confined_identifier.bind fun _ => .pure _) ?_
      split
      · exact .fail _
      · exact .bind (.take _) fun _ => .pure _
    | _ => exact .pure _
  have hend : ∀ name, Confined (functionEnd kind name) := fun name =>
    .bind confined_generics fun _ => .bind confined_signatureAndBody fun _ => .pure _
  have hmark : ∀ name, Confined (functionMark kind name) := by
    intro name
    cases kind with
    | initializer => exact .bind .here fun c => .ite (.bind (.take _) fun _ => hend _) (hend _)
    | _ => exact hend name
  exact Confined.inside (.bind .next fun _ => .bind hname hmark) _ c

theorem confined_line (kind : DeclarationKind) : Confined (line kind) := by
  rw [line_apply]
  have hname : Confined identifier? :=
    .bind .here fun c => .ite ((confined_identifier.map _).map _) (.pure _)
  exact .bind .next fun _ => .bind hname fun _ => .bind confined_restOfLine fun _ => .pure _

/-! ### Heads -/

/-- **The head of a declaration takes no more tokens than there are.** -/
theorem confined_head : Confined head := by
  intro c
  rw [head_apply]
  refine Confined.bind confined_attributes (fun as => .bind confined_modifiers fun ms => ?_) c
  refine .bind .here fun c => ?_
  dsimp only
  split
  case h_1 => exact .bind (confined_typeHeader _) fun _ => .pure _
  case h_2 => exact .bind (confined_function _) fun _ => .bind .here fun _ => .pure _
  case h_3 => exact .bind (confined_line _) fun _ => .bind .here fun _ => .pure _
  case h_4 => exact .bind confined_property fun _ => .bind .here fun _ => .pure _
  case h_5 =>
    exact .ite (.ite (.bind confined_restOfLine fun _ => .pure _) (.fail _)) (.fail _)

end Parser

/-! ## Rounds -/

section Rounds

variable {inBlock : Bool} {c : Cursor}

theorem recoveryLength_le (depth : Nat) (ts : List Token) : recoveryLength depth ts ≤ ts.length := by
  fun_induction recoveryLength depth ts with
  | case1 => exact Nat.le_refl _
  | case2 => exact Nat.zero_le _
  | case3 _ _ _ _ _ ih => exact Nat.succ_le_succ ih
  | case4 _ _ _ _ _ _ ih => exact Nat.succ_le_succ ih
  | case5 _ _ _ _ _ _ ih => exact Nat.succ_le_succ ih

/-- A round takes no more tokens than there are, if no block inside it does. -/
theorem attempt_taken_le (hblock : ∀ n, 0 < n →
      (declarations true (c.skip n)).taken ≤ (c.skip n).rest.length) :
    (attempt inBlock c).taken ≤ c.rest.length := by
  have hfailed : ∀ {n : Nat}, n ≤ c.rest.length →
      n + recoveryLength 0 (c.skip n).rest ≤ c.rest.length :=
    fun hn => Parser.add_taken_le hn (recoveryLength_le 0 _)
  rw [attempt]
  split
  case isTrue hk =>
    exact List.length_pos_iff.mpr (Cursor.rest_ne_nil_of_kind (by rw [hk]; decide))
  case isFalse =>
    have hhead := Parser.confined_head c
    dsimp only
    split
    case h_1 => exact hfailed hhead
    case h_2 => exact hhead
    case h_3 => exact hhead
    case h_4 =>
      split
      case isFalse => exact hfailed hhead
      case isTrue hopen =>
        have hinner := Parser.add_taken_le (Cursor.lt_length_of_kind (by rw [hopen]; decide))
          (hblock _ (Nat.succ_pos _))
        split
        case isTrue hclose => exact Cursor.lt_length_of_kind (by rw [hclose]; decide)
        case isFalse => exact hfailed hinner

theorem finding_taken_le (inBlock : Bool) (hr : c.rest ≠ []) (hblock : ∀ n, 0 < n →
      (declarations true (c.skip n)).taken ≤ (c.skip n).rest.length) :
    (finding inBlock c).taken ≤ c.rest.length := by
  rw [finding_eq_attempt]
  exact Nat.max_le.mpr ⟨List.length_pos_iff.mpr hr, attempt_taken_le hblock⟩

/-- **Reading declarations takes no more tokens than there are.** -/
theorem declarations_taken_le (inBlock : Bool) (c : Cursor) :
    (declarations inBlock c).taken ≤ c.rest.length := by
  -- The blocks inside the next round begin further on, and so does what is read behind it.
  induction hl : c.rest.length using Nat.strongRecOn generalizing inBlock c with
  | ind l ih =>
    subst hl
    by_cases hends : (c.skip c.separators).Ends inBlock
    · rw [declarations_of_ends hends]
      exact c.separators_le
    · have hr : (c.skip c.separators).rest ≠ [] := fun h => hends (.inl h)
      have hpos := List.length_pos_iff.mpr hr
      rw [Cursor.length_rest_skip] at hpos
      have hround := Parser.add_taken_le c.separators_le (finding_taken_le inBlock hr fun n hn => by
        rw [Cursor.skip_skip]
        exact ih _ (by rw [Cursor.length_rest_skip]; omega) true _ rfl)
      have hround_pos := finding_taken_pos inBlock (c.skip c.separators)
      rw [declarations_of_not_ends hends]
      exact Parser.add_taken_le hround
        (ih _ (by rw [Cursor.length_rest_skip]; omega) inBlock _ rfl)

end Rounds

/-! ## Progress -/

namespace Parser

/-- A loop stops with what a parser answers, where the parser ends, which is not past the end. -/
structure Stops {α σ : Type} (turn : σ → Turn σ (Except ParseError α × Cursor))
    (cursor : σ → Cursor) (s : σ) (p : Parser α) (c : Cursor) : Prop where
  runsTo : RunsTo turn cursor s ((p c).result, c.skip (p c).taken)
  taken_le : (p c).taken ≤ c.rest.length

end Parser

/-- From a place, every loop of reading stops, every round goes forward, and declarations are read to
the end. -/
structure Cursor.Progresses (c : Cursor) : Prop where
  newlines : RunsTo (passTurn (· == .newline)) id c (c.skip c.newlines)
  separators : RunsTo (passTurn fun k => k == .newline || k == .semicolon) id c (c.skip c.separators)
  group : Parser.Stops
    (Parser.closingTurn TokenKind.isOpen TokenKind.isClose (fun s => (c.span, s)) c.current) (·.2)
    (0, c.advance) Parser.group c
  generics (hk : c.kind = .less) : Parser.Stops
    (Parser.closingTurn (· == .less) (· == .greater) (fun _ => ()) c.current) (·.2)
    (0, c.advance) Parser.generics c
  typeText (ends : TokenKind → Bool) : Parser.Stops (Parser.typeTurn ends c.span) (·.cursor)
    ⟨[], none, c⟩ (Parser.typeText ends) c
  initializer : Parser.Stops (Parser.stretchTurn Cursor.initializerStride) id c Parser.initializer c
  signatureAndBody : Parser.Stops Parser.signatureTurn id c Parser.signatureAndBody c
  restOfLine : Parser.Stops (Parser.stretchTurn lineStride) id c Parser.restOfLine c
  attributes : Parser.Stops Parser.attributesTurn (·.2) ([], c) Parser.attributes c
  modifiers : RunsTo Parser.modifiersTurn (·.2) ([], c) (c.modifiers.1, c.skip c.modifiers.2)
  modifiers_le : c.modifiers.2 ≤ c.rest.length
  head_le : (Parser.head c).taken ≤ c.rest.length
  recovery : RunsTo recoveryTurn (·.2) (0, c) (c.skip (recoveryLength 0 c.rest))
  recovery_le : recoveryLength 0 c.rest ≤ c.rest.length
  /-- A round takes what it takes by itself, or one token if that is none. -/
  round (inBlock : Bool) : (finding inBlock c).taken = max 1 (attempt inBlock c).taken
  round_le (inBlock : Bool) (h : ¬c.Ends inBlock) : (finding inBlock c).taken ≤ c.rest.length
  rounds (inBlock : Bool) : RunsTo (roundTurn inBlock) (·.cursor) ⟨[], [], c⟩
    ⟨(declarations inBlock c).declarations, (declarations inBlock c).errors,
      c.skip (declarations inBlock c).taken⟩
  rounds_le (inBlock : Bool) : (declarations inBlock c).taken ≤ c.rest.length
  /-- A block ends before its closing brace or at the end of the text, and a file at the end. -/
  ends (inBlock : Bool) : (c.skip (declarations inBlock c).taken).Ends inBlock

/-- **Reading goes forward from every place before the end.** -/
theorem Cursor.NoEnd.progresses {c : Cursor} (hc : c.NoEnd) : c.Progresses where
  newlines := runsTo_pass rfl hc
  separators := runsTo_pass rfl hc
  group := ⟨Parser.runsTo_group hc, Parser.confined_group c⟩
  generics hk := ⟨Parser.runsTo_generics hc hk, Parser.confined_generics c⟩
  typeText ends := ⟨Parser.runsTo_typeText ends hc, Parser.confined_typeText ends c⟩
  initializer :=
    ⟨Parser.runsTo_stretch Parser.initializerStride_endOfFile hc, Parser.confined_initializer c⟩
  signatureAndBody := ⟨Parser.runsTo_signatureAndBody hc, Parser.confined_signatureAndBody c⟩
  restOfLine := ⟨Parser.runsTo_stretch Parser.lineStride_endOfFile hc, Parser.confined_restOfLine c⟩
  attributes := ⟨Parser.runsTo_attributes hc, Parser.confined_attributes c⟩
  modifiers := Parser.runsTo_modifiers hc
  modifiers_le := Parser.modifiers_le c
  head_le := Parser.confined_head c
  recovery := runsTo_recovery hc
  recovery_le := recoveryLength_le 0 c.rest
  round inBlock := congrArg Finding.taken (finding_eq_attempt inBlock c)
  round_le inBlock h :=
    finding_taken_le inBlock (fun hr => h (.inl hr)) fun _ _ => declarations_taken_le true _
  rounds inBlock := runsTo_declarations inBlock hc
  rounds_le inBlock := declarations_taken_le inBlock c
  ends inBlock := ends_declarations inBlock c

/-- **Reading goes forward in every round and to the end.**  From every place among the tokens of a
file, none of which is an end, all loops stop; and the declarations of the file are read with all
tokens passed. -/
theorem SourceFile.progress (source : List Char) (tokens : TokenList)
    (h : ∀ t ∈ tokens.tokens, t.kind ≠ .endOfFile) :
    (∀ n, ((Cursor.start source tokens).skip n).Progresses)
      ∧ ∃ final : Cursor,
        RunsTo (roundTurn false) (·.cursor) ⟨[], [], Cursor.start source tokens⟩
          ⟨(SourceFile.ofTokens source tokens).declarations,
            (SourceFile.ofTokens source tokens).errors, final⟩
        ∧ final.kind = .endOfFile ∧ final.position = tokens.tokens.length := by
  have hstart : (Cursor.start source tokens).NoEnd := h
  have hprogress := hstart.progresses
  refine ⟨fun n => (hstart.skip n).progresses, _, hprogress.rounds false, ?_, ?_⟩
  · exact Cursor.kind_of_rest_eq_nil (rest_skip_declarations _)
  · have hnil := congrArg List.length (rest_skip_declarations (Cursor.start source tokens))
    have hle := hprogress.rounds_le false
    rw [Cursor.length_rest_skip, List.length_nil] at hnil
    rw [Cursor.position_skip]
    change 0 + _ = (Cursor.start source tokens).rest.length
    omega

/-- A closing parenthesis is passed, though neither reading nor recovery takes it. -/
theorem SourceFile.progress_closer :
    (∀ t ∈ [(⟨.rightParen, ⟨0, 1⟩⟩ : Token)], t.kind ≠ .endOfFile)
      ∧ (attempt false (Cursor.start [')'] ⟨[⟨.rightParen, ⟨0, 1⟩⟩], 1⟩)).taken = 0
      ∧ ∃ final : Cursor,
        RunsTo (roundTurn false) (·.cursor)
          ⟨[], [], Cursor.start [')'] ⟨[⟨.rightParen, ⟨0, 1⟩⟩], 1⟩⟩
          ⟨[], [⟨.expectedDeclaration .rightParen, ⟨0, 1⟩, some .sourceFile⟩], final⟩
        ∧ final.kind = .endOfFile ∧ final.position = 1 := by
  have hkind : ∀ t ∈ [(⟨.rightParen, ⟨0, 1⟩⟩ : Token)], t.kind ≠ .endOfFile := by decide
  have hdeclarations : (SourceFile.ofTokens [')'] ⟨[⟨.rightParen, ⟨0, 1⟩⟩], 1⟩).declarations
      = [] := by decide +kernel
  have herrors : (SourceFile.ofTokens [')'] ⟨[⟨.rightParen, ⟨0, 1⟩⟩], 1⟩).errors
      = [⟨.expectedDeclaration .rightParen, ⟨0, 1⟩, some .sourceFile⟩] := by decide +kernel
  have hprogress := (SourceFile.progress [')'] ⟨[⟨.rightParen, ⟨0, 1⟩⟩], 1⟩ hkind).2
  rw [hdeclarations, herrors] at hprogress
  exact ⟨hkind, by decide +kernel, hprogress⟩

end Memberwise
