import Memberwise.Proofs.Declaration.Heads

/-!
# Proofs/Declaration/Findings — declarations round by round

A round of reading declarations begins after the separators and finds a declaration, errors, or
neither, in the tokens it takes (`finding`); a block inside it is read in rounds of its own.

* `declarations_of_not_ends` — **declarations are read in rounds**;
* `declarations_alike` — **reading declarations looks no further than to the first token after them
  that ends no line**.
-/

namespace Memberwise

open Text

/-- What a round of reading declarations finds, and how many tokens it takes. -/
structure Finding where
  declaration : Option Declaration
  errors : List ParseError
  taken : Nat

instance : Spanned Finding where
  mapSpans f r := ⟨mapSpans f r.declaration, mapSpans f r.errors, r.taken⟩
  mapSpans_id r := by simp
  mapSpans_mapSpans f g r := by simp

namespace Finding

/-- A type with its block, which ends at a span. -/
def closed (d : Declaration) (members : List Declaration) (s : Span) : Declaration :=
  { d with members := some members, span := d.span.merge s }

/-- A round that fails `n` tokens further on goes on after the end of the line. -/
def recovered (inBlock : Bool) (c : Cursor) (errors : List ParseError) (e : ParseError) (n : Nat) :
    Finding :=
  ⟨none, errors ++ [e.within (levelConstruct inBlock)],
    max 1 (n + recoveryLength 0 (c.skip n).rest)⟩

/-- A type, after `n` tokens of header, with a block that would be this one. -/
def ofBlock (inBlock : Bool) (c : Cursor) (d : Declaration) (n : Nat) (block : Parsed) : Finding :=
  if (c.skip n).kind = .leftBrace then
    let m := n + 1 + block.taken
    if (c.skip m).kind = .rightBrace then
      ⟨some (closed d block.declarations (c.skip m).span), block.errors, m + 1⟩
    else
      recovered inBlock c block.errors
        ⟨.unclosedBlock (c.skip n).span, (c.skip m).span, some .memberBlock⟩ m
  else recovered inBlock c [] (declarations.expectedBlock (c.skip n)) n

section OfBlock

variable {inBlock : Bool} {c : Cursor} {d : Declaration} {n : Nat} {b : Parsed}

theorem ofBlock_of_ne (hk : (c.skip n).kind ≠ .leftBrace) : ofBlock inBlock c d n b
    = recovered inBlock c [] (declarations.expectedBlock (c.skip n)) n := by
  rw [ofBlock, if_neg hk]

theorem ofBlock_of_closed (hk : (c.skip n).kind = .leftBrace)
    (hc : (c.skip (n + 1 + b.taken)).kind = .rightBrace) : ofBlock inBlock c d n b
      = ⟨some (closed d b.declarations (c.skip (n + 1 + b.taken)).span), b.errors,
          n + 1 + b.taken + 1⟩ := by
  rw [ofBlock, if_pos hk]
  dsimp only
  rw [if_pos hc]

theorem ofBlock_of_unclosed (hk : (c.skip n).kind = .leftBrace)
    (hc : (c.skip (n + 1 + b.taken)).kind ≠ .rightBrace) : ofBlock inBlock c d n b
      = recovered inBlock c b.errors
          ⟨.unclosedBlock (c.skip n).span, (c.skip (n + 1 + b.taken)).span, some .memberBlock⟩
          (n + 1 + b.taken) := by
  rw [ofBlock, if_pos hk]
  dsimp only
  rw [if_neg hc]

end OfBlock

theorem mapSpans_closed (n : Nat) (d : Declaration) (members : List Declaration) (s : Span) :
    mapSpans (.move n) (closed d members s)
      = closed (mapSpans (.move n) d) (mapSpans (.move n) members) (s.move n) := by
  cases d with
  | mk kind name as ms inherited block span =>
    change (⟨_, _, _, _, _, some (Declaration.mapSpansAll _ members), (span.merge s).move n⟩
      : Declaration) = ⟨_, _, _, _, _, some (members.map _), (span.move n).merge (s.move n)⟩
    rw [Declaration.mapSpansAll_eq_map, Span.move_merge]
    rfl

end Finding

/-- Whether no further round begins at the cursor. -/
def Cursor.Ends (inBlock : Bool) (c : Cursor) : Prop :=
  c.rest = [] ∨ inBlock = true ∧ c.kind = .rightBrace

/-- The round that begins at the next token. -/
def finding (inBlock : Bool) (c : Cursor) : Finding :=
  if c.kind = .rightBrace then ⟨none, [⟨.strayBrace, c.span, some .sourceFile⟩], 1⟩
  else
    let o := Parser.head c
    match o.result with
    | .error e => .recovered inBlock c [] e o.taken
    | .ok .directive => ⟨none, [], max 1 o.taken⟩
    | .ok (.complete d) => ⟨some d, [], max 1 o.taken⟩
    | .ok (.type d) => .ofBlock inBlock c d o.taken (declarations true (c.skip (o.taken + 1)))

section Finding

variable {inBlock : Bool} {c : Cursor} {m : Nat}

theorem finding_of_brace (hk : c.kind = .rightBrace) :
    finding inBlock c = ⟨none, [⟨.strayBrace, c.span, some .sourceFile⟩], 1⟩ := by
  rw [finding, if_pos hk]

theorem finding_of_error {e : ParseError} (hk : c.kind ≠ .rightBrace)
    (ho : Parser.head c = ⟨.error e, m⟩) : finding inBlock c = .recovered inBlock c [] e m := by
  rw [finding, if_neg hk, ho]

theorem finding_of_directive (hk : c.kind ≠ .rightBrace)
    (ho : Parser.head c = ⟨.ok .directive, m⟩) : finding inBlock c = ⟨none, [], max 1 m⟩ := by
  rw [finding, if_neg hk, ho]

theorem finding_of_complete {a : Declaration} (hk : c.kind ≠ .rightBrace)
    (ho : Parser.head c = ⟨.ok (.complete a), m⟩) :
    finding inBlock c = ⟨some a, [], max 1 m⟩ := by
  rw [finding, if_neg hk, ho]

theorem finding_of_type {a : Declaration} (hk : c.kind ≠ .rightBrace)
    (ho : Parser.head c = ⟨.ok (.type a), m⟩) : finding inBlock c
      = .ofBlock inBlock c a m (declarations true (c.skip (m + 1))) := by
  rw [finding, if_neg hk, ho]

end Finding

theorem declarations_of_ends {inBlock : Bool} {c : Cursor}
    (h : (c.skip c.separators).Ends inBlock) : declarations inBlock c = .nothing c.separators := by
  rw [declarations.eq_def]
  dsimp only
  split
  case h_1 => rfl
  case h_2 t ts hr =>
    obtain ⟨rfl, hk⟩ := h.resolve_left (by rw [hr]; simp)
    rw [Cursor.kind, Cursor.current_of_rest hr] at hk
    rw [if_pos hk, if_pos rfl]

/-- **Declarations are read in rounds.** -/
theorem declarations_of_not_ends {inBlock : Bool} {c : Cursor}
    (h : ¬(c.skip c.separators).Ends inBlock) : declarations inBlock c
      = (declarations inBlock (c.skip (c.separators + (finding inBlock (c.skip c.separators)).taken))).preceded
          (finding inBlock (c.skip c.separators)).declaration
          (finding inBlock (c.skip c.separators)).errors
          (c.separators + (finding inBlock (c.skip c.separators)).taken) := by
  rw [declarations.eq_def]
  dsimp only
  split
  case h_1 hr => exact absurd (.inl hr) h
  case h_2 t ts hr =>
    have hkind : (c.skip c.separators).kind = t.kind := by
      rw [Cursor.kind, Cursor.current_of_rest hr]
    have hspan : (c.skip c.separators).span = t.span := by
      rw [Cursor.span, Cursor.current_of_rest hr]
    rw [finding, hkind, hspan]
    split
    case isTrue hk =>
      have hb : ¬inBlock = true := fun hb => h (.inr ⟨hb, hkind.trans hk⟩)
      rw [if_neg hb]
    case isFalse hk =>
      dsimp only
      generalize Parser.head (c.skip c.separators) = o
      obtain ⟨result, n⟩ := o
      cases result with
      | error e => rfl
      | ok r =>
        cases r with
        | directive => rfl
        | complete d => rfl
        | type d =>
          dsimp only
          split
          case h_1 hn =>
            rw [Finding.ofBlock_of_ne (by rw [Cursor.kind_of_rest_eq_nil hn]; decide)]
            rfl
          case h_2 opened us hopened =>
            have hleft : ((c.skip c.separators).skip n).kind = opened.kind := by
              rw [Cursor.kind, Cursor.current_of_rest hopened]
            have hat : ((c.skip c.separators).skip n).span = opened.span := by
              rw [Cursor.span, Cursor.current_of_rest hopened]
            split
            case isFalse hb =>
              rw [Finding.ofBlock_of_ne (by rwa [hleft])]
              rfl
            case isTrue hb =>
              rw [hb] at hleft
              split
              case isFalse hc =>
                rw [Finding.ofBlock_of_unclosed hleft hc, hat]
                rfl
              case isTrue hc =>
                rw [Finding.ofBlock_of_closed hleft hc, Nat.max_eq_right (Nat.le_add_left 1 _)]
                rfl

section

variable {n hi k : Nat} {c d : Cursor} {inBlock : Bool}

theorem Alike.ends (h : Alike n hi k c d) (hk : 0 < k) : d.Ends inBlock ↔ c.Ends inBlock := by
  rw [Cursor.Ends, Cursor.Ends, h.kind hk, h.rest_eq_nil_iff hk]

/-- A round that fails takes what recovery takes. -/
theorem le_taken_recovered (inBlock : Bool) (c : Cursor) (errors : List ParseError) (e : ParseError) (m : Nat) :
    m + recoveryLength 0 (c.skip m).rest ≤ (Finding.recovered inBlock c errors e m).taken :=
  Nat.le_max_right 1 _

theorem recovered_alike (h : Alike n hi k c d) (errors : List ParseError) {e e' : ParseError}
    (m : Nat) (he : e' = mapSpans (.move n) e)
    (hs : Shows k (Finding.recovered inBlock c errors e m).taken c.rest) :
    Finding.recovered inBlock d (mapSpans (.move n) errors) e' m
      = mapSpans (.move n) (Finding.recovered inBlock c errors e m) := by
  have hle := le_taken_recovered inBlock c errors e m
  have hlt := hs.lt
  have hrecovery : recoveryLength 0 (d.skip m).rest = recoveryLength 0 (c.skip m).rest :=
    (h.skip (by omega)).known.recoveryLength (by omega)
  rw [he, Finding.recovered, Finding.recovered, hrecovery]
  change (⟨none, _, _⟩ : Finding) = ⟨none, List.map _ _, _⟩
  rw [List.map_append]
  rfl

theorem ofBlock_alike (h : Alike n hi k c d) (a : Declaration) (m : Nat) (block : Parsed)
    (hs : Shows k (Finding.ofBlock inBlock c a m block).taken c.rest) :
    Finding.ofBlock inBlock d (mapSpans (.move n) a) m (mapSpans (.move n) block)
      = mapSpans (.move n) (Finding.ofBlock inBlock c a m block) := by
  by_cases hk : (c.skip m).kind = .leftBrace
  case neg =>
    rw [Finding.ofBlock_of_ne hk] at hs ⊢
    have hle := le_taken_recovered inBlock c [] (declarations.expectedBlock (c.skip m)) m
    have hlt := hs.lt
    have h' := h.skip (m := m) (by omega)
    rw [Finding.ofBlock_of_ne (by rwa [h'.kind (by omega)])]
    refine recovered_alike h [] m ?_ hs
    rw [declarations.expectedBlock, h'.kind (by omega), h'.span (by omega)]
    rfl
  case pos =>
    by_cases hc : (c.skip (m + 1 + block.taken)).kind = .rightBrace
    case pos =>
      rw [Finding.ofBlock_of_closed hk hc] at hs ⊢
      have hlt : m + 1 + block.taken + 1 < k := hs.lt
      have h' := h.skip (m := m + 1 + block.taken) (by omega)
      rw [Finding.ofBlock_of_closed (b := mapSpans (.move n) block)
        (by rwa [(h.skip (by omega)).kind (by omega)])
        ((h'.kind (by omega)).trans hc)]
      change (⟨some (Finding.closed _ _ _), _, _⟩ : Finding)
        = ⟨some (mapSpans _ (Finding.closed _ _ _)), _, _⟩
      rw [Finding.mapSpans_closed, ← h'.span (by omega)]
      rfl
    case neg =>
      rw [Finding.ofBlock_of_unclosed hk hc] at hs ⊢
      have hle := le_taken_recovered inBlock c block.errors
        ⟨.unclosedBlock (c.skip m).span, (c.skip (m + 1 + block.taken)).span, some .memberBlock⟩
        (m + 1 + block.taken)
      have hlt := hs.lt
      have h' := h.skip (m := m + 1 + block.taken) (by omega)
      rw [Finding.ofBlock_of_unclosed (b := mapSpans (.move n) block)
        (by rwa [(h.skip (by omega)).kind (by omega)])
        (by
          change (d.skip (m + 1 + block.taken)).kind ≠ _
          rwa [h'.kind (by omega)])]
      refine recovered_alike h block.errors (m + 1 + block.taken) ?_ hs
      change (⟨.unclosedBlock (d.skip m).span, (d.skip (m + 1 + block.taken)).span,
        some .memberBlock⟩ : ParseError) = _
      rw [(h.skip (by omega)).span (by omega), h'.span (by omega)]
      rfl

theorem le_taken_ofBlock (inBlock : Bool) (c : Cursor) (a : Declaration) (m : Nat)
    (block : Parsed) : m ≤ (Finding.ofBlock inBlock c a m block).taken := by
  by_cases hk : (c.skip m).kind = .leftBrace
  case neg =>
    rw [Finding.ofBlock_of_ne hk]
    exact Nat.le_trans (Nat.le_add_right _ _) (le_taken_recovered inBlock c [] _ m)
  case pos =>
    by_cases hc : (c.skip (m + 1 + block.taken)).kind = .rightBrace
    case pos =>
      rw [Finding.ofBlock_of_closed hk hc]
      dsimp only
      omega
    case neg =>
      rw [Finding.ofBlock_of_unclosed hk hc]
      exact Nat.le_trans (by omega) (le_taken_recovered inBlock c block.errors _ _)

/-- A type takes its block. -/
theorem le_taken_ofBlock_of_brace (inBlock : Bool) {c : Cursor} (a : Declaration) {m : Nat}
    (block : Parsed) (hk : (c.skip m).kind = .leftBrace) :
    m + 1 + block.taken ≤ (Finding.ofBlock inBlock c a m block).taken := by
  by_cases hc : (c.skip (m + 1 + block.taken)).kind = .rightBrace
  case pos =>
    rw [Finding.ofBlock_of_closed hk hc]
    exact Nat.le_succ _
  case neg =>
    rw [Finding.ofBlock_of_unclosed hk hc]
    exact Nat.le_trans (Nat.le_add_right _ _) (le_taken_recovered inBlock c block.errors _ _)

theorem finding_alike (h : Alike n hi k c d) (hs : Shows k (finding inBlock c).taken c.rest)
    (ih : ∀ {k' m : Nat}, 0 < m → Alike n hi k' (c.skip m) (d.skip m) →
      Shows k' (declarations true (c.skip m)).taken (c.skip m).rest →
      declarations true (d.skip m) = mapSpans (.move n) (declarations true (c.skip m))) :
    finding inBlock d = mapSpans (.move n) (finding inBlock c) := by
  by_cases hk : c.kind = .rightBrace
  case pos =>
    rw [finding_of_brace hk] at hs ⊢
    rw [finding_of_brace (by rwa [h.kind hs.pos]), h.span hs.pos]
    rfl
  have hk' : d.kind ≠ .rightBrace := by rwa [h.kind hs.pos]
  have hd : Shows k (Parser.headReach (Parser.head c) c) c.rest →
      Parser.head d = mapSpans (.move n) (Parser.head c) := Parser.head_alike h
  cases ho : Parser.head c with
  | mk result m =>
    rw [ho] at hd
    cases result with
    | error e =>
      rw [finding_of_error hk ho] at hs ⊢
      rw [finding_of_error hk' (hd (hs.of_le (le_taken_recovered inBlock c [] e m)))]
      exact recovered_alike h [] m rfl hs
    | ok r =>
      cases r with
      | directive =>
        rw [finding_of_directive hk ho] at hs ⊢
        rw [finding_of_directive hk' (hd (hs.of_le (Nat.le_max_right 1 m)))]
        rfl
      | complete a =>
        rw [finding_of_complete hk ho] at hs ⊢
        rw [finding_of_complete hk' (hd (hs.of_le (Nat.le_max_right 1 m)))]
        rfl
      | type a =>
        rw [finding_of_type hk ho] at hs ⊢
        have hm := hs.of_le (le_taken_ofBlock inBlock c a m _)
        have hlt := hm.lt
        rw [finding_of_type hk' (hd hm), ← ofBlock_alike h a m _ hs]
        by_cases hb : (c.skip m).kind = .leftBrace
        case pos =>
          have hs' := hs.of_le (le_taken_ofBlock_of_brace inBlock a _ hb)
          have hlt' := hs'.lt
          rw [ih (Nat.succ_pos m) (h.skip (by omega)) hs'.drop]
        case neg =>
          have hb' : (d.skip m).kind ≠ .leftBrace := by
            rwa [(h.skip (by omega)).kind (by omega)]
          rw [Finding.ofBlock_of_ne hb', Finding.ofBlock_of_ne hb']

theorem finding_taken_pos (inBlock : Bool) (c : Cursor) : 0 < (finding inBlock c).taken := by
  have hrecovered : ∀ errors e m, 0 < (Finding.recovered inBlock c errors e m).taken :=
    fun _ _ _ => Nat.le_max_left 1 _
  by_cases hk : c.kind = .rightBrace
  case pos =>
    rw [finding_of_brace hk]
    exact Nat.zero_lt_one
  cases ho : Parser.head c with
  | mk result m =>
    cases result with
    | error e =>
      rw [finding_of_error hk ho]
      exact hrecovered _ _ _
    | ok r =>
      cases r with
      | directive =>
        rw [finding_of_directive hk ho]
        exact Nat.le_max_left 1 _
      | complete a =>
        rw [finding_of_complete hk ho]
        exact Nat.le_max_left 1 _
      | type a =>
        rw [finding_of_type hk ho, Finding.ofBlock]
        split
        · dsimp only
          split
          · exact Nat.succ_pos _
          · exact hrecovered _ _ _
        · exact hrecovered _ _ _

theorem mapSpans_preceded (f : Span → Span) (declaration : Option Declaration)
    (errors : List ParseError) (m : Nat) (later : Parsed) :
    mapSpans f (later.preceded declaration errors m)
      = (mapSpans f later).preceded (mapSpans f declaration) (mapSpans f errors) m := by
  change (⟨List.map _ (_ ++ _), List.map _ (_ ++ _), _⟩ : Parsed)
    = ⟨_ ++ List.map _ _, List.map _ _ ++ List.map _ _, _⟩
  rw [List.map_append, List.map_append]
  cases declaration <;> rfl

/-- **Reading declarations looks no further** than to the first token after them that ends no line. -/
theorem declarations_alike (h : Alike n hi k c d)
    (hs : Shows k (declarations inBlock c).taken c.rest) :
    declarations inBlock d = mapSpans (.move n) (declarations inBlock c) := by
  induction hlen : c.rest.length using Nat.strongRecOn generalizing inBlock k c d with
  | ind len ih =>
    subst hlen
    by_cases he : (c.skip c.separators).Ends inBlock
    case pos =>
      rw [declarations_of_ends he] at hs ⊢
      have hlt : c.separators < k := hs.lt
      have hsep := h.separators hlt
      rw [declarations_of_ends (by rwa [hsep, (h.skip (by omega)).ends (by omega)]), hsep]
      rfl
    case neg =>
      have hr : c.separators < c.rest.length := by
        refine Nat.lt_of_not_le fun hle => he (.inl (List.drop_of_length_le hle))
      rw [declarations_of_not_ends he] at hs ⊢
      have hlt := hs.lt
      have hpos := finding_taken_pos inBlock (c.skip c.separators)
      change c.separators + (finding inBlock (c.skip c.separators)).taken + _ < k at hlt
      have hsep := h.separators (by omega)
      have h' := h.skip (m := c.separators) (by omega)
      have hf : finding inBlock (d.skip c.separators)
          = mapSpans (.move n) (finding inBlock (c.skip c.separators)) := by
        refine finding_alike h' (hs.of_le (Nat.le_add_right _ _)).drop fun hm h'' hs'' => ?_
        exact ih _ (by rw [Cursor.length_rest_skip, Cursor.length_rest_skip]; omega) h'' hs'' rfl
      rw [declarations_of_not_ends (by rwa [hsep, h'.ends (by omega)]), hsep, hf]
      have hlater := ih _ (by rw [Cursor.length_rest_skip]; omega)
        (h.skip (m := c.separators + (finding inBlock (c.skip c.separators)).taken) (by omega))
        hs.drop rfl
      have hlater' : declarations inBlock (d.skip (c.separators
            + (mapSpans (.move n) (finding inBlock (c.skip c.separators))).taken))
          = _ := hlater
      rw [hlater']
      exact (mapSpans_preceded _ _ _ _ _).symm

end

end Memberwise
