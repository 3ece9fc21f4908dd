import Memberwise.Proofs.Declaration.Locality

/-!
# Proofs/Declaration/Heads — a head looks no further than it has to

Each form of a declaration is split into its steps (`function_apply`, `line_apply`,
`typeHeader_apply`), and each step is read alike at cursors that agree.  What a head looks at to see
that no modifier and no form of declaration comes next is more than one token; but where none comes,
that is an error, and recovery takes these tokens anyway.  So `headReach`, what a head takes together
with the recovery from its error, bounds all that it looks at:

* `head_alike` — **a head is read alike** where what it looks at is.
-/

namespace Memberwise

open Text

namespace Parser

variable {n hi k m : Nat} {c d : Cursor}

/-! ## Names and inherited types -/

section InheritedTypes

variable {type : String} {l : Nat}

theorem inheritedTypes_of_error {e : ParseError}
    (ht : typeText endsInherited (c.skip c.newlines) = ⟨.error e, m⟩) :
    inheritedTypes c = ⟨.error e, c.newlines + m⟩ := by
  rw [inheritedTypes.eq_def]
  dsimp only
  rw [ht]

theorem inheritedTypes_of_last (ht : typeText endsInherited (c.skip c.newlines) = ⟨.ok type, m⟩)
    (hl : c.newlines + m + (c.skip (c.newlines + m)).newlines = l)
    (hc : (c.skip l).kind ≠ .comma) : inheritedTypes c = ⟨.ok [type], l⟩ := by
  rw [inheritedTypes.eq_def]
  dsimp only
  rw [ht]
  dsimp only
  rw [hl]
  cases hr : (c.skip l).rest with
  | nil => rfl
  | cons t ts =>
    rw [Cursor.kind, Cursor.current_of_rest hr] at hc
    dsimp only
    rw [if_neg hc]

theorem inheritedTypes_of_comma (ht : typeText endsInherited (c.skip c.newlines) = ⟨.ok type, m⟩)
    (hl : c.newlines + m + (c.skip (c.newlines + m)).newlines = l) (hc : (c.skip l).kind = .comma) :
    inheritedTypes c = ((inheritedTypes (c.skip (l + 1))).map (type :: ·)).after (l + 1) := by
  obtain ⟨ts, hr⟩ := Cursor.exists_rest_of_kind (c := c.skip l) (by rw [hc]; decide)
  change (c.skip l).current.kind = .comma at hc
  rw [inheritedTypes.eq_def]
  dsimp only
  rw [ht]
  dsimp only
  rw [hl, hr]
  dsimp only
  rw [if_pos hc]

end InheritedTypes

theorem inheritedTypes_alike (h : Alike n hi k c d) (hs : Shows k (inheritedTypes c).taken c.rest) :
    inheritedTypes d = mapSpans (.move n) (inheritedTypes c) := by
  induction hlen : c.rest.length using Nat.strongRecOn generalizing k c d with
  | ind len ih =>
    subst hlen
    cases ht : typeText endsInherited (c.skip c.newlines) with
    | mk result m =>
    cases result with
    | error e =>
      rw [inheritedTypes_of_error ht] at hs ⊢
      have hlt : c.newlines + m < k := hs.lt
      have hd := typeText_alike (h.skip (m := c.newlines) (by omega)) (by
        rw [ht]
        exact hs.drop)
      rw [ht, ← h.newlines (by omega)] at hd
      rw [inheritedTypes_of_error hd, h.newlines (by omega)]
      rfl
    | ok type =>
      generalize hl : c.newlines + m + (c.skip (c.newlines + m)).newlines = l
      have hle : c.newlines + m ≤ l := by omega
      have hsl : Shows k l c.rest := by
        by_cases hc : (c.skip l).kind = .comma
        · rw [inheritedTypes_of_comma ht hl hc, Outcome.taken_after] at hs
          exact hs.of_le (by omega)
        · rwa [inheritedTypes_of_last ht hl hc] at hs
      have hlt := hsl.lt
      have hnewlines := h.newlines (by omega)
      have ht' := typeText_alike (h.skip (m := c.newlines) (by omega)) (by
        rw [ht]
        exact (hsl.of_le hle).drop)
      rw [ht, ← hnewlines] at ht'
      have hl' : d.newlines + m + (d.skip (d.newlines + m)).newlines = l := by
        rw [hnewlines, (h.skip (by omega)).newlines (by omega), hl]
      by_cases hc : (c.skip l).kind = .comma
      · have hlast : l < c.rest.length := Cursor.lt_length_of_kind (by rw [hc]; decide)
        rw [inheritedTypes_of_comma ht hl hc] at hs ⊢
        have hlater := ih _ (by rw [Cursor.length_rest_skip]; omega) (h.skip (m := l + 1) (by
          have := hs.lt
          rw [Outcome.taken_after] at this
          omega)) hs.drop rfl
        rw [inheritedTypes_of_comma ht' hl' (by rw [(h.skip (by omega)).kind (by omega), hc]), hlater]
        cases inheritedTypes (c.skip (l + 1)) with
        | mk result j => cases result <;> rfl
      · rw [inheritedTypes_of_last ht hl hc,
          inheritedTypes_of_last ht' hl' (by rwa [(h.skip (by omega)).kind (by omega)])]
        rfl

theorem operatorLength_le (previous : Option Span) (ts : List Token) :
    operatorLength previous ts ≤ ts.length := by
  fun_induction operatorLength previous ts with
  | case1 => exact Nat.zero_le _
  | case2 previous t ts hp ih => exact Nat.succ_le_succ ih
  | case3 => exact Nat.zero_le _

theorem functionName_of_ident (hk : c.kind = .ident) :
    functionName c = ((·.1) <$> identifier) c := by
  rw [functionName, here_bind, if_pos hk]
  rfl

theorem functionName_of_ne (hk : c.kind ≠ .ident) : functionName c
    = match operatorLength none c.rest with
      | 0 => fail (.expectedFunctionName c.kind) c
      | l + 1 => ⟨.ok (String.ofList (c.textBetween c.span (c.ahead l).span)), l + 1⟩ := by
  rw [functionName, here_bind, if_neg hk]
  have hle := operatorLength_le none c.rest
  cases hl : operatorLength none c.rest with
  | zero => rfl
  | succ l =>
    rw [hl] at hle
    dsimp only
    rw [bind_of_ok (show take (l + 1) c = ⟨.ok (), l + 1⟩ by rw [take, Nat.min_eq_left hle])]
    rfl

theorem functionName_alike (h : Alike n hi k c d) (hs : Shows k (functionName c).taken c.rest) :
    functionName d = mapSpans (.move n) (functionName c) := by
  by_cases hk : c.kind = .ident
  · rw [functionName_of_ident hk] at hs ⊢
    rw [functionName_of_ident (by rw [h.kind hs.pos, hk])]
    exact map_alike h hs (fun hs => identifier_alike h hs.pos) fun _ => rfl
  · have hle := operatorLength_le none c.rest
    rw [functionName_of_ne hk] at hs ⊢
    have hlt : operatorLength none c.rest < k := by
      have := hs.lt
      cases hl : operatorLength none c.rest with
      | zero => exact hs.pos
      | succ l => rwa [hl] at this
    have hd : operatorLength (Option.map (.move n) none) d.rest = operatorLength none c.rest :=
      h.known.operatorLength hlt
    rw [Option.map_none] at hd
    rw [functionName_of_ne (by rwa [h.kind hs.pos]), hd, h.kind hs.pos]
    cases hl : operatorLength none c.rest with
    | zero => exact fail_alike h hs.pos rfl
    | succ l =>
      rw [hl] at hlt hle
      dsimp only
      have hfirst : c.span.stop ≤ hi := (h.ahead_le (by omega) (by omega)).2
      rw [h.span hs.pos, h.ahead (by omega), span_mapSpans,
        h.textBetween hfirst (h.ahead_le (by omega) hle).2]
      rfl

/-! ## The forms of a declaration -/

/-- A function from after its name and the mark of an initializer that may fail. -/
def functionEnd (kind : DeclarationKind) (name : String) : Parser Declaration := do
  generics
  signatureAndBody
  return { Declaration.ofKind kind .none with name := name }

theorem functionEnd_alike (h : Alike n hi k c d) (kind : DeclarationKind) (name : String)
    (hs : Shows k (functionEnd kind name c).taken c.rest) :
    functionEnd kind name d = (functionEnd kind name c).moved n id := by
  refine bind_moved (v := id) h hs (fun hs => generics_alike h hs) fun _ m _ h' hs => ?_
  exact bind_moved (v := id) h' hs (fun hs => signatureAndBody_alike h' hs) fun _ _ _ _ _ => rfl

/-- A function from after its name.  The mark of an initializer that may fail is no part of it. -/
def functionMark (kind : DeclarationKind) (name : String) : Parser Declaration :=
  match kind with
  | .initializer => here >>= fun c =>
    if c.kind = .question ∨ c.kind = .bang then take 1 >>= fun _ => functionEnd kind name
    else functionEnd kind name
  | _ => functionEnd kind name

/-- The name of a function whose keyword is given. -/
def nameAfter (keyword : List Char) (kind : DeclarationKind) : Parser String :=
  match kind with
  | .function => functionName
  | _ => Pure.pure (String.ofList keyword)

theorem functionMark_initializer (name : String) (c : Cursor) : functionMark .initializer name c
    = if c.kind = .question ∨ c.kind = .bang
      then (take 1 >>= fun _ => functionEnd .initializer name) c
      else functionEnd .initializer name c := by
  rw [functionMark.eq_def]
  dsimp only
  rw [here_bind]
  split <;> rfl

theorem functionMark_alike (h : Alike n hi k c d) (kind : DeclarationKind) (name : String)
    (hs : Shows k (functionMark kind name c).taken c.rest) :
    functionMark kind name d = (functionMark kind name c).moved n id := by
  cases kind with
  | initializer =>
    rw [functionMark_initializer] at hs ⊢
    rw [functionMark_initializer, h.kind hs.pos]
    split at hs
    case isTrue hm =>
      rw [if_pos hm, if_pos hm]
      exact bind_moved (v := id) h hs (fun hs => take_alike h hs.pos)
        fun _ m _ h' hs => functionEnd_alike h' .initializer name hs
    case isFalse hm =>
      rw [if_neg hm, if_neg hm]
      exact functionEnd_alike h .initializer name hs
  | _ => exact functionEnd_alike h _ name hs

theorem nameAfter_alike (h : Alike n hi k c d) (keyword : List Char) (kind : DeclarationKind)
    (hs : Shows k (nameAfter keyword kind c).taken c.rest) :
    nameAfter keyword kind d = mapSpans (.move n) (nameAfter keyword kind c) := by
  cases kind with
  | function => exact functionName_alike h hs
  | _ => rfl

theorem function_apply (kind : DeclarationKind) (c : Cursor) : function kind c
    = inside .function (next >>= fun _ => nameAfter c.currentText kind >>= functionMark kind) c := by
  rw [function.eq_def, inside, inside, here_bind]
  cases kind <;> rfl

theorem function_alike (h : Alike n hi k c d) (hk : c.kind ≠ .endOfFile) (kind : DeclarationKind)
    (hs : Shows k (function kind c).taken c.rest) :
    function kind d = (function kind c).moved n id := by
  rw [function_apply] at hs ⊢
  rw [function_apply, h.currentText hs.pos hk]
  refine inside_moved hs fun hs => ?_
  refine bind_moved (v := mapSpans (.move n)) h hs (fun hs => next_alike h hs.pos)
    fun _ m _ h' hs => ?_
  exact bind_moved (v := id) h' hs (nameAfter_alike h' c.currentText kind)
    fun name _ _ h'' hs => functionMark_alike h'' kind name hs

/-- A declaration of one line, from after its name. -/
def lineEnd (kind : DeclarationKind) (name : Option String) : Parser Declaration := do
  restOfLine
  return { Declaration.ofKind kind .none with name := name }

theorem lineEnd_alike (h : Alike n hi k c d) (kind : DeclarationKind) (name : Option String)
    (hs : Shows k (lineEnd kind name c).taken c.rest) :
    lineEnd kind name d = (lineEnd kind name c).moved n id :=
  bind_moved (v := id) h hs (fun hs => restOfLine_alike h hs) fun _ _ _ _ _ => rfl

/-- The name that comes next, if one does. -/
def identifier? : Parser (Option String) := do
  if (← here).kind = .ident then some <$> (·.1) <$> identifier else Pure.pure none

theorem identifier?_apply (c : Cursor) : identifier? c
    = if c.kind = .ident then (some <$> (·.1) <$> identifier) c else ⟨.ok none, 0⟩ := by
  rw [identifier?, here_bind]
  split <;> rfl

theorem line_apply (kind : DeclarationKind) :
    line kind = next >>= fun _ => identifier? >>= lineEnd kind := by
  refine congrArg (next >>= ·) (funext fun _ => ?_)
  rw [identifier?, bind_assoc]
  refine congrArg (here >>= ·) (funext fun c => ?_)
  split <;> rfl

theorem identifier?_alike (h : Alike n hi k c d) (hs : Shows k (identifier? c).taken c.rest) :
    identifier? d = mapSpans (.move n) (identifier? c) := by
  rw [identifier?_apply] at hs
  rw [identifier?_apply, identifier?_apply, h.kind hs.pos]
  split at hs
  case isTrue hk =>
    rw [if_pos hk, if_pos hk]
    refine map_alike h hs (fun hs => ?_) fun _ => rfl
    exact map_alike h hs (fun hs => identifier_alike h hs.pos) fun _ => rfl
  case isFalse hk =>
    rw [if_neg hk, if_neg hk]
    rfl

theorem line_alike (h : Alike n hi k c d) (kind : DeclarationKind)
    (hs : Shows k (line kind c).taken c.rest) : line kind d = (line kind c).moved n id := by
  rw [line_apply] at hs ⊢
  refine bind_moved (v := mapSpans (.move n)) h hs (fun hs => next_alike h hs.pos)
    fun _ m _ h' hs => ?_
  exact bind_moved (v := id) h' hs (identifier?_alike h') fun name _ _ h'' hs =>
    lineEnd_alike h'' kind name hs

/-- The name of a type whose keyword is given. -/
def headerName (kind : DeclarationKind) : Parser String :=
  match kind with
  | .extension => typeText endsExtended
  | _ => (·.1) <$> identifier

/-- What a type inherits from. -/
def inheritance : Parser (List String) := do
  if ← eat .colon then inside .inheritanceClause inheritedTypes else Pure.pure []

/-- The requirements of a type, which are not kept. -/
def requirements : Parser Unit := do
  if ← eat .whereKw then discard (typeText (· == .leftBrace))

/-- The end of the header of a type. -/
def headerEnd (kind : DeclarationKind) (name : String) (inherited : List String) :
    Parser Declaration := do
  requirements
  skipNewlines
  return { Declaration.ofKind kind .none with name := name, inherited := inherited }

/-- The header of a type from after its name. -/
def headerClauses (kind : DeclarationKind) (name : String) : Parser Declaration := do
  generics
  headerEnd kind name (← inheritance)

theorem typeHeader_apply (kind : DeclarationKind) : typeHeader kind
    = inside .typeDeclaration (next >>= fun _ => headerName kind >>= headerClauses kind) := by
  have hend : ∀ (name : String) (inherited : List String),
      (do
        if ← eat .whereKw then discard (typeText (· == .leftBrace))
        skipNewlines
        return { Declaration.ofKind kind .none with name := name, inherited := inherited })
      = headerEnd kind name inherited := by
    intro name inherited
    rw [headerEnd, requirements, bind_assoc]
    refine congrArg (eat .whereKw >>= ·) (funext fun b => ?_)
    cases b with
    | false => simp only [Bool.false_eq_true, if_false, pure_bind]
    | true => rfl
  have hclauses : ∀ name : String, (do
        generics
        let inherited ←
          if ← eat .colon then inside .inheritanceClause inheritedTypes else Pure.pure []
        headerEnd kind name inherited)
      = headerClauses kind name := by
    intro name
    rw [headerClauses, inheritance]
    refine congrArg (generics >>= ·) (funext fun _ => ?_)
    rw [bind_assoc]
    refine congrArg (eat .colon >>= ·) (funext fun b => ?_)
    cases b <;> rfl
  rw [typeHeader.eq_def]
  refine congrArg (inside _) (congrArg (next >>= ·) (funext fun _ => ?_))
  simp only [hend, hclauses]
  cases kind <;> rfl

theorem headerName_alike (h : Alike n hi k c d) (kind : DeclarationKind)
    (hs : Shows k (headerName kind c).taken c.rest) :
    headerName kind d = mapSpans (.move n) (headerName kind c) := by
  cases kind with
  | «extension» => exact typeText_alike h hs
  | _ => exact map_alike h hs (fun hs => identifier_alike h hs.pos) fun _ => rfl

theorem inheritance_alike (h : Alike n hi k c d) (hs : Shows k (inheritance c).taken c.rest) :
    inheritance d = mapSpans (.move n) (inheritance c) := by
  refine bind_alike h hs (fun hs => eat_alike h hs.pos _) fun b m _ h' hs => ?_
  cases b with
  | false => rfl
  | true => exact inside_alike hs fun hs => inheritedTypes_alike h' hs

theorem requirements_alike (h : Alike n hi k c d) (hs : Shows k (requirements c).taken c.rest) :
    requirements d = mapSpans (.move n) (requirements c) := by
  refine bind_alike h hs (fun hs => eat_alike h hs.pos _) fun b m _ h' hs => ?_
  cases b with
  | false => rfl
  | true => exact map_alike h' hs (fun hs => typeText_alike h' hs) fun _ => rfl

theorem headerEnd_alike (h : Alike n hi k c d) (kind : DeclarationKind) (name : String)
    (inherited : List String) (hs : Shows k (headerEnd kind name inherited c).taken c.rest) :
    headerEnd kind name inherited d = (headerEnd kind name inherited c).moved n id := by
  refine bind_moved (v := id) h hs (fun hs => requirements_alike h hs) fun _ m _ h' hs => ?_
  exact bind_moved (v := id) h' hs (fun hs => skipNewlines_alike h' hs.lt) fun _ _ _ _ _ => rfl

theorem typeHeader_alike (h : Alike n hi k c d) (kind : DeclarationKind)
    (hs : Shows k (typeHeader kind c).taken c.rest) :
    typeHeader kind d = (typeHeader kind c).moved n id := by
  rw [typeHeader_apply] at hs ⊢
  refine inside_moved hs fun hs => ?_
  refine bind_moved (v := mapSpans (.move n)) h hs (fun hs => next_alike h hs.pos)
    fun _ _ _ h hs => ?_
  refine bind_moved (v := id) h hs (headerName_alike h kind) fun name _ _ h hs => ?_
  refine bind_moved (v := id) h hs (generics_alike h) fun _ _ _ h hs => ?_
  exact bind_moved (v := id) h hs (inheritance_alike h) fun inherited _ _ h hs =>
    headerEnd_alike h kind name inherited hs

/-! ### What is read of a form -/

/-- A declaration with what stands before it. -/
def attached (d : Declaration) (as : List Attribute) (ms : List Modifier) (s : Span) : Declaration :=
  { d with attributes := as, modifiers := ms, span := s }

theorem taken_inside {α : Type} (construct : Construct) (p : Parser α) (c : Cursor) :
    (inside construct p c).taken = (p c).taken := rfl

theorem next_bind_taken_pos {α : Type} (hr : c.rest ≠ []) (f : Token → Parser α) :
    0 < ((next >>= f) c).taken := by
  refine Nat.lt_of_lt_of_le ?_ (taken_le_bind next f c)
  exact Nat.lt_min.mpr ⟨Nat.zero_lt_one, List.length_pos_iff.mpr hr⟩

theorem function_taken_pos (hr : c.rest ≠ []) (kind : DeclarationKind) :
    0 < (function kind c).taken := by
  rw [function_apply, taken_inside]
  exact next_bind_taken_pos hr _

theorem line_taken_pos (hr : c.rest ≠ []) (kind : DeclarationKind) : 0 < (line kind c).taken := by
  rw [line_apply]
  exact next_bind_taken_pos hr _

theorem typeHeader_taken_pos (hr : c.rest ≠ []) (kind : DeclarationKind) :
    0 < (typeHeader kind c).taken := by
  rw [typeHeader_apply, taken_inside]
  exact next_bind_taken_pos hr _

theorem property_taken_pos (hr : c.rest ≠ []) : 0 < (property c).taken := by
  rw [property, taken_inside]
  exact next_bind_taken_pos hr _

end Parser

namespace DeclarationKind

/-- What a declaration of a kind binds. -/
def bindings : DeclarationKind → List Binding
  | .property p => p.bindings
  | _ => []

/-- Whether a declaration of a kind is that of a type, or extends one. -/
def isType : DeclarationKind → Bool
  | struct | .class | .enum | protocol | actor | .extension => true
  | _ => false

end DeclarationKind

/-- The kind of declaration that a form gives, if that does not depend on what is read. -/
def Opening.kind? : Opening → Option DeclarationKind
  | .type kind | .function kind | .line kind => some kind
  | .property => none

/-- Whether a form is that of a type. -/
def Opening.isType : Opening → Bool
  | .type _ => true
  | _ => false

namespace Cursor

variable {n hi k : Nat} {c d : Cursor}

/-- How many places the question looks at which form of declaration comes next. -/
def openingReach (c : Cursor) : Nat := if c.kind = .ident then 2 else 1

theorem isContextualKeyword_alike (h : Alike n hi k c d) (hc : c.kind = .ident) (hk : 2 ≤ k)
    (word : String) : d.isContextualKeyword word = c.isContextualKeyword word := by
  rw [isContextualKeyword, isContextualKeyword, isWord, isWord, h.kind (by omega),
    h.currentText (by omega) (by rw [hc]; decide), h.ahead hk, kind_mapSpans]

/-- **Which form of declaration comes next** is settled by the places looked at for it. -/
theorem opening?_alike (h : Alike n hi k c d) (hk : c.openingReach ≤ k) :
    d.opening? = c.opening? := by
  rw [openingReach] at hk
  rw [opening?, opening?, h.kind (by split at hk <;> omega)]
  cases hc : c.kind with
  | ident =>
    rw [if_pos hc] at hk
    dsimp only
    rw [isContextualKeyword_alike h hc hk, isContextualKeyword_alike h hc hk,
      isContextualKeyword_alike h hc hk]
  | _ => rfl

/-- A form that gives a kind of its own binds nothing, and is that of a type if the kind is. -/
theorem kind_of_form {o : Opening} {kind : DeclarationKind} (ho : c.opening? = some o)
    (hk : o.kind? = some kind) : kind.bindings = [] ∧ kind.isType = o.isType := by
  rw [opening?] at ho
  cases hc : c.kind with
  | ident =>
    rw [hc] at ho
    dsimp only at ho
    split at ho
    · cases ho
      cases hk
      exact ⟨rfl, rfl⟩
    · split at ho
      · cases ho
        cases hk
        exact ⟨rfl, rfl⟩
      · split at ho
        · cases ho
          cases hk
          exact ⟨rfl, rfl⟩
        · cases ho
  | _ =>
    rw [hc] at ho
    cases ho <;> cases hk <;> exact ⟨rfl, rfl⟩

/-- No form of its own gives a kind with spans in it. -/
theorem mapSpans_kind_of_opening? {o : Opening} {kind : DeclarationKind} (ho : c.opening? = some o)
    (hk : o.kind? = some kind) (f : Span → Span) : mapSpans f kind = kind := by
  have hb := (kind_of_form ho hk).1
  cases kind with
  | property p =>
    obtain ⟨introducer, bindings⟩ := p
    obtain rfl : bindings = [] := hb
    rfl
  | _ => rfl

theorem rest_ne_nil_of_opening? {o : Opening} (ho : c.opening? = some o) : c.rest ≠ [] :=
  rest_ne_nil_of_kind (kind_of_opening? ho)

end Cursor

namespace Parser

variable {n hi k m : Nat} {c d : Cursor}

/-! ## Heads -/

/-- A head from after its attributes and modifiers. -/
def headRest (first : Span) (as : List Attribute) (ms : List Modifier) : Parser Head := do
  let c ← here
  let complete (d : Declaration) : Parser Head := do
    let span := first.merge (← here).previousSpan
    return .complete { d with attributes := as, modifiers := ms, span := span }
  match c.opening? with
  | some (.type kind) =>
    let d ← typeHeader kind
    return .type { d with attributes := as, modifiers := ms, span := first }
  | some (.function kind) => complete (← function kind)
  | some (.line kind) => complete (← line kind)
  | some .property => complete (Declaration.ofKind (← property) .none)
  | none =>
    if as.isEmpty ∧ ms.isEmpty then
      if c.kind = .hash then
        restOfLine
        return .directive
      else fail (.expectedDeclaration c.kind)
    else fail (.danglingModifiers c.kind)

theorem head_apply (c : Cursor) : head c
    = (attributes >>= fun as => modifiers >>= headRest c.span as) c := by
  rw [head, here_bind]
  rfl

/-- A form that takes tokens and its end, at which its span ends. -/
def complete (first : Span) (as : List Attribute) (ms : List Modifier) (d : Declaration) :
    Parser Head := do
  return .complete (attached d as ms (first.merge (← here).previousSpan))

theorem headRest_of_type {kind : DeclarationKind} (ho : c.opening? = some (.type kind)) (first : Span)
    (as : List Attribute) (ms : List Modifier) : headRest first as ms c
      = (typeHeader kind >>= fun d => Pure.pure (.type (attached d as ms first))) c := by
  rw [headRest, here_bind]
  dsimp only
  rw [ho]
  rfl

theorem headRest_of_function {kind : DeclarationKind} (ho : c.opening? = some (.function kind))
    (first : Span) (as : List Attribute) (ms : List Modifier) :
    headRest first as ms c = (function kind >>= complete first as ms) c := by
  rw [headRest, here_bind]
  dsimp only
  rw [ho]
  rfl

theorem headRest_of_line {kind : DeclarationKind} (ho : c.opening? = some (.line kind))
    (first : Span) (as : List Attribute) (ms : List Modifier) :
    headRest first as ms c = (line kind >>= complete first as ms) c := by
  rw [headRest, here_bind]
  dsimp only
  rw [ho]
  rfl

theorem headRest_of_property (ho : c.opening? = some .property) (first : Span)
    (as : List Attribute) (ms : List Modifier) : headRest first as ms c
      = (property >>= fun kind => complete first as ms (.ofKind kind .none)) c := by
  rw [headRest, here_bind]
  dsimp only
  rw [ho]
  rfl

theorem headRest_of_none (ho : c.opening? = none) (first : Span) (as : List Attribute)
    (ms : List Modifier) : headRest first as ms c
      = if as.isEmpty ∧ ms.isEmpty then
          if c.kind = .hash then (restOfLine >>= fun _ => Pure.pure .directive) c
          else fail (.expectedDeclaration c.kind) c
        else fail (.danglingModifiers c.kind) c := by
  rw [headRest, here_bind]
  dsimp only
  rw [ho]
  dsimp only
  split
  · split <;> rfl
  · rfl

/-- Two declarations that are the same but for the place once what stands before them is attached. -/
def Follow (n : Nat) (a b : Declaration) : Prop := ∀ as ms s,
  mapSpans (.move n) (attached a as ms s)
    = attached b (mapSpans (.move n) as) (mapSpans (.move n) ms) (s.move n)

theorem IsFresh.follow {kind : DeclarationKind} {a : Declaration} (h : IsFresh kind a)
    (hk : mapSpans (.move n) kind = kind) : Follow n a a := by
  intro as ms s
  obtain ⟨rfl, hm⟩ := h
  cases a with
  | mk kind name _ _ inherited members =>
    obtain rfl : members = none := hm
    change (⟨mapSpans (.move n) kind, _, _, _, _, _, _⟩ : Declaration) = _
    rw [show mapSpans (.move n) kind = kind from hk]
    rfl

theorem follow_ofKind (n : Nat) (kind : DeclarationKind) (s t : Span) :
    Follow n (.ofKind kind s) (.ofKind (mapSpans (.move n) kind) t) := fun _ _ _ => rfl

theorem complete_alike (h : Alike n hi k c d) (hb : c.Behind) (first : Span) (as : List Attribute)
    (ms : List Modifier) {a b : Declaration} (hab : Follow n a b) :
    complete (first.move n) (mapSpans (.move n) as) (mapSpans (.move n) ms) b d
      = mapSpans (.move n) (complete first as ms a c) := by
  rw [complete, complete, here_bind, here_bind, h.previousSpan hb, ← Span.move_merge]
  exact congrArg (fun x => (⟨.ok (.complete x), 0⟩ : Outcome Head)) (hab as ms _).symm

/-- What is read alike makes a declaration alike. -/
theorem complete_after_alike (h : Alike n hi k c d) (hr : c.rest ≠ []) {p : Parser Declaration}
    {kind : DeclarationKind} (hkind : mapSpans (.move n) kind = kind)
    (hfresh : Parser.Ensures p (IsFresh kind)) (hpos : 0 < (p c).taken)
    (hp : Shows k (p c).taken c.rest → p d = (p c).moved n id) {first : Span} {as : List Attribute}
    {ms : List Modifier} (hs : Shows k ((p >>= complete first as ms) c).taken c.rest) :
    (p >>= complete (first.move n) (mapSpans (.move n) as) (mapSpans (.move n) ms)) d
      = mapSpans (.move n) ((p >>= complete first as ms) c) := by
  refine bind_moved (v := id) h hs hp fun a m ha h' _ => ?_
  rw [ha] at hpos
  exact complete_alike h' (Cursor.behind_skip hr hpos) first as ms
    ((hfresh c a m ha).follow hkind)

theorem headRest_alike (h : Alike n hi k c d) (first : Span) (as : List Attribute)
    (ms : List Modifier) (hs : Shows k (headRest first as ms c).taken c.rest)
    (hk : c.openingReach ≤ k) :
    headRest (first.move n) (mapSpans (.move n) as) (mapSpans (.move n) ms) d
      = mapSpans (.move n) (headRest first as ms c) := by
  have hopening := Cursor.opening?_alike h hk
  cases ho : c.opening? with
  | none =>
    rw [headRest_of_none ho] at hs ⊢
    rw [headRest_of_none (hopening.trans ho), h.kind hs.pos]
    have has : (mapSpans (Span.move n) as).isEmpty = as.isEmpty := List.isEmpty_map
    have hms : (mapSpans (Span.move n) ms).isEmpty = ms.isEmpty := List.isEmpty_map
    rw [has, hms]
    split at hs
    case isFalse he =>
      rw [if_neg he, if_neg he]
      exact fail_alike h hs.pos rfl
    case isTrue he =>
      rw [if_pos he, if_pos he]
      split at hs
      case isFalse hh =>
        rw [if_neg hh, if_neg hh]
        exact fail_alike h hs.pos rfl
      case isTrue hh =>
        rw [if_pos hh, if_pos hh]
        exact bind_alike h hs (restOfLine_alike h) fun _ _ _ _ _ => rfl
  | some o =>
    have hr := Cursor.rest_ne_nil_of_opening? ho
    rw [ho] at hopening
    cases o with
    | type kind =>
      rw [headRest_of_type ho] at hs ⊢
      rw [headRest_of_type hopening]
      refine bind_moved (v := id) h hs (typeHeader_alike h kind) fun a m ha _ _ => ?_
      have hfollow := (ensures_typeHeader kind c a m ha).follow
        (Cursor.mapSpans_kind_of_opening? ho rfl (.move n))
      exact congrArg (fun x => (⟨.ok (.type x), 0⟩ : Outcome Head)) (hfollow as ms first).symm
    | function kind =>
      have hend : c.kind ≠ .endOfFile := by
        intro he
        rw [Cursor.opening?, he] at ho
        cases ho
      rw [headRest_of_function ho] at hs ⊢
      rw [headRest_of_function hopening]
      exact complete_after_alike h hr (Cursor.mapSpans_kind_of_opening? ho rfl (.move n))
        (ensures_function kind) (function_taken_pos hr kind) (function_alike h hend kind) hs
    | line kind =>
      rw [headRest_of_line ho] at hs ⊢
      rw [headRest_of_line hopening]
      exact complete_after_alike h hr (Cursor.mapSpans_kind_of_opening? ho rfl (.move n))
        (ensures_line kind) (line_taken_pos hr kind) (line_alike h kind) hs
    | property =>
      have hpos := property_taken_pos hr
      rw [headRest_of_property ho] at hs ⊢
      rw [headRest_of_property hopening]
      refine bind_alike h hs (property_alike h) fun kind m ha h' hs => ?_
      rw [ha] at hpos
      exact complete_alike h' (Cursor.behind_skip hr hpos) first as ms (follow_ofKind n kind _ _)

/-! ### How far a head looks -/

/-- How far a head looks: after an error, to the end of the line. -/
def headReach (o : Outcome Head) (c : Cursor) : Nat :=
  match o.result with
  | .ok _ => o.taken
  | .error _ => o.taken + recoveryLength 0 (c.skip o.taken).rest

theorem taken_le_headReach (o : Outcome Head) (c : Cursor) : o.taken ≤ headReach o c := by
  rw [headReach]
  split
  · exact Nat.le_refl _
  · exact Nat.le_add_right _ _

theorem headReach_after (o : Outcome Head) (c : Cursor) :
    headReach (o.after m) c = m + headReach o (c.skip m) := by
  rw [headReach, headReach, Outcome.result_after]
  split
  · rfl
  · rw [Outcome.taken_after, Cursor.skip_skip, Nat.add_assoc]

theorem headRest_taken_pos {o : Opening} (ho : c.opening? = some o) (first : Span)
    (as : List Attribute) (ms : List Modifier) : 0 < (headRest first as ms c).taken := by
  have hr := Cursor.rest_ne_nil_of_opening? ho
  cases o with
  | type kind =>
    rw [headRest_of_type ho]
    exact Nat.lt_of_lt_of_le (typeHeader_taken_pos hr kind) (taken_le_bind _ _ c)
  | function kind =>
    rw [headRest_of_function ho]
    exact Nat.lt_of_lt_of_le (function_taken_pos hr kind) (taken_le_bind _ _ c)
  | line kind =>
    rw [headRest_of_line ho]
    exact Nat.lt_of_lt_of_le (line_taken_pos hr kind) (taken_le_bind _ _ c)
  | property =>
    rw [headRest_of_property ho]
    exact Nat.lt_of_lt_of_le (property_taken_pos hr) (taken_le_bind _ _ c)

/-- Recovery takes the next token, unless that ends a line or closes something. -/
theorem recoveryLength_of_kind {t : Token} {ts : List Token}
    (hk : t.kind ≠ .newline ∧ t.kind ≠ .semicolon ∧ t.kind.isClose = false) :
    recoveryLength 0 (t :: ts) = recoveryLength (if t.kind.isOpen then 1 else 0) ts + 1 := by
  rw [recoveryLength, if_neg (by simp [hk])]
  split
  · rfl
  · rw [if_neg (by simp [hk])]

theorem recoveryLength_pos (depth : Nat) (t : Token) (ts : List Token) :
    0 < recoveryLength (depth + 1) (t :: ts) := by
  rw [recoveryLength, if_neg (by simp)]
  split
  · exact Nat.succ_pos _
  · split <;> exact Nat.succ_pos _

theorem modifierReach_le_of_ident (hk : c.kind = .ident) :
    c.modifierReach ≤ recoveryLength 0 c.rest + 1 := by
  obtain ⟨ts, hr⟩ := Cursor.exists_rest_of_kind (c := c) (by rw [hk]; decide)
  have hkind : c.current.kind = .ident := hk
  have hfirst : recoveryLength 0 c.rest = recoveryLength 0 ts + 1 := by
    rw [hr, recoveryLength_of_kind (by rw [hkind]; decide), hkind]
    rfl
  have hahead : ∀ i, c.ahead (i + 1) = ts.getD i c.last := by
    intro i
    rw [Cursor.ahead, hr]
    rfl
  rw [hfirst, Cursor.modifierReach, hk]
  dsimp only
  split
  case isFalse => omega
  case isTrue =>
    split
    case isFalse => omega
    case isTrue hp =>
      -- The parenthesis opens a group, of which recovery takes at least the next token.
      rw [hahead 0] at hp
      rw [hahead 1]
      cases ts with
      | nil => cases hp
      | cons t ts =>
        change t.kind = .leftParen at hp
        rw [recoveryLength_of_kind (by rw [hp]; decide), hp]
        split
        case isFalse => omega
        case isTrue hi =>
          cases ts with
          | nil => cases hi
          | cons u ts =>
            have hpos : 0 < recoveryLength 1 (u :: ts) := recoveryLength_pos 0 u ts
            change 4 ≤ recoveryLength 1 (u :: ts) + 1 + 1 + 1
            omega

theorem modifierReach_le_of_opening? {o : Opening} (ho : c.opening? = some o) :
    c.modifierReach ≤ 2 := by
  rw [Cursor.modifierReach]
  split
  case h_1 => exact Nat.le_refl 2
  case h_3 => exact Nat.le_succ 1
  case h_2 hk =>
    -- None of the words that open a declaration is one of those that modify one.
    have hword : isModifierWord c.currentText = false := by
      have htext : ∀ word, c.isContextualKeyword word = true → c.currentText = word.toList := by
        intro word hw
        rw [Cursor.isContextualKeyword, Cursor.isWord] at hw
        simp only [Bool.and_eq_true, beq_iff_eq] at hw
        exact hw.1.2
      rw [Cursor.opening?, hk] at ho
      dsimp only at ho
      split at ho
      case isTrue hw => rw [htext _ hw]; decide
      split at ho
      case isTrue hw => rw [htext _ hw]; decide
      split at ho
      case isTrue hw => rw [htext _ hw]; decide
      cases ho
    rw [if_neg (by rw [hword]; decide)]
    exact Nat.le_succ 1

theorem openingReach_le : c.openingReach ≤ 2 := by
  rw [Cursor.openingReach]
  split <;> decide

theorem headReach_of_ident (hk : c.kind = .ident) (ho : c.opening? = none) (first : Span)
    (as : List Attribute) (ms : List Modifier) :
    headReach (headRest first as ms c) c = recoveryLength 0 c.rest := by
  rw [headRest_of_none ho, if_neg (show c.kind ≠ .hash by rw [hk]; decide)]
  split
  all_goals
    rw [fail, headReach]
    dsimp only
    rw [Nat.zero_add, Cursor.skip_zero]

/-- What a head looks at to see that no modifier comes next, it looks at anyway. -/
theorem modifierReach_le_headReach (first : Span) (as : List Attribute) (ms : List Modifier) :
    c.modifierReach ≤ headReach (headRest first as ms c) c + 1 := by
  cases ho : c.opening? with
  | some o =>
    have hpos := headRest_taken_pos ho first as ms
    have hle := taken_le_headReach (headRest first as ms c) c
    have := modifierReach_le_of_opening? ho
    omega
  | none =>
    by_cases hk : c.kind = .ident
    · rw [headReach_of_ident hk ho]
      exact modifierReach_le_of_ident hk
    · have hclass : c.kind ≠ .classKw := by
        intro hk
        rw [Cursor.opening?, hk] at ho
        cases ho
      rw [Cursor.modifierReach]
      split
      · exact absurd ‹_› hclass
      · exact absurd ‹_› hk
      · omega

theorem openingReach_le_headReach (first : Span) (as : List Attribute) (ms : List Modifier) :
    c.openingReach ≤ headReach (headRest first as ms c) c + 1 := by
  cases ho : c.opening? with
  | some o =>
    have hpos := headRest_taken_pos ho first as ms
    have hle := taken_le_headReach (headRest first as ms c) c
    have := openingReach_le (c := c)
    omega
  | none =>
    by_cases hk : c.kind = .ident
    · obtain ⟨ts, hr⟩ := Cursor.exists_rest_of_kind (c := c) (by rw [hk]; decide)
      have hkind : c.current.kind = .ident := hk
      rw [headReach_of_ident hk ho, Cursor.openingReach, if_pos hk, hr,
        recoveryLength_of_kind (by rw [hkind]; decide)]
      omega
    · rw [Cursor.openingReach, if_neg hk]
      omega

theorem modifiers_le (c : Cursor) : c.modifiers.2 ≤ c.rest.length := by
  fun_induction Cursor.modifiers c with
  | case1 => exact Nat.zero_le _
  | case2 => exact Nat.zero_le _
  | case3 c t ts hr kind j hm =>
    rename_i m later ih
    have hlt := modifier?_lt hm
    have hnewlines := (c.skip (j + 1)).newlines_le
    have hm' : m = j + 1 + (c.skip (j + 1)).newlines := rfl
    rw [Cursor.length_rest_skip] at ih hnewlines
    change later.2 ≤ _ at ih
    change m + later.2 ≤ _
    omega

/-- After attributes, a dot is looked past. -/
theorem lt_headReach_of_dot (hk : (c.skip (attributes c).taken).kind = .dot) :
    (attributes c).taken < headReach (head c) c := by
  have hpos : 0 < recoveryLength 0 (c.skip (attributes c).taken).rest := by
    obtain ⟨ts, hr⟩ := Cursor.exists_rest_of_kind (c := c.skip (attributes c).taken)
      (by rw [hk]; decide)
    have hkind : (c.skip (attributes c).taken).current.kind = .dot := hk
    rw [hr, recoveryLength_of_kind (by rw [hkind]; decide)]
    exact Nat.succ_pos _
  rw [head_apply]
  cases ha : attributes c with
  | mk result m =>
    rw [ha] at hk hpos
    cases result with
    | error e =>
      rw [bind_of_error ha]
      exact Nat.lt_add_of_pos_right hpos
    | ok as =>
      have hm : modifiers (c.skip m) = ⟨.ok [], 0⟩ :=
        modifiers_of_none (by rw [Cursor.modifier?, hk])
      have ho : (c.skip m).opening? = none := by rw [Cursor.opening?, hk]
      rw [bind_of_ok ha, bind_of_ok hm, headReach_after, Outcome.after_zero, Cursor.skip_zero,
        headRest_of_none ho, if_neg (show (c.skip m).kind ≠ .hash by rw [hk]; decide)]
      refine Nat.lt_add_of_pos_right ?_
      split
      all_goals
        rw [fail, headReach]
        dsimp only
        rwa [Nat.zero_add, Cursor.skip_zero]

/-- **A head is read alike** where what it looks at is. -/
theorem head_alike (h : Alike n hi k c d) (hs : Shows k (headReach (head c) c) c.rest) :
    head d = mapSpans (.move n) (head c) := by
  have hdot : (c.skip (attributes c).taken).kind = .dot → (attributes c).taken + 1 < k := by
    intro hk
    have := lt_headReach_of_dot hk
    have := hs.lt
    omega
  have hs' := hs.of_le (taken_le_headReach _ _)
  rw [head_apply] at hs hs' ⊢
  rw [head_apply, h.span hs.pos]
  refine bind_alike h hs' (fun hs => attributes_alike h hs hdot) fun as m ha h' hs' => ?_
  rw [bind_of_ok ha, headReach_after] at hs
  replace hs := hs.drop
  refine bind_alike h' hs' (fun hs' => ?_) fun ms l hl h'' hs'' => ?_
  · have hl : modifiers (c.skip m) = ⟨.ok (c.skip m).modifiers.1, (c.skip m).modifiers.2⟩ := by
      rw [modifiers, Nat.min_eq_left (modifiers_le _)]
    rw [hl] at hs'
    rw [bind_of_ok hl, headReach_after] at hs
    replace hs := hs.drop
    refine modifiers_apply_alike h' hs' ?_
    have := modifierReach_le_headReach (c := (c.skip m).skip (c.skip m).modifiers.2) c.span as
      (c.skip m).modifiers.1
    have := hs.lt
    omega
  · rw [bind_of_ok hl, headReach_after] at hs
    replace hs := hs.drop
    refine headRest_alike h'' c.span as ms hs'' ?_
    have := openingReach_le_headReach (c := (c.skip m).skip l) c.span as ms
    have := hs.lt
    omega

end Parser

end Memberwise
