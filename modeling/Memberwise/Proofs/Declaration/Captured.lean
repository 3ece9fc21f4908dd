import Memberwise.Proofs.Declaration.Nesting
import Memberwise.Proofs.Token.Slices

/-!
# Proofs/Declaration/Captured — a type is kept as the text of the tokens it takes

A type is kept as text: what is taken of the source is cut out from the first token to the last and
freed of white space.  Where line ends end a type, neither of the two is a line end
(`typeLength_ends`), so there is no white space to take away and `typeText_captures` holds: **the
text of a type is read as just the tokens it takes**.

The types that a declaration keeps are all read in this way, at places inside its head
(`Parser.Keeps`), so **every text that a file keeps of a type reads as the tokens it was taken from**
(`Reading.ofSource_captures`).
-/

namespace Memberwise

open Text Token

/-! ## The tokens of a type -/

namespace Parser

section Types

variable {ends : TokenKind → Bool} {opened ts : List Token} {t : Token} {n : Nat}

/-- A line end outside all brackets of a type ends it, and one inside them leaves them open. -/
theorem bracketsAfter_newline (hends : ends .newline = true) (hk : t.kind = .newline)
    (h : ¬EndsType ends opened t.kind) : bracketsAfter opened t = opened ∧ opened ≠ [] := by
  refine ⟨by rw [bracketsAfter, hk], ?_⟩
  rintro rfl
  exact h ⟨rfl, .inl (by rw [hk, hends])⟩

/-- A type of no tokens leaves no bracket open. -/
theorem opened_eq_nil_of_typeLength (h : typeLength ends opened ts = .ok 0) : opened = [] := by
  cases ts with
  | nil =>
    cases opened with
    | nil => rfl
    | cons => cases h
  | cons t ts =>
    obtain ⟨hstop, -⟩ | ⟨-, m, -, hm⟩ := typeLength_cons_eq_ok.mp h
    · exact List.isEmpty_iff.mp hstop.1
    · cases hm

/-- The last token of a type is no line end. -/
theorem typeLength_last (hends : ends .newline = true) (h : typeLength ends opened ts = .ok (n + 1)) :
    ∀ t, ts[n]? = some t → t.kind ≠ .newline := by
  induction ts generalizing opened n with
  | nil => intro t ht; cases ht
  | cons u ts ih =>
    obtain ⟨-, hn⟩ | ⟨hgo, m, hm, hn⟩ := typeLength_cons_eq_ok.mp h
    · cases hn
    obtain rfl := Nat.succ.inj hn
    cases n with
    | zero =>
      intro t ht hk
      obtain rfl := Option.some.inj ht
      obtain ⟨hsame, hne⟩ := bracketsAfter_newline hends hk hgo
      exact hne (opened_eq_nil_of_typeLength (hsame ▸ hm))
    | succ n => exact fun t ht => ih hm t ht

/-- The first token of a type is no line end. -/
theorem typeLength_first (hends : ends .newline = true) (h : typeLength ends [] ts = .ok (n + 1)) :
    ∃ t us, ts = t :: us ∧ t.kind ≠ .newline := by
  cases ts with
  | nil => cases h
  | cons t ts =>
    obtain ⟨-, hn⟩ | ⟨hgo, -⟩ := typeLength_cons_eq_ok.mp h
    · cases hn
    · exact ⟨t, ts, rfl, fun hk => (bracketsAfter_newline hends hk hgo).2 rfl⟩

end Types

end Parser

/-! ## The text of a type -/

namespace Cursor

variable {c : Cursor} {source : List Char}

theorem isLaid_start (source : List Char) : (Cursor.start source (lexText source).tokens).IsLaid :=
  laid_lexText source

/-- A span from the next token to a later one begins with the first and ends with the second. -/
theorem IsLaid.merge_skip {m : Nat} (hc : c.IsLaid) (hm : m < c.rest.length) :
    c.span.merge (c.skip m).span = ⟨c.span.start, (c.skip m).span.stop⟩ := by
  have hr : c.rest ≠ [] := List.ne_nil_of_length_pos (Nat.zero_lt_of_lt hm)
  have hmerge := hc.merge_previousSpan hr (Nat.succ_pos m)
  rwa [cover, skip_zero, Cursor.previousSpan_skip_succ hm] at hmerge

end Cursor

/-- The tokens that a text captures are a stretch from the first one to the last. -/
theorem Captures.cover_eq {c : Cursor} {i n : Nat} {source text : List Char} {first last : Token}
    (h : Captures source first last ((c.rest.drop i).take n) text) (hn : i + n ≤ c.rest.length) :
    i < c.rest.length ∧ c.cover i (i + n) = ⟨first.span.start, last.span.stop⟩ := by
  have hfirst := h.head?_eq
  have hlast := h.getLast?_eq
  rw [List.head?_take] at hfirst
  split at hfirst
  case isTrue => cases hfirst
  case isFalse h0 =>
    obtain ⟨m, rfl⟩ := Nat.exists_eq_succ_of_ne_zero h0
    have hi : i < c.rest.length := by omega
    have hm : i + m < c.rest.length := by omega
    rw [List.getLast?_take, if_neg h0, Nat.succ_sub_one, List.getElem?_drop,
      List.getElem?_eq_getElem hm, Option.some_or, ← Cursor.current_skip_eq hm] at hlast
    rw [List.head?_drop, List.getElem?_eq_getElem hi, ← Cursor.current_skip_eq hi] at hfirst
    obtain rfl := Option.some.inj hfirst
    obtain rfl := Option.some.inj hlast
    exact ⟨hi, by rw [Cursor.cover, Nat.add_succ, Cursor.previousSpan_skip_succ hm]; rfl⟩

namespace Parser

variable {ends : TokenKind → Bool} {c : Cursor} {text : String} {n : Nat}

theorem typeText_eq_ok (h : typeText ends c = ⟨.ok text, n⟩) : ∃ m, n = m + 1
    ∧ typeLength ends [] c.rest = .ok (m + 1)
    ∧ text = String.ofList (c.textBetween c.span (c.skip m).span) := by
  unfold typeText at h
  split at h
  case h_1 => cases h
  case h_2 => cases h
  case h_3 m hm =>
    cases h
    have hlast : (c.skip m).span = (c.ahead m).span := by
      rw [Cursor.span, Cursor.current, Cursor.ahead_skip, Nat.add_zero]
    exact ⟨m, rfl, hm, by rw [hlast]⟩

/-- A type takes a token at least, and no more than there are. -/
theorem typeText_taken (h : typeText ends c = ⟨.ok text, n⟩) : 0 < n ∧ n ≤ c.rest.length := by
  obtain ⟨m, rfl, hm, -⟩ := typeText_eq_ok h
  exact ⟨Nat.succ_pos m, typeLength_le hm⟩

/-- **The text of a type is read as just the tokens it takes**, at every place of a source without
errors, if line ends end the type. -/
theorem typeText_captures {source : List Char} (he : (lexText source).errors = []) {i : Nat}
    (hends : ends .newline = true)
    (h : typeText ends ((Cursor.start source (lexText source).tokens).skip i) = ⟨.ok text, n⟩) :
    ∃ first last, Captures source first last
      (((lexText source).tokens.tokens.drop i).take n) text.toList := by
  have hc := (Cursor.isLaid_start source).skip i
  obtain ⟨m, rfl, hm, rfl⟩ := typeText_eq_ok h
  obtain ⟨first, later, hfirst, hk⟩ := typeLength_first hends hm
  have hlt : m < ((Cursor.start source (lexText source).tokens).skip i).rest.length := typeLength_le hm
  have hlast := List.getElem?_eq_getElem hlt
  have hk' := typeLength_last hends hm _ hlast
  rw [← Cursor.current_skip_eq hlt] at hlast hk'
  have hi := congrArg List.head? hfirst
  have hj := hlast
  rw [Cursor.rest_skip, List.head?_drop] at hi
  rw [Cursor.rest_skip, List.getElem?_drop] at hj
  obtain ⟨text, htext⟩ := exists_captures_between he (Nat.le_add_right i m) hi hj hk hk'
  rw [Nat.add_assoc, Nat.add_sub_cancel_left] at htext
  have hspan := hc.merge_skip hlt
  simp only [Cursor.span, Cursor.current_of_rest hfirst] at hspan
  refine ⟨first, (((Cursor.start source (lexText source).tokens).skip i).skip m).current, ?_⟩
  simp only [String.toList_ofList, Cursor.textBetween, Cursor.text, Cursor.span,
    Cursor.current_of_rest hfirst, hspan, Cursor.source_skip]
  change Captures _ _ _ _ (trim ((Span.slice? _ source).getD []))
  rwa [htext.slice?_eq, Option.getD_some, htext.trim_eq]

/-! ## What a head keeps -/

/-- The text is that of a type which line ends end, read inside the next tokens. -/
def Keeps (c : Cursor) (n : Nat) (text : String) : Prop :=
  ∃ ends i k, ends .newline = true ∧ typeText ends (c.skip i) = ⟨.ok text, k⟩ ∧ i + k ≤ n

theorem keeps_typeText (hends : ends .newline = true) (h : typeText ends c = ⟨.ok text, n⟩) :
    Keeps c n text :=
  ⟨ends, 0, n, hends, by rwa [Cursor.skip_zero], Nat.le_of_eq (Nat.zero_add n)⟩

namespace Keeps

variable {k m : Nat}

theorem of_skip (h : Keeps (c.skip k) n text) : Keeps c (k + n) text := by
  obtain ⟨ends, i, l, hends, ht, hle⟩ := h
  exact ⟨ends, k + i, l, hends, by rwa [Cursor.skip_skip] at ht, by omega⟩

theorem trans_le (h : Keeps c m text) (hn : m ≤ n) : Keeps c n text := by
  obtain ⟨ends, i, l, hends, ht, hle⟩ := h
  exact ⟨ends, i, l, hends, ht, Nat.le_trans hle hn⟩

end Keeps

/-- The type that comes next after some tokens is kept, whatever stands behind it. -/
theorem keeps_next {i : Nat} (hends : ends .newline = true)
    (h : (typeText ends (c.skip i)).result = .ok text)
    (hn : i + (typeText ends (c.skip i)).taken ≤ n) : Keeps c n text :=
  ⟨ends, i, _, hends, by rw [← h], hn⟩

/-- Every inherited type is kept as it is written. -/
theorem keeps_inheritedTypes {types : List String} (h : inheritedTypes c = ⟨.ok types, n⟩) :
    ∀ text ∈ types, Keeps c n text := by
  fun_induction inheritedTypes c generalizing types n with
  | case1 => cases h
  | case2 =>
    rename_i ho m hr
    cases h
    intro text htext
    obtain rfl := List.mem_singleton.mp htext
    exact keeps_next rfl ho (Nat.le_add_right _ _)
  | case3 =>
    rename_i c before o type ho m t ts hr hk ih
    have hle : ∀ k, before + o.taken ≤ m + 1 + k := fun k => by omega
    cases hlater : inheritedTypes (c.skip (m + 1)) with
    | mk result k =>
      rw [hlater] at h
      cases result with
      | error => cases h
      | ok later =>
        cases h
        intro text htext
        rcases List.mem_cons.mp htext with rfl | htext
        · exact keeps_next rfl ho (hle k)
        · exact (ih hlater text htext).of_skip
  | case4 =>
    rename_i ho m t ts hr hk
    cases h
    intro text htext
    obtain rfl := List.mem_singleton.mp htext
    exact keeps_next rfl ho (Nat.le_add_right _ _)

theorem keeps_bindingType? {type : Option String} (h : bindingType? c = ⟨.ok type, n⟩) :
    ∀ text, type = some text → Keeps c n text := by
  rw [bindingType?] at h
  obtain ⟨colon, i, _, -, h', rfl⟩ := bind_eq_ok.mp h
  cases colon with
  | false =>
    obtain ⟨rfl, rfl⟩ := pure_eq_ok.mp h'
    intro text ht
    cases ht
  | true =>
    obtain ⟨type, j, _, ht, hp, rfl⟩ := bind_eq_ok.mp h'
    obtain ⟨rfl, rfl⟩ := pure_eq_ok.mp hp
    intro text he
    obtain rfl := Option.some.inj he
    exact (keeps_typeText rfl (inside_eq_ok.mp ht)).of_skip

/-- The type of a binding is settled where it is read. -/
theorem ensures_bindingValue (first : Span) (p : Pattern) (type : Option String) :
    Ensures (bindingValue first p type) (·.type = type) := by
  have hend : ∀ hasInitializer, Ensures (bindingEnd first p type hasInitializer) (·.type = type) := by
    intro hasInitializer
    refine .bind fun c => ?_
    dsimp only
    split
    · exact .bind fun _ => .bind fun _ => .pure rfl
    · exact .bind fun _ => .pure rfl
  refine .bind fun hasInitializer => ?_
  split
  · exact .bind fun _ => hend _
  · exact hend _

theorem keeps_binding {b : Binding} (h : binding c = ⟨.ok b, n⟩) :
    ∀ text, b.type = some text → Keeps c n text := by
  rw [binding_apply] at h
  obtain ⟨p, i, _, -, h₁, rfl⟩ := bind_eq_ok.mp h
  obtain ⟨type, j, k, ht, h₂, rfl⟩ := bind_eq_ok.mp h₁
  rw [ensures_bindingValue _ _ _ _ _ _ h₂]
  exact fun text he => (keeps_bindingType? ht text he).of_skip.trans_le (by omega)

/-- Bindings that are read one after the other keep their types. -/
theorem BindingRow.keeps {bs : List Binding} (h : BindingRow c bs n) :
    ∀ b ∈ bs, ∀ text, b.type = some text → Keeps c n text := by
  induction h with
  | nil => simp
  | @cons c b bs k m n hb _ ih =>
    intro b' hmem text ht
    rcases List.mem_cons.mp hmem with rfl | hmem
    · exact (keeps_binding hb text ht).of_skip.trans_le (by omega)
    · exact (ih b' hmem text ht).of_skip

theorem keeps_property {kind : DeclarationKind} (h : property c = ⟨.ok kind, n⟩) :
    ∀ text ∈ kind.bindings.filterMap (·.type), Keeps c n text := by
  intro text htext
  obtain ⟨b, hmem, ht⟩ := List.mem_filterMap.mp htext
  exact (property_eq_ok h).1.keeps b hmem text ht

end Parser

/-- The texts of the types that a declaration keeps: those it inherits from, those of its bindings,
and, if it is an extension, the one it extends. -/
def Declaration.typeTexts (d : Declaration) : List String :=
  d.inherited ++ d.kind.bindings.filterMap (·.type)
    ++ match d.kind with
      | .extension => d.name.toList
      | _ => []

namespace Parser

variable {c : Cursor} {text : String} {n : Nat}

theorem keeps_inheritance {types : List String} (h : inheritance c = ⟨.ok types, n⟩) :
    ∀ text ∈ types, Keeps c n text := by
  rw [inheritance] at h
  obtain ⟨colon, i, _, -, h', rfl⟩ := bind_eq_ok.mp h
  cases colon with
  | false =>
    obtain ⟨rfl, rfl⟩ := pure_eq_ok.mp h'
    intro text ht
    cases ht
  | true =>
    intro text ht
    exact (keeps_inheritedTypes (inside_eq_ok.mp h') text ht).of_skip

/-- The name in the header of an extension is kept as the text of a type. -/
theorem keeps_headerName {name : String} (h : headerName .extension c = ⟨.ok name, n⟩) :
    Keeps c n name := keeps_typeText rfl h

theorem keeps_typeHeader {kind : DeclarationKind} (hk : kind.bindings = []) {d : Declaration}
    (h : typeHeader kind c = ⟨.ok d, n⟩) : ∀ text ∈ d.typeTexts, Keeps c n text := by
  rw [typeHeader_apply, inside_eq_ok] at h
  obtain ⟨_, i, _, -, h₁, rfl⟩ := bind_eq_ok.mp h
  obtain ⟨name, j, _, hname, h₂, rfl⟩ := bind_eq_ok.mp h₁
  rw [headerClauses] at h₂
  obtain ⟨_, k, _, -, h₃, rfl⟩ := bind_eq_ok.mp h₂
  obtain ⟨inherited, l, m, hinherited, h₄, rfl⟩ := bind_eq_ok.mp h₃
  have hd : d = { Declaration.ofKind kind .none with name := name, inherited := inherited } := by
    rw [headerEnd] at h₄
    obtain ⟨_, _, _, -, h₅, -⟩ := bind_eq_ok.mp h₄
    obtain ⟨_, _, _, -, h₆, -⟩ := bind_eq_ok.mp h₅
    exact (pure_eq_ok.mp h₆).1.symm
  subst hd
  intro text htext
  simp only [Declaration.typeTexts, Declaration.ofKind, hk, List.filterMap_nil, List.append_nil,
    List.mem_append] at htext
  rcases htext with htext | htext
  · have hkeeps := keeps_inheritance hinherited text htext
    exact hkeeps.of_skip.of_skip.of_skip.trans_le (by omega)
  · split at htext
    case h_1 =>
      obtain rfl := List.mem_singleton.mp htext
      exact (keeps_headerName hname).of_skip.trans_le (by omega)
    case h_2 => cases htext

/-- A declaration that is a name alone keeps no type, if it is no extension. -/
theorem typeTexts_of_isNamed {kind : DeclarationKind} {d : Declaration} (h : IsNamed kind d)
    (hk : kind.bindings = []) (ht : kind.isType = false) : d.typeTexts = [] := by
  obtain ⟨name, rfl⟩ := h
  simp only [Declaration.typeTexts, Declaration.ofKind, hk, List.filterMap_nil, List.nil_append]
  cases kind <;> first | rfl | cases ht

theorem HeadRest.keeps {first : Span} {as : List Attribute} {ms : List Modifier} {r : Head}
    {d : Declaration} (h : HeadRest first as ms c r n) (hd : r.declaration? = some d) :
    ∀ text ∈ d.typeTexts, Keeps c n text := by
  cases h with
  | directive => cases hd
  | type ho h =>
    cases hd
    have hkeeps := keeps_typeHeader (Cursor.kind_of_form ho rfl).1 h
    exact hkeeps
  | function ho h =>
    cases hd
    have hform := Cursor.kind_of_form ho rfl
    have hnone := typeTexts_of_isNamed (ensures_function_isNamed _ _ _ _ h) hform.1 hform.2
    intro text htext
    exact absurd (hnone ▸ htext) List.not_mem_nil
  | line ho h =>
    cases hd
    have hform := Cursor.kind_of_form ho rfl
    have hnone := typeTexts_of_isNamed (ensures_line_isNamed _ _ _ _ h) hform.1 hform.2
    intro text htext
    exact absurd (hnone ▸ htext) List.not_mem_nil
  | @property kind n ho h =>
    cases hd
    intro text htext
    refine keeps_property h text ?_
    simp only [Declaration.typeTexts, Declaration.ofKind, List.nil_append, List.mem_append] at htext
    rcases htext with htext | htext
    · exact htext
    · cases kind <;> cases htext

/-- **Every type that a head keeps is read inside it.** -/
theorem keeps_head {r : Head} {d : Declaration} (h : head c = ⟨.ok r, n⟩)
    (hd : r.declaration? = some d) : ∀ text ∈ d.typeTexts, Keeps c n text := by
  obtain ⟨as, k, m, l, -, -, hrest, rfl⟩ := head_eq_ok h
  intro text htext
  exact (hrest.keeps hd text htext).of_skip

end Parser

/-! ## What a file keeps -/

namespace Cursor

/-- A declaration covers a stretch of the tokens to come, and the types that it keeps are read inside
it. -/
def KeepsTypes (c : Cursor) (d : Declaration) : Prop :=
  ∃ i j, d.span = c.cover i j ∧ ∀ text ∈ d.typeTexts, Parser.Keeps (c.skip i) (j - i) text

theorem KeepsTypes.of_skip {c : Cursor} {d : Declaration} {k : Nat} (h : (c.skip k).KeepsTypes d) :
    c.KeepsTypes d := by
  obtain ⟨i, j, hspan, hkeeps⟩ := h
  refine ⟨k + i, k + j, by rw [hspan, cover_skip], fun text htext => ?_⟩
  have htext := hkeeps text htext
  rwa [skip_skip, ← Nat.add_sub_add_left k j i] at htext

end Cursor

/-- **Every declaration keeps types that are read inside it**, at every depth. -/
theorem declarations_keepTypes (inBlock : Bool) {c : Cursor} (hc : c.IsLaid) :
    ∀ d ∈ allWithDescendants (declarations inBlock c).declarations, c.KeepsTypes d := by
  revert hc
  refine declarations_induction (P := fun _ c p => c.IsLaid →
    ∀ d ∈ allWithDescendants p.declarations, c.KeepsTypes d) ?_ inBlock c
  intro inBlock c p hround ih hc
  have hlater : ∀ {k : Nat}, (c.skip k).rest.length < c.rest.length →
      ∀ d ∈ allWithDescendants (declarations inBlock (c.skip k)).declarations, c.KeepsTypes d :=
    fun hk d hd => (ih inBlock _ hk (hc.skip _) d hd).of_skip
  cases hround with
  | done => simp [Parsed.nothing, allWithDescendants]
  | failed _ hn => exact hlater hn
  | directive _ hn => exact hlater hn
  | @complete d n h hn =>
    obtain ⟨hspan, hmembers⟩ := Parser.span_of_head_complete (hc.skip _) h
    intro e he
    rw [Parsed.preceded, Option.toList_some, List.singleton_append, allWithDescendants,
      d.withDescendants_eq, Declaration.descendants, hmembers, blockDescendants] at he
    rcases List.mem_cons.mp he with rfl | he
    · exact Cursor.KeepsTypes.of_skip ⟨0, n, hspan, Parser.keeps_head h rfl⟩
    · exact hlater hn e he
  | @block d n m inner h ho hi hm hclose hn hn' =>
    have hl := hc.skip c.separators
    obtain ⟨k, rfl⟩ := Nat.exists_eq_add_of_le (show c.separators ≤ m by omega)
    rw [← Cursor.skip_skip] at hclose
    have hspan := Parser.span_of_head_block hl h (Cursor.lt_length_of_kind (by rw [hclose]; decide))
    rw [Cursor.skip_skip] at hspan
    intro e he
    rw [Parsed.preceded, Option.toList_some, List.singleton_append, allWithDescendants,
      Declaration.withDescendants_eq, Declaration.descendants, blockDescendants, List.cons_append] at he
    rcases List.mem_cons.mp he with rfl | he
    · refine Cursor.KeepsTypes.of_skip ⟨0, k + 1, hspan, fun text htext => ?_⟩
      exact (Parser.keeps_head h rfl text htext).trans_le (by omega)
    · rcases List.mem_append.mp he with he | he
      · subst hi
        exact (ih true _ hn (hc.skip _) e he).of_skip
      · exact hlater hn' e he

/-- **What is cut out of a source without errors is read as it was read there**: the text from any
token to a later one as just those tokens, the text of a type as the tokens that it took, and every
text of a type that a declaration keeps, at every depth, as tokens that stand in the declaration. -/
theorem Reading.ofSource_captures (source : String) (he : (lex source).errors = []) :
    let tokens := (lex source).tokens.tokens
    let c := Cursor.start source.toList (lex source).tokens
    (∀ i j first last, i ≤ j → tokens[i]? = some first → tokens[j]? = some last →
        first.kind ≠ .newline → last.kind ≠ .newline →
        ∃ text, Captures source.toList first last ((tokens.drop i).take (j + 1 - i)) text)
      ∧ (∀ ends i n text, ends .newline = true → Parser.typeText ends (c.skip i) = ⟨.ok text, n⟩ →
        ∃ first last, Captures source.toList first last ((tokens.drop i).take n) text.toList)
      ∧ ∀ d ∈ allWithDescendants (Reading.ofSource source).file.declarations, ∀ text ∈ d.typeTexts,
        ∃ ends i n first last, ends .newline = true
          ∧ Parser.typeText ends (c.skip i) = ⟨.ok text, n⟩
          ∧ Captures source.toList first last ((tokens.drop i).take n) text.toList
          ∧ d.span.Contains ⟨first.span.start, last.span.stop⟩ := by
  intro tokens c
  refine ⟨fun i j first last hij hi hj hk hk' => exists_captures_between he hij hi hj hk hk',
    fun ends i n text hends h => Parser.typeText_captures he hends h, fun d hd text htext => ?_⟩
  have hc : c.IsLaid := Cursor.isLaid_start source.toList
  obtain ⟨i, j, hspan, hkeeps⟩ := declarations_keepTypes false hc d hd
  obtain ⟨ends, k, n, hends, h, hle⟩ := hkeeps text htext
  rw [Cursor.skip_skip] at h
  obtain ⟨first, last, hcaptures⟩ := Parser.typeText_captures he hends h
  obtain ⟨hpos, hn⟩ := Parser.typeText_taken h
  rw [Cursor.length_rest_skip] at hn
  obtain ⟨hlt, hcover⟩ := hcaptures.cover_eq (c := c) (by omega)
  refine ⟨ends, i + k, n, first, last, hends, h, hcaptures, ?_⟩
  rw [hspan, ← hcover]
  exact hc.contains_cover (Nat.le_add_right i k) hlt (by omega)

/-- A comment in a type ends a line of the source and of the text. -/
theorem Reading.ofSource_captures_dictionary :
    (lex "var x: [A /* \n */ : B]").errors = []
      ∧ ∃ text, Captures "var x: [A /* \n */ : B]".toList ⟨.leftBracket, ⟨7, 8⟩⟩
        ⟨.rightBracket, ⟨21, 22⟩⟩
        (((lex "var x: [A /* \n */ : B]").tokens.tokens.drop 3).take (8 + 1 - 3)) text := by
  have h : (lex "var x: [A /* \n */ : B]").errors = [] := by decide +kernel
  exact ⟨h, (Reading.ofSource_captures _ h).1 3 8 _ _ (by decide) (by decide +kernel)
    (by decide +kernel) (by decide) (by decide)⟩

end Memberwise
