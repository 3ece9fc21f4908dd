import Memberwise.Proofs.Declaration.Reads
import Memberwise.Proofs.Equality.PrintedRow

/-!
# Proofs/Declaration/Phrases — the parts of a declaration, read where they are written

What is written before a declaration is read word by word: an attribute and then more attributes
(`reads_attributes_cons`), a modifier and then more modifiers (`reads_modifiers_cons`), an inherited
type and then more of them (`reads_inheritedTypes_cons`).  From these come the two forms of a
declaration that a record is made of:

* `reads_typeHeader` — **a header is read as the type's name and what it inherits from**;
* `reads_property` — **a property is read as the one name it binds**.
-/

namespace Memberwise

open Text Token Cursor

namespace Parser

variable {α : Type} {A X B sep : List Piece} {p : Piece} {k : TokenKind} {name : String}

/-! ## Attributes -/

theorem reads_qualifiedName (hn : isIdentifier name = true) (hB : nextKind B ≠ .dot) :
    Reads qualifiedName A [nameOf name] B name := by
  have hcount : segmentCount (amid (A ++ [nameOf name]) B).rest = 0 := by
    cases hr : (amid (A ++ [nameOf name]) B).rest with
    | nil => rfl
    | cons t ts =>
      have hk := kind_of_rest hr
      cases ts with
      | nil => rfl
      | cons u ts => rw [segmentCount, if_neg fun h => hB (hk ▸ h.1)]
  refine (reads_identifier hn A _).bind_piece (.here_bind (.of_none ?_))
  rw [List.nil_append, hcount]
  rfl

theorem reads_attributeArguments (hB : nextKind B ≠ .leftParen) (A : List Piece) :
    Reads attributeArguments A [] B none := by
  refine .here_bind (.of_none ?_)
  rw [if_neg fun h => hB (by rw [← kind_amid_eq A]; exact h.1)]
  rfl

/-- An attribute without arguments that is written after some pieces. -/
def attributeAt (A : List Piece) (name : String) : Attribute :=
  ⟨name, none, ⟨width A, width (A ++ [mark '@', nameOf name])⟩⟩

theorem reads_attributeAfter (hn : isIdentifier name = true) (hdot : nextKind B ≠ .dot)
    (hparen : nextKind B ≠ .leftParen) (A : List Piece) :
    Reads (attributeAfter ⟨width A, width A + 1⟩) (A ++ [mark '@']) [nameOf name] B
      (attributeAt A name) := by
  refine .inside _ ((reads_qualifiedName hn hdot).bind_piece ?_)
  refine (reads_attributeArguments hparen _).bind_none (.here_bind ?_)
  have hp : (nameOf name).lexeme = .token .ident := rfl
  have hat : ('@' : Char).utf8Size = 1 := rfl
  have hspan : Span.merge ⟨width A, width A + 1⟩
      (amid (A ++ [mark '@'] ++ [nameOf name]) ([] ++ B)).previousSpan
        = (attributeAt A name).span := by
    rw [previousSpan_amid hp, attributeAt, Span.merge_of_le] <;> simp [hat]
    omega
  rw [hspan]
  exact .pure _ _ _

/-- **Attributes are read one by one.** -/
theorem reads_attributes_cons {as : List Attribute} (hn : isIdentifier name = true)
    (hdot : nextKind (sep ++ (X ++ B)) ≠ .dot) (hparen : nextKind (sep ++ (X ++ B)) ≠ .leftParen)
    (hsep : Reads skipNewlines (A ++ [mark '@', nameOf name]) sep (X ++ B) ())
    (h : Reads attributes (A ++ [mark '@', nameOf name] ++ sep) X B as) :
    Reads attributes A (mark '@' :: nameOf name :: sep ++ X) B (attributeAt A name :: as) := by
  have hat : (mark '@').lexeme = .token .atSign := rfl
  obtain ⟨n, ha, hn⟩ := reads_attributeAfter hn hdot hparen A
  obtain ⟨m, hs, hm⟩ := hsep
  obtain ⟨l, has, hl⟩ := h
  have hc : mark '@' :: nameOf name :: sep ++ X ++ B
      = mark '@' :: ([nameOf name] ++ (sep ++ (X ++ B))) := by simp
  have hafter : (amid A (mark '@' :: ([nameOf name] ++ (sep ++ (X ++ B))))).skip (1 + n)
      = amid (A ++ [mark '@', nameOf name]) (sep ++ (X ++ B)) := by
    rw [← Cursor.skip_skip, skip_amid hat, hn, List.append_assoc]
    rfl
  have hlater : (amid A (mark '@' :: ([nameOf name] ++ (sep ++ (X ++ B))))).skip (1 + (n + m))
      = amid (A ++ [mark '@', nameOf name] ++ sep) (X ++ B) := by
    rw [← Nat.add_assoc, ← Cursor.skip_skip, hafter, hm]
  have hkind : (amid A (mark '@' :: ([nameOf name] ++ (sep ++ (X ++ B))))).kind = .atSign :=
    kind_amid hat A _
  have hnewlines : ((amid A (mark '@' :: ([nameOf name] ++ (sep ++ (X ++ B))))).skip (1 + n)).newlines
      = m := hafter ▸ congrArg Outcome.taken hs
  rw [← skip_amid hat] at ha
  refine ⟨1 + (n + m) + l, ?_, ?_⟩
  · rw [hc, attributes_of_ok hkind ha, hnewlines, hlater, has]
    rfl
  · rw [hc, ← Cursor.skip_skip, hlater, hl]
    simp

theorem reads_attributes_nil (h : nextKind B ≠ .atSign) (A : List Piece) :
    Reads attributes A [] B [] := by
  exact .of_none (attributes_of_ne (by rwa [kind_amid_eq]))

/-! ## Modifiers -/

/-- **Modifiers are read one by one.** -/
theorem reads_modifiers_cons {kind : ModifierKind} {ms : List Modifier} (hp : p.lexeme = .token k)
    (hk : (amid A (p :: (sep ++ (X ++ B)))).modifier? = some (kind, 0))
    (hsep : Reads skipNewlines (A ++ [p]) sep (X ++ B) ())
    (h : Reads modifiers (A ++ [p] ++ sep) X B ms) :
    Reads modifiers A (p :: sep ++ X) B
      (⟨kind, ⟨width A, width A + byteLength p.text⟩⟩ :: ms) := by
  obtain ⟨m, hs, hm⟩ := hsep
  obtain ⟨l, hms, hl⟩ := h
  have hc : p :: sep ++ X ++ B = p :: (sep ++ (X ++ B)) := by simp
  have hnewlines : ((amid A (p :: (sep ++ (X ++ B)))).skip 1).newlines = m := by
    rw [skip_amid hp]
    exact congrArg Outcome.taken hs
  have hlater : (amid A (p :: (sep ++ (X ++ B)))).skip (1 + m)
      = amid (A ++ [p] ++ sep) (X ++ B) := by
    rw [← Cursor.skip_skip, skip_amid hp, hm]
  have hlen : (amid (A ++ [p] ++ sep) (X ++ B)).rest.length + (1 + m)
      = (amid A (p :: (sep ++ (X ++ B)))).rest.length := by
    have hle := Cursor.newlines_le ((amid A (p :: (sep ++ (X ++ B)))).skip 1)
    have hpos : 0 < (amid A (p :: (sep ++ (X ++ B)))).rest.length := by simp [rest_amid hp]
    rw [← hlater, Cursor.length_rest_skip]
    rw [hnewlines, Cursor.length_rest_skip] at hle
    omega
  have hmods := modifiers_of_modifier? hk
  dsimp only at hmods
  rw [Nat.zero_add, hnewlines, hlater, skip_amid hp, span_amid hp, previousSpan_amid hp,
    Span.merge_self] at hmods
  obtain ⟨hlist, htaken⟩ := Outcome.mk.inj hms
  refine ⟨1 + m + l, ?_, ?_⟩
  · rw [hc, modifiers, hmods, Except.ok.inj hlist]
    congr 1
    omega
  · rw [hc, ← Cursor.skip_skip, hlater, hl]
    simp

/-- The token after the next one. -/
theorem kind_ahead_one (hp : p.lexeme = .token k) (A B : List Piece) :
    ((amid A (p :: B)).ahead 1).kind = nextKind B := by
  rw [ahead_amid, kinds_token hp, List.getD_cons_succ, nextKind]
  cases kinds B <;> rfl

theorem reads_modifiers_nil (h : nextKind B ∉ [.staticKw, .classKw, .ident]) (A : List Piece) :
    Reads modifiers A [] B [] := by
  have hk : (amid A B).modifier? = none := by
    simp only [List.mem_cons, List.not_mem_nil, or_false, not_or] at h
    rw [Cursor.modifier?, kind_amid_eq]
    split <;> simp_all
  exact .of_none (modifiers_of_none hk)

theorem modifier?_static (A B : List Piece) :
    (amid A (bare "static" :: B)).modifier? = some (.static, 0) := by
  rw [Cursor.modifier?, kind_amid_eq, nextKind_bare]
  rfl

/-- An access level is a modifier before a keyword. -/
theorem modifier?_access (level : Access) (hB : nextKind B ∈ [.structKw, .staticKw])
    (A : List Piece) : (amid A (bare level.keyword :: B)).modifier? = some (.access level, 0) := by
  have hk : (amid A (bare level.keyword :: B)).kind = .ident := by
    rw [kind_amid_eq, nextKind_bare]
    cases level <;> decide
  have htext : (amid A (bare level.keyword :: B)).currentText = level.keyword.toList :=
    currentText_amid rfl A B
  have hnext := kind_ahead_one (p := bare level.keyword) rfl A B
  have hword : (amid A (bare level.keyword :: B)).wordIsModifier = true := by
    have hmod : isModifierWord level.keyword.toList = true := by cases level <;> decide
    rw [Cursor.wordIsModifier, htext, hmod, hnext]
    simp only [List.mem_cons, List.not_mem_nil, or_false] at hB
    rcases hB with h | h <;> rw [h] <;> rfl
  have hparen : nextKind B ≠ .leftParen := by
    rintro h
    rw [h] at hB
    revert hB
    decide
  simp only [Cursor.modifier?, hk, hword, if_true, hnext, if_neg hparen, htext]
  simp only [String.ofList_toList, Cursor.wordModifier, Access.ofKeyword?_keyword]

theorem nextKind_accessRow (access : Option Access) (B : List Piece) :
    nextKind (Comparison.accessRow access ++ B) = if access.isSome then .ident else nextKind B := by
  cases access with
  | none => rfl
  | some level =>
    rw [Comparison.accessRow, List.cons_append, nextKind_bare, Option.isSome_some, if_pos rfl]
    cases level <;> decide

/-- The modifier that an access level written after some pieces is. -/
def accessModifiers (A : List Piece) (access : Option Access) : List Modifier :=
  access.toList.map fun level => ⟨.access level, ⟨width A, width (A ++ [bare level.keyword])⟩⟩

/-- **An access level before a keyword is read as a modifier.** -/
theorem reads_modifiers_access (access : Option Access) {ms : List Modifier}
    (hB : nextKind (X ++ B) ∈ [.structKw, .staticKw])
    (h : Reads modifiers (A ++ Comparison.accessRow access) X B ms) :
    Reads modifiers A (Comparison.accessRow access ++ X) B (accessModifiers A access ++ ms) := by
  cases access with
  | none => simpa [Comparison.accessRow, accessModifiers] using h
  | some level =>
    have hne : nextKind (X ++ B) ≠ .newline := by
      intro hk
      rw [hk] at hB
      revert hB
      decide
    have hread := reads_modifiers_cons (A := A) (p := bare level.keyword) rfl
      (modifier?_access level (by simpa using hB) A) (reads_skipNewlines_space hne _ 0)
      (by simpa [Comparison.accessRow] using h)
    rw [← width_concat] at hread
    exact hread

/-- The modifier that puts a member at the type, written after some pieces. -/
def staticModifier (A : List Piece) : Modifier :=
  ⟨.static, ⟨width A, width (A ++ [bare "static"])⟩⟩

/-- `static` is read as a modifier. -/
theorem reads_modifiers_static {ms : List Modifier} (hB : nextKind (X ++ B) ≠ .newline)
    (h : Reads modifiers (A ++ [bare "static", space 0]) X B ms) :
    Reads modifiers A ([bare "static", space 0] ++ X) B (staticModifier A :: ms) := by
  have hread := reads_modifiers_cons (A := A) (p := bare "static") rfl
    (modifier?_static A _) (reads_skipNewlines_space hB _ 0) (by simpa using h)
  rw [← width_concat] at hread
  exact hread

/-! ## Type headers -/

/-- The pieces of the inherited types after the first. -/
def laterTypesRow (types : List String) : List Piece :=
  types.flatMap fun type => [mark ',', space 0, nameOf type]

/-- The pieces of an inheritance clause, if anything is inherited from. -/
def inheritanceRow : List String → List Piece
  | [] => []
  | type :: later => [mark ':', space 0, nameOf type] ++ laterTypesRow later

theorem inheritedTypes_last {c : Cursor} {type : String} {n : Nat} (hb : c.newlines = 0)
    (ht : typeText endsInherited c = ⟨.ok type, n⟩) (hn : (c.skip n).newlines = 0)
    (hk : (c.skip n).kind ≠ .comma) : inheritedTypes c = ⟨.ok [type], n⟩ := by
  rw [inheritedTypes]
  simp only [hb, Cursor.skip_zero, ht, Nat.zero_add, hn, Nat.add_zero]
  split
  · rfl
  · rename_i t ts hr
    simp only [hb, Cursor.skip_zero, ht, Nat.zero_add, hn, Nat.add_zero] at hr
    rw [Cursor.kind, current_of_rest hr] at hk
    rw [if_neg hk]

theorem inheritedTypes_comma {c : Cursor} {type : String} {types : List String} {n l : Nat}
    {t : Token} {ts : List Token} (hb : c.newlines = 0)
    (ht : typeText endsInherited c = ⟨.ok type, n⟩) (hn : (c.skip n).newlines = 0)
    (hr : (c.skip n).rest = t :: ts) (hk : t.kind = .comma)
    (hl : inheritedTypes (c.skip (n + 1)) = ⟨.ok types, l⟩) :
    inheritedTypes c = ⟨.ok (type :: types), n + 1 + l⟩ := by
  rw [inheritedTypes]
  simp only [hb, Cursor.skip_zero, ht, Nat.zero_add, hn, Nat.add_zero]
  split
  · rename_i h
    simp only [hb, Cursor.skip_zero, ht, Nat.zero_add, hn, Nat.add_zero, hr] at h
    cases h
  · rename_i u us h
    simp only [hb, Cursor.skip_zero, ht, Nat.zero_add, hn, Nat.add_zero, hr] at h
    obtain ⟨rfl, -⟩ := List.cons.inj h
    rw [if_pos hk, hl]
    rfl

/-- **Inherited types are read one by one.** -/
theorem reads_inheritedTypes {type : String} {later : List String}
    (ht : isIdentifier type = true) (hl : ∀ type ∈ later, isIdentifier type = true)
    (hB : nextKind B = .leftBrace) (A : List Piece) :
    Reads inheritedTypes A (nameOf type :: laterTypesRow later) B
      ((type :: later).map escape) := by
  have hfirst : ∀ (type : String) (A C : List Piece),
      (amid A (nameOf type :: C)).newlines = 0 := fun type A C => newlines_amid A (by simp)
  induction later generalizing type A with
  | nil =>
    change Reads inheritedTypes A [nameOf type] B [escape type]
    obtain ⟨n, hq, hn⟩ := reads_typeText (f := endsInherited) rfl ht (by rw [hB]; rfl) A
    refine ⟨n, inheritedTypes_last (hfirst _ _ _) hq ?_ ?_, hn⟩
    · rw [hn]
      exact newlines_amid _ (by simp [hB])
    · rw [hn, kind_amid_eq, hB]
      decide
  | cons next later ih =>
    have hcomma : (mark ',').lexeme = .token .comma := rfl
    have hrow : nameOf type :: laterTypesRow (next :: later) ++ B
        = [nameOf type] ++ mark ',' :: (space 0 :: nameOf next :: laterTypesRow later ++ B) := by
      simp [laterTypesRow]
    unfold Reads
    rw [hrow]
    generalize hC : space 0 :: nameOf next :: laterTypesRow later ++ B = C
    obtain ⟨n, hq, hn⟩ := reads_typeText (f := endsInherited) (B := mark ',' :: C) rfl ht
      (by simp +decide) A
    have hread := ih (hl next List.mem_cons_self) (fun t h => hl t (List.mem_cons_of_mem _ h))
      (A ++ [nameOf type] ++ [mark ','] ++ [space 0])
    obtain ⟨l, hq', hl⟩ := hread.blank_cons rfl
    rw [hC] at hq' hl
    have hlater : (amid A ([nameOf type] ++ mark ',' :: C)).skip (n + 1)
        = amid (A ++ [nameOf type] ++ [mark ',']) C := by
      rw [← Cursor.skip_skip, hn, skip_amid hcomma]
    have hrest := rest_amid hcomma (A ++ [nameOf type]) C
    rw [← hn] at hrest
    refine ⟨n + 1 + l, inheritedTypes_comma (hfirst _ _ _) hq ?_ hrest rfl (hlater ▸ hq'), ?_⟩
    · rw [hn]
      exact newlines_amid _ (by simp +decide)
    · rw [← Cursor.skip_skip, hlater, hl]
      simp [laterTypesRow]

/-- What follows a type's name up to its block is read as what it inherits from. -/
theorem reads_headerTail {kind : DeclarationKind} {types : List String}
    (ht : ∀ type ∈ types, isIdentifier type = true) (hB : nextKind B = .leftBrace) :
    Reads (do
        generics
        let inherited ←
          if ← eat .colon then inside .inheritanceClause inheritedTypes else Pure.pure []
        if ← eat .whereKw then discard (typeText (· == .leftBrace))
        skipNewlines
        return { Declaration.ofKind kind .none with name := name, inherited := inherited })
      A (inheritanceRow types ++ [space 0]) B
      { Declaration.ofKind kind .none with name := some name, inherited := types.map escape } := by
  have hend : ∀ A (inherited : List String), Reads (do
        if ← eat .whereKw then discard (typeText (· == .leftBrace))
        skipNewlines
        return { Declaration.ofKind kind .none with name := some name, inherited := inherited })
      A [space 0] B
      { Declaration.ofKind kind .none with name := some name, inherited := inherited } := by
    intro A inherited
    refine (reads_eat_none (by simp [hB]) A).bind_none ?_
    refine (reads_skipNewlines_space (by simp [hB]) _ 0).bind_piece ?_
    exact .pure _ _ _
  cases types with
  | nil =>
    refine (reads_generics (by simp [inheritanceRow, hB]) A).bind_none ?_
    refine (reads_eat_none (by simp [inheritanceRow, hB]) _).bind_none ?_
    exact (Reads.pure [] _ _).bind_none (hend _ _)
  | cons type later =>
    refine (reads_generics (by simp +decide [inheritanceRow]) A).bind_none ?_
    refine (reads_eat (p := mark ':') rfl _ _).bind_piece ?_
    refine Reads.bind (X := space 0 :: nameOf type :: laterTypesRow later)
      (.inside _ (.blank_cons rfl ?_)) (hend _ _)
    exact reads_inheritedTypes (ht type List.mem_cons_self)
      (fun t h => ht t (List.mem_cons_of_mem _ h)) (by simpa using hB) _

/-- **The header of a struct is read as its name and what it inherits from.** -/
theorem reads_structHeader {types : List String} (hn : isIdentifier name = true)
    (ht : ∀ type ∈ types, isIdentifier type = true) (hB : nextKind B = .leftBrace) :
    Reads (typeHeader .struct) A
      ([bare "struct", space 0, nameOf name] ++ (inheritanceRow types ++ [space 0])) B
      { Declaration.ofKind .struct .none with
        name := some name, inherited := types.map escape } := by
  refine .inside _ ((reads_next (p := bare "struct") rfl A _).bind_piece ?_)
  refine Reads.bind (X := [space 0, nameOf name])
    (.blank_cons rfl (.map _ (reads_identifier hn _ _))) ?_
  exact reads_headerTail ht hB

/-- **The header of an extension is read as the type it extends and what it adds to it.** -/
theorem reads_extensionHeader {types : List String} (hn : isIdentifier name = true)
    (ht : ∀ type ∈ types, isIdentifier type = true) (hB : nextKind B = .leftBrace) :
    Reads (typeHeader .extension) A
      ([bare "extension", space 0, nameOf name] ++ (inheritanceRow types ++ [space 0])) B
      { Declaration.ofKind .extension .none with
        name := some (escape name), inherited := types.map escape } := by
  refine .inside _ ((reads_next (p := bare "extension") rfl A _).bind_piece ?_)
  refine Reads.bind (X := [space 0, nameOf name])
    (.blank_cons rfl (reads_typeText rfl hn ?_ _)) ?_
  · cases types <;> simp +decide [inheritanceRow, hB]
  · exact reads_headerTail ht hB

/-! ## Properties -/

theorem reads_pattern (hn : isIdentifier name = true) (hne : name ≠ "_") (A : List Piece) :
    Reads pattern A [nameOf name] B (.name name) := by
  have hp : (nameOf name).lexeme = .token .ident := rfl
  have htext : (nameOf name).text ≠ ['_'] := by
    intro h
    cases hr : isReserved name with
    | true =>
      rw [text_nameOf_of_isReserved hr] at h
      cases h
    | false =>
      rw [nameOf_of_not_isReserved hr] at h
      exact hne (String.toList_injective h)
  have hname : String.ofList (unescapeText (nameOf name).text) = name :=
    unescape_escape_of_isIdentifier hn
  refine ⟨1, ?_, skip_amid hp A B⟩
  rw [List.singleton_append, pattern]
  split
  · rename_i hr
    rw [rest_amid hp] at hr
    cases hr
  · rename_i t ts hr
    rw [rest_amid hp] at hr
    obtain ⟨rfl, -⟩ := List.cons.inj hr
    simp only [currentText_amid hp, if_neg htext, hname]

theorem reads_bindingType? {type : String} (ht : isIdentifier type = true)
    (hB : nextKind B = .newline) (A : List Piece) :
    Reads bindingType? A [mark ':', space 0, nameOf type] B (some (escape type)) := by
  refine (reads_eat (p := mark ':') rfl A _).bind_piece ?_
  refine Reads.bind (X := [space 0, nameOf type]) (Y := []) ?_ (.pure _ _ _)
  exact .inside _ (.blank_cons rfl (reads_typeText rfl ht (by simp [hB, endsBindingType]) _))

/-- The pieces of a name and the type after it. -/
def bindingRow (name type : String) : List Piece :=
  [nameOf name, mark ':', space 0, nameOf type]

/-- The binding of a name with a type that is written after some pieces. -/
def bindingAt (A : List Piece) (name type : String) : Binding :=
  ⟨.name name, some (escape type), false, false, ⟨width A, width (A ++ bindingRow name type)⟩⟩

theorem reads_binding {type : String} (hn : isIdentifier name = true) (hne : name ≠ "_")
    (ht : isIdentifier type = true) (hB : nextKind B = .newline) (A : List Piece) :
    Reads binding A (bindingRow name type) B (bindingAt A name type) := by
  have hname : (nameOf name).lexeme = .token .ident := rfl
  refine .here_bind ?_
  refine (reads_pattern hn hne A).bind_piece ?_
  refine Reads.bind (Y := []) (reads_bindingType? ht hB _) ?_
  refine (reads_eat_none (by simp [hB]) _).bind_none ?_
  have hk : ∀ A, ((amid A ([] ++ B)).kind == .leftBrace) = false := by
    intro A
    rw [kind_amid_eq, List.nil_append, hB]
    rfl
  have hlast : (nameOf type).lexeme = .token .ident := rfl
  have hspan : (amid A (bindingRow name type ++ B)).span.merge
      (amid (A ++ [nameOf name] ++ [mark ':', space 0, nameOf type]) ([] ++ B)).previousSpan
        = (bindingAt A name type).span := by
    have hrow : A ++ [nameOf name] ++ [mark ':', space 0, nameOf type]
        = (A ++ [nameOf name, mark ':', space 0]) ++ [nameOf type] := by simp
    rw [hrow, previousSpan_amid hlast, bindingRow, List.cons_append, span_amid hname, bindingAt,
      Span.merge_of_le] <;> simp [bindingRow]
    all_goals omega
  refine .here_bind ?_
  rw [hk]
  refine .here_bind ?_
  rw [hspan]
  exact .pure _ _ _

/-- The pieces of a property with one name. -/
def propertyRow (introducer : Introducer) (name type : String) : List Piece :=
  [bare introducer.keyword, space 0] ++ bindingRow name type

/-- **A property is read as the one name it binds.** -/
theorem reads_property {introducer : Introducer} {type : String} (hn : isIdentifier name = true)
    (hne : name ≠ "_") (ht : isIdentifier type = true) (hB : nextKind B = .newline)
    (A : List Piece) : Reads property A (propertyRow introducer name type) B
      (.property ⟨introducer,
        [bindingAt (A ++ [bare introducer.keyword, space 0]) name type]⟩) := by
  have hfurther : ∀ A, Reads furtherBindings A [] B [] := by
    intro A
    refine .of_none ?_
    rw [furtherBindings]
    split
    · rfl
    · rename_i t ts hr
      rw [if_neg]
      rw [kind_of_rest hr, hB]
      decide
  refine .inside _ ((reads_next (p := bare introducer.keyword) rfl A _).bind_piece ?_)
  refine Reads.bind (X := space 0 :: bindingRow name type) (Y := [])
    (.blank_cons rfl (reads_binding hn hne ht hB _)) ?_
  refine (hfurther _).bind_none ?_
  have hintro : (if wordKind introducer.keyword.toList none = .letKw then Introducer.let else .var)
      = introducer := by
    cases introducer <;> decide
  rw [hintro, List.append_assoc A]
  exact .pure _ _ _

end Parser

end Memberwise
