import Memberwise.Declaration.Binding

/-!
# Declaration/Head — a declaration up to its member block

    attributes modifiers (type header | property | function | the rest of a line)

A `Head` is what can be read of a declaration without reading a member block: for most declarations
that is all of it, for a type it is everything before the brace.  Which form comes next is settled
by the next token, and by a second one for the words that are keywords only before a name
(`opening?`).
-/

namespace Memberwise

open Text

/-- The forms of a declaration. -/
inductive Opening where
  /-- A header, then a member block. -/
  | type (kind : DeclarationKind)
  | function (kind : DeclarationKind)
  /-- A name, if one follows, then whatever stands on the line. -/
  | line (kind : DeclarationKind)
  | property
  deriving Repr

/-- A declaration up to its member block. -/
inductive Head where
  /-- A compiler directive, which declares nothing. -/
  | directive
  | complete (d : Declaration)
  /-- A type whose member block has to come next; its span is still that of its first token. -/
  | type (d : Declaration)
  deriving Repr

/-- The form of declaration that the next token begins. -/
def Cursor.opening? (c : Cursor) : Option Opening :=
  match c.kind with
  | .structKw => some (.type .struct)
  | .classKw => some (.type .class)
  | .enumKw => some (.type .enum)
  | .protocolKw => some (.type .protocol)
  | .extensionKw => some (.type .extension)
  | .ident =>
    if c.isContextualKeyword "actor" then some (.type .actor)
    else if c.isContextualKeyword "macro" then some (.line (.other "macro"))
    else if c.isContextualKeyword "precedencegroup" then some (.line (.other "precedencegroup"))
    else none
  | .letKw | .varKw => some .property
  | .funcKw => some (.function .function)
  | .initKw => some (.function .initializer)
  | .deinitKw => some (.function .deinitializer)
  | .subscriptKw => some (.function .subscript)
  | .caseKw => some (.line .enumCase)
  | .typealiasKw => some (.line .typeAlias)
  | .associatedtypeKw => some (.line .associatedType)
  | .importKw => some (.line .importLine)
  | .operatorKw => some (.line .operator)
  | _ => none

/-- The tokens that end the type an extension extends. -/
def endsExtended : TokenKind → Bool
  | .colon | .leftBrace | .whereKw | .newline => true
  | _ => false

/-- The tokens that end an inherited type. -/
def endsInherited : TokenKind → Bool
  | .comma | .leftBrace | .whereKw | .newline => true
  | _ => false

/-- The tokens an operator's name is made of. -/
def isOperatorPart : TokenKind → Bool
  | .equalEqual | .equal | .operator | .less | .greater | .bang | .andAnd | .ampersand | .question
  | .dot => true
  | _ => false

/-- How many tokens make up the operator that comes next, each touching the one before. -/
def operatorLength : (previous : Option Span) → List Token → Nat
  | _, [] => 0
  | previous, t :: ts =>
    if isOperatorPart t.kind ∧ previous.all (·.touches t.span) then
      operatorLength (some t.span) ts + 1
    else 0

namespace Parser

/-- The inherited types after the colon, separated by commas. -/
def inheritedTypes (c : Cursor) : Outcome (List String) :=
  let before := c.newlines
  let o := typeText endsInherited (c.skip before)
  match o.result with
  | .error e => ⟨.error e, before + o.taken⟩
  | .ok type =>
    let n := before + o.taken + (c.skip (before + o.taken)).newlines
    match _h : (c.skip n).rest with
    | [] => ⟨.ok [type], n⟩
    | t :: _ =>
      if t.kind = .comma then
        ((inheritedTypes (c.skip (n + 1))).map (type :: ·)).after (n + 1)
      else ⟨.ok [type], n⟩
termination_by c.rest.length
decreasing_by
  have h := congrArg List.length _h
  simp only [Cursor.length_rest_skip, List.length_cons] at h
  simp only [Cursor.length_rest_skip]
  omega

/-- The name of a function: an identifier, or an operator. -/
def functionName : Parser String := do
  let c ← here
  if c.kind = .ident then return (← identifier).1
  else
    match operatorLength none c.rest with
    | 0 => fail (.expectedFunctionName c.kind)
    | n + 1 =>
      take (n + 1)
      return String.ofList (c.textBetween c.span (c.ahead n).span)

/-- A function, from its keyword.  Only a function proper has a name of its own; the others are
named by their keyword. -/
def function (kind : DeclarationKind) : Parser Declaration := inside .function do
  let keyword := (← here).currentText
  let _ ← next
  let name ←
    match kind with
    | .function => functionName
    | _ => Pure.pure (String.ofList keyword)
  if kind matches .initializer then
    let c ← here
    if c.kind = .question ∨ c.kind = .bang then take 1
  generics
  signatureAndBody
  return { Declaration.ofKind kind .none with name := name }

/-- A declaration of one line, from its keyword: named by the name that follows, if one does. -/
def line (kind : DeclarationKind) : Parser Declaration := do
  let _ ← next
  let name ← if (← here).kind = .ident then some <$> (·.1) <$> identifier else Pure.pure none
  restOfLine
  return { Declaration.ofKind kind .none with name := name }

/-- The header of a type, from its keyword up to its member block. -/
def typeHeader (kind : DeclarationKind) : Parser Declaration := inside .typeDeclaration do
  let _ ← next
  let name ←
    match kind with
    | .extension => typeText endsExtended
    | _ => (·.1) <$> identifier
  generics
  let inherited ←
    if ← eat .colon then inside .inheritanceClause inheritedTypes else Pure.pure []
  if ← eat .whereKw then discard (typeText (· == .leftBrace))
  skipNewlines
  return { Declaration.ofKind kind .none with name := name, inherited := inherited }

/-- A declaration up to its member block. -/
def head : Parser Head := do
  let first := (← here).span
  let attributes ← attributes
  let modifiers ← modifiers
  let c ← here
  let complete (d : Declaration) : Parser Head := do
    let span := first.merge (← here).previousSpan
    return .complete { d with attributes := attributes, modifiers := modifiers, span := span }
  match c.opening? with
  | some (.type kind) =>
    let d ← typeHeader kind
    return .type { d with attributes := attributes, modifiers := modifiers, span := first }
  | some (.function kind) => complete (← function kind)
  | some (.line kind) => complete (← line kind)
  | some .property => complete (Declaration.ofKind (← property) .none)
  | none =>
    if attributes.isEmpty ∧ modifiers.isEmpty then
      if c.kind = .hash then
        restOfLine
        return .directive
      else fail (.expectedDeclaration c.kind)
    else fail (.danglingModifiers c.kind)

end Parser

end Memberwise
