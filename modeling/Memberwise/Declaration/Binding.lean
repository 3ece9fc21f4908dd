import Memberwise.Declaration.Modifiers

/-!
# Declaration/Binding — what a property declaration binds

A property declaration binds one pattern after another, each with a type, an initializer and a block
of accessors where they are written.  Initializers are stepped over, so the only question is where
one ends: at a comma, a semicolon, a bracket that closes something else, a block of observers, or a
line end, unless the expression goes on over it.  It goes on when the line before ends in an
operator or the next line begins with one, but never into a line that can only begin a declaration
(`initializerContinues`).
-/

namespace Memberwise

open Text

namespace Cursor

/-- Whether a token of this kind at the end of a line leaves an expression open. -/
def endsOpen : TokenKind → Bool
  | .operator | .andAnd | .equalEqual | .equal | .colon => true
  | _ => false

/-- Whether a token of this kind at the beginning of a line goes on with an expression. -/
def goesOn : TokenKind → Bool
  | .dot | .operator | .andAnd | .equalEqual | .question | .colon => true
  | _ => false

/-- Whether the initializer before the line end that comes next goes on after it. -/
def initializerContinues (c : Cursor) : Bool :=
  !c.startsDeclaration c.pastNewlines &&
    (c.previousKind?.any endsOpen || goesOn c.pastNewlines.kind)

/-- Whether the brace that comes next opens observers of the property and not a closure. -/
def opensObservers (c : Cursor) : Bool :=
  let t := (c.skip 1).pastNewlines
  t.kind == .ident && ["willSet".toList, "didSet".toList].contains (c.text t.span)

/-- A token of an initializer. -/
def initializerStride (c : Cursor) : Stride :=
  match c.kind with
  | .endOfFile | .comma | .semicolon => .stop
  | .newline => if c.initializerContinues then .pass (c.newlines - 1) else .stop
  | .leftBrace => if c.opensObservers then .stop else .group
  | k => if k.isClose then .stop else if k.isOpen then .group else .pass 0

end Cursor

namespace Parser

/-- Step over an initializer. -/
def initializer : Parser Unit := stretch Cursor.initializerStride

/-! ## Patterns -/

mutual

/-- What stands to the left in a binding. -/
def pattern (c : Cursor) : Outcome Pattern :=
  match _h : c.rest with
  | [] => fail (.expectedBindingName c.kind) c
  | t :: _ =>
    match t.kind with
    | .ident =>
      if c.currentText = ['_'] then ⟨.ok .wildcard, 1⟩
      else ⟨.ok (.name (String.ofList (unescapeText c.currentText))), 1⟩
    | .leftParen =>
      let o := elements (c.skip 1)
      match o.result with
      | .error e => ⟨.error e, 1 + o.taken⟩
      | .ok ps =>
        ((expect .rightParen (c.skip (1 + o.taken))).map fun _ => .tuple ps).after (1 + o.taken)
    | _ => fail (.expectedBindingName c.kind) c
termination_by 2 * c.rest.length
decreasing_by
  simp only [_h, Cursor.rest_skip, List.drop_one, List.tail_cons, List.length_cons]
  omega

/-- The patterns between parentheses, after the opening one and before the closing one. -/
def elements (c : Cursor) : Outcome (List Pattern) :=
  let before := c.newlines
  if (c.skip before).kind = .rightParen then ⟨.ok [], before⟩
  else
    let o := pattern (c.skip before)
    match o.result with
    | .error e => ⟨.error e, before + o.taken⟩
    | .ok p =>
      let n := before + o.taken + (c.skip (before + o.taken)).newlines
      match _h : (c.skip n).rest with
      | [] => ⟨.ok [p], n⟩
      | t :: _ =>
        if t.kind = .comma then
          ((elements (c.skip (n + 1))).map (p :: ·)).after (n + 1)
        else ⟨.ok [p], n⟩
termination_by 2 * c.rest.length + 1
decreasing_by
  · simp only [Cursor.length_rest_skip]
    omega
  · have h := congrArg List.length _h
    simp only [Cursor.length_rest_skip, List.length_cons] at h ⊢
    omega

end

/-! ## Bindings -/

/-- The tokens that end the type of a binding. -/
def endsBindingType : TokenKind → Bool
  | .equal | .leftBrace | .newline | .semicolon | .comma => true
  | _ => false

/-- The type after a binding's colon, if there is one. -/
def bindingType? : Parser (Option String) := do
  if ← eat .colon then
    return some (← inside .writtenType (typeText endsBindingType))
  else return none

/-- One binding. -/
def binding : Parser Binding := do
  let first := (← here).span
  let pattern ← pattern
  let type ← bindingType?
  let hasInitializer ← eat .equal
  if hasInitializer then initializer
  let hasAccessors := (← here).kind == .leftBrace
  if hasAccessors then discard group
  return ⟨pattern, type, hasInitializer, hasAccessors, first.merge (← here).previousSpan⟩

/-- The bindings after the first, each behind a comma. -/
def furtherBindings (c : Cursor) : Outcome (List Binding) :=
  match _h : c.rest with
  | [] => ⟨.ok [], 0⟩
  | t :: _ =>
    if t.kind = .comma then
      let before := (c.skip 1).newlines
      let o := binding (c.skip (1 + before))
      match o.result with
      | .error e => ⟨.error e, 1 + before + o.taken⟩
      | .ok b =>
        ((furtherBindings (c.skip (1 + before + o.taken))).map (b :: ·)).after
          (1 + before + o.taken)
    else ⟨.ok [], 0⟩
termination_by c.rest.length
decreasing_by
  simp only [Cursor.length_rest_skip, _h, List.length_cons]
  omega

/-- A property declaration, from its `let` or `var`. -/
def property : Parser DeclarationKind := inside .property do
  let introducer : Introducer := if (← next).kind = .letKw then .let else .var
  let first ← binding
  let further ← furtherBindings
  return .property ⟨introducer, first :: further⟩

end Parser

end Memberwise
