import Memberwise.Declaration.Balanced
import Memberwise.Declaration.Basic

/-!
# Declaration/Modifiers — what stands before a declaration

A declaration begins with attributes, then modifiers, each on the declaration's line or on lines of
their own.  An attribute's arguments have to touch its name.  Most modifiers are ordinary names that
count as modifiers only where they cannot be anything else: `open` is one in `open class`, not in
`open = true`.

`startsDeclaration` says whether a token can only be the beginning of a declaration; a line that
begins so ends the initializer of the line before.
-/

namespace Memberwise

open Text

/-- The names that are modifiers in front of a declaration. -/
def modifierWords : List String :=
  ["public", "package", "internal", "fileprivate", "private", "open", "final", "lazy", "weak",
    "unowned", "override", "required", "convenience", "mutating", "nonmutating", "dynamic",
    "optional", "indirect", "nonisolated", "isolated", "distributed", "prefix", "postfix", "infix",
    "consuming", "borrowing"]

/-- Whether a text is one of the modifier words. -/
def isModifierWord (word : List Char) : Bool := modifierWords.contains (String.ofList word)

/-! ## Attributes -/

/-- How many times a dot and a name come next. -/
def segmentCount : List Token → Nat
  | dot :: name :: ts =>
    if dot.kind = .dot ∧ name.kind = .ident then segmentCount ts + 1 else 0
  | _ => 0

namespace Parser

/-- A name, and further ones after dots. -/
def qualifiedName : Parser String := do
  let (first, _) ← identifier
  let c ← here
  let count := segmentCount c.rest
  let segments := (List.range count).map fun i =>
    String.ofList (unescapeText (c.text (c.ahead (2 * i + 1)).span))
  take (2 * count)
  return ".".intercalate (first :: segments)

/-- The text between parentheses that touch the token before them, if there are any. -/
def attributeArguments : Parser (Option String) := do
  let c ← here
  if c.kind = .leftParen ∧ c.previousSpan.touches c.span then
    let (opening, closing) ← group
    return some (String.ofList (trim (c.text ⟨opening.stop, closing.start⟩)))
  else return none

/-- An attribute, from after the `@` that stands at `atSign`. -/
def attributeAfter (atSign : Span) : Parser Attribute := inside .attribute do
  let name ← qualifiedName
  let arguments ← attributeArguments
  return ⟨name, arguments, atSign.merge (← here).previousSpan⟩

/-- The attributes that come next, with the line ends after each. -/
def attributes (c : Cursor) : Outcome (List Attribute) :=
  match _h : c.rest with
  | [] => ⟨.ok [], 0⟩
  | t :: _ =>
    if t.kind = .atSign then
      let o := attributeAfter t.span (c.skip 1)
      match o.result with
      | .error e => ⟨.error e, 1 + o.taken⟩
      | .ok a =>
        let n := o.taken + (c.skip (1 + o.taken)).newlines
        ((attributes (c.skip (1 + n))).map (a :: ·)).after (1 + n)
    else ⟨.ok [], 0⟩
termination_by c.rest.length
decreasing_by
  simp only [Cursor.length_rest_skip, _h, List.length_cons]
  omega

end Parser

/-! ## Modifiers -/

namespace Cursor

/-- Whether a `class` that comes next belongs to the member after it. -/
def classIsModifier (c : Cursor) : Bool :=
  match (c.ahead 1).kind with
  | .varKw | .letKw | .funcKw | .subscriptKw | .staticKw => true
  | .ident => isModifierWord (c.text (c.ahead 1).span)
  | _ => false

/-- Whether a name that comes next is a modifier and not a name. -/
def wordIsModifier (c : Cursor) : Bool :=
  isModifierWord c.currentText &&
    match (c.ahead 1).kind with
    | .leftParen => (c.ahead 2).kind == .ident && (c.ahead 3).kind == .rightParen
    | .colon | .equal | .equalEqual | .dot | .comma | .operator | .rightParen => false
    | _ => true

/-- The modifier that a word is, with the word in parentheses after it, if there is one. -/
def wordModifier (word : String) (argument : Option String) : ModifierKind :=
  match Access.ofKeyword? word, argument with
  | some level, none => .access level
  | some level, some argument =>
    if argument = "set" then .setterAccess level else .other word
  | none, _ => .other word

/-- The modifier that comes next, if one does, and how many tokens follow its first one. -/
def modifier? (c : Cursor) : Option (ModifierKind × Nat) :=
  match c.kind with
  | .staticKw => some (.static, 0)
  | .classKw => if c.classIsModifier then some (.class, 0) else none
  | .ident =>
    if c.wordIsModifier then
      let word := String.ofList c.currentText
      if (c.ahead 1).kind = .leftParen then
        some (wordModifier word (some (String.ofList (c.text (c.ahead 2).span))), 3)
      else some (wordModifier word none, 0)
    else none
  | _ => none

/-- The modifiers that come next, with the line ends after each, and how many tokens they take. -/
def modifiers (c : Cursor) : List Modifier × Nat :=
  match _h : c.rest with
  | [] => ([], 0)
  | t :: _ =>
    match c.modifier? with
    | none => ([], 0)
    | some (kind, n) =>
      let m := n + 1 + (c.skip (n + 1)).newlines
      let later := modifiers (c.skip m)
      (⟨kind, t.span.merge (c.skip (n + 1)).previousSpan⟩ :: later.1, m + later.2)
termination_by c.rest.length
decreasing_by
  simp only [Cursor.length_rest_skip, _h, List.length_cons]
  omega

/-- Whether a token can only be the beginning of a declaration. -/
def startsDeclaration (c : Cursor) (t : Token) : Bool :=
  t.kind.isDeclarationKeyword ||
    match t.kind with
    | .atSign | .hash | .staticKw => true
    | .ident => isModifierWord (c.text t.span)
    | _ => false

/-- Whether a declaration keyword that is an ordinary name elsewhere comes next: the name, and then
the name it declares. -/
def isContextualKeyword (c : Cursor) (word : String) : Bool :=
  c.isWord word && (c.ahead 1).kind == .ident

end Cursor

/-- Take the modifiers that come next. -/
def Parser.modifiers : Parser (List Modifier) := fun c =>
  ⟨.ok c.modifiers.1, min c.modifiers.2 c.rest.length⟩

end Memberwise
