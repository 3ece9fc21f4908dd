import Memberwise.Declaration.SourceFile
import Memberwise.Text.Quoted

/-!
# Command/Listing — tokens and declarations, line by line

Two listings show how a text was read: its tokens with their spans, and its declarations as a tree
indented by depth.  Below either stand the errors with their spans.
-/

namespace Memberwise.Command

/-- Lines one after the other, each with its end. -/
def lines (ls : List String) : String := String.join (ls.map (· ++ "\n"))

/-- The lines of the errors below a listing, an empty line and a heading before them. -/
def errorLines (errors : List (Span × String)) : List String :=
  if errors.isEmpty then []
  else "" :: "Errors:" :: errors.map fun (span, message) => s!"  {span.render}: {message}"

/-- The tokens of a text, under its path. -/
def tokenListing (path text : String) : String :=
  let lexed := lex text
  lines <| s!"Tokens for '{path}' ({lexed.tokens.length} tokens):"
    :: lexed.tokens.toList.map (fun t => s!"  {t.kind.listingName} @ {t.span.render}")
    ++ errorLines (lexed.errors.map fun e => (e.span, e.toDiagnostic.message))

/-- A modifier as a listing shows it. -/
def listModifier (m : Modifier) : String :=
  match m.kind with
  | .access level => s!"Access({level.listingName})"
  | .setterAccess level => s!"SetterAccess({level.listingName})"
  | .static => "Static"
  | .class => "Class"
  | .other word => s!"Other({Text.quote word})"

/-- A binding as a listing shows it: its pattern, and its type if one is written. -/
def listBinding (b : Binding) : String :=
  match b.type with
  | some type => s!"{b.pattern.render}: {type}"
  | none => b.pattern.render

/-- What a listing calls a declaration: its name, or what it binds. -/
def listName (d : Declaration) : String :=
  match d.property? with
  | some p => String.intercalate ", " (p.bindings.map listBinding)
  | none => d.name.getD ""

/-- The line of a declaration. -/
def listHead (depth : Nat) (d : Declaration) : String :=
  String.join (List.replicate depth "  ")
    ++ String.join (d.attributes.map fun a => s!"@{a.name} ")
    ++ String.join (d.modifiers.map fun m => listModifier m ++ " ")
    ++ s!"{d.kind.describe} {listName d}"
    ++ (if d.inherited.isEmpty then "" else " : " ++ String.intercalate ", " d.inherited)

mutual

/-- The lines of a declaration and everything inside it. -/
def listDeclaration (depth : Nat) (d : Declaration) : List String :=
  match d with
  | ⟨kind, name, attributes, modifiers, inherited, members, span⟩ =>
    listHead depth ⟨kind, name, attributes, modifiers, inherited, members, span⟩
      :: listBlock (depth + 1) members

/-- The lines of the declarations in a block, if there is one. -/
def listBlock (depth : Nat) : Option (List Declaration) → List String
  | none => []
  | some ds => listDeclarations depth ds

/-- The lines of declarations. -/
def listDeclarations (depth : Nat) : List Declaration → List String
  | [] => []
  | d :: ds => listDeclaration depth d ++ listDeclarations depth ds

end

/-- The declarations of a text, under its path. -/
def declarationListing (path text : String) : String :=
  let file := (Reading.ofSource text).file
  lines <| [s!"Parse result for '{path}':",
      s!"  Declarations: {file.declarations.length}", s!"  Errors: {file.errors.length}"]
    ++ (if file.declarations.isEmpty then [] else "" :: listDeclarations 1 file.declarations)
    ++ errorLines (file.errors.map fun e => (e.span, e.message))

end Memberwise.Command
