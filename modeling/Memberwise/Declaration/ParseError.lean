import Memberwise.Diagnostic.Basic
import Memberwise.Token.Basic

/-!
# Declaration/ParseError — why a declaration could not be read

An error is a cause, where it was noticed, and the construct that was being read.  The innermost
construct counts: `within` names one only if none is named yet.  A delimiter that is never closed is
noticed at the end of the text and points back to where it was opened.
-/

namespace Memberwise

/-- What was being read when an error was noticed. -/
inductive Construct where
  | sourceFile
  | typeDeclaration
  | memberBlock
  | inheritanceClause
  | «attribute»
  | property
  | writtenType
  | function
  deriving DecidableEq, Repr

/-- What completes "while parsing". -/
def Construct.describe : Construct → String
  | sourceFile => "a source file"
  | typeDeclaration => "a type declaration"
  | memberBlock => "a member block"
  | inheritanceClause => "an inheritance clause"
  | .attribute => "an attribute"
  | property => "a property declaration"
  | writtenType => "a type annotation"
  | function => "a function declaration"

/-- Why reading failed.  Each cause names the token found instead, if any was asked for. -/
inductive ParseFault where
  /-- A token of one kind was needed. -/
  | expectedToken (kind found : TokenKind)
  | expectedIdentifier (found : TokenKind)
  | expectedBindingName (found : TokenKind)
  | expectedFunctionName (found : TokenKind)
  | expectedType (found : TokenKind)
  | expectedDeclaration (found : TokenKind)
  /-- Attributes or modifiers with no declaration after them. -/
  | danglingModifiers (found : TokenKind)
  /-- A closing brace that closes nothing. -/
  | strayBrace
  /-- A group or generic clause that the text ends inside of. -/
  | unclosedGroup (kind : TokenKind) (opened : Span)
  /-- A member block that the text ends inside of. -/
  | unclosedBlock (opened : Span)
  deriving DecidableEq, Repr

/-- A failure to read, where it was noticed and in what. -/
structure ParseError where
  fault : ParseFault
  span : Span
  construct : Option Construct
  deriving DecidableEq, Repr

namespace ParseFault

/-- The code of a fault. -/
def code : ParseFault → Diagnostic.Code
  | expectedToken .. | expectedType _ | strayBrace => .unexpectedToken
  | expectedIdentifier _ | expectedBindingName _ | expectedFunctionName _ => .expectedIdentifier
  | expectedDeclaration _ | danglingModifiers _ => .expectedDeclaration
  | unclosedGroup .. | unclosedBlock _ => .unclosedDelimiter

/-- The wording of a fault. -/
def message : ParseFault → String
  | expectedToken kind found => s!"expected {kind.describe}, found {found.describe}"
  | expectedIdentifier found => s!"expected identifier, found {found.describe}"
  | expectedBindingName found => s!"expected a binding name, found {found.describe}"
  | expectedFunctionName found => s!"expected function name, found {found.describe}"
  | expectedType found => s!"expected a type, found {found.describe}"
  | expectedDeclaration found => s!"expected declaration, found {found.describe}"
  | danglingModifiers found =>
    s!"expected declaration after attributes and modifiers, found {found.describe}"
  | strayBrace => s!"unexpected {TokenKind.rightBrace.describe}"
  | unclosedGroup kind _ => s!"unclosed {kind.describe}"
  | unclosedBlock _ => s!"unclosed {TokenKind.leftBrace.describe}"

/-- The place a fault points back to, and what is said there. -/
def related? : ParseFault → Option (Span × String)
  | unclosedGroup _ opened => some (opened, "opened here")
  | unclosedBlock opened => some (opened, "member block opened here")
  | _ => none

end ParseFault

namespace ParseError

/-- The code of an error. -/
def code (e : ParseError) : Diagnostic.Code := e.fault.code

/-- The wording of an error. -/
def message (e : ParseError) : String := e.fault.message

/-- The error, in a construct unless a narrower one is named already. -/
def within (e : ParseError) (construct : Construct) : ParseError :=
  { e with construct := e.construct <|> some construct }

/-- What to report about an error. -/
def toDiagnostic (e : ParseError) : Diagnostic :=
  let d := Diagnostic.error e.code e.message e.span "here"
  let d := match e.fault.related? with
    | some (span, message) => d.related span message
    | none => d
  match e.construct with
  | some construct => d.noting s!"while parsing {construct.describe}"
  | none => d

/-- Every error of reading carries a parser code. -/
theorem phase_code (e : ParseError) : e.code.phase = .parser := by
  unfold code
  cases e.fault <;> rfl

@[simp] theorem within_within (e : ParseError) (a b : Construct) :
    (e.within a).within b = e.within a := by
  cases h : e.construct <;> simp [within, h]

end ParseError

end Memberwise
