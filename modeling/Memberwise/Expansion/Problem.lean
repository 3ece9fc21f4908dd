import Memberwise.Declaration.ParseError
import Memberwise.Equality.Extension
import Memberwise.Record.OfDeclaration
import Memberwise.Token.Lex

/-!
# Expansion/Problem — what can go wrong with one declaration

A problem is a cause and a place.  A declaration that is no record and an extension that cannot be
put together, or that does not read back as it was meant, are errors, and nothing is generated; a
binding without a plain name is a warning, and only that member is left out.
-/

namespace Memberwise

/-- Why the text of an extension does not stand for that extension. -/
inductive ReadBackFault where
  | lexing (error : LexError)
  | parsing (error : ParseError)
  /-- It reads, but as something else. -/
  | unexpectedShape
  deriving Repr

/-- The wording of why an extension's text does not stand for it. -/
def ReadBackFault.message : ReadBackFault → String
  | lexing error => s!"printed extension does not lex: {error.toDiagnostic.message}"
  | parsing error => s!"printed extension does not parse: {error.message}"
  | unexpectedShape => "printed extension has an unexpected shape"

/-- What went wrong with a declaration. -/
inductive ProblemCause where
  | unsupported (fault : RecordFault)
  | malformedBinding (pattern : Pattern)
  | assembly (fault : AssemblyFault)
  | readBack (fault : ReadBackFault)
  deriving Repr

/-- What went wrong with a declaration, and where. -/
structure Problem where
  cause : ProblemCause
  span : Span
  deriving Repr

namespace Problem

/-- The code of a problem. -/
def code (p : Problem) : Diagnostic.Code :=
  match p.cause with
  | .unsupported _ => .unsupportedDeclaration
  | .malformedBinding _ => .malformedBinding
  | .assembly _ | .readBack _ => .assemblyFailure

/-- The error for an extension that cannot be put together. -/
def assemblyDiagnostic (span : Span) (reason : String) : Diagnostic :=
  (Diagnostic.error .assemblyFailure "failed to build extension" span reason).noting
    "this is an internal error; no code is generated"

/-- What to report about a problem. -/
def toDiagnostic (p : Problem) : Diagnostic :=
  match p.cause with
  | .unsupported fault =>
    ((Diagnostic.error .unsupportedDeclaration "@Equatable can only be applied to record types"
      p.span s!"this is a `{fault.describe}` declaration").noting
        "no code is generated for this declaration").suggesting
          "declare the type as a `struct`"
  | .malformedBinding pattern =>
    (Diagnostic.warning .malformedBinding
      s!"member binding `{pattern.render}` has no simple name" p.span "not compared").noting
        "the member is left out of the generated `==`"
  | .assembly fault => assemblyDiagnostic p.span fault.message
  | .readBack fault => assemblyDiagnostic p.span fault.message

/-- A problem in one line. -/
def message (p : Problem) : String :=
  match p.cause with
  | .unsupported fault =>
    s!"@Equatable can only be applied to record types, not {fault.describe}"
  | .malformedBinding pattern => s!"member binding `{pattern.render}` has no simple name"
  | .assembly fault => s!"failed to build extension: {fault.message}"
  | .readBack fault => s!"failed to build extension: {fault.message}"

/-- What is reported carries the problem's code. -/
@[simp] theorem code_toDiagnostic (p : Problem) : p.toDiagnostic.code = p.code := by
  unfold toDiagnostic code
  split <;> rfl

/-- What is reported stands where the problem does. -/
@[simp] theorem primarySpan?_toDiagnostic (p : Problem) :
    p.toDiagnostic.primarySpan? = some p.span := by
  unfold toDiagnostic
  split <;> simp [assemblyDiagnostic]

end Problem

end Memberwise
