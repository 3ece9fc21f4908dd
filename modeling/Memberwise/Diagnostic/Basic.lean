import Memberwise.Diagnostic.Code
import Memberwise.Span

/-!
# Diagnostic/Basic — a problem with everything that is said about it

A diagnostic has a code, a severity and a message, labels that point into the source, and notes and
suggestions that do not.  The label the reader should look at first is primary; where the diagnostic
stands is the span of its first primary label, if it has one.
-/

namespace Memberwise

/-- How bad a problem is. -/
inductive Severity where
  | error
  | warning
  | note
  deriving DecidableEq, Repr, Inhabited

/-- The word for a severity. -/
def Severity.render : Severity → String
  | .error => "error"
  | .warning => "warning"
  | .note => "note"

/-- A message about one place. -/
structure Label where
  span : Span
  message : String
  primary : Bool
  deriving DecidableEq, Repr, Inhabited

/-- A problem with everything that is said about it. -/
structure Diagnostic where
  code : Diagnostic.Code
  severity : Severity
  message : String
  labels : List Label
  notes : List String
  suggestions : List String
  deriving DecidableEq, Repr, Inhabited

namespace Diagnostic

/-- An error with a primary label and nothing more to say. -/
def error (code : Code) (message : String) (span : Span) (label : String) : Diagnostic :=
  ⟨code, .error, message, [⟨span, label, true⟩], [], []⟩

/-- A warning with a primary label and nothing more to say. -/
def warning (code : Code) (message : String) (span : Span) (label : String) : Diagnostic :=
  ⟨code, .warning, message, [⟨span, label, true⟩], [], []⟩

/-- The diagnostic with a further label, not primary. -/
def related (d : Diagnostic) (span : Span) (message : String) : Diagnostic :=
  { d with labels := d.labels ++ [⟨span, message, false⟩] }

/-- The diagnostic with a further note. -/
def noting (d : Diagnostic) (note : String) : Diagnostic := { d with notes := d.notes ++ [note] }

/-- The diagnostic with a further suggestion. -/
def suggesting (d : Diagnostic) (suggestion : String) : Diagnostic :=
  { d with suggestions := d.suggestions ++ [suggestion] }

/-- Whether the diagnostic is an error. -/
def isError (d : Diagnostic) : Bool := d.severity == .error

/-- Whether the diagnostic is a warning. -/
def isWarning (d : Diagnostic) : Bool := d.severity == .warning

/-- Where the diagnostic stands: the span of its first primary label. -/
def primarySpan? (d : Diagnostic) : Option Span := (d.labels.find? (·.primary)).map (·.span)

/-- The diagnostic as plain lines, spans as offsets. -/
def render (d : Diagnostic) : String :=
  s!"{d.severity.render}[{d.code.render}]: {d.message}"
    ++ String.join (d.labels.map fun l => s!"\n  --> {l.span.render}: {l.message}")
    ++ String.join (d.notes.map fun n => s!"\n  = note: {n}")
    ++ String.join (d.suggestions.map fun s => s!"\n  = help: {s}")

/-! ## Where a diagnostic stands -/

@[simp] theorem primarySpan?_error (code : Code) (m : String) (s : Span) (l : String) :
    (error code m s l).primarySpan? = some s := rfl

@[simp] theorem primarySpan?_warning (code : Code) (m : String) (s : Span) (l : String) :
    (warning code m s l).primarySpan? = some s := rfl

@[simp] theorem primarySpan?_noting (d : Diagnostic) (n : String) :
    (d.noting n).primarySpan? = d.primarySpan? := rfl

@[simp] theorem primarySpan?_suggesting (d : Diagnostic) (s : String) :
    (d.suggesting s).primarySpan? = d.primarySpan? := rfl

/-- A further label does not move the diagnostic. -/
@[simp] theorem primarySpan?_related (d : Diagnostic) (s : Span) (m : String) :
    (d.related s m).primarySpan? = d.primarySpan? := by
  simp [primarySpan?, related, List.find?_append]

end Diagnostic

end Memberwise
