import Memberwise.Diagnostic.Basic
import Memberwise.Diagnostic.LineTable

/-!
# Diagnostic/Terminal — diagnostics for a reader at a terminal

A diagnostic is a headline, a line for each label, each note and each suggestion, and an empty line.
Labels are placed by path, line and column when the source is at hand, and by offsets when it is
not.  Words that matter are coloured if colours are wanted; without the colours the text is the
same.
-/

namespace Memberwise.Diagnostic

/-- When colours are used. -/
inductive ColorMode where
  /-- If the text goes to a terminal. -/
  | auto
  | always
  | never
  deriving DecidableEq, Repr, Inhabited

/-- Whether colours are used for a text that does or does not go to a terminal. -/
def ColorMode.usesColors (mode : ColorMode) (toTerminal : Bool) : Bool :=
  match mode with
  | auto => toTerminal
  | always => true
  | never => false

/-- How a word stands out. -/
inductive Emphasis where
  | error
  | warning
  | note
  | help
  | bold
  | secondary
  deriving DecidableEq, Repr

namespace Emphasis

/-- The code between the escape and the `m` that switches an emphasis on. -/
def code : Emphasis → String
  | error => "1;31"
  | warning => "1;33"
  | note => "1;36"
  | help => "1;32"
  | bold => "1"
  | secondary => "1;34"

/-- The sequence for a terminal with this code. -/
def sequence (code : String) : String := "\x1b[" ++ code ++ "m"

/-- A text with an emphasis, if colours are used. -/
def apply (e : Emphasis) (colors : Bool) (s : String) : String :=
  if colors then sequence e.code ++ s ++ sequence "0" else s

@[simp] theorem apply_false (e : Emphasis) (s : String) : e.apply false s = s := rfl

end Emphasis

/-- How a severity stands out. -/
def severityEmphasis : Severity → Emphasis
  | .error => .error
  | .warning => .warning
  | .note => .note

/-- A source that labels are placed in. -/
structure NamedSource where
  path : String
  text : List Char
  lines : LineTable

/-- A source under a path. -/
def NamedSource.ofText (path text : String) : NamedSource :=
  ⟨path, text.toList, .ofText text.toList⟩

/-- How diagnostics are shown. -/
structure Terminal where
  colors : Bool
  source : Option NamedSource

namespace Terminal

/-- Where a span is said to be. -/
def location (t : Terminal) (span : Span) : String :=
  match t.source with
  | none => span.render
  | some s =>
    let p := s.lines.position s.text span.start
    s!"{s.path}:{p.line}:{p.column}"

/-- The line of a label. -/
def label (t : Terminal) (l : Label) : String :=
  let marker := if l.primary then "-->" else "   "
  let emphasis : Emphasis := if l.primary then .error else .secondary
  s!"  {marker} {t.location l.span}: " ++ emphasis.apply t.colors l.message ++ "\n"

/-- The line of a note or a suggestion. -/
def remark (t : Terminal) (emphasis : Emphasis) (word text : String) : String :=
  "  = " ++ emphasis.apply t.colors word ++ s!": {text}\n"

/-- A diagnostic as the terminal shows it. -/
def render (t : Terminal) (d : Diagnostic) : String :=
  (severityEmphasis d.severity).apply t.colors d.severity.render
    ++ Emphasis.bold.apply t.colors s!"[{d.code.render}]" ++ s!": {d.message}\n"
    ++ String.join (d.labels.map t.label)
    ++ String.join (d.notes.map (t.remark .bold "note"))
    ++ String.join (d.suggestions.map (t.remark .help "help"))
    ++ "\n"

/-- Diagnostics as the terminal shows them. -/
def renderAll (t : Terminal) (ds : List Diagnostic) : String := String.join (ds.map t.render)

/-- How many warnings there were. -/
def warningsEmitted (n : Nat) : String :=
  s!"{n} warning" ++ (if n = 1 then "" else "s") ++ " emitted"

/-- The last line of a run, which says how many errors and warnings there were. -/
def summary (t : Terminal) (errors warnings : Nat) : String :=
  if 0 < errors then
    let before := if errors = 1 then "previous error" else s!"{errors} previous errors"
    Emphasis.error.apply t.colors "error" ++ s!": aborting due to {before}"
      ++ (if 0 < warnings then s!"; {warningsEmitted warnings}" else "") ++ "\n"
  else if 0 < warnings then
    Emphasis.warning.apply t.colors "warning" ++ s!": {warningsEmitted warnings}\n"
  else ""

end Terminal

end Memberwise.Diagnostic
