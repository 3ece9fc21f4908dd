import Memberwise.Equality.Printer
import Memberwise.Expansion.OfFile
import Memberwise.Text.Blank

/-!
# Expansion/Splice — the expanded text

The expanded text is the source with two kinds of edits: each consumed attribute is cut out, and the
extensions that follow a declaration are put in after it, an empty line before each.  Edits are made
from front to back; where two stand at one place, what is put in comes first.  An edit whose place
is behind the one reached, or is no place in the text, is left out.

An attribute takes the blanks after it along, and if it is alone on its line the line as well.  Text
that is put in ends its lines as the declaration it follows does.
-/

namespace Memberwise

open Text

/-- A change to a text. -/
inductive Edit where
  /-- Put a text in at an offset. -/
  | insertion (offset : Nat) (text : List Char)
  /-- Cut an attribute out. -/
  | removal (span : Span)
  deriving DecidableEq, Repr

/-- Where an edit is made. -/
def Edit.position : Edit → Nat
  | insertion offset _ => offset
  | removal span => span.start

/-- How the lines of a text end. -/
inductive LineEnding where
  | newline
  /-- A carriage return before the newline. -/
  | returnNewline
  deriving DecidableEq, Repr

namespace LineEnding

/-- The characters that end a line. -/
def chars : LineEnding → List Char
  | newline => ['\n']
  | returnNewline => ['\r', '\n']

/-- How the first line of a text ends; one that never does ends as if by a newline. -/
def ofText : List Char → LineEnding
  | [] => newline
  | '\n' :: _ => newline
  | '\r' :: '\n' :: _ => returnNewline
  | _ :: s => ofText s

/-- How the lines of a declaration end: as the first that starts inside or after it. -/
def ofAnchor (source : List Char) (anchor : Span) : LineEnding :=
  ofText ((drop? anchor.start source).getD [])

/-- A text with its line ends written this way. -/
def apply (ending : LineEnding) (s : List Char) : List Char :=
  s.flatMap fun c => if c = '\n' then ending.chars else [c]

end LineEnding

/-- The text put in after a declaration. -/
def Addition.text (ending : LineEnding) (a : Addition) : List Char :=
  a.extensions.flatMap fun e => ending.chars ++ ending.chars ++ ending.apply (chars e.fragments)

/-- The edits that an expansion asks for, in the order they are made. -/
def FileExpansion.edits (source : List Char) (f : FileExpansion) : List Edit :=
  (f.additions.map (fun a => Edit.insertion a.anchor.stop (a.text (.ofAnchor source a.anchor)))
    ++ f.consumed.map Edit.removal).mergeSort fun e e' => decide (e.position ≤ e'.position)

/-- A text being edited: what is written so far, and how far the source has been read. -/
structure Splice where
  written : List Char
  position : Nat
  deriving DecidableEq, Repr

namespace Splice

/-- Nothing written and nothing read. -/
def start : Splice := ⟨[], 0⟩

/-- A text without the blanks at the end of its last line, if that line has nothing else. -/
def dropIndent? (s : List Char) : Option (List Char) :=
  let kept := dropWhileEnd isInlineSpace s
  if kept = [] ∨ kept.getLast? = some '\n' then some kept else none

/-- The bytes of the line end that a text begins with. -/
def lineEndLength : List Char → Nat
  | '\r' :: '\n' :: _ => 2
  | '\n' :: _ => 1
  | _ => 0

/-- Go on after an attribute that ends at an offset. -/
def skipAttribute (source : List Char) (stop : Nat) (written : List Char) : Splice :=
  let rest := (drop? stop source).getD []
  let after := stop + byteLength (rest.takeWhile isInlineSpace)
  let line := lineEndLength (rest.dropWhile isInlineSpace)
  match dropIndent? written with
  | some kept => if 0 < line then ⟨kept, after + line⟩ else ⟨written, after⟩
  | none => ⟨written, after⟩

/-- Copy the source up to an edit and make it. -/
def edit (source : List Char) (s : Splice) (e : Edit) : Splice :=
  match slice? s.position e.position source with
  | none => s
  | some before =>
    match e with
    | .insertion offset text => ⟨s.written ++ before ++ text, offset⟩
    | .removal span => skipAttribute source span.stop (s.written ++ before)

/-- Copy what is left of the source. -/
def finish (source : List Char) (s : Splice) : List Char :=
  s.written ++ (drop? s.position source).getD []

end Splice

/-- A source with edits made from front to back. -/
def applyEdits (source : List Char) (edits : List Edit) : List Char :=
  (edits.foldl (Splice.edit source) .start).finish source

/-- The expanded text of a source. -/
def FileExpansion.apply (source : List Char) (f : FileExpansion) : List Char :=
  applyEdits source (f.edits source)

/-! ## Nothing to change -/

@[simp] theorem applyEdits_nil (source : List Char) : applyEdits source [] = source := by
  simp [applyEdits, Splice.finish, Splice.start]

/-- An expansion without anything to change leaves the text as it is. -/
@[simp] theorem FileExpansion.apply_empty (source : List Char) :
    FileExpansion.empty.apply source = source := by
  simp [apply, edits, empty]

end Memberwise
