import Memberwise.Declaration.SourceFile
import Memberwise.Expansion.Splice

/-!
# Expansion/OfSource — a source text expanded

A text in which anything is wrong with the characters or the declarations is not expanded at all and
comes back as it is.  Otherwise its declarations are expanded, and every extension is printed and
read back: what does not come back as one extension of that type with one function in it is left out
with an error.

**A text that cannot be read comes back unchanged** (`ofSource_of_not_readable`).
-/

namespace Memberwise

open Text

namespace Extension

/-- Whether declarations read from a text are one extension of a type with one function in it. -/
def isShapeOf (type : String) : List Declaration → Bool
  | [d] =>
    (match d.kind with
      | .extension => true
      | _ => false)
    && d.name == some type
    && (match d.members with
      | some [m] => (match m.kind with
        | .function => true
        | _ => false)
      | _ => false)
  | _ => false

/-- Why the text of an extension does not stand for that extension, if it does not. -/
def readBackFault? (e : Extension) : Option ReadBackFault :=
  let r := Reading.ofSource e.render
  match r.lexed.errors, r.file.errors with
  | error :: _, _ => some (.lexing error)
  | [], error :: _ => some (.parsing error)
  | [], [] => if isShapeOf e.extendedType r.file.declarations then none else some .unexpectedShape

end Extension

namespace Addition

/-- The addition with the extensions that read back, unless none does. -/
def readable? (a : Addition) : Option Addition :=
  match a.extensions.filter (·.readBackFault?.isNone) with
  | [] => none
  | extensions => some { a with extensions }

/-- The problems of the extensions that do not read back. -/
def readBackProblems (a : Addition) : List Problem :=
  a.extensions.filterMap fun e => e.readBackFault?.map fun fault => ⟨.readBack fault, a.anchor⟩

end Addition

/-- The expansion with the extensions that read back. -/
def FileExpansion.readable (f : FileExpansion) : FileExpansion :=
  { f with additions := f.additions.filterMap Addition.readable? }

/-- A source text expanded. -/
structure SourceExpansion where
  /-- The expanded text. -/
  output : String
  expansion : FileExpansion
  /-- What is wrong with characters, then with declarations, then with their expansion. -/
  diagnostics : List Diagnostic
  deriving Repr

namespace SourceExpansion

/-- The extensions alone. -/
def extensions (e : SourceExpansion) : String := Extension.renderAll e.expansion.extensions

/-- Whether any diagnostic is an error. -/
def hasErrors (e : SourceExpansion) : Bool := e.diagnostics.any (·.isError)

/-- Whether the text could not be read, and so was not expanded. -/
def failedToRead (e : SourceExpansion) : Bool := e.diagnostics.any (·.code.isFrontEnd)

/-- The number of extensions generated. -/
def count (e : SourceExpansion) : Nat := e.expansion.extensions.length

/-- The expansion of a source text. -/
def ofSource (registry : Registry) (rules : ExclusionRules) (source : String) :
    SourceExpansion :=
  let r := Reading.ofSource source
  match r.diagnostics with
  | [] =>
    let ds := r.file.declarations
    let full := FileExpansion.ofDeclarations registry rules ds
    let expansion := full.readable
    let problems :=
      expansionProblems registry rules ds ++ full.additions.flatMap (·.readBackProblems)
    ⟨String.ofList (expansion.apply source.toList), expansion,
      problems.map Problem.toDiagnostic⟩
  | diagnostics => ⟨source, .empty, diagnostics⟩

/-- **A text that cannot be read comes back unchanged**, with all that is wrong with it. -/
theorem ofSource_of_not_readable {registry : Registry} {rules : ExclusionRules} {source : String}
    (h : (Reading.ofSource source).diagnostics ≠ []) :
    ofSource registry rules source
      = ⟨source, .empty, (Reading.ofSource source).diagnostics⟩ := by
  unfold ofSource
  dsimp only
  split
  · rename_i h'
    exact absurd h' h
  · rfl

end SourceExpansion

end Memberwise
