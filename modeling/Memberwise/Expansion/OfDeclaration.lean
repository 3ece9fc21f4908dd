import Memberwise.Equality.Synthesis
import Memberwise.Expansion.Problem
import Memberwise.Record.Classification

/-!
# Expansion/OfDeclaration — what one declaration expands to

A declaration is read as a record, the record's members are sorted, and those that are compared make
up the extension.  Each step that fails leaves a problem and no extension; a member whose pattern is
no plain name leaves a problem only.
-/

namespace Memberwise

/-- What a declaration expands to, and what went wrong. -/
structure Expanded where
  result : Option Extension
  problems : List Problem
  deriving Repr

namespace Classification

/-- The problems of the members kept out because their pattern is no plain name, in the order in which
sorting the members comes upon them. -/
def problems (c : Classification) : List Problem :=
  c.malformed.map fun m => ⟨.malformedBinding m.pattern, m.span⟩

end Classification

/-- The expansion of a record. -/
def Record.expand (rules : ExclusionRules) (r : Record) : Expanded :=
  let c := rules.classify r
  match r.equality? c.included with
  | .error fault => ⟨none, c.problems ++ [⟨.assembly fault, r.span⟩]⟩
  | .ok result => ⟨result, c.problems⟩

/-- The expansion of a declaration. -/
def Declaration.expand (rules : ExclusionRules) (d : Declaration) : Expanded :=
  match Record.ofDeclaration d with
  | .error fault => ⟨none, [⟨.unsupported fault, d.span⟩]⟩
  | .ok r => r.expand rules

namespace Expanded

/-- What to report. -/
def diagnostics (e : Expanded) : List Diagnostic := e.problems.map Problem.toDiagnostic

end Expanded

end Memberwise
