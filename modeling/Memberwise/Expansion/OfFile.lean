import Memberwise.Declaration.Basic
import Memberwise.Expansion.OfDeclaration
import Memberwise.Expansion.Registry

/-!
# Expansion/OfFile — what the declarations of a file expand to

The declarations of a file are walked, each before those inside it, and the attributes of each in
their order.  An attribute that generates extensions works on a declaration at the top of the file
only; further in it is left alone.  A marker is recognised at any depth.  Every attribute that was
recognised is consumed, whether anything came of it or not, and is not part of the expanded text.

The walk hands on what it has gathered (`Gathered`) from one declaration to the next
(`Declaration.gather`).
-/

namespace Memberwise

/-- The extensions that follow one declaration. -/
structure Addition where
  /-- The declaration they follow. -/
  anchor : Span
  extensions : List Extension
  deriving DecidableEq, Repr

/-- Everything that expanding a file comes to. -/
structure FileExpansion where
  /-- In the order of the declarations. -/
  additions : List Addition
  /-- The attributes consumed, in the order they start. -/
  consumed : List Span
  deriving DecidableEq, Repr, Inhabited

namespace FileExpansion

/-- Nothing to change. -/
def empty : FileExpansion := ⟨[], []⟩

/-- All extensions, in the order they are written. -/
def extensions (f : FileExpansion) : List Extension := f.additions.flatMap (·.extensions)

/-- Whether there is nothing to change. -/
def isEmpty (f : FileExpansion) : Bool := f.additions.isEmpty && f.consumed.isEmpty

end FileExpansion

/-- What an attribute makes of its declaration. -/
structure Generated where
  extensions : List Extension
  problems : List Problem
  deriving Repr

/-- What an expander makes of a declaration: a marker makes nothing of it. -/
def Expander.expand (rules : ExclusionRules) (d : Declaration) : Expander → Generated
  | equatable => ⟨(d.expand rules).result.toList, (d.expand rules).problems⟩
  | skipEquatable => ⟨[], []⟩

/-- What a walk over declarations has gathered. -/
structure Gathered where
  /-- In the order of the declarations. -/
  additions : List Addition
  /-- The attributes consumed so far. -/
  consumed : List Span
  /-- What went wrong so far. -/
  problems : List Problem
  deriving Repr

/-! ## The walk -/

section Walk

variable (registry : Registry) (rules : ExclusionRules)

namespace Declaration

/-- The next attribute of a declaration, after what those before it have generated.  One that stands
for nothing is passed over, and so is one that generates extensions on a declaration inside another;
any other has its expander called, and is consumed. -/
def dispatch (topLevel : Bool) (d : Declaration) (s : List Extension × Gathered) (a : Attribute) :
    List Extension × Gathered :=
  match registry.find? a.name with
  | none => s
  | some expander =>
    match expander.role, topLevel with
    | .extension, false => s
    | .extension, true | .peer, _ =>
      let made := expander.expand rules d
      (s.1 ++ made.extensions,
        { s.2 with
          consumed := s.2.consumed ++ [a.span]
          problems := s.2.problems ++ made.problems })

/-- The attributes of a declaration, but not of those inside it: what they have generated together
follows the declaration, if it is anything. -/
def gatherOwn (topLevel : Bool) (out : Gathered) (d : Declaration) : Gathered :=
  match d.attributes.foldl (d.dispatch registry rules topLevel) ([], out) with
  | ([], out) => out
  | (generated, out) => { out with additions := out.additions ++ [⟨d.span, generated⟩] }

end Declaration

mutual

/-- A declaration, then everything inside it. -/
def Declaration.gather (topLevel : Bool) (out : Gathered) (d : Declaration) : Gathered :=
  match d with
  | ⟨kind, name, attributes, modifiers, inherited, members, span⟩ =>
    gatherBlock (gatherOwn registry rules topLevel out
      ⟨kind, name, attributes, modifiers, inherited, members, span⟩) members

/-- Everything in a block, if there is one. -/
def Declaration.gatherBlock (out : Gathered) : Option (List Declaration) → Gathered
  | none => out
  | some ds => gatherAll false out ds

/-- Declarations one after the other. -/
def Declaration.gatherAll (topLevel : Bool) (out : Gathered) : List Declaration → Gathered
  | [] => out
  | d :: ds => gatherAll topLevel (d.gather topLevel out) ds

end

/-- What is gathered from the declarations of a file. -/
def gatherFile (ds : List Declaration) : Gathered :=
  Declaration.gatherAll registry rules true ⟨[], [], []⟩ ds

/-- What the declarations of a file expand to. -/
def FileExpansion.ofDeclarations (ds : List Declaration) : FileExpansion :=
  let out := gatherFile registry rules ds
  ⟨out.additions, out.consumed.mergeSort fun s t => decide (s.start ≤ t.start)⟩

/-- What went wrong on the way, in the order of the attributes. -/
def expansionProblems (ds : List Declaration) : List Problem := (gatherFile registry rules ds).problems

end Walk

end Memberwise
