import Memberwise.Proofs.Equality.ReadBack
import Memberwise.Proofs.Expansion.Edits

/-!
# Proofs/Expansion/ReadBack — which extensions of a source are kept

Every extension that the declarations of a source expand to is printed and read back before it is
put in.  All of them read without an error, since every name in them is an identifier and a reserved
word is written between backticks.  But what is read is the spelling of the type, which is the type's
name only where no backticks were needed:

* `SourceExpansion.ofSource_readBack` — **just the extensions of types with reserved names are left
  out**, each with an error.
-/

namespace Memberwise

open Text

namespace FileExpansion

variable {registry : Registry} {rules : ExclusionRules} {ds : List Declaration}

/-- Whatever is added after a declaration compares some fields of a type. -/
theorem exists_comparison_of_mem {a : Addition}
    (ha : a ∈ (ofDeclarations registry rules ds).additions) {e : Extension}
    (he : e ∈ a.extensions) : ∃ c : Comparison, c.IsProper ∧ e = c.extension := by
  rw [ofDeclarations_eq] at ha
  obtain ⟨d, -, had⟩ := List.mem_filterMap.mp ha
  have hmem : e ∈ (d.addition? registry rules).toList.flatMap (·.extensions) := by
    rw [had]
    simpa using he
  rw [extensions_addition?, List.mem_filterMap] at hmem
  obtain ⟨o, ho, hoe⟩ := hmem
  obtain ⟨-, -, rfl⟩ := List.mem_map.mp ho
  exact Declaration.exists_comparison hoe

/-- **An extension of a source reads back exactly if its type is no reserved word.** -/
theorem readBackFault?_of_mem {a : Addition}
    (ha : a ∈ (ofDeclarations registry rules ds).additions) {e : Extension}
    (he : e ∈ a.extensions) : e.readBackFault?
      = if isReserved e.extendedType then some .unexpectedShape else none := by
  obtain ⟨c, hc, rfl⟩ := exists_comparison_of_mem ha he
  exact Comparison.readBackFault?_eq hc

/-- The problems of the extensions whose types have reserved names. -/
def reservedProblems (f : FileExpansion) : List Problem :=
  f.additions.flatMap fun a =>
    (a.extensions.filter (isReserved ·.extendedType)).map fun _ =>
      ⟨.readBack .unexpectedShape, a.anchor⟩

theorem extensions_readable (f : FileExpansion) : f.readable.extensions
    = f.additions.flatMap fun a => a.extensions.filter (·.readBackFault?.isNone) := by
  have hone : ∀ a : Addition, a.readable?.toList.flatMap (·.extensions)
      = a.extensions.filter (·.readBackFault?.isNone) := by
    intro a
    rw [Addition.readable?]
    split <;> simp_all
  rw [extensions, readable, List.filterMap_eq_flatMap_toList, List.flatMap_assoc]
  exact List.flatMap_congr fun a _ => hone a

/-- The extensions kept are those of types whose names are not reserved. -/
theorem extensions_readable_ofDeclarations :
    (ofDeclarations registry rules ds).readable.extensions
      = (ofDeclarations registry rules ds).extensions.filter (!isReserved ·.extendedType) := by
  rw [extensions_readable, extensions, List.filter_flatMap]
  refine List.flatMap_congr fun a ha => List.filter_congr fun e he => ?_
  rw [readBackFault?_of_mem ha he]
  cases isReserved e.extendedType <;> rfl

/-- The others are reported, each at its declaration. -/
theorem readBackProblems_ofDeclarations :
    (ofDeclarations registry rules ds).additions.flatMap (·.readBackProblems)
      = (ofDeclarations registry rules ds).reservedProblems := by
  refine List.flatMap_congr fun a ha => ?_
  have hone : ∀ e ∈ a.extensions,
      (e.readBackFault?.map fun fault => (⟨.readBack fault, a.anchor⟩ : Problem))
        = if isReserved e.extendedType then some ⟨.readBack .unexpectedShape, a.anchor⟩
          else none := by
    intro e he
    rw [readBackFault?_of_mem ha he]
    cases isReserved e.extendedType <;> rfl
  rw [Addition.readBackProblems, List.filterMap_congr hone, ← List.filterMap_eq_map,
    List.filterMap_filter]
  refine List.filterMap_congr fun e _ => ?_
  cases isReserved e.extendedType <;> rfl

end FileExpansion

namespace SourceExpansion

variable {source : String}

/-- **Just the extensions of types with reserved names are left out.**  Every other extension that
the declarations of a readable source expand to reads back and is kept, in order; each of a type
with a reserved name reads as something else, is left out and reported as an assembly failure, and
nothing else is reported beyond what went wrong in the expansion. -/
theorem ofSource_readBack (registry : Registry) (rules : ExclusionRules)
    (h : (Reading.ofSource source).diagnostics = []) :
    let ds := (Reading.ofSource source).file.declarations
    let full := FileExpansion.ofDeclarations registry rules ds
    let e := ofSource registry rules source
    (∀ x ∈ full.extensions, isIdentifier x.extendedType = true ∧ x.readBackFault?
        = if isReserved x.extendedType then some .unexpectedShape else none)
      ∧ e.expansion.extensions = full.extensions.filter (!isReserved ·.extendedType)
      ∧ e.diagnostics = (expansionProblems registry rules ds ++ full.reservedProblems).map
          Problem.toDiagnostic
      ∧ ∀ p ∈ full.reservedProblems, p.toDiagnostic.code = .assemblyFailure
          ∧ p.toDiagnostic.isError = true := by
  dsimp only
  refine ⟨fun x hx => ?_, ?_, ?_, fun p hp => ?_⟩
  · obtain ⟨a, ha, hxa⟩ := List.mem_flatMap.mp hx
    obtain ⟨c, hc, rfl⟩ := FileExpansion.exists_comparison_of_mem ha hxa
    exact ⟨hc.type, FileExpansion.readBackFault?_of_mem ha hxa⟩
  · rw [expansion_ofSource h, FileExpansion.extensions_readable_ofDeclarations]
  · rw [← FileExpansion.readBackProblems_ofDeclarations, ofSource]
    simp only [h]
  · obtain ⟨a, -, hpa⟩ := List.mem_flatMap.mp hp
    obtain ⟨x, -, rfl⟩ := List.mem_map.mp hpa
    exact ⟨rfl, rfl⟩

/-- The extension of a struct called `class` is well formed, and is left out all the same. -/
theorem ofSource_readBack_class :
    (Reading.ofSource "@Equatable struct `class` \x7b let x: Int \x7d\n").diagnostics = []
      ∧ (FileExpansion.ofDeclarations .standard .standard (Reading.ofSource
          "@Equatable struct `class` \x7b let x: Int \x7d\n").file.declarations).extensions
        = [.equatable "class" none (.fieldEqual "x")]
      ∧ (ofSource .standard .standard
          "@Equatable struct `class` \x7b let x: Int \x7d\n").expansion.extensions = [] := by
  have hd : (Reading.ofSource "@Equatable struct `class` \x7b let x: Int \x7d\n").diagnostics
      = [] := by decide +kernel
  have hfull : (FileExpansion.ofDeclarations .standard .standard (Reading.ofSource
      "@Equatable struct `class` \x7b let x: Int \x7d\n").file.declarations).extensions
        = [.equatable "class" none (.fieldEqual "x")] := by decide +kernel
  obtain ⟨-, hkept, -⟩ := ofSource_readBack .standard .standard hd
  refine ⟨hd, hfull, ?_⟩
  rw [hkept, hfull]
  decide

end SourceExpansion

end Memberwise
