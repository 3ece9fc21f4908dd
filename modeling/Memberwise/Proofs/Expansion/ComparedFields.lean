import Memberwise.Expansion.OfDeclaration

/-!
# Proofs/Expansion/ComparedFields — what one declaration expands to, exactly

The expansion runs in three steps, each with a way to fail.  Put together they come to one rule,
stated here on the declaration alone:

* an extension comes out of a record whose type name and eligible names are identifiers, if any name
  is eligible at all;
* it compares the eligible names, in the order of the block and within one property in the order of
  its bindings;
* a declaration that is no record is one error, a binding without a plain name a warning, and a name
  that is no identifier an error after the warnings.

A binding is **eligible** (`ExclusionRules.Eligible`) by what is written at its property and by its
pattern; nothing else in the block bears on it.
-/

namespace Memberwise

open Text

/-! ## The rule, stated on the declaration -/

/-- Whether nothing written at a property keeps its bindings out: it is not placed at the type, and
carries neither a wrapper attribute nor the skip marker. -/
def ExclusionRules.Admits (rules : ExclusionRules) (property : Declaration) : Prop :=
  (∀ m ∈ property.modifiers, m.kind ≠ .static ∧ m.kind ≠ .class)
    ∧ ∀ a ∈ property.attributes, a.name ∉ rules.wrappers ∧ a.name ≠ rules.skipMarker

/-- Whether a binding is compared under a name: its property is admitted, its pattern is that plain
name, and it is not the role member of a struct that inherits from the view marker. -/
def ExclusionRules.Eligible (rules : ExclusionRules) (inherited : List String)
    (property : Declaration) (b : Binding) (name : String) : Prop :=
  rules.Admits property ∧ b.pattern.name? = some name
    ∧ ¬ (name = rules.roleMember ∧ ∃ marker ∈ inherited, rules.viewMarker = some marker)

instance (rules : ExclusionRules) (property : Declaration) : Decidable (rules.Admits property) :=
  inferInstanceAs (Decidable (_ ∧ _))

instance (rules : ExclusionRules) (inherited : List String) (property : Declaration) (b : Binding)
    (name : String) : Decidable (rules.Eligible inherited property b name) :=
  inferInstanceAs (Decidable (_ ∧ _ ∧ _))

namespace Declaration

/-- The bindings of a property, each with the property; none for any other declaration. -/
def ownBindings (property : Declaration) : List (Declaration × Binding) :=
  match property.property? with
  | none => []
  | some p => p.bindings.map (property, ·)

/-- The bindings of a block, each with its property, in the order of the source. -/
def blockBindings (d : Declaration) : List (Declaration × Binding) :=
  (d.members.getD []).flatMap ownBindings

/-- The names that the extension of a declaration compares. -/
def eligibleNames (rules : ExclusionRules) (d : Declaration) : List String :=
  d.blockBindings.filterMap fun (property, b) =>
    b.pattern.name?.filter fun name => rules.Eligible d.inherited property b name

/-- The admitted bindings whose pattern is no plain name. -/
def malformedBindings (rules : ExclusionRules) (d : Declaration) : List Binding :=
  (d.blockBindings.filter fun (property, b) =>
    rules.Admits property ∧ b.pattern.name? = none).map (·.2)

/-- Whether a declaration is a record: a struct with a nonempty name and a member block. -/
def IsRecord (d : Declaration) : Prop :=
  d.kind = .struct ∧ (∃ name, d.name = some name ∧ name ≠ "") ∧ ∃ block, d.members = some block

/-- Whether the name of a declaration and all names its extension compares are identifiers. -/
def HasProperNames (rules : ExclusionRules) (d : Declaration) : Prop :=
  (∀ name, d.name = some name → isIdentifier name = true)
    ∧ ∀ name ∈ d.eligibleNames rules, isIdentifier name = true

/-- Whether a level is the widest of the access modifiers; those of the setter do not count. -/
def HasWidestAccess (d : Declaration) (level : Access) : Prop :=
  (∃ m ∈ d.modifiers, m.kind = .access level)
    ∧ ∀ m ∈ d.modifiers, ∀ other, m.kind = .access other → level.rank ≤ other.rank

end Declaration

/-- A diagnostic without its wording: its code, its severity and where it stands. -/
def Diagnostic.brief (d : Diagnostic) : Diagnostic.Code × Severity × Option Span :=
  (d.code, d.severity, d.primarySpan?)

namespace Problem

@[simp] theorem brief_unsupported (fault : RecordFault) (s : Span) :
    (Problem.mk (.unsupported fault) s).toDiagnostic.brief
      = (.unsupportedDeclaration, .error, some s) := rfl

@[simp] theorem brief_malformedBinding (pattern : Pattern) (s : Span) :
    (Problem.mk (.malformedBinding pattern) s).toDiagnostic.brief
      = (.malformedBinding, .warning, some s) := rfl

@[simp] theorem brief_assembly (fault : AssemblyFault) (s : Span) :
    (Problem.mk (.assembly fault) s).toDiagnostic.brief
      = (.assemblyFailure, .error, some s) := rfl

end Problem

/-! ## Access -/

namespace Access

theorem widest?_eq_none {as : List Access} : widest? as = none ↔ as = [] := by
  cases as <;> simp [widest?]

/-- The widest level of a list is the one in it that no other is wider than. -/
theorem widest?_eq_some_iff {as : List Access} {a : Access} :
    widest? as = some a ↔ a ∈ as ∧ ∀ b ∈ as, a.rank ≤ b.rank := by
  constructor
  · intro h
    exact ⟨widest?_mem h, fun b hb => widest?_le h hb⟩
  · rintro ⟨ha, hle⟩
    cases h : widest? as with
    | none =>
      rw [widest?_eq_none.mp h] at ha
      cases ha
    | some b =>
      have hab : a.rank = b.rank := Nat.le_antisymm (hle b (widest?_mem h)) (widest?_le h ha)
      rw [rank_injective hab]

end Access

theorem Modifier.access?_eq_some_iff {m : Modifier} {level : Access} :
    m.access? = some level ↔ m.kind = .access level := by
  cases hk : m.kind <;> simp [access?, hk]

/-- A declaration's access is the widest level written. -/
theorem Declaration.access?_eq_some_iff {d : Declaration} {level : Access} :
    d.access? = some level ↔ d.HasWidestAccess level := by
  rw [access?, Access.widest?_eq_some_iff]
  simp only [List.mem_filterMap, Modifier.access?_eq_some_iff, HasWidestAccess]
  constructor
  · rintro ⟨h, hle⟩
    exact ⟨h, fun m hm other hk => hle other ⟨m, hm, hk⟩⟩
  · rintro ⟨h, hle⟩
    exact ⟨h, fun other ⟨m, hm, hk⟩ => hle m hm other hk⟩

/-! ## One binding -/

theorem Modifier.isTypeScope_eq_false_iff {m : Modifier} :
    m.isTypeScope = false ↔ m.kind ≠ .static ∧ m.kind ≠ .class := by
  cases hk : m.kind <;> simp [isTypeScope, hk]

/-- The member that a binding of a property is. -/
def Member.ofBinding (property : Declaration) (b : Binding) : Member :=
  ⟨b.pattern, property.isTypeScope, property.attributes.map (·.name), b.type, b.span⟩

theorem Member.ofDeclaration_eq_map (property : Declaration) :
    Member.ofDeclaration property
      = property.ownBindings.map fun (property, b) => Member.ofBinding property b := by
  unfold Member.ofDeclaration Declaration.ownBindings
  cases property.property? with
  | none => rfl
  | some p => simp [Member.ofBinding]

namespace ExclusionRules

variable {rules : ExclusionRules} {property : Declaration} {b : Binding} {v : Bool}

/-- A property is admitted exactly when none of the first three rules applies to it. -/
theorem admits_iff : rules.Admits property ↔
    property.isTypeScope = false
      ∧ (property.attributes.map (·.name)).find? rules.isWrapper = none
      ∧ (property.attributes.map (·.name)).contains rules.skipMarker = false := by
  have hscope : property.isTypeScope = false ↔
      ∀ m ∈ property.modifiers, m.kind ≠ .static ∧ m.kind ≠ .class := by
    simp only [Declaration.isTypeScope, List.any_eq_false, Bool.not_eq_true,
      Modifier.isTypeScope_eq_false_iff]
  rw [Admits, hscope, List.find?_eq_none]
  simp only [isWrapper, List.contains_eq_mem, List.mem_map, decide_eq_true_eq,
    decide_eq_false_iff_not]
  constructor
  · rintro ⟨hs, ha⟩
    refine ⟨hs, ?_, ?_⟩
    · rintro name ⟨a, hm, rfl⟩
      exact (ha a hm).1
    · rintro ⟨a, hm, hn⟩
      exact (ha a hm).2 hn
  · rintro ⟨hs, hw, hk⟩
    exact ⟨hs, fun a hm => ⟨hw _ ⟨a, hm, rfl⟩, fun hn => hk ⟨a, hm, hn⟩⟩⟩

/-- What is left of the rules for an admitted property depends on the pattern alone. -/
theorem reason?_of_admits (h : rules.Admits property) :
    rules.reason? v (.ofBinding property b) =
      match b.pattern.name? with
      | none => some .malformedBinding
      | some name => if v && name == rules.roleMember then some .viewBody else none := by
  obtain ⟨hs, hw, hk⟩ := admits_iff.mp h
  cases hn : b.pattern.name? <;>
    simp only [reason?, Member.ofBinding, hs, hw, Member.hasAttribute, hk, Member.name?, hn,
      Bool.false_eq_true, if_false]

/-- A property that is not admitted keeps its bindings out, and not for their patterns. -/
theorem reason?_of_not_admits (b : Binding) (v : Bool) (h : ¬ rules.Admits property) :
    ∃ reason, rules.reason? v (.ofBinding property b) = some reason
      ∧ reason ≠ .malformedBinding := by
  unfold reason? Member.ofBinding
  split
  case isTrue => exact ⟨_, rfl, by simp⟩
  case isFalse hs =>
    split
    case h_1 => exact ⟨_, rfl, by simp⟩
    case h_2 hw =>
      split
      case isTrue => exact ⟨_, rfl, by simp⟩
      case isFalse hk =>
        rw [Bool.not_eq_true] at hs hk
        exact absurd (admits_iff.mpr ⟨hs, hw, hk⟩) h

/-- Whether the inherited types give the view role. -/
def viewRole (rules : ExclusionRules) (inherited : List String) : Bool :=
  rules.viewMarker.any inherited.contains

theorem viewRole_eq_true_iff {inherited : List String} :
    rules.viewRole inherited = true ↔ ∃ marker ∈ inherited, rules.viewMarker = some marker := by
  cases h : rules.viewMarker <;> simp [viewRole, h]

theorem eligible_iff {inherited : List String} {name : String} :
    rules.Eligible inherited property b name ↔
      rules.Admits property ∧ b.pattern.name? = some name
        ∧ (rules.viewRole inherited && name == rules.roleMember) = false := by
  rw [Eligible, ← viewRole_eq_true_iff, Bool.and_eq_false_imp]
  simp only [beq_eq_false_iff_ne, ne_eq, not_and]
  exact and_congr_right fun _ => and_congr_right fun _ =>
    ⟨fun h hv hn => h hn hv, fun h hn hv => h hv hn⟩

/-- **A binding is compared exactly under the name it is eligible under.** -/
theorem reason?_ofBinding (rules : ExclusionRules) (inherited : List String)
    (property : Declaration) (b : Binding) :
    (if (rules.reason? (rules.viewRole inherited) (.ofBinding property b)).isNone
        then b.pattern.name? else none)
      = b.pattern.name?.filter fun name => rules.Eligible inherited property b name := by
  by_cases h : rules.Admits property
  · rw [reason?_of_admits h]
    cases hn : b.pattern.name? with
    | none => rfl
    | some name =>
      cases hv : rules.viewRole inherited && name == rules.roleMember <;>
        simp [Option.filter, eligible_iff, h, hn, hv]
  · obtain ⟨reason, hr, -⟩ := reason?_of_not_admits b (rules.viewRole inherited) h
    rw [hr]
    cases hn : b.pattern.name? with
    | none => rfl
    | some name => simp [Option.filter, eligible_iff, h]

/-- A binding is reported exactly when it is admitted and has no plain name. -/
theorem reason?_eq_malformed_iff (rules : ExclusionRules) (v : Bool) (property : Declaration)
    (b : Binding) :
    rules.reason? v (.ofBinding property b) = some .malformedBinding ↔
      rules.Admits property ∧ b.pattern.name? = none := by
  by_cases h : rules.Admits property
  · rw [reason?_of_admits h]
    cases hn : b.pattern.name? with
    | none => simp [h]
    | some name =>
      cases hv : v && name == rules.roleMember <;> simp [hv]
  · obtain ⟨reason, hr, hne⟩ := reason?_of_not_admits b v h
    simp [hr, hne, h]

/-! ## A block of bindings -/

/-- The members of the bindings of a block. -/
def membersOf (bs : List (Declaration × Binding)) : List Member :=
  bs.map fun (property, b) => Member.ofBinding property b

theorem flatMap_ofDeclaration (block : List Declaration) :
    block.flatMap Member.ofDeclaration = membersOf (block.flatMap Declaration.ownBindings) := by
  induction block with
  | nil => rfl
  | cons m ms ih =>
    rw [List.flatMap_cons, List.flatMap_cons, ih, Member.ofDeclaration_eq_map, membersOf, membersOf,
      List.map_append]

/-- The compared members have plain names, the eligible ones. -/
theorem names_included (rules : ExclusionRules) (inherited : List String)
    (bs : List (Declaration × Binding)) :
    Member.names (rules.classifyMembers (rules.viewRole inherited) (membersOf bs)).included
      = .ok (bs.filterMap fun (property, b) =>
          b.pattern.name?.filter fun name => rules.Eligible inherited property b name) := by
  rw [Member.names_eq_ok]
  induction bs with
  | nil => rfl
  | cons pb bs ih =>
    obtain ⟨property, b⟩ := pb
    have hb := reason?_ofBinding rules inherited property b
    simp only [classifyMembers, membersOf, List.map_cons, List.filter_cons,
      List.filterMap_cons] at ih ⊢
    rw [← hb]
    cases hr : rules.reason? (rules.viewRole inherited) (.ofBinding property b) with
    | none =>
      have hname := name?_isSome_of_reason?_eq_none hr
      obtain ⟨name, hn⟩ := Option.isSome_iff_exists.mp hname
      have hn' : b.pattern.name? = some name := hn
      simp only [Option.isNone_none, if_true, List.map_cons, hn, hn', ih]
    | some reason => simpa using ih

/-- The members reported are the admitted bindings without a plain name. -/
theorem malformed_classifyMembers (rules : ExclusionRules) (v : Bool)
    (bs : List (Declaration × Binding)) :
    (rules.classifyMembers v (membersOf bs)).malformed
      = membersOf (bs.filter fun (property, b) =>
          rules.Admits property ∧ b.pattern.name? = none) := by
  induction bs with
  | nil => rfl
  | cons pb bs ih =>
    obtain ⟨property, b⟩ := pb
    have hm := reason?_eq_malformed_iff rules v property b
    simp only [classifyMembers, Classification.malformed, membersOf, List.map_cons,
      List.filterMap_cons, List.filter_cons] at ih ⊢
    cases hr : rules.reason? v (.ofBinding property b) with
    | none => simpa [hr, ← hm] using ih
    | some reason =>
      by_cases he : reason = .malformedBinding
      · subst he
        have := hm.mp hr
        simpa [this] using ih
      · have : ¬ (rules.Admits property ∧ b.pattern.name? = none) := by
          rw [← hm, hr]
          simpa using he
        simpa [he, this] using ih

end ExclusionRules

/-! ## The extension put together -/

namespace Extension

theorem comparisonFault?_fieldEqual {name : String} :
    (Expr.fieldEqual name).comparisonFault?
      = if isIdentifier name then none else some (.invalidFieldName name) := by
  cases h : isIdentifier name <;>
    simp [Expr.comparisonFault?, Expr.fieldEqual, Expr.comparedField?, h]

/-- An extension that compares fields one after the other has no fault exactly when all its names
are identifiers. -/
theorem fault?_equatable_eq_none {type : String} {access : Option Access} {names : List String}
    {body : Expr} (h : Expr.conjunction? (names.map Expr.fieldEqual) = some body) :
    (equatable type access body).fault? = none ↔
      isIdentifier type = true ∧ ∀ name ∈ names, isIdentifier name = true := by
  have hc : body.conjuncts = names.map Expr.fieldEqual := by
    rw [Expr.conjuncts_conjunction h]
    exact Expr.flatMap_conjuncts fun e he => by
      obtain ⟨name, -, rfl⟩ := List.mem_map.mp he
      exact Expr.conjuncts_fieldEqual name
  cases ht : isIdentifier type with
  | false => simp [fault?, equatable, ht]
  | true =>
    simp only [fault?, equatable, ht, hc, Bool.not_true, Bool.false_eq_true, if_false, ne_eq,
      not_true_eq_false, List.findSome?_eq_none_iff, true_and]
    constructor
    · intro hall name hn
      have := hall _ (List.mem_map.mpr ⟨name, hn, rfl⟩)
      rw [comparisonFault?_fieldEqual] at this
      cases hi : isIdentifier name with
      | true => rfl
      | false => simp [hi] at this
    · intro hall e he
      obtain ⟨name, hn, rfl⟩ := List.mem_map.mp he
      simp [comparisonFault?_fieldEqual, hall name hn]

end Extension

/-! ## The expansion of a declaration -/

namespace Declaration

variable {rules : ExclusionRules} {d : Declaration}

/-- What a record expands to, by its eligible names: nothing without any, else the extension that
compares them, unless the check of it fails. -/
theorem expand_of_record {name : String} {block : List Declaration} (hk : d.kind = .struct)
    (hn : d.name = some name) (hne : name ≠ "") (hb : d.members = some block) :
    d.expand rules =
      let warnings := (d.malformedBindings rules).map fun b =>
        (⟨.malformedBinding b.pattern, b.span⟩ : Problem)
      match Expr.conjunction? ((d.eligibleNames rules).map Expr.fieldEqual) with
      | none => ⟨none, warnings⟩
      | some body =>
        match (Extension.equatable name d.access? body).fault? with
        | some fault => ⟨none, warnings ++ [⟨.assembly fault, d.span⟩]⟩
        | none => ⟨some (.equatable name d.access? body), warnings⟩ := by
  have hr : Record.ofDeclaration d
      = .ok ⟨name, d.access?, d.inherited, block.flatMap Member.ofDeclaration, d.span⟩ :=
    Record.ofDeclaration_eq_ok.mpr ⟨hk, name, block, hn, by simpa using hne, hb, rfl⟩
  have hbs : block.flatMap ownBindings = d.blockBindings := by rw [blockBindings, hb]; rfl
  have hnames := rules.names_included d.inherited d.blockBindings
  have hmalformed := rules.malformed_classifyMembers (rules.viewRole d.inherited) d.blockBindings
  have hwarn : (rules.classifyMembers (rules.viewRole d.inherited)
      (ExclusionRules.membersOf d.blockBindings)).problems
      = (d.malformedBindings rules).map fun b => ⟨.malformedBinding b.pattern, b.span⟩ := by
    rw [Classification.problems, hmalformed, malformedBindings, ExclusionRules.membersOf,
      List.map_map, List.map_map]
    rfl
  unfold expand Record.expand
  simp only [hr, ExclusionRules.classify, ExclusionRules.flatMap_ofDeclaration, hbs]
  rw [show rules.hasViewRole ⟨name, d.access?, d.inherited,
      ExclusionRules.membersOf d.blockBindings, d.span⟩ = rules.viewRole d.inherited from rfl,
    Record.equality?, hnames, hwarn]
  simp only [← eligibleNames.eq_1]
  cases Expr.conjunction? ((d.eligibleNames rules).map Expr.fieldEqual) with
  | none => rfl
  | some body =>
    dsimp only
    cases (Extension.equatable name d.access? body).fault? with
    | none => rfl
    | some fault => rfl

/-- A declaration that is no record expands to one error. -/
theorem expand_of_not_record (rules : ExclusionRules) (h : ¬ d.IsRecord) :
    ∃ fault, d.expand rules = ⟨none, [⟨.unsupported fault, d.span⟩]⟩ := by
  unfold expand
  cases hr : Record.ofDeclaration d with
  | error fault => exact ⟨fault, rfl⟩
  | ok r =>
    obtain ⟨hk, name, block, hn, hne, hb, -⟩ := Record.ofDeclaration_eq_ok.mp hr
    exact absurd ⟨hk, ⟨name, hn, by simpa using hne⟩, block, hb⟩ h

/-- What is reported of a record whatever comes of it: its malformed bindings. -/
def bindingProblems (rules : ExclusionRules) (d : Declaration) : List Problem :=
  (d.malformedBindings rules).map fun b => ⟨.malformedBinding b.pattern, b.span⟩

theorem expand_of_no_names (h : d.IsRecord) (hns : d.eligibleNames rules = []) :
    d.expand rules = ⟨none, d.bindingProblems rules⟩ := by
  obtain ⟨hk, ⟨name, hn, hne⟩, block, hb⟩ := h
  rw [expand_of_record hk hn hne hb, hns]
  rfl

/-- A record with proper names expands to the extension that compares them. -/
theorem expand_of_proper_names {name first : String} {later : List String} (h : d.IsRecord)
    (hn : d.name = some name) (hns : d.eligibleNames rules = first :: later)
    (hp : d.HasProperNames rules) :
    d.expand rules = ⟨some (.equatable name d.access?
      (later.foldl (fun body name => .binary .and body (.fieldEqual name)) (.fieldEqual first))),
      d.bindingProblems rules⟩ := by
  obtain ⟨hk, ⟨name', hn', hne⟩, block, hb⟩ := h
  obtain rfl : name = name' := Option.some.inj (hn.symm.trans hn')
  have hc : Expr.conjunction? ((d.eligibleNames rules).map Expr.fieldEqual) = some
      (later.foldl (fun body name => .binary .and body (.fieldEqual name)) (.fieldEqual first)) := by
    rw [hns, List.map_cons, Expr.conjunction?, List.foldl_map]
  have hf : (Extension.equatable name d.access? _).fault? = none :=
    (Extension.fault?_equatable_eq_none hc).mpr ⟨hp.1 name hn, hp.2⟩
  rw [expand_of_record hk hn hne hb]
  simp only [hc, hf]
  rfl

/-- A record with an improper name among those to compare, or for itself, expands to an error. -/
theorem expand_of_improper_names (h : d.IsRecord) (hns : d.eligibleNames rules ≠ [])
    (hp : ¬ d.HasProperNames rules) :
    ∃ fault, d.expand rules
      = ⟨none, d.bindingProblems rules ++ [⟨.assembly fault, d.span⟩]⟩ := by
  obtain ⟨hk, ⟨name, hn, hne⟩, block, hb⟩ := h
  rw [expand_of_record hk hn hne hb]
  cases hc : Expr.conjunction? ((d.eligibleNames rules).map Expr.fieldEqual) with
  | none => exact absurd (List.map_eq_nil_iff.mp (Expr.conjunction?_eq_none.mp hc)) hns
  | some body =>
    cases hf : (Extension.equatable name d.access? body).fault? with
    | some fault => exact ⟨fault, by simp only [hf]; rfl⟩
    | none =>
      obtain ⟨ht, hall⟩ := (Extension.fault?_equatable_eq_none hc).mp hf
      refine absurd ⟨fun other ho => ?_, hall⟩ hp
      obtain rfl : name = other := Option.some.inj (hn.symm.trans ho)
      exact ht

theorem brief_bindingProblems (rules : ExclusionRules) (d : Declaration) :
    ((d.bindingProblems rules).map Problem.toDiagnostic).map Diagnostic.brief
      = (d.malformedBindings rules).map fun b => (.malformedBinding, .warning, some b.span) := by
  simp only [bindingProblems, List.map_map]
  rfl

/-- **The expansion of a declaration, exactly.**  An extension comes out of a record that has an
eligible name, when its type name and all eligible names are identifiers, and out of nothing else.
It extends that type, takes its values, conforms to `Equatable` alone, has the widest access level
written, and compares the eligible names in order, joined from the left.  What is no record is one
error; else there is a warning for each admitted binding without a plain name, and one error after
them exactly if there are eligible names but not all names are identifiers. -/
theorem expand_exact (rules : ExclusionRules) (d : Declaration) :
    ((∃ e, (d.expand rules).result = some e) ↔
        d.IsRecord ∧ d.eligibleNames rules ≠ [] ∧ d.HasProperNames rules)
      ∧ (∀ e, (d.expand rules).result = some e →
        d.name = some e.extendedType ∧ e.function.operandType = e.extendedType
          ∧ e.conformances = ["Equatable"]
          ∧ (∀ level, e.function.access = some level ↔ d.HasWidestAccess level)
          ∧ ∃ first later, d.eligibleNames rules = first :: later
            ∧ e.function.body = later.foldl (fun body name => .binary .and body (.fieldEqual name))
                (.fieldEqual first))
      ∧ (¬ d.IsRecord → (d.expand rules).diagnostics.map Diagnostic.brief
          = [(.unsupportedDeclaration, .error, some d.span)])
      ∧ (d.IsRecord → (d.eligibleNames rules = [] ∨ d.HasProperNames rules) →
          (d.expand rules).diagnostics.map Diagnostic.brief
            = (d.malformedBindings rules).map fun b => (.malformedBinding, .warning, some b.span))
      ∧ (d.IsRecord → d.eligibleNames rules ≠ [] → ¬ d.HasProperNames rules →
          (d.expand rules).diagnostics.map Diagnostic.brief
            = (d.malformedBindings rules).map (fun b => (.malformedBinding, .warning, some b.span))
              ++ [(.assemblyFailure, .error, some d.span)]) := by
  by_cases h : d.IsRecord
  case neg =>
    obtain ⟨fault, he⟩ := expand_of_not_record rules h
    simp [he, h, Expanded.diagnostics]
  case pos =>
    have hd := brief_bindingProblems rules d
    obtain ⟨name, hn, -⟩ := h.2.1
    by_cases hns : d.eligibleNames rules = []
    · simp [expand_of_no_names h hns, h, hns, Expanded.diagnostics, hd]
    by_cases hp : d.HasProperNames rules
    · obtain ⟨first, later, hc⟩ := List.exists_cons_of_ne_nil hns
      rw [expand_of_proper_names h hn hc hp]
      refine ⟨by simp [h, hns, hp], ?_, by simp [h], fun _ _ => hd, fun _ _ hnp => absurd hp hnp⟩
      rintro e he
      obtain rfl := Option.some.inj he
      exact ⟨hn, rfl, rfl, fun level => access?_eq_some_iff, first, later, hc, rfl⟩
    · obtain ⟨fault, he⟩ := expand_of_improper_names h hns hp
      simp [he, h, hns, hp, Expanded.diagnostics, hd]

end Declaration

end Memberwise
