import Memberwise.Proofs.Expansion.ComparedFields

/-!
# Proofs/Record/Classification — classification is a stable, local, idempotent partition

The rules are stated here one by one, each without regard to the others (`Applies`); a member is
kept out for the reason that comes first among those given (`Decides`), and `reason?_eq_some_iff`
holds the cascade of tests to that.  A classification is one pass over the members (`Sorts`): a
member with no reason against it is compared, any other is kept out for the reason that decides, and
a malformed binding is reported as well.

**A record's classification is the only outcome of that pass** (`sorts_iff`).  The rest is read off
the pass, case by case: its two lists interleave to the members, it reports the malformed bindings
it keeps out and nothing else, and a second pass over the members it compared keeps them all
(`classify_exact`).
-/

namespace Memberwise

/-! ## The rules, each by itself -/

/-- The place of a reason in the order in which the rules are asked. -/
def ExclusionReason.rank : ExclusionReason → Nat
  | .static => 0
  | .wrapper _ => 1
  | .skipMarker => 2
  | .malformedBinding => 3
  | .viewBody => 4

namespace ExclusionRules

/-- Whether there is this reason to keep a member out, whatever others there are.  Of several
wrapper attributes only the first is a reason. -/
inductive Applies (rules : ExclusionRules) (hasViewRole : Bool) (m : Member) :
    ExclusionReason → Prop where
  | static : m.isStatic = true → Applies rules hasViewRole m .static
  | wrapper {before after : List String} {name : String} :
      m.attributes = before ++ name :: after → (∀ other ∈ before, other ∉ rules.wrappers) →
      name ∈ rules.wrappers → Applies rules hasViewRole m (.wrapper name)
  | skipMarker : rules.skipMarker ∈ m.attributes → Applies rules hasViewRole m .skipMarker
  | malformedBinding : (∀ name, m.pattern ≠ .name name) →
      Applies rules hasViewRole m .malformedBinding
  | viewBody : hasViewRole = true → m.pattern = .name rules.roleMember →
      Applies rules hasViewRole m .viewBody

/-- Whether a reason is the first there is. -/
def Decides (rules : ExclusionRules) (hasViewRole : Bool) (m : Member)
    (reason : ExclusionReason) : Prop :=
  rules.Applies hasViewRole m reason
    ∧ ∀ other, rules.Applies hasViewRole m other → reason.rank ≤ other.rank

variable {rules : ExclusionRules} {v : Bool} {m : Member} {reason : ExclusionReason}

theorem applies_static_iff : rules.Applies v m .static ↔ m.isStatic = true := by
  refine ⟨fun h => ?_, .static⟩
  cases h with
  | static h => exact h

theorem applies_wrapper_iff {name : String} :
    rules.Applies v m (.wrapper name) ↔ m.attributes.find? rules.isWrapper = some name := by
  simp only [List.find?_eq_some_iff_append, isWrapper, Bool.not_eq_true', List.contains_eq_mem,
    decide_eq_true_eq, decide_eq_false_iff_not]
  constructor
  · intro h
    cases h with
    | wrapper hm hbefore hname => exact ⟨hname, _, _, hm, hbefore⟩
  · rintro ⟨hname, _, _, hm, hbefore⟩
    exact .wrapper hm hbefore hname

theorem applies_skipMarker_iff :
    rules.Applies v m .skipMarker ↔ m.hasAttribute rules.skipMarker = true := by
  rw [Member.hasAttribute, List.contains_iff_mem]
  refine ⟨fun h => ?_, .skipMarker⟩
  cases h with
  | skipMarker h => exact h

theorem applies_malformedBinding_iff :
    rules.Applies v m .malformedBinding ↔ m.name? = none := by
  have hname : m.name? = none ↔ ∀ name, m.pattern ≠ .name name := by
    unfold Member.name?
    cases m.pattern <;> simp [Pattern.name?]
  rw [hname]
  refine ⟨fun h => ?_, .malformedBinding⟩
  cases h with
  | malformedBinding h => exact h

theorem applies_viewBody_iff :
    rules.Applies v m .viewBody ↔ v = true ∧ m.name? = some rules.roleMember := by
  have hname : m.name? = some rules.roleMember ↔ m.pattern = .name rules.roleMember := by
    unfold Member.name?
    cases m.pattern <;> simp [Pattern.name?]
  rw [hname]
  refine ⟨fun h => ?_, fun h => .viewBody h.1 h.2⟩
  cases h with
  | viewBody hv h => exact ⟨hv, h⟩

/-- Two reasons of one rank are the same: a member has one first wrapper attribute. -/
theorem Applies.eq_of_rank {other : ExclusionReason} (h : rules.Applies v m reason)
    (ho : rules.Applies v m other) (hr : reason.rank = other.rank) : reason = other := by
  cases reason <;> cases other <;> simp only [ExclusionReason.rank, Nat.reduceEqDiff] at hr <;>
    first
    | rfl
    | rw [applies_wrapper_iff] at h ho
      rw [Option.some.inj (h.symm.trans ho)]

theorem Decides.unique {other : ExclusionReason} (h : rules.Decides v m reason)
    (ho : rules.Decides v m other) : reason = other :=
  h.1.eq_of_rank ho.1 (Nat.le_antisymm (h.2 _ ho.1) (ho.2 _ h.1))

/-! ## The cascade of tests -/

/-- Whether every reason there is has at least this rank, so that the tests before it find none. -/
def Passes (rules : ExclusionRules) (hasViewRole : Bool) (m : Member) (rank : Nat) : Prop :=
  ∀ reason, rules.Applies hasViewRole m reason → rank ≤ reason.rank

theorem Passes.succ {k : Nat} (h : rules.Passes v m k)
    (hk : ∀ reason, reason.rank = k → ¬ rules.Applies v m reason) : rules.Passes v m (k + 1) :=
  fun reason hr => Nat.lt_of_le_of_ne (h reason hr) fun he => hk reason he.symm hr

theorem passes_static (hs : ¬m.isStatic = true) : rules.Passes v m 1 := by
  refine Passes.succ (fun _ _ => Nat.zero_le _) fun reason hr h => ?_
  cases reason with
  | static => exact hs (applies_static_iff.mp h)
  | _ => cases hr

theorem Passes.wrapper (h : rules.Passes v m 1) (hw : m.attributes.find? rules.isWrapper = none) :
    rules.Passes v m 2 := by
  refine h.succ fun reason hr ha => ?_
  cases reason with
  | wrapper name =>
    rw [applies_wrapper_iff, hw] at ha
    cases ha
  | _ => cases hr

theorem Passes.skipMarker (h : rules.Passes v m 2)
    (hk : ¬m.hasAttribute rules.skipMarker = true) : rules.Passes v m 3 := by
  refine h.succ fun reason hr ha => ?_
  cases reason with
  | skipMarker => exact hk (applies_skipMarker_iff.mp ha)
  | _ => cases hr

theorem Passes.malformedBinding {name : String} (h : rules.Passes v m 3) (hn : m.name? = some name) :
    rules.Passes v m 4 := by
  refine h.succ fun reason hr ha => ?_
  cases reason with
  | malformedBinding =>
    rw [applies_malformedBinding_iff, hn] at ha
    cases ha
  | _ => cases hr

theorem Passes.viewBody {name : String} (h : rules.Passes v m 4) (hn : m.name? = some name)
    (hv : ¬(v && name == rules.roleMember) = true) : rules.Passes v m 5 := by
  refine h.succ fun reason hr ha => ?_
  cases reason with
  | viewBody =>
    rw [applies_viewBody_iff, hn, Option.some.injEq] at ha
    exact hv (by simp [ha])
  | _ => cases hr

/-- No reason comes after all tests. -/
theorem Passes.not_applies (h : rules.Passes v m 5) : ¬rules.Applies v m reason := by
  intro hr
  have := h reason hr
  cases reason <;> simp [ExclusionReason.rank] at this

/-- What the cascade of tests finds is the first reason, and it finds one if there is one. -/
theorem reason?_spec (rules : ExclusionRules) (v : Bool) (m : Member) :
    match rules.reason? v m with
    | some reason => rules.Decides v m reason
    | none => ∀ reason, ¬ rules.Applies v m reason := by
  by_cases hs : m.isStatic = true
  · simp only [reason?, hs, if_true]
    exact ⟨.static hs, fun _ _ => Nat.zero_le _⟩
  have h1 : rules.Passes v m 1 := passes_static hs
  cases hw : m.attributes.find? rules.isWrapper with
  | some name =>
    simp only [reason?, hs, hw]
    exact ⟨applies_wrapper_iff.mpr hw, h1⟩
  | none =>
    have h2 := h1.wrapper hw
    by_cases hk : m.hasAttribute rules.skipMarker = true
    · simp only [reason?, hs, hw, hk, if_true]
      exact ⟨applies_skipMarker_iff.mpr hk, h2⟩
    have h3 := h2.skipMarker hk
    cases hn : m.name? with
    | none =>
      simp only [reason?, hs, hw, hk, hn]
      exact ⟨applies_malformedBinding_iff.mpr hn, h3⟩
    | some name =>
      have h4 := h3.malformedBinding hn
      by_cases hv : (v && name == rules.roleMember) = true
      · simp only [reason?, hs, hw, hk, hn, hv, if_true]
        rw [Bool.and_eq_true, beq_iff_eq] at hv
        exact ⟨applies_viewBody_iff.mpr ⟨hv.1, hv.2 ▸ hn⟩, h4⟩
      simp only [reason?, hs, hw, hk, hn, hv]
      exact fun reason => (h4.viewBody hn hv).not_applies

/-- A member is kept out for the first reason there is. -/
theorem reason?_eq_some_iff : rules.reason? v m = some reason ↔ rules.Decides v m reason := by
  have hspec := reason?_spec rules v m
  cases h : rules.reason? v m with
  | none =>
    rw [h] at hspec
    simpa using fun hd : rules.Decides v m reason => hspec _ hd.1
  | some other =>
    rw [h] at hspec
    rw [Option.some.injEq]
    exact ⟨fun he => he ▸ hspec, fun hd => hspec.unique hd⟩

/-- A member is compared exactly when there is no reason against it. -/
theorem reason?_eq_none_iff :
    rules.reason? v m = none ↔ ∀ reason, ¬ rules.Applies v m reason := by
  have hspec := reason?_spec rules v m
  cases h : rules.reason? v m with
  | none =>
    rw [h] at hspec
    simpa using hspec
  | some reason =>
    rw [h] at hspec
    simpa using ⟨reason, hspec.1⟩

theorem hasViewRole_eq_true_iff {r : Record} :
    rules.hasViewRole r = true ↔ ∃ marker ∈ r.inherited, rules.viewMarker = some marker :=
  viewRole_eq_true_iff

end ExclusionRules

/-! ## One pass over the members -/

namespace Classification

/-- The classification with a member compared before all others. -/
def comparing (m : Member) (c : Classification) : Classification := ⟨m :: c.included, c.excluded⟩

/-- The classification with a member kept out before all others. -/
def keepingOut (m : Member) (reason : ExclusionReason) (c : Classification) : Classification :=
  ⟨c.included, ⟨m, reason⟩ :: c.excluded⟩

/-- What is reported of a classification. -/
def warnings (c : Classification) : List Diagnostic := c.problems.map Problem.toDiagnostic

/-- The members kept out because their pattern is no plain name are what is reported. -/
theorem warnings_eq (c : Classification) :
    c.warnings = (c.excluded.filter (·.reason = .malformedBinding)).map fun e =>
      (Problem.mk (.malformedBinding e.member.pattern) e.member.span).toDiagnostic := by
  rw [warnings, problems, malformed, List.map_map, List.map_map]
  rfl

@[simp] theorem warnings_empty : Classification.empty.warnings = [] := rfl

@[simp] theorem warnings_comparing (m : Member) (c : Classification) :
    (c.comparing m).warnings = c.warnings := rfl

@[simp] theorem warnings_append (a b : Classification) :
    (a.append b).warnings = a.warnings ++ b.warnings := by
  simp [warnings_eq, append]

theorem warnings_keepingOut (m : Member) (reason : ExclusionReason) (c : Classification) :
    (c.keepingOut m reason).warnings
      = if reason = .malformedBinding then
          (Problem.mk (.malformedBinding m.pattern) m.span).toDiagnostic :: c.warnings
        else c.warnings := by
  rw [warnings_eq, warnings_eq, keepingOut, List.filter_cons]
  split <;> simp_all

end Classification

namespace ExclusionRules

/-- What a pass over members, each judged by the first reason against it, comes to and reports. -/
inductive Sorts (rules : ExclusionRules) (hasViewRole : Bool) :
    List Member → Classification → List Diagnostic → Prop where
  | nil : Sorts rules hasViewRole [] .empty []
  | compared {m ms c ws} : (∀ reason, ¬ rules.Applies hasViewRole m reason) →
      Sorts rules hasViewRole ms c ws → Sorts rules hasViewRole (m :: ms) (c.comparing m) ws
  | reported {m ms c ws} : rules.Decides hasViewRole m .malformedBinding →
      Sorts rules hasViewRole ms c ws →
      Sorts rules hasViewRole (m :: ms) (c.keepingOut m .malformedBinding)
        ((Problem.mk (.malformedBinding m.pattern) m.span).toDiagnostic :: ws)
  | keptOut {m ms c ws reason} : rules.Decides hasViewRole m reason → reason ≠ .malformedBinding →
      Sorts rules hasViewRole ms c ws →
      Sorts rules hasViewRole (m :: ms) (c.keepingOut m reason) ws

variable {rules : ExclusionRules} {v : Bool} {m : Member} {ms : List Member}

theorem classifyMembers_cons_of_none (h : rules.reason? v m = none) :
    rules.classifyMembers v (m :: ms) = (rules.classifyMembers v ms).comparing m := by
  simp [classifyMembers, Classification.comparing, h]

theorem classifyMembers_cons_of_some {reason : ExclusionReason}
    (h : rules.reason? v m = some reason) :
    rules.classifyMembers v (m :: ms) = (rules.classifyMembers v ms).keepingOut m reason := by
  simp [classifyMembers, Classification.keepingOut, h]

/-- The classification of members is an outcome of a pass over them. -/
theorem sorts_classifyMembers (rules : ExclusionRules) (v : Bool) (ms : List Member) :
    rules.Sorts v ms (rules.classifyMembers v ms) (rules.classifyMembers v ms).warnings := by
  induction ms with
  | nil => exact .nil
  | cons m ms ih =>
    cases h : rules.reason? v m with
    | none =>
      rw [classifyMembers_cons_of_none h, Classification.warnings_comparing]
      exact .compared (reason?_eq_none_iff.mp h) ih
    | some reason =>
      rw [classifyMembers_cons_of_some h, Classification.warnings_keepingOut]
      have hd := reason?_eq_some_iff.mp h
      split
      case isTrue he =>
        subst he
        exact .reported hd ih
      case isFalse hne => exact .keptOut hd hne ih

/-- **A classification is the only outcome of a pass.** -/
theorem sorts_iff {c : Classification} {ws : List Diagnostic} :
    rules.Sorts v ms c ws
      ↔ c = rules.classifyMembers v ms ∧ ws = (rules.classifyMembers v ms).warnings := by
  constructor
  · intro h
    induction h with
    | nil => exact ⟨rfl, rfl⟩
    | compared hnone _ ih =>
      rw [classifyMembers_cons_of_none (reason?_eq_none_iff.mpr hnone)]
      exact ⟨ih.1 ▸ rfl, ih.2⟩
    | reported hd _ ih =>
      rw [classifyMembers_cons_of_some (reason?_eq_some_iff.mpr hd),
        Classification.warnings_keepingOut, if_pos rfl]
      exact ⟨ih.1 ▸ rfl, ih.2 ▸ rfl⟩
    | keptOut hd hne _ ih =>
      rw [classifyMembers_cons_of_some (reason?_eq_some_iff.mpr hd),
        Classification.warnings_keepingOut, if_neg hne]
      exact ⟨ih.1 ▸ rfl, ih.2⟩
  · rintro ⟨rfl, rfl⟩
    exact sorts_classifyMembers rules v ms

end ExclusionRules

/-! ## The two lists together -/

/-- Whether a list is two others put together, the order of each kept. -/
inductive Interleaves {α : Type} : List α → List α → List α → Prop where
  | nil : Interleaves [] [] []
  | left {a as bs cs} : Interleaves as bs cs → Interleaves (a :: as) bs (a :: cs)
  | right {b as bs cs} : Interleaves as bs cs → Interleaves as (b :: bs) (b :: cs)

namespace ExclusionRules

variable {rules : ExclusionRules} {v : Bool} {ms : List Member} {c : Classification}
  {ws : List Diagnostic}

/-- The two lists of a pass interleave to what it went over. -/
theorem Sorts.interleaves (h : rules.Sorts v ms c ws) :
    Interleaves c.included (c.excluded.map (·.member)) ms := by
  induction h with
  | nil => exact .nil
  | compared _ _ ih => exact .left ih
  | reported _ _ ih => exact .right ih
  | keptOut _ _ _ ih => exact .right ih

/-- A pass over what a pass compared compares it all and reports nothing. -/
theorem Sorts.again (h : rules.Sorts v ms c ws) : rules.Sorts v c.included ⟨c.included, []⟩ [] := by
  induction h with
  | nil => exact .nil
  | compared hnone _ ih => exact .compared hnone ih
  | reported _ _ ih => exact ih
  | keptOut _ _ _ ih => exact ih

/-- **Classification is a stable, local, idempotent partition.**  The classification of a record and
what is reported of it are the only outcome of a pass over its members that asks of each for the
first reason against it, and of the record only whether it inherits from the view marker: so another
record with the same members and the same role is classified alike, and a record's members may be
classified in parts.  The two lists interleave to the members.  Reported are the malformed bindings
kept out, each as one warning, in order.  The members compared are compared again, without any
report. -/
theorem classify_exact (rules : ExclusionRules) (r : Record) :
    (rules.hasViewRole r = true ↔ ∃ marker ∈ r.inherited, rules.viewMarker = some marker)
      ∧ (∀ c ws, rules.Sorts (rules.hasViewRole r) r.members c ws
          ↔ c = rules.classify r ∧ ws = (rules.classify r).warnings)
      ∧ (∀ other : Record, rules.hasViewRole other = rules.hasViewRole r →
          rules.classify { other with members := r.members } = rules.classify r)
      ∧ (∀ xs ys : List Member,
          rules.classify { r with members := xs ++ ys }
              = (rules.classify { r with members := xs }).append
                  (rules.classify { r with members := ys })
            ∧ (rules.classify { r with members := xs ++ ys }).warnings
              = (rules.classify { r with members := xs }).warnings
                ++ (rules.classify { r with members := ys }).warnings)
      ∧ Interleaves (rules.classify r).included ((rules.classify r).excluded.map (·.member))
          r.members
      ∧ (rules.classify r).warnings.map (fun d => (d.brief, d.message))
          = ((rules.classify r).excluded.filter (·.reason = .malformedBinding)).map (fun e =>
              ((.malformedBinding, .warning, some e.member.span),
                s!"member binding `{e.member.pattern.render}` has no simple name"))
      ∧ rules.classify { r with members := (rules.classify r).included }
          = ⟨(rules.classify r).included, []⟩
      ∧ (rules.classify { r with members := (rules.classify r).included }).warnings = [] := by
  have hpass := sorts_classifyMembers rules (rules.hasViewRole r) r.members
  have hagain := sorts_iff.mp hpass.again
  refine ⟨hasViewRole_eq_true_iff, fun c ws => sorts_iff, fun other h => ?_, fun xs ys => ?_,
    hpass.interleaves, ?_, hagain.1.symm, hagain.2.symm⟩
  · exact congrArg (rules.classifyMembers · r.members) h
  · rw [classify_append, Classification.warnings_append]
    exact ⟨rfl, rfl⟩
  · rw [Classification.warnings_eq, List.map_map]
    rfl

/-- Two views with the same members: the body is kept out of both, whatever else they inherit. -/
theorem classify_exact_views :
    let members : List Member :=
      [.named "title" ⟨14, 19⟩, ⟨.wildcard, false, ["Published"], none, ⟨25, 26⟩⟩,
        .named "body" ⟨32, 36⟩]
    let card : Record := ⟨"Card", some .public, ["View"], members, ⟨0, 40⟩⟩
    let deck : Record := ⟨"Deck", none, ["Hashable", "View"], [], ⟨50, 60⟩⟩
    ExclusionRules.standard.hasViewRole deck = ExclusionRules.standard.hasViewRole card
      ∧ ExclusionRules.standard.classify { deck with members := members }
          = ExclusionRules.standard.classify card
      ∧ (ExclusionRules.standard.classify card).includedNames = ["title"] := by
  intro members card deck
  have h : ExclusionRules.standard.hasViewRole deck = ExclusionRules.standard.hasViewRole card := rfl
  exact ⟨h, (classify_exact .standard card).2.2.1 deck h, rfl⟩

end ExclusionRules

end Memberwise
