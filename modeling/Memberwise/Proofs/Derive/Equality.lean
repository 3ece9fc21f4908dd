import Memberwise.Proofs.Derive.Lowering

/-!
# Proofs/Derive/Equality — what the derived equality compares, exactly

The rule, on the item alone (`derive_exact`):

* an enum or a union is one error, at the name of the type;
* a struct with unnamed fields that are not skipped is one error for each, in order, where the field
  starts;
* any other struct compares its named fields in order, under the names as they are written, without
  the skipped ones and, in a view, without the body; if none is left, nothing is generated.

The names that the declaration compares have lost their raw mark and are looked up again; that finds
the field they come from because no two fields have one name (`Item.writtenName_unraw`).
-/

namespace Memberwise.Derive

namespace Item

variable {item : Item}

/-- Whether no two fields of an item have one name, raw or not. -/
def HasDistinctFields (item : Item) : Prop :=
  (item.data.fields.filterMap fun f => f.name.map unraw).Nodup

instance (item : Item) : Decidable item.HasDistinctFields :=
  inferInstanceAs (Decidable (List.Nodup _))

/-- Whether an item is a struct. -/
def IsStruct (item : Item) : Prop := ∃ fields, item.data = .struct fields

instance (item : Item) : Decidable item.IsStruct :=
  match hd : item.data with
  | .struct fields => isTrue ⟨fields, hd⟩
  | .enum => isFalse fun ⟨_, h⟩ => nomatch hd.symm.trans h
  | .union => isFalse fun ⟨_, h⟩ => nomatch hd.symm.trans h

/-- The implementation of the equality of an item's type that compares fields in order. -/
def equality (item : Item) (names : List String) : List Printed :=
  [.text "#", .group .bracket [.text "automatically_derived"], .text "impl"]
    ++ item.generics.declared
    ++ Printed.texts ["::", "core", "::", "cmp", "::", "PartialEq", "for", item.name]
    ++ item.generics.arguments
    ++ item.generics.whereClause
    ++ [.group .brace [.text "fn", .text "eq",
      .group .parenthesis (Printed.texts ["&", "self", ",", "other", ":", "&", "Self"]),
      .text "->", .text "bool", .group .brace (joinComparisons (names.map compareField))]]

/-! ## Names found again -/

theorem find?_unraw {names : List String} {name : String} (hdistinct : (names.map unraw).Nodup)
    (h : name ∈ names) : names.find? (fun written => unraw written == unraw name) = some name := by
  induction names with
  | nil => cases h
  | cons first later ih =>
    rw [List.map_cons, List.nodup_cons] at hdistinct
    rcases List.mem_cons.mp h with rfl | h
    · exact List.find?_cons_of_pos (beq_self_eq_true _)
    · have hne : unraw first ≠ unraw name := fun he =>
        hdistinct.1 (he ▸ List.mem_map_of_mem h)
      rw [List.find?_cons_of_neg (by simpa using hne), ih hdistinct.2 h]

/-- A field's name is found again by what it is without its raw mark. -/
theorem writtenName_unraw (hdistinct : item.HasDistinctFields) {name : String}
    (h : name ∈ item.data.fields.filterMap (·.name)) : item.writtenName (unraw name) = name := by
  have hnodup : ((item.data.fields.filterMap (·.name)).map unraw).Nodup := by
    rw [List.map_filterMap]
    exact hdistinct
  rw [writtenName, find?_unraw hnodup h, Option.getD_some]

theorem mem_of_mem_comparedNames {name : String} (h : name ∈ item.comparedNames) :
    name ∈ item.data.fields.filterMap (·.name) := by
  obtain ⟨f, hf, hc⟩ := List.mem_filterMap.mp h
  exact List.mem_filterMap.mpr ⟨f, hf, (Option.filter_eq_some_iff.mp hc).1⟩

theorem implementation_map_unraw (hdistinct : item.HasDistinctFields) :
    item.implementation (item.comparedNames.map unraw) = item.equality item.comparedNames := by
  have hnames : (item.comparedNames.map unraw).map (fun f => compareField (item.writtenName f))
      = item.comparedNames.map compareField := by
    rw [List.map_map]
    exact List.map_congr_left fun name hn =>
      congrArg compareField (writtenName_unraw hdistinct (mem_of_mem_comparedNames hn))
  unfold implementation equality
  rw [hnames]

/-! ## What deriving comes to -/

/-- Deriving, by the roles and what the declaration expands to: without problems the implementation
of what is compared, if anything is, and otherwise the errors. -/
theorem derive_of_expand {roles : List String} {result : Option Extension}
    {problems : List Problem} (hroles : item.roles = .ok roles)
    (hexpand : (item.lower roles).declaration.expand fieldRules = ⟨result, problems⟩) :
    item.derive =
      if problems = [] then
        .implemented (item.lower roles).declaration
          (result.elim [] fun x => item.implementation x.comparedFields)
      else .rejected (item.lower roles).declaration (problems.map (item.lower roles).error) := by
  unfold derive
  simp only [hroles, hexpand]
  cases problems with
  | nil => cases result <;> rfl
  | cons p ps => rfl

theorem unraw_name_ne_empty (hproper : item.HasProperNames) : unraw item.name ≠ "" := by
  intro he
  have hname := hproper.1
  rw [IsProper, he] at hname
  exact absurd hname (by decide)

/-- The declaration of a struct expands to the extension that compares its names, without their raw
marks, and what is reported of it are its unnamed fields. -/
theorem exists_expand_lower {roles : List String} (hview : "view" ∈ roles ↔ item.isView = true)
    (hproper : item.HasProperNames) (hstruct : item.IsStruct) :
    ∃ result : Option Extension, (item.lower roles).declaration.expand fieldRules
        = ⟨result, (item.lower roles).declaration.bindingProblems fieldRules⟩
      ∧ result.elim [] Extension.comparedFields = item.comparedNames.map unraw
      ∧ (result = none ↔ item.comparedNames = []) := by
  have hrecord := (isRecord_lower_iff roles (unraw_name_ne_empty hproper)).mpr hstruct
  have hnames := eligibleNames_lower hview
  cases hc : item.comparedNames with
  | nil =>
    rw [hc] at hnames
    exact ⟨none, Declaration.expand_of_no_names hrecord hnames, rfl, by simp⟩
  | cons first later =>
    -- Without their raw marks the names are identifiers, so what is put together passes its check.
    have hidentifiers : (item.lower roles).declaration.HasProperNames fieldRules := by
      refine ⟨fun name hn => Option.some.inj hn ▸ hproper.1, fun name hn => ?_⟩
      rw [hnames] at hn
      obtain ⟨written, hw, rfl⟩ := List.mem_map.mp hn
      obtain ⟨f, hf, hfn⟩ := List.mem_filterMap.mp (mem_of_mem_comparedNames hw)
      exact hproper.2 f hf written hfn
    rw [hc] at hnames
    refine ⟨_, Declaration.expand_of_proper_names hrecord rfl hnames hidentifiers, ?_, by simp⟩
    refine Expr.comparedFields_conjunction ?_
    rw [List.map_cons, List.map_cons, Expr.conjunction?, List.foldl_map]
    rfl

/-- What an enum or a union comes to: one error, at the name. -/
theorem derive_of_not_struct (hviews : item.AsksForViews) (hproper : item.HasProperNames)
    (hstruct : ¬ item.IsStruct) :
    ∃ d, item.derive = .rejected d
      [⟨"E2001: @Equatable can only be applied to record types", item.nameStart⟩] := by
  obtain ⟨roles, hroles, -⟩ := exists_roles hviews
  obtain ⟨fault, hexpand⟩ := Declaration.expand_of_not_record fieldRules
    (mt (isRecord_lower_iff roles (unraw_name_ne_empty hproper)).mp hstruct)
  exact ⟨(item.lower roles).declaration, derive_of_expand hroles hexpand⟩

/-- What a struct comes to: the errors of its unnamed fields, or the equality of its names. -/
theorem derive_of_struct (hviews : item.AsksForViews) (hproper : item.HasProperNames)
    (hdistinct : item.HasDistinctFields) (hstruct : item.IsStruct) :
    ∃ d, item.derive =
      if item.unnamedErrors = [] then
        .implemented d (if item.comparedNames = [] then [] else item.equality item.comparedNames)
      else .rejected d item.unnamedErrors := by
  obtain ⟨roles, hroles, hview⟩ := exists_roles hviews
  obtain ⟨result, hexpand, hcompared, hnone⟩ := exists_expand_lower hview hproper hstruct
  have herrors := errors_lower item roles
  have hnil : (item.lower roles).declaration.bindingProblems fieldRules = [] ↔
      item.unnamedErrors = [] := by rw [← herrors, List.map_eq_nil_iff]
  have htext : (result.elim [] fun x => item.implementation x.comparedFields)
      = if item.comparedNames = [] then [] else item.equality item.comparedNames := by
    cases result with
    | none => rw [if_pos (hnone.mp rfl), Option.elim_none]
    | some x =>
      rw [if_neg (fun h => nomatch hnone.mpr h), Option.elim_some,
        ← implementation_map_unraw hdistinct]
      exact congrArg item.implementation hcompared
  refine ⟨(item.lower roles).declaration, ?_⟩
  rw [derive_of_expand hroles hexpand, htext, herrors]
  simp only [hnil]

end Item

/-! ## The rule -/

theorem unnamedErrors_eq_nil_iff {fields : List Field} {i : Nat} :
    unnamedErrors i fields = [] ↔ ∀ f ∈ fields, f.name = none → f.isSkipped = true := by
  induction fields generalizing i with
  | nil => simp [unnamedErrors]
  | cons f fs ih =>
    rw [unnamedErrors_cons, List.append_eq_nil_iff, ih, List.forall_mem_cons]
    refine and_congr_left fun _ => ?_
    cases hn : f.name <;> simp [Field.isUnnamed, hn]

/-- No error of an unnamed field is one of an extension that cannot be put together. -/
theorem not_prefix_unnamedError (i n : Nat) :
    ¬ "E9001".toList <+: (unnamedError i n).message.toList := by
  have hfront : (toString "E2002: member binding `").toList
      = 'E' :: '2' :: "002: member binding `".toList := by decide
  unfold unnamedError
  simp only [String.toList_append, hfront, List.cons_append]
  simp

/-- **What the derived equality compares, exactly.**  The equality of a text is that of the item it
is read as, whose names are proper.  Of any item with proper and distinct names and only views among
its roles, an implementation comes out exactly if it is a struct and all its unnamed fields are
skipped; and no error is that of an extension that cannot be put together. -/
theorem derive_exact :
    (∀ (source : String) (item : Item), Item.ofText? source.toList = some item →
        derive source = item.derive ∧ item.HasProperNames)
      ∧ ∀ item : Item, item.HasProperNames → item.HasDistinctFields → item.AsksForViews →
        ((∃ d text, item.derive = .implemented d text) ↔
            item.IsStruct ∧ ∀ f ∈ item.data.fields, f.name = none → f.isSkipped = true)
          ∧ (¬ item.IsStruct → ∃ d, item.derive = .rejected d
              [⟨"E2001: @Equatable can only be applied to record types", item.nameStart⟩])
          ∧ (item.IsStruct → (∃ f ∈ item.data.fields, f.name = none ∧ f.isSkipped = false) →
              ∃ d, item.derive = .rejected d item.unnamedErrors)
          ∧ (item.IsStruct → (∀ f ∈ item.data.fields, f.name = none → f.isSkipped = true) →
              ∃ d, item.derive = .implemented d
                (if item.comparedNames = [] then [] else item.equality item.comparedNames))
          ∧ ∀ d es, item.derive = .rejected d es →
              ∀ e ∈ es, ¬ "E9001".toList <+: e.message.toList := by
  refine ⟨fun source item hread => ⟨?_, Item.hasProperNames_of_ofText? hread⟩,
    fun item hproper hdistinct hviews => ?_⟩
  · unfold derive
    rw [hread]
  by_cases hstruct : item.IsStruct
  case neg =>
    obtain ⟨d, hd⟩ := Item.derive_of_not_struct hviews hproper hstruct
    refine ⟨by simp [hd, hstruct], fun _ => ⟨d, hd⟩, fun h => absurd h hstruct,
      fun h => absurd h hstruct, fun d' es hr e he => ?_⟩
    obtain ⟨-, rfl⟩ := Derived.rejected.inj (hd.symm.trans hr)
    obtain rfl := List.mem_singleton.mp he
    have hmessage : ¬ "E9001".toList
        <+: "E2001: @Equatable can only be applied to record types".toList := by decide
    exact hmessage
  case pos =>
    obtain ⟨d, hd⟩ := Item.derive_of_struct hviews hproper hdistinct hstruct
    have hnil : item.unnamedErrors = [] ↔
        ∀ f ∈ item.data.fields, f.name = none → f.isSkipped = true := unnamedErrors_eq_nil_iff
    by_cases hnamed : item.unnamedErrors = []
    case pos =>
      rw [if_pos hnamed] at hd
      have hall := hnil.mp hnamed
      refine ⟨by simpa [hd, hstruct] using hall, fun h => absurd hstruct h, ?_,
        fun _ _ => ⟨d, hd⟩, ?_⟩
      · rintro - ⟨f, hf, hn, hs⟩
        exact absurd (hall f hf hn) (by simp [hs])
      · intro d' es hr
        cases hd.symm.trans hr
    case neg =>
      rw [if_neg hnamed] at hd
      refine ⟨by simp [hd, ← hnil, hnamed], fun h => absurd hstruct h, fun _ _ => ⟨d, hd⟩,
        fun _ h => absurd (hnil.mpr h) hnamed, fun d' es hr e he => ?_⟩
      obtain ⟨-, rfl⟩ := Derived.rejected.inj (hd.symm.trans hr)
      obtain ⟨x, -, rfl⟩ := List.mem_map.mp he
      exact not_prefix_unnamedError _ _

/-- A view with a skipped field, a raw name and a body. -/
def rowSource : String :=
  "#[equatable(view)] struct Row<T> \x7b title: String, #[skip_equatable] weight: f32, r#type: u8, "
    ++ "body: T \x7d"

/-- The equality of the view, as it is printed. -/
def rowEquality : String :=
  "# [automatically_derived] impl < T > :: core :: cmp :: PartialEq for Row < T > "
    ++ "\x7b fn eq (& self , other : & Self) -> bool "
    ++ "\x7b self . title == other . title && self . r#type == other . r#type \x7d \x7d"

/-- The rule at one item: of four fields two are compared, the raw one under its raw name. -/
theorem derive_exact_row : ∃ item, Item.ofText? rowSource.toList = some item
    ∧ item.HasDistinctFields ∧ item.AsksForViews
    ∧ (∃ d, derive rowSource = .implemented d (item.equality ["title", "r#type"]))
    ∧ Printed.renderAll (item.equality ["title", "r#type"]) = rowEquality := by
  have hrow : (Item.ofText? rowSource.toList).any (fun item =>
      decide (item.HasDistinctFields ∧ item.AsksForViews ∧ item.IsStruct
        ∧ (∀ f ∈ item.data.fields, f.name = none → f.isSkipped = true)
        ∧ item.comparedNames = ["title", "r#type"]
        ∧ Printed.renderAll (item.equality ["title", "r#type"]) = rowEquality)) = true := by
    decide +kernel
  obtain ⟨item, hread, hitem⟩ := (Option.any_eq_true _ _).mp hrow
  obtain ⟨hdistinct, hviews, hstruct, hnamed, hnames, htext⟩ := of_decide_eq_true hitem
  obtain ⟨hderive, hproper⟩ := derive_exact.1 rowSource item hread
  obtain ⟨-, -, -, himplemented, -⟩ := derive_exact.2 item hproper hdistinct hviews
  obtain ⟨d, hd⟩ := himplemented hstruct hnamed
  rw [hnames, if_neg (by simp), ← hderive] at hd
  exact ⟨item, hread, hdistinct, hviews, ⟨d, hd⟩, htext⟩

end Memberwise.Derive
