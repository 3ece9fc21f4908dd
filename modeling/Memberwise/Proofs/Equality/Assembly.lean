import Memberwise.Proofs.Expansion.ComparedFields

/-!
# Proofs/Equality/Assembly — the check of what is put together accepts exactly the comparisons

An extension put together is checked piece by piece: its names, its conformances, and each conjunct
of its body by what the conjunct compares and then by its operands.  `Extension.Compares` says the
same of the extension as a whole: the conjuncts are the comparisons of some fields, by identifiers,
however they are joined.

* `Extension.fault?_eq_none_iff` — **the check passes exactly what compares some fields**;
* `Extension.compares_iff` — which fields these are can be read off the extension;
* `Record.assembly_exact` — with that, what becomes of any members of any record: nothing without
  members, an error for a member without a name or a name that is no identifier, and otherwise the
  comparison of all names in order.
-/

namespace Memberwise

open Text

/-! ## Rows of comparisons -/

namespace Expr

variable {cs : List Expr} {names : List String}

/-- A row of conjuncts has no fault exactly when it is the comparisons of some identifiers. -/
theorem forall_comparisonFault?_eq_none_iff :
    (∀ c ∈ cs, c.comparisonFault? = none) ↔
      ∃ names : List String, (∀ name ∈ names, isIdentifier name = true)
        ∧ cs = names.map fieldEqual := by
  induction cs with
  | nil => exact ⟨fun _ => ⟨[], by simp, rfl⟩, by simp⟩
  | cons c cs ih =>
    rw [List.forall_mem_cons, ih, comparisonFault?_eq_none]
    constructor
    · rintro ⟨⟨name, hname, rfl⟩, names, hnames, rfl⟩
      exact ⟨name :: names, List.forall_mem_cons.mpr ⟨hname, hnames⟩, rfl⟩
    · rintro ⟨names, hnames, hcs⟩
      cases names with
      | nil => cases hcs
      | cons name names =>
        obtain ⟨rfl, rfl⟩ := List.cons.inj hcs
        obtain ⟨hname, hlater⟩ := List.forall_mem_cons.mp hnames
        exact ⟨⟨name, hname, rfl⟩, names, hlater, rfl⟩

/-- The fields that a row of comparisons compares are those it is made of. -/
theorem filterMap_comparedField?_map (names : List String) :
    (names.map fieldEqual).filterMap comparedField? = names := by
  induction names with
  | nil => rfl
  | cons name names ih =>
    rw [List.map_cons, List.filterMap_cons_some (comparedField?_fieldEqual name), ih]

theorem comparedFields_of_conjuncts {e : Expr} (h : e.conjuncts = names.map fieldEqual) :
    e.comparedFields = names := by
  rw [comparedFields, h, filterMap_comparedField?_map]

end Expr

/-! ## The check -/

namespace Extension

/-- Whether an extension makes its type comparable by these fields and nothing else: it is of the
values of that type, conforms to `Equatable` alone, and its conjuncts, in whatever way they are
joined, are the comparisons of the fields in order. -/
structure Compares (e : Extension) (names : List String) : Prop where
  type : isIdentifier e.extendedType = true
  operand : e.function.operandType = e.extendedType
  conformances : e.conformances = ["Equatable"]
  ne_nil : names ≠ []
  isIdentifier_of_mem : ∀ name ∈ names, isIdentifier name = true
  conjuncts : e.function.body.conjuncts = names.map Expr.fieldEqual

variable {e : Extension} {names : List String}

theorem fault?_eq_none : e.fault? = none ↔
    isIdentifier e.extendedType = true ∧ e.function.operandType = e.extendedType
      ∧ e.conformances = ["Equatable"]
      ∧ ∀ c ∈ e.function.body.conjuncts, c.comparisonFault? = none := by
  cases ht : isIdentifier e.extendedType with
  | false => simp [fault?, ht]
  | true =>
    by_cases ho : e.function.operandType = e.extendedType
    · by_cases hc : e.conformances = ["Equatable"]
      · simp [fault?, ht, ho, hc, conformance]
      · simp [fault?, ht, ho, hc, conformance]
    · simp [fault?, ht, ho]

/-- **The check passes exactly what compares some fields.** -/
theorem fault?_eq_none_iff : e.fault? = none ↔ ∃ names, e.Compares names := by
  rw [fault?_eq_none, Expr.forall_comparisonFault?_eq_none_iff]
  constructor
  · rintro ⟨ht, ho, hc, names, hnames, hconj⟩
    refine ⟨names, ht, ho, hc, ?_, hnames, hconj⟩
    rintro rfl
    exact Expr.conjuncts_ne_nil _ hconj
  · rintro ⟨names, h⟩
    exact ⟨h.type, h.operand, h.conformances, names, h.isIdentifier_of_mem, h.conjuncts⟩

theorem Compares.comparedFields_eq (h : e.Compares names) : e.comparedFields = names :=
  Expr.comparedFields_of_conjuncts h.conjuncts

/-- Which fields an extension compares can be read off it. -/
theorem compares_iff : e.Compares names ↔ e.fault? = none ∧ e.comparedFields = names := by
  constructor
  · exact fun h => ⟨fault?_eq_none_iff.mpr ⟨names, h⟩, h.comparedFields_eq⟩
  · rintro ⟨hfault, rfl⟩
    obtain ⟨names, h⟩ := fault?_eq_none_iff.mp hfault
    exact h.comparedFields_eq ▸ h

/-- It does not matter how comparisons are joined. -/
example : (Extension.equatable "T" none (.binary .and (.fieldEqual "a")
    (.binary .and (.fieldEqual "b") (.fieldEqual "c")))).Compares ["a", "b", "c"] :=
  compares_iff.mpr ⟨by decide, by decide⟩

end Extension

/-! ## Putting together -/

namespace Member

variable {ms : List Member} {names : List String} {name : String}

/-- Members have no row of names exactly when one of them has no name. -/
theorem names_eq_error_iff :
    (∃ fault, Member.names ms = .error fault) ↔ ∃ m ∈ ms, m.name? = none := by
  induction ms with
  | nil => simp [Member.names]
  | cons m ms ih =>
    simp only [List.mem_cons, exists_eq_or_imp]
    rw [← ih, Member.names]
    cases hm : m.name? with
    | none => simp
    | some name => cases hms : Member.names ms <;> simp [Except.map]

theorem mem_names (h : Member.names ms = .ok names) :
    name ∈ names ↔ ∃ m ∈ ms, m.name? = some name := by
  rw [← List.mem_map, Member.names_eq_ok.mp h]
  simp

end Member

namespace Record

variable {r : Record} {ms : List Member} {names later : List String} {first : String}

/-- The comparison of a row of fields, joined from the left. -/
def comparison (r : Record) (first : String) (later : List String) : Extension :=
  .equatable r.name r.access
    (later.foldl (fun body name => .binary .and body (.fieldEqual name)) (.fieldEqual first))

theorem conjunction?_comparison (r : Record) (first : String) (later : List String) :
    Expr.conjunction? ((first :: later).map Expr.fieldEqual)
      = some (r.comparison first later).function.body := by
  rw [List.map_cons, Expr.conjunction?, List.foldl_map]
  rfl

theorem fault?_comparison_eq_none : (r.comparison first later).fault? = none ↔
    isIdentifier r.name = true ∧ ∀ name ∈ first :: later, isIdentifier name = true :=
  Extension.fault?_equatable_eq_none (r.conjunction?_comparison first later)

theorem equality?_of_names_error {fault : AssemblyFault} (h : Member.names ms = .error fault) :
    r.equality? ms = .error fault := by
  rw [equality?, h]

theorem equality?_of_names_nil (h : Member.names ms = .ok []) : r.equality? ms = .ok none := by
  rw [equality?, h]
  rfl

/-- With names the comparison is put together and checked. -/
theorem equality?_of_names_cons (h : Member.names ms = .ok (first :: later)) :
    r.equality? ms = match (r.comparison first later).fault? with
      | some fault => .error fault
      | none => .ok (some (r.comparison first later)) := by
  simp only [equality?, h, r.conjunction?_comparison first later]
  rfl

/-- **Nothing is put together of no members**, and of no other row. -/
theorem equality?_eq_none_iff : r.equality? ms = .ok none ↔ ms = [] := by
  constructor
  · intro h
    cases hms : Member.names ms with
    | error fault => simp [equality?_of_names_error hms] at h
    | ok names =>
      cases names with
      | nil => simpa using Member.names_eq_ok.mp hms
      | cons first later =>
        rw [equality?_of_names_cons hms] at h
        split at h <;> simp at h
  · rintro rfl
    exact equality?_of_names_nil rfl

/-- **An extension is put together of named members only**, and is the comparison of them all. -/
theorem equality?_eq_some_iff {e : Extension} : r.equality? ms = .ok (some e) ↔
    ∃ first later, ms.map Member.name? = (first :: later).map some
      ∧ isIdentifier r.name = true ∧ (∀ name ∈ first :: later, isIdentifier name = true)
      ∧ e = r.comparison first later := by
  constructor
  · intro h
    cases hms : Member.names ms with
    | error fault => simp [equality?_of_names_error hms] at h
    | ok names =>
      cases names with
      | nil => simp [equality?_of_names_nil hms] at h
      | cons first later =>
        rw [equality?_of_names_cons hms] at h
        split at h
        · cases h
        · rename_i hfault
          obtain ⟨hr, hnames⟩ := fault?_comparison_eq_none.mp hfault
          obtain rfl := Option.some.inj (Except.ok.inj h)
          exact ⟨first, later, Member.names_eq_ok.mp hms, hr, hnames, rfl⟩
  · rintro ⟨first, later, hms, hr, hnames, rfl⟩
    rw [equality?_of_names_cons (Member.names_eq_ok.mpr hms),
      fault?_comparison_eq_none.mpr ⟨hr, hnames⟩]

/-- **Putting together fails on a missing or improper name**, the record's among them if there is
anything to compare. -/
theorem equality?_eq_error_iff : (∃ fault, r.equality? ms = .error fault) ↔
    (∃ m ∈ ms, m.name? = none)
      ∨ ms ≠ [] ∧ (isIdentifier r.name = false
        ∨ ∃ m ∈ ms, ∃ name, m.name? = some name ∧ isIdentifier name = false) := by
  cases hms : Member.names ms with
  | error fault =>
    have hunnamed := Member.names_eq_error_iff.mp ⟨fault, hms⟩
    simp [equality?_of_names_error hms, hunnamed]
  | ok names =>
    have hnamed : ¬ ∃ m ∈ ms, m.name? = none := by
      rw [← Member.names_eq_error_iff, hms]
      simp
    have himproper : (∃ m ∈ ms, ∃ name, m.name? = some name ∧ isIdentifier name = false)
        ↔ ∃ name ∈ names, isIdentifier name = false := by
      simp only [Member.mem_names hms]
      grind
    rw [himproper, or_iff_right hnamed]
    cases names with
    | nil =>
      obtain rfl : ms = [] := by simpa using Member.names_eq_ok.mp hms
      simp [equality?_of_names_nil hms]
    | cons first later =>
      have hne : ms ≠ [] := by
        rintro rfl
        cases hms
      have hfault : (∃ fault, r.equality? ms = .error fault)
          ↔ (r.comparison first later).fault? ≠ none := by
        rw [equality?_of_names_cons hms]
        cases (r.comparison first later).fault? <;> simp
      rw [hfault, ne_eq, fault?_comparison_eq_none]
      simp only [hne, Classical.not_and_iff_not_or_not, Classical.not_forall, Bool.not_eq_true,
        ne_eq, not_false_eq_true, true_and, exists_prop]

/-- **What is put together is what compares fields.**  The check passes exactly the extensions that
compare some fields, which are those it lists; and of any members of any record there comes nothing
if there are none, an error if one has no name or the record or one of them is not named by an
identifier, and otherwise the comparison of all of them in order, joined from the left, with the
record's access level. -/
theorem assembly_exact :
    (∀ e : Extension, (e.fault? = none ↔ ∃ names, e.Compares names)
      ∧ ∀ names, e.Compares names ↔ e.fault? = none ∧ e.comparedFields = names)
    ∧ ∀ (r : Record) (ms : List Member),
      (r.equality? ms = .ok none ↔ ms = [])
      ∧ ((∃ fault, r.equality? ms = .error fault) ↔
        (∃ m ∈ ms, m.name? = none)
          ∨ ms ≠ [] ∧ (isIdentifier r.name = false
            ∨ ∃ m ∈ ms, ∃ name, m.name? = some name ∧ isIdentifier name = false))
      ∧ ∀ e, r.equality? ms = .ok (some e) ↔
        ∃ first later, ms.map Member.name? = (first :: later).map some
          ∧ isIdentifier r.name = true ∧ (∀ name ∈ first :: later, isIdentifier name = true)
          ∧ e = .equatable r.name r.access
            (later.foldl (fun body name => .binary .and body (.fieldEqual name))
              (.fieldEqual first)) :=
  ⟨fun _ => ⟨Extension.fault?_eq_none_iff, fun _ => Extension.compares_iff⟩,
    fun _ _ => ⟨equality?_eq_none_iff, equality?_eq_error_iff, fun _ => equality?_eq_some_iff⟩⟩

end Record

end Memberwise
