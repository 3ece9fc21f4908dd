import Memberwise.Derive.Implementation
import Memberwise.Proofs.Derive.ItemNames
import Memberwise.Proofs.Expansion.ComparedFields

/-!
# Proofs/Derive/Lowering — what the declaration of an item says about its fields

An item is lowered before it is expanded: names lose their raw mark, roles become inherited types,
and places become numbers.  Each is undone here.

* The attributes `equatable` of an item that only asks for views give the role `view`, and give it
  exactly if one of them lists it (`Item.exists_roles`).
* The declaration compares the names of the fields that the item compares, without their marks
  (`Item.eligibleNames_lower`).
* What is reported of it stands, in order, at the unnamed fields (`Item.errors_lower`), because the
  place of a field is as far into the table as its number says.
-/

namespace Memberwise.Derive

/-! ## What an item says -/

/-- Whether a row of trees is a list of entries `view`, with commas between them. -/
def isViewList : List TokenTree → Bool
  | [] => true
  | [.word w _] => w == "view"
  | .word w _ :: .mark c _ _ :: ts => w == "view" && c == ',' && isViewList ts
  | _ => false

/-- Whether an attribute has a list, and only the entry `view` in it. -/
def ItemAttribute.isViews (a : ItemAttribute) : Bool :=
  match a.arguments with
  | .list content _ => isViewList content
  | .none | .value _ => false

/-- The words that an attribute lists. -/
def ItemAttribute.listed (a : ItemAttribute) : List String :=
  match a.arguments with
  | .list content _ => allWords content
  | .none | .value _ => []

/-- Whether every attribute `equatable` of an item is a list of entries `view`. -/
def Item.AsksForViews (item : Item) : Prop :=
  ∀ a ∈ item.attributes, a.isNamed "equatable" → a.isViews

/-- Whether an attribute `equatable` of an item lists `view`. -/
def Item.isView (item : Item) : Bool :=
  item.attributes.any fun a => a.isNamed "equatable" && a.listed.contains "view"

/-- Whether a field carries the attribute `skip_equatable`. -/
def Field.isSkipped (f : Field) : Bool :=
  f.attributes.any fun a => a.path.map (unraw ·.1) == ["skip_equatable"]

/-- Whether a field has no name and is not skipped. -/
def Field.isUnnamed (f : Field) : Bool := f.name.isNone && !f.isSkipped

/-- The name that a field is compared under, as it is written: a skipped field has none, nor has the
body of a view. -/
def Field.comparedName? (isView : Bool) (f : Field) : Option String :=
  f.name.filter fun name => !f.isSkipped && !(isView && unraw name == "body")

/-- The names of the fields that an item compares, as they are written. -/
def Item.comparedNames (item : Item) : List String :=
  item.data.fields.filterMap (Field.comparedName? item.isView)

/-- What is wrong with an unnamed field, by its index and where it starts. -/
def unnamedError (index place : Nat) : DeriveError :=
  ⟨s!"E2002: member binding `{index}` has no simple name", place⟩

/-- What is wrong with the unnamed fields among some, which are counted from an index. -/
def unnamedErrors (index : Nat) (fields : List Field) : List DeriveError :=
  ((fields.zipIdx index).filter (·.1.isUnnamed)).map fun (f, i) => unnamedError i f.start

/-- What is wrong with the unnamed fields of an item. -/
def Item.unnamedErrors (item : Item) : List DeriveError :=
  Derive.unnamedErrors 0 item.data.fields

instance (item : Item) : Decidable item.AsksForViews :=
  inferInstanceAs (Decidable (∀ a ∈ item.attributes, _ → _))

/-! ## Roles -/

/-- A list of entries `view` reads as that many roles. -/
theorem readRoles_of_isViewList {close n : Nat} {ts : List TokenTree} (h : isViewList ts = true)
    (hn : ts.length < n) : readRoles close n ts = .ok (allWords ts) := by
  fun_induction isViewList ts generalizing n
  case case4 => cases h
  all_goals obtain ⟨n, rfl⟩ := Nat.exists_eq_succ_of_ne_zero (Nat.ne_zero_of_lt hn)
  case case1 => rfl
  case case2 w start =>
    obtain rfl := eq_of_beq h
    simp [readRoles, afterRolePath, viewRole, startsOperator, startsMarks, allWords,
      TokenTree.words]
  case case3 w start c joined mark ts ih =>
    obtain ⟨⟨hw, hc⟩, hts⟩ : (w = "view" ∧ c = ',') ∧ isViewList ts = true := by simpa using h
    subst hw hc
    have hlater := ih hts (n := n) (by simp only [List.length_cons] at hn; omega)
    simp [readRoles, afterRolePath, viewRole, startsOperator, startsMarks, allWords,
      TokenTree.words, hlater, Except.map]

theorem attributeRoles_of_isViews {a : ItemAttribute} (h : a.isViews = true) :
    attributeRoles a = .ok a.listed := by
  unfold ItemAttribute.isViews at h
  unfold attributeRoles ItemAttribute.listed
  split at h
  next content close ha =>
    rw [ha]
    exact readRoles_of_isViewList h (Nat.lt_succ_self _)
  next => cases h
  next => cases h

theorem allRoles_of_isViews {as : List ItemAttribute} (h : ∀ a ∈ as, a.isViews = true) :
    allRoles as = .ok (as.flatMap ItemAttribute.listed) := by
  induction as with
  | nil => rfl
  | cons a as ih =>
    obtain ⟨ha, has⟩ := List.forall_mem_cons.mp h
    rw [allRoles, attributeRoles_of_isViews ha, ih has]
    rfl

/-- **The roles of an item that only asks for views**: the view is one if it is listed. -/
theorem Item.exists_roles {item : Item} (h : item.AsksForViews) :
    ∃ roles, item.roles = .ok roles ∧ ("view" ∈ roles ↔ item.isView = true) := by
  refine ⟨_, allRoles_of_isViews fun a ha => ?_, ?_⟩
  · obtain ⟨ha, hn⟩ := List.mem_filter.mp ha
    exact h a ha hn
  · simp [Item.isView, List.mem_flatMap, and_assoc]

/-! ## Attributes -/

/-- A name without colons is the path of its own one word. -/
theorem intercalate_eq_iff {words : List String} {word : String} (hne : word ≠ "")
    (hcolon : ':' ∉ word.toList) : String.intercalate "::" words = word ↔ words = [word] := by
  match words with
  | [] => simpa [eq_comm] using hne
  | [w] => simp
  | w :: x :: ws =>
    constructor
    · rintro rfl
      refine absurd ?_ hcolon
      rw [String.toList_intercalate]
      simp [List.intercalate]
    · intro h
      cases h

theorem ItemAttribute.name_eq_skip_iff {a : ItemAttribute} :
    a.name = "skip_equatable" ↔ a.path.map (unraw ·.1) = ["skip_equatable"] :=
  intercalate_eq_iff (by decide) (by decide)

theorem map_name_lowerAttributes (n : Nat) (as : List ItemAttribute) :
    (lowerAttributes n as).map (·.name) = as.map (·.name) := by
  induction as generalizing n with
  | nil => rfl
  | cons a as ih => rw [lowerAttributes, List.map_cons, List.map_cons, ih]

/-- A lowered field is admitted exactly if it is not skipped: it has no modifiers, and there are no
wrappers. -/
theorem admits_lower_iff {f : Field} {i n : Nat} :
    fieldRules.Admits (f.lower i n) ↔ f.isSkipped = false := by
  -- Of the attributes only the names count, and lowering keeps them.
  have hmodifiers : (f.lower i n).modifiers = [] := rfl
  have hnames : (f.lower i n).attributes.map (·.name) = f.attributes.map (·.name) :=
    map_name_lowerAttributes (n + 1) f.attributes
  have hskip : fieldRules.Admits (f.lower i n) ↔
      ∀ name ∈ (f.lower i n).attributes.map (·.name), name ≠ "skip_equatable" := by
    simp [ExclusionRules.Admits, hmodifiers, fieldRules]
  rw [hskip, hnames]
  simp [Field.isSkipped, ItemAttribute.name_eq_skip_iff]

/-! ## Fields -/

/-- The binding of a lowered field. -/
def Field.binding (f : Field) (index place : Nat) : Binding :=
  ⟨f.name.elim (.position index) fun name => .name (unraw name), some (Printed.renderAll f.type),
    false, false, placeSpan place⟩

theorem ownBindings_lower (f : Field) (i n : Nat) :
    (f.lower i n).ownBindings = [(f.lower i n, f.binding i n)] := by
  unfold Field.binding
  cases hn : f.name <;>
    simp [Declaration.ownBindings, Field.lower, Declaration.ofKind, Declaration.property?, hn]

theorem name?_binding (f : Field) (i n : Nat) :
    (f.binding i n).pattern.name? = f.name.map unraw := by
  unfold Field.binding
  cases f.name <;> rfl

/-- A field is compared under its name without the raw mark, if it is compared. -/
theorem filter_eligible_binding {inherited : List String} {isView : Bool} (f : Field) (i n : Nat)
    (hview : "view" ∈ inherited ↔ isView = true) :
    ((f.binding i n).pattern.name?.filter fun name =>
        fieldRules.Eligible inherited (f.lower i n) (f.binding i n) name)
      = (f.comparedName? isView).map unraw := by
  have hmarker : (∃ marker ∈ inherited, fieldRules.viewMarker = some marker) ↔ isView = true := by
    simpa [fieldRules, viewRole] using hview
  cases hn : f.name with
  | none => simp [name?_binding, Field.comparedName?, hn]
  | some name =>
    have hrole : fieldRules.roleMember = "body" := rfl
    simp only [name?_binding, hn, Field.comparedName?, Option.map_some, Option.filter_some,
      ExclusionRules.Eligible, admits_lower_iff, hmarker, hrole, true_and]
    by_cases hbody : unraw name = "body" <;> cases f.isSkipped <;> cases isView <;> simp [hbody]

/-- A field is reported exactly if it has no name and is not skipped. -/
theorem malformed_binding_iff (f : Field) (i n : Nat) :
    (fieldRules.Admits (f.lower i n) ∧ (f.binding i n).pattern.name? = none) ↔
      f.isUnnamed = true := by
  rw [admits_lower_iff, name?_binding, Field.isUnnamed]
  cases f.name <;> simp

/-- The lowered fields compare the names that the fields do. -/
theorem eligibleNames_lowerFields {inherited : List String} {isView : Bool}
    (hview : "view" ∈ inherited ↔ isView = true) (fields : List Field) (i n : Nat) :
    (((lowerFields i n fields).flatMap Declaration.ownBindings).filterMap fun (property, b) =>
        b.pattern.name?.filter fun name => fieldRules.Eligible inherited property b name)
      = (fields.filterMap (Field.comparedName? isView)).map unraw := by
  induction fields generalizing i n with
  | nil => rfl
  | cons f fs ih =>
    have hf := filter_eligible_binding f i n hview
    rw [lowerFields, List.flatMap_cons, ownBindings_lower, List.filterMap_append, ih,
      List.filterMap_cons, List.filterMap_nil, List.filterMap_cons]
    dsimp only
    rw [hf]
    cases f.comparedName? isView <;> rfl

theorem unnamedErrors_cons (i : Nat) (f : Field) (fs : List Field) :
    unnamedErrors i (f :: fs)
      = (if f.isUnnamed then [unnamedError i f.start] else []) ++ unnamedErrors (i + 1) fs := by
  unfold unnamedErrors
  cases hf : f.isUnnamed <;> simp [List.zipIdx_cons, hf]

/-- What is reported of a binding without a plain name, by a table of places. -/
def bindingError (places : List Nat) (b : Binding) : DeriveError :=
  ⟨s!"E2002: member binding `{b.pattern.render}` has no simple name",
    places.getD b.span.start 0⟩

/-- Of an unnamed field its index and its start are reported. -/
theorem bindingError_binding {places later : List Nat} {f : Field} (i : Nat) {n : Nat}
    (h : f.isUnnamed = true) (hplaces : places.drop n = f.places ++ later) :
    bindingError places (f.binding i n) = unnamedError i f.start := by
  have hn : f.name = none := by
    simp only [Field.isUnnamed, Bool.and_eq_true, Option.isNone_iff_eq_none] at h
    exact h.1
  have hplace : places.getD n 0 = f.start := by
    have := congrArg List.head? hplaces
    rw [List.head?_drop, Field.places, List.cons_append, List.head?_cons] at this
    rw [List.getD_eq_getElem?_getD, this]
    rfl
  have hrender : (f.binding i n).pattern.render = toString i := by
    simp only [Field.binding, hn, Option.elim_none, Pattern.render]
  have hspan : (f.binding i n).span.start = n := rfl
  unfold bindingError unnamedError
  rw [hrender, hspan, hplace]
  rfl

/-- What is reported of the lowered fields stands at the unnamed ones: the table says where they and
their attributes are, from the number of the first on. -/
theorem errors_lowerFields {places : List Nat} (fields : List Field) (i n : Nat)
    (hplaces : places.drop n = fields.flatMap Field.places) :
    (((lowerFields i n fields).flatMap Declaration.ownBindings).filter fun (property, b) =>
        fieldRules.Admits property ∧ b.pattern.name? = none).map (bindingError places ·.2)
      = unnamedErrors i fields := by
  induction fields generalizing i n with
  | nil => rfl
  | cons f fs ih =>
    rw [List.flatMap_cons] at hplaces
    have hlater : places.drop (n + 1 + f.attributes.length) = fs.flatMap Field.places := by
      have hlength : f.places.length = 1 + f.attributes.length := by
        simp [Field.places, Nat.add_comm]
      rw [Nat.add_assoc, ← hlength, ← List.drop_drop, hplaces, List.drop_left]
    rw [lowerFields, List.flatMap_cons, ownBindings_lower, List.filter_append, List.map_append,
      ih _ _ hlater, unnamedErrors_cons]
    congr 1
    -- The first field is the only place where the table and the list of errors can disagree.
    have hreported := malformed_binding_iff f i n
    cases hf : f.isUnnamed with
    | true =>
      rw [List.filter_cons_of_pos (by simpa [hf] using hreported), List.filter_nil, List.map_cons,
        List.map_nil, if_pos rfl, bindingError_binding i hf hplaces]
    | false =>
      rw [List.filter_cons_of_neg (by simpa [hf] using hreported)]
      rfl

/-! ## The declaration of an item -/

namespace Item

variable {item : Item} {roles : List String}

theorem isRecord_lower_iff (roles : List String) (hname : unraw item.name ≠ "") :
    (item.lower roles).declaration.IsRecord ↔ ∃ fields, item.data = .struct fields := by
  cases hd : item.data <;>
    simp [Item.lower, Declaration.IsRecord, ItemData.kind, hd, hname]

/-- The number of the first field's place is how far into the table the fields begin. -/
theorem exists_members_lower (item : Item) (roles : List String) :
    ∃ n, (item.lower roles).declaration.members = some (lowerFields 0 n item.data.fields)
      ∧ (item.lower roles).places.drop n = item.data.fields.flatMap Field.places := by
  refine ⟨_, rfl, ?_⟩
  rw [Nat.add_comm]
  simp [Item.lower]

/-- **The declaration compares the names that the item does**, without their raw marks. -/
theorem eligibleNames_lower (hview : "view" ∈ roles ↔ item.isView = true) :
    (item.lower roles).declaration.eligibleNames fieldRules = item.comparedNames.map unraw :=
  eligibleNames_lowerFields hview item.data.fields 0 _

/-- What is reported of a binding without a plain name is its error by the table of places. -/
theorem error_malformedBinding (l : Lowered) (b : Binding) :
    l.error ⟨.malformedBinding b.pattern, b.span⟩ = bindingError l.places b := by
  unfold Lowered.error bindingError
  rfl

/-- **What is reported of the declaration stands at the unnamed fields**, in their order. -/
theorem errors_lower (item : Item) (roles : List String) :
    ((item.lower roles).declaration.bindingProblems fieldRules).map (item.lower roles).error
      = item.unnamedErrors := by
  obtain ⟨n, hmembers, hplaces⟩ := exists_members_lower item roles
  have herrors := errors_lowerFields item.data.fields 0 n hplaces
  rw [unnamedErrors, ← herrors, Declaration.bindingProblems, Declaration.malformedBindings,
    Declaration.blockBindings, hmembers, List.map_map, List.map_map]
  exact List.map_congr_left fun x _ => error_malformedBinding _ x.2

end Item

end Memberwise.Derive
