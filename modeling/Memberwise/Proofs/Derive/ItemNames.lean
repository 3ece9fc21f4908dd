import Memberwise.Derive.Lowering
import Memberwise.Proofs.Derive.Grammar

/-!
# Proofs/Derive/ItemNames — the names in an item that is read are proper

`Yields` says what a reader answers of a row whose words are all proper, and that such a row is
left.  A reader that takes leaves one (`Yields.of_takes`); a name it answers is one of the row's
words.  Followed from the name of an item to the names of its fields: **an item that is read has
proper names** (`Item.hasProperNames_of_ofText?`).
-/

namespace Memberwise.Derive

/-- Whether the name of a field, if it has one, is an identifier, perhaps a raw one. -/
def Field.HasProperName (f : Field) : Prop := ∀ name, f.name = some name → IsProper name

/-- Whether the names of an item and of its fields are identifiers, perhaps raw ones. -/
def Item.HasProperNames (item : Item) : Prop :=
  IsProper item.name ∧ ∀ f ∈ item.data.fields, f.HasProperName

namespace Reader

variable {α β : Type} {P : β → Prop} {Q : α → Prop} {r : Reader α}

/-- Whether a reader of a row of proper words answers what has a property, and leaves such a row. -/
def Yields (Q : α → Prop) (r : Reader α) : Prop :=
  ∀ ts, AllProper ts → ∀ a rest, r.run ts = some (a, rest) → AllProper rest ∧ Q a

/-! ## Putting readers together -/

theorem Yields.of_takes (h : Takes r) : Yields (fun _ => True) r :=
  fun ts hts a rest hrun => ⟨hts.of_suffix (h ts a rest hrun), trivial⟩

theorem yields_pure {a : α} (h : Q a) : Yields Q (pure a) := by
  intro ts hts b rest hrun
  obtain ⟨rfl, rfl⟩ := Prod.mk.inj (Option.some.inj hrun)
  exact ⟨hts, h⟩

theorem yields_failure : Yields Q failure := by
  intro ts hts a rest hrun
  cases hrun

theorem yields_bind {f : α → Reader β} (hr : Yields Q r) (hf : ∀ a, Q a → Yields P (f a)) :
    Yields P (r >>= f) := by
  intro ts hts b rest hrun
  obtain ⟨a, mid, ha, hb⟩ := run_bind_eq_some_iff.mp hrun
  obtain ⟨hmid, hq⟩ := hr ts hts a mid ha
  exact hf a hq mid hmid b rest hb

theorem yields_takes_bind {f : α → Reader β} (hr : Takes r) (hf : ∀ a, Yields P (f a)) :
    Yields P (r >>= f) :=
  yields_bind (Yields.of_takes hr) fun a _ => hf a

theorem yields_get_bind {f : List TokenTree → Reader β} (h : ∀ ts, Yields P (f ts)) :
    Yields P (get >>= f) :=
  fun ts => h ts ts

theorem yields_ite {c : Prop} [Decidable c] {s : Reader α} (hr : Yields Q r) (hs : Yields Q s) :
    Yields Q (if c then r else s) := by
  split
  · exact hr
  · exact hs

/-! ## Words, groups and lists -/

theorem yields_tree : Yields (fun t => ∀ w ∈ t.words, IsProper w) tree := by
  intro ts hts a rest hrun
  cases ts with
  | nil => cases hrun
  | cons t ts =>
    obtain ⟨rfl, rfl⟩ := Prod.mk.inj (Option.some.inj hrun)
    obtain ⟨ht, hrest⟩ := AllProper.cons_iff.mp hts
    exact ⟨hrest, ht⟩

theorem yields_anyWord : Yields IsProper anyWord := by
  refine yields_bind yields_tree fun t ht => ?_
  split
  · exact yields_pure (ht _ (by simp [TokenTree.words]))
  · exact yields_failure

theorem yields_name : Yields IsProper name :=
  yields_takes_bind (takes_require _) fun _ => yields_anyWord

theorem yields_group (d : Delimiter) : Yields AllProper (group d) := by
  refine yields_bind yields_tree fun t ht => ?_
  split
  · exact yields_ite (yields_pure ht) yields_failure
  · exact yields_failure

theorem yields_within {ts : List TokenTree} (hts : AllProper ts) (h : Yields Q r) :
    Yields Q (within ts r) := by
  unfold within
  split
  next a hrun => exact yields_pure (h ts hts a [] hrun).2
  next => exact yields_failure

theorem yields_grouped (d : Delimiter) (h : Yields Q r) : Yields Q (grouped d r) :=
  yields_bind (yields_group d) fun _ hts => yields_within hts h

theorem yields_itemsUpTo (stop : List TokenTree → Bool) (h : Yields Q r) (n : Nat) :
    Yields (fun items => ∀ x ∈ items, Q x.1) (itemsUpTo stop r n) := by
  induction n with
  | zero => exact yields_failure
  | succ n ih =>
    refine yields_takes_bind (takes_look stop) fun _ => yields_ite (yields_pure (by simp)) ?_
    refine yields_bind h fun a ha => ?_
    refine yields_takes_bind (takes_look stop) fun _ => yields_ite (yields_pure (by simpa)) ?_
    refine yields_takes_bind (takes_operator ",") fun _ => yields_bind ih fun items hitems => ?_
    exact yields_pure (List.forall_mem_cons.mpr ⟨ha, hitems⟩)

theorem yields_commaListToEnd (h : Yields Q r) :
    Yields (fun items => ∀ x ∈ items, Q x.1) (commaListToEnd r) :=
  yields_get_bind fun _ => yields_itemsUpTo _ h _

end Reader

open Reader

/-! ## The parts of an item -/

theorem takes_readAttributes : Takes (withBudget readAttributes) :=
  takes_withBudget fun b => (grammarTakes b).attributes

theorem takes_readType_withBudget (plus : Bool) : Takes (withBudget (readType · plus)) :=
  takes_withBudget fun b => (grammarTakes b).type plus

theorem takes_readVisibility : Takes readVisibility := by
  refine takes_bind (takes_look _) fun _ => takes_ite (takes_pure _) ?_
  refine takes_bind takes_anyWord fun _ => takes_get_bind fun ts => ?_
  split
  case h_2 => exact takesAt_pure _ _
  case h_1 content _ _ ts =>
    split
    · split
      · exact takesAt_set_bind (List.suffix_cons ..) (takes_pure _)
      · exact takesAt_pure _ _
    · refine takesAt_within_bind fun _ => ?_
      exact takesAt_set_bind (List.suffix_cons ..) (takes_pure _)
    · exact takesAt_pure _ _

theorem takes_readParameters : Takes readParameters := by
  refine takes_bind (takes_eatOperator "<") fun _ => takes_ite ?_ (takes_pure _)
  refine takes_bind (takes_commaList _ (takes_withBudget fun b => (grammarTakes b).parameter)) ?_
  exact fun _ => takes_bind (takes_operator ">") fun _ => takes_pure _

theorem takes_readPredicate : Takes readPredicate := by
  refine takes_bind (takes_look _) fun _ => takes_ite ?_ ?_
  · refine takes_bind takes_lifetime fun _ => takes_bind (takes_operator ":") fun _ => ?_
    refine takes_bind (takes_plusList _ (takes_bind takes_lifetime fun _ => takes_pure _)) ?_
    exact fun _ => takes_pure _
  · refine takes_bind (takes_withBudget fun b => (grammarTakes b).binder) fun _ => ?_
    refine takes_bind (takes_readType_withBudget true) fun _ => ?_
    refine takes_bind (takes_operator ":") fun _ => ?_
    refine takes_bind (takes_plusList _ (takes_withBudget fun b => (grammarTakes b).bound)) ?_
    exact fun _ => takes_pure _

theorem takes_readPredicates (n : Nat) : Takes (readPredicates n) := by
  induction n with
  | zero => exact takes_failure
  | succ n ih =>
    refine takes_bind (takes_look _) fun _ => takes_ite (takes_pure _) ?_
    refine takes_bind takes_readPredicate fun _ => takes_bind (takes_eatOperator ",") fun _ => ?_
    exact takes_ite (takes_bind ih fun _ => takes_pure _) (takes_pure _)

theorem takes_readWhere : Takes readWhere := by
  refine takes_bind (takes_look _) fun _ => takes_ite (takes_pure _) ?_
  refine takes_bind (takes_keyword "where") fun _ => takes_bind (takes_look _) fun _ => ?_
  refine takes_ite (takes_bind takes_failure fun _ => ?_) ?_
  all_goals
    refine takes_bind takes_get fun _ => ?_
    exact takes_bind (takes_readPredicates _) fun _ => takes_pure _

theorem yields_readNamedField : Yields Field.HasProperName readNamedField := by
  refine yields_takes_bind takes_place fun _ => ?_
  refine yields_takes_bind takes_readAttributes fun _ => ?_
  refine yields_takes_bind takes_readVisibility fun _ => ?_
  -- The mark `_` is no name, so it is read as a word; from there on both ways are one.
  have hrest : ∀ word start attributes, IsProper word → Yields Field.HasProperName (do
      let _ ← operator ":"
      let type ← withBudget (readType · true)
      return ⟨some word, attributes, type.text, start⟩) := by
    intro word start attributes hword
    refine yields_takes_bind (takes_operator ":") fun _ => ?_
    refine yields_takes_bind (takes_readType_withBudget true) fun _ => yields_pure ?_
    intro name hname
    exact Option.some.inj hname ▸ hword
  refine yields_takes_bind (takes_look _) fun _ => yields_ite ?_ ?_
  · exact yields_bind yields_anyWord fun _ hword => hrest _ _ _ hword
  · exact yields_bind yields_name fun _ hword => hrest _ _ _ hword

theorem yields_readTupleField : Yields Field.HasProperName readTupleField := by
  refine yields_takes_bind takes_place fun _ => ?_
  refine yields_takes_bind takes_readAttributes fun _ => ?_
  refine yields_takes_bind takes_readVisibility fun _ => ?_
  refine yields_takes_bind (takes_readType_withBudget true) fun _ => yields_pure ?_
  intro name h
  cases h

/-- Fields read in brackets have proper names if each that is read has. -/
theorem yields_fields (d : Delimiter) {one : Reader Field} (h : Yields Field.HasProperName one) :
    Yields (fun fields => ∀ f ∈ fields, f.HasProperName)
      (do return (← grouped d (commaListToEnd one)).map (·.1)) := by
  refine yields_bind (yields_grouped d (yields_commaListToEnd h)) fun items hitems => ?_
  exact yields_pure (List.forall_mem_map.mpr hitems)

theorem yields_readNamedFields :
    Yields (fun fields => ∀ f ∈ fields, f.HasProperName) readNamedFields :=
  yields_fields .brace yields_readNamedField

theorem yields_readTupleFields :
    Yields (fun fields => ∀ f ∈ fields, f.HasProperName) readTupleFields :=
  yields_fields .parenthesis yields_readTupleField

theorem yields_readStruct :
    Yields (fun parts => ∀ f ∈ parts.2, f.HasProperName) readStruct := by
  refine yields_takes_bind (takes_look _) fun _ => yields_ite ?_ ?_
  · refine yields_bind yields_readTupleFields fun _ hfields => ?_
    refine yields_takes_bind takes_readWhere fun _ => ?_
    exact yields_takes_bind (takes_operator ";") fun _ => yields_pure hfields
  · refine yields_takes_bind takes_readWhere fun _ => ?_
    refine yields_takes_bind (takes_eatOperator ";") fun _ => yields_ite ?_ ?_
    · exact yields_pure (by simp)
    · exact yields_bind yields_readNamedFields fun _ hfields => yields_pure hfields

/-- An item that is read has proper names. -/
theorem yields_readItem : Yields Item.HasProperNames readItem := by
  refine yields_takes_bind takes_readAttributes fun _ => ?_
  refine yields_takes_bind takes_place fun _ => ?_
  refine yields_takes_bind takes_readVisibility fun _ => ?_
  refine yields_takes_bind (takes_require _) fun _ => ?_
  refine yields_takes_bind takes_anyWord fun kind => ?_
  refine yields_takes_bind takes_place fun _ => ?_
  refine yields_bind yields_name fun _ hname => ?_
  refine yields_takes_bind takes_readParameters fun _ => ?_
  dsimp only
  split
  · exact yields_bind yields_readStruct fun _ hfields => yields_pure ⟨hname, hfields⟩
  · refine yields_takes_bind takes_readWhere fun _ => ?_
    exact yields_takes_bind (takes_grouped _ _) fun _ =>
      yields_pure ⟨hname, fun _ hf => absurd hf List.not_mem_nil⟩
  · refine yields_takes_bind takes_readWhere fun _ => ?_
    exact yields_bind yields_readNamedFields fun _ _ =>
      yields_pure ⟨hname, fun _ hf => absurd hf List.not_mem_nil⟩

/-- **An item that is read has proper names.** -/
theorem Item.hasProperNames_of_ofText? {s : List Char} {item : Item}
    (h : Item.ofText? s = some item) : item.HasProperNames := by
  obtain ⟨ts, hts, hread⟩ := Option.bind_eq_some_iff.mp h
  split at hread
  next item' hrun =>
    obtain rfl := Option.some.inj hread
    exact (yields_readItem ts (allProper_of_readTrees? hts) _ _ hrun).2
  next => cases hread

end Memberwise.Derive
