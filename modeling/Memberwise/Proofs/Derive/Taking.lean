import Memberwise.Proofs.Derive.Words

/-!
# Proofs/Derive/Taking — a reader takes from the front

What a reader leaves of a row is an end of that row: `Takes`.  The steps that readers are made of
take, and whatever is put together from readers that take does too.  Reading a row of its own
(`within`) takes nothing from the row being read, so it takes whatever it reads there.
-/

namespace Memberwise.Derive.Reader

variable {α β : Type} {ts us : List TokenTree}

/-- Whether a reader of this row leaves an end of it. -/
def TakesAt (ts : List TokenTree) (r : Reader α) : Prop :=
  ∀ a rest, r.run ts = some (a, rest) → rest <:+ ts

/-- Whether a reader leaves an end of every row. -/
def Takes (r : Reader α) : Prop := ∀ ts, TakesAt ts r

/-! ## Putting readers together -/

theorem run_bind_eq_some_iff {r : Reader α} {f : α → Reader β} {b : β} {rest : List TokenTree} :
    (r >>= f).run ts = some (b, rest) ↔
      ∃ a mid, r.run ts = some (a, mid) ∧ (f a).run mid = some (b, rest) := by
  rw [StateT.run_bind]
  exact Option.bind_eq_some_iff.trans Prod.exists

theorem takesAt_pure (ts : List TokenTree) (a : α) : TakesAt ts (pure a) := by
  intro b rest h
  obtain ⟨-, rfl⟩ := Prod.mk.inj (Option.some.inj h)
  exact List.suffix_rfl

theorem takes_pure (a : α) : Takes (pure a) := fun ts => takesAt_pure ts a

theorem takesAt_failure (ts : List TokenTree) : TakesAt ts (failure : Reader α) := by
  intro a rest h
  cases h

@[simp] theorem takes_failure : Takes (failure : Reader α) := takesAt_failure

theorem takesAt_bind {r : Reader α} {f : α → Reader β} (hr : TakesAt ts r)
    (hf : ∀ a, Takes (f a)) : TakesAt ts (r >>= f) := by
  intro b rest h
  obtain ⟨a, mid, ha, hb⟩ := run_bind_eq_some_iff.mp h
  exact (hf a mid b rest hb).trans (hr a mid ha)

theorem takes_bind {r : Reader α} {f : α → Reader β} (hr : Takes r) (hf : ∀ a, Takes (f a)) :
    Takes (r >>= f) :=
  fun ts => takesAt_bind (hr ts) hf

theorem takes_ite {c : Prop} [Decidable c] {r s : Reader α} (hr : Takes r) (hs : Takes s) :
    Takes (if c then r else s) := by
  split
  · exact hr
  · exact hs

@[simp] theorem takes_get : Takes (get : Reader (List TokenTree)) := by
  intro ts a rest h
  obtain ⟨-, rfl⟩ := Prod.mk.inj (Option.some.inj h)
  exact List.suffix_rfl

/-- To look at the row is to read each row in its own way. -/
theorem takes_get_bind {f : List TokenTree → Reader β} (h : ∀ ts, TakesAt ts (f ts)) :
    Takes (get >>= f) := h

theorem takesAt_set_bind {f : Unit → Reader β} (hs : us <:+ ts) (h : Takes (f ())) :
    TakesAt ts (set us >>= f) := by
  intro b rest hrun
  exact (h us b rest hrun).trans hs

theorem takes_forIn {γ : Type} (xs : List γ) (a : α) {f : γ → α → Reader (ForInStep α)}
    (h : ∀ x a, Takes (f x a)) : Takes (forIn xs a f) := by
  induction xs generalizing a with
  | nil => exact takes_pure a
  | cons x xs ih =>
    rw [List.forIn_cons]
    refine takes_bind (h x a) fun step => ?_
    cases step with
    | done b => exact takes_pure b
    | yield b => exact ih b

/-! ## Single steps -/

@[simp] theorem takes_look (p : List TokenTree → Bool) : Takes (look p) :=
  takes_get_bind fun ts => takesAt_pure ts (p ts)

@[simp] theorem takes_require (p : List TokenTree → Bool) : Takes (require p) := by
  refine takes_get_bind fun ts => ?_
  split
  · exact takesAt_failure ts
  · exact takesAt_pure ts ()

@[simp] theorem takes_place : Takes place := by
  refine takes_get_bind fun ts => ?_
  split
  · exact takesAt_pure _ _
  · exact takesAt_failure _

@[simp] theorem takes_tree : Takes tree := by
  refine takes_get_bind fun ts => ?_
  split
  · exact takesAt_set_bind (List.suffix_cons ..) (takes_pure _)
  · exact takesAt_failure _

@[simp] theorem takes_eatOperator (op : String) : Takes (eatOperator op) := by
  refine takes_get_bind fun ts => ?_
  split
  · exact takesAt_set_bind (List.drop_suffix ..) (takes_pure true)
  · exact takesAt_pure ts false

@[simp] theorem takes_operator (op : String) : Takes (operator op) :=
  takes_bind (takes_eatOperator op) fun _ => takes_ite (takes_pure _) takes_failure

@[simp] theorem takes_optionalOperator (op : String) : Takes (optionalOperator op) :=
  takes_bind (takes_eatOperator op) fun _ => takes_ite (takes_pure _) (takes_pure _)

@[simp] theorem takes_anyWord : Takes anyWord := by
  refine takes_bind takes_tree fun t => ?_
  split
  · exact takes_pure _
  · exact takes_failure

@[simp] theorem takes_name : Takes name := takes_bind (takes_require _) fun _ => takes_anyWord

@[simp] theorem takes_keyword (word : String) : Takes (keyword word) :=
  takes_bind (takes_require _) fun _ => takes_bind takes_anyWord fun _ => takes_pure _

@[simp] theorem takes_optionalKeyword (word : String) : Takes (optionalKeyword word) :=
  takes_bind (takes_look _) fun _ => takes_ite (takes_keyword word) (takes_pure _)

@[simp] theorem takes_lifetime : Takes lifetime := by
  refine takes_bind takes_tree fun t => ?_
  split
  · exact takes_pure _
  · exact takes_failure

@[simp] theorem takes_literal : Takes literal := by
  refine takes_bind takes_tree fun t => ?_
  split
  · exact takes_pure _
  · exact takes_failure

@[simp] theorem takes_group (d : Delimiter) : Takes (group d) := by
  refine takes_bind takes_tree fun t => ?_
  split
  · exact takes_ite (takes_pure _) takes_failure
  · exact takes_failure

@[simp] theorem takes_within (us : List TokenTree) (r : Reader α) : Takes (within us r) := by
  unfold within
  split
  · exact takes_pure _
  · exact takes_failure

/-- After a row of its own has been read, the row being read is as it was. -/
theorem takesAt_within_bind {r : Reader α} {f : α → Reader β} (h : ∀ a, TakesAt ts (f a)) :
    TakesAt ts (within us r >>= f) := by
  intro b rest hrun
  obtain ⟨a, mid, ha, hb⟩ := run_bind_eq_some_iff.mp hrun
  unfold within at ha
  split at ha
  next =>
    obtain ⟨-, rfl⟩ := Prod.mk.inj (Option.some.inj ha)
    exact h a b rest hb
  next => cases ha

@[simp] theorem takes_grouped (d : Delimiter) (r : Reader α) : Takes (grouped d r) :=
  takes_bind (takes_group d) fun content => takes_within content r

/-! ## Lists -/

theorem takes_itemsUpTo (stop : List TokenTree → Bool) {item : Reader α} (h : Takes item)
    (n : Nat) : Takes (itemsUpTo stop item n) := by
  induction n with
  | zero => exact takes_failure
  | succ n ih =>
    refine takes_bind (takes_look stop) fun _ => takes_ite (takes_pure _) ?_
    refine takes_bind h fun _ => takes_bind (takes_look stop) fun _ => takes_ite (takes_pure _) ?_
    exact takes_bind (takes_operator ",") fun _ => takes_bind ih fun _ => takes_pure _

theorem takes_commaList (stop : List TokenTree → Bool) {item : Reader α} (h : Takes item) :
    Takes (commaList stop item) :=
  takes_get_bind fun ts => takes_itemsUpTo stop h (ts.length + 1) ts

theorem takes_sumUpTo (stop : List TokenTree → Bool) {item : Reader (List Printed)}
    (h : Takes item) (n : Nat) : Takes (sumUpTo stop item n) := by
  induction n with
  | zero => exact takes_failure
  | succ n ih =>
    refine takes_bind (takes_look stop) fun _ => takes_ite (takes_pure _) ?_
    refine takes_bind h fun _ => takes_bind (takes_eatOperator "+") fun _ => ?_
    exact takes_ite (takes_bind ih fun _ => takes_pure _) (takes_pure _)

theorem takes_plusList (stop : List TokenTree → Bool) {item : Reader (List Printed)}
    (h : Takes item) : Takes (plusList stop item) :=
  takes_get_bind fun ts => takes_sumUpTo stop h (ts.length + 1) ts

/-! ## Plain paths -/

theorem takes_segment : Takes readPlainPath.segment :=
  takes_bind (takes_require _) fun _ => takes_bind takes_place fun _ =>
    takes_bind takes_anyWord fun _ => takes_pure _

theorem takes_more (n : Nat) : Takes (readPlainPath.more n) := by
  induction n with
  | zero => exact takes_failure
  | succ n ih =>
    refine takes_bind (takes_eatOperator "::") fun _ => takes_ite ?_ (takes_pure _)
    exact takes_bind takes_segment fun _ => takes_bind ih fun _ => takes_pure _

@[simp] theorem takes_readPlainPath : Takes readPlainPath := by
  refine takes_bind (takes_eatOperator "::") fun _ => takes_bind takes_segment fun _ => ?_
  refine takes_get_bind fun ts => takesAt_bind (takes_more _ ts) fun _ => ?_
  exact takes_pure _

end Memberwise.Derive.Reader
