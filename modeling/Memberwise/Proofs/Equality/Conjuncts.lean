import Memberwise.Equality.Expr
import Mathlib.Data.List.Induction

/-!
# Proofs/Equality/Conjuncts — a conjunction is its conjuncts, however they are grouped

    row of operands ──join──▸ conjunction ──take apart──▸ conjuncts, all operands' in order

Joining groups from the left, so an expression taken apart and joined again comes back up to its
grouping (`Regroups`).  Nothing else is lost: the grouping is all that the conjuncts leave open, and
whether an expression holds is a matter of its conjuncts alone.

* `eval_eq_all` — **an expression holds exactly if all of its conjuncts do**;
* `regroups_of_conjunction?` — the conjuncts joined are the expression up to grouping, and so
* `regroups_iff` — **expressions with the same conjuncts are those that differ in grouping**;
* `conjunction_exact` — joining and taking apart, held to one another.
-/

namespace Memberwise.Expr

variable {e f l r : Expr} {v : Expr → Bool}

/-! ## Whether an expression holds -/

/-- Whether an expression holds, if `v` says it of those that are no conjunction. -/
def eval (v : Expr → Bool) : Expr → Bool
  | binary .and l r => l.eval v && r.eval v
  | e => v e

@[simp] theorem eval_and (v : Expr → Bool) (l r : Expr) :
    (binary .and l r).eval v = (l.eval v && r.eval v) := by
  rw [eval]

@[simp] theorem eval_field (v : Expr → Bool) (base name : String) :
    (field base name).eval v = v (field base name) := by
  simp [eval]

@[simp] theorem eval_equal (v : Expr → Bool) (l r : Expr) :
    (binary .equal l r).eval v = v (binary .equal l r) := by
  simp [eval]

/-- **An expression holds exactly if all of its conjuncts do.** -/
theorem eval_eq_all (v : Expr → Bool) (e : Expr) : e.eval v = e.conjuncts.all v := by
  induction e with
  | field => simp
  | binary op l r ihl ihr =>
    cases op with
    | equal => simp
    | and => rw [eval_and, conjuncts_and, List.all_append, ihl, ihr]

/-! ## Grouping -/

/-- Whether two expressions differ at most in how conjunctions are grouped.  A comparison is not
looked into. -/
inductive Regroups : Expr → Expr → Prop
  | refl (e : Expr) : Regroups e e
  | symm {e f : Expr} (h : Regroups e f) : Regroups f e
  | trans {e f g : Expr} (hef : Regroups e f) (hfg : Regroups f g) : Regroups e g
  | assoc (a b c : Expr) :
      Regroups (.binary .and (.binary .and a b) c) (.binary .and a (.binary .and b c))
  | and {l l' r r' : Expr} (hl : Regroups l l') (hr : Regroups r r') :
      Regroups (.binary .and l r) (.binary .and l' r')

/-- Grouping leaves the conjuncts as they are. -/
theorem Regroups.conjuncts_eq (h : Regroups e f) : e.conjuncts = f.conjuncts := by
  induction h with
  | refl => rfl
  | symm _ ih => exact ih.symm
  | trans _ _ ih ih' => exact ih.trans ih'
  | assoc => simp only [conjuncts_and, List.append_assoc]
  | and _ _ ihl ihr => rw [conjuncts_and, conjuncts_and, ihl, ihr]

/-- A row joined behind an expression can be joined on its own first. -/
theorem regroups_foldl (l r : Expr) (es : List Expr) :
    Regroups (es.foldl (.binary .and) (.binary .and l r))
      (.binary .and l (es.foldl (.binary .and) r)) := by
  induction es using List.reverseRecOn with
  | nil => exact .refl _
  | append_singleton es e ih =>
    simp only [List.foldl_append, List.foldl_cons, List.foldl_nil]
    exact .trans (.and ih (.refl e)) (.assoc _ _ _)

theorem exists_conjunction? {es : List Expr} (h : es ≠ []) : ∃ e, conjunction? es = some e :=
  Option.ne_none_iff_exists'.mp (mt conjunction?_eq_none.mp h)

/-- **The conjuncts of an expression joined are the expression**, up to grouping. -/
theorem regroups_of_conjunction? (h : conjunction? e.conjuncts = some f) : Regroups f e := by
  induction e generalizing f with
  | field base name =>
    rw [conjuncts_field] at h
    exact Option.some.inj h ▸ .refl _
  | binary op l r ihl ihr =>
    cases op with
    | equal =>
      rw [conjuncts_equal] at h
      exact Option.some.inj h ▸ .refl _
    | and =>
      obtain ⟨l', hl⟩ := exists_conjunction? l.conjuncts_ne_nil
      obtain ⟨r', hr⟩ := exists_conjunction? r.conjuncts_ne_nil
      refine .trans ?_ (.and (ihl hl) (ihr hr))
      -- Both operands have conjuncts: the left ones are joined as they are, the right ones behind
      -- them one by one.
      obtain ⟨a, as, has⟩ := List.exists_cons_of_ne_nil l.conjuncts_ne_nil
      obtain ⟨b, bs, hbs⟩ := List.exists_cons_of_ne_nil r.conjuncts_ne_nil
      rw [has, conjunction?, Option.some.injEq] at hl
      rw [hbs, conjunction?, Option.some.injEq] at hr
      rw [conjuncts_and, has, hbs, List.cons_append, conjunction?, List.foldl_append,
        List.foldl_cons, hl, Option.some.injEq] at h
      rw [← h, ← hr]
      exact regroups_foldl l' b bs

/-- **Expressions with the same conjuncts are those that differ in grouping.** -/
theorem regroups_iff : Regroups e f ↔ e.conjuncts = f.conjuncts := by
  refine ⟨Regroups.conjuncts_eq, fun h => ?_⟩
  obtain ⟨g, hg⟩ := exists_conjunction? e.conjuncts_ne_nil
  exact (regroups_of_conjunction? hg).symm.trans (regroups_of_conjunction? (h ▸ hg))

/-- **Joining and taking apart undo each other up to grouping.**  There is nothing to join in an
empty row alone; the conjuncts of a joined row are those of its operands, in order, whatever the
operands are.  The conjuncts of an expression can be joined again: the result has the same conjuncts,
differs in grouping at most, and holds whenever the expression does.  Grouping is all that the
conjuncts of an expression leave open. -/
theorem conjunction_exact :
    (∀ es, conjunction? es = none ↔ es = [])
      ∧ (∀ es, es ≠ [] → ∃ e, conjunction? es = some e ∧ e.conjuncts = es.flatMap conjuncts)
      ∧ (∀ e, ∃ f, conjunction? e.conjuncts = some f ∧ f.conjuncts = e.conjuncts
        ∧ Regroups f e ∧ ∀ v, f.eval v = e.eval v)
      ∧ ∀ e f, e.conjuncts = f.conjuncts ↔ Regroups e f := by
  refine ⟨fun es => conjunction?_eq_none, fun es hes => ?_, fun e => ?_,
    fun e f => regroups_iff.symm⟩
  · obtain ⟨e, he⟩ := exists_conjunction? hes
    exact ⟨e, he, conjuncts_conjunction he⟩
  · obtain ⟨f, hf⟩ := exists_conjunction? e.conjuncts_ne_nil
    have hconjuncts : f.conjuncts = e.conjuncts := conjuncts_conjunction_conjuncts hf
    refine ⟨f, hf, hconjuncts, regroups_of_conjunction? hf, fun v => ?_⟩
    rw [eval_eq_all, eval_eq_all, hconjuncts]

end Memberwise.Expr
