/-!
# Equality/Expr — comparisons joined by "and"

The body of an equality function is an expression over the fields of its two operands: fields,
comparisons, and conjunctions.  A row of comparisons is joined from the left; taken apart again, an
expression has one conjunct for each operand that is no conjunction itself.

**Joining and taking apart undo each other**: the conjuncts of a joined row are the conjuncts of its
members in order (`conjuncts_conjunction`), and none are lost by joining them again
(`conjuncts_conjunction_conjuncts`).
-/

namespace Memberwise

/-- What joins two operands. -/
inductive BinaryOp where
  | equal
  | and
  deriving DecidableEq, Repr

/-- How an operator is written. -/
def BinaryOp.symbol : BinaryOp → String
  | equal => "=="
  | and => "&&"

/-- An expression over the fields of two operands. -/
inductive Expr where
  /-- A field of a named value. -/
  | field (base name : String)
  | binary (op : BinaryOp) (left right : Expr)
  deriving DecidableEq, Repr, Inhabited

namespace Expr

/-- The name of the left operand. -/
def leftOperand : String := "lhs"

/-- The name of the right operand. -/
def rightOperand : String := "rhs"

/-- The comparison of one field of both operands. -/
def fieldEqual (name : String) : Expr :=
  .binary .equal (.field leftOperand name) (.field rightOperand name)

/-- A row of expressions joined from the left; there is nothing to join in an empty row. -/
def conjunction? : List Expr → Option Expr
  | [] => none
  | e :: es => some (es.foldl (.binary .and) e)

/-- The operands of nested conjunctions, from left to right. -/
def conjuncts : Expr → List Expr
  | binary .and l r => conjuncts l ++ conjuncts r
  | e => [e]

/-- The field that a comparison of two fields of one name compares. -/
def comparedField? : Expr → Option String
  | binary .equal (field _ l) (field _ r) => if l = r then some l else none
  | _ => none

/-- The fields that an expression compares, in the order it looks at them. -/
def comparedFields (e : Expr) : List String := e.conjuncts.filterMap comparedField?

/-! ## Joining and taking apart -/

@[simp] theorem conjuncts_and (l r : Expr) :
    conjuncts (.binary .and l r) = conjuncts l ++ conjuncts r := by
  rw [conjuncts]

@[simp] theorem conjuncts_field (base name : String) :
    conjuncts (.field base name) = [.field base name] := by
  simp [conjuncts]

@[simp] theorem conjuncts_equal (l r : Expr) :
    conjuncts (.binary .equal l r) = [.binary .equal l r] := by
  simp [conjuncts]

@[simp] theorem conjuncts_fieldEqual (name : String) :
    conjuncts (fieldEqual name) = [fieldEqual name] := conjuncts_equal ..

@[simp] theorem comparedField?_fieldEqual (name : String) :
    comparedField? (fieldEqual name) = some name := by
  simp [comparedField?, fieldEqual]

theorem conjuncts_foldl (e : Expr) (es : List Expr) :
    conjuncts (es.foldl (.binary .and) e) = conjuncts e ++ es.flatMap conjuncts := by
  induction es generalizing e with
  | nil => simp
  | cons f es ih => simp [ih]

/-- **Joining loses nothing.** -/
theorem conjuncts_conjunction {es : List Expr} {e : Expr} (h : conjunction? es = some e) :
    e.conjuncts = es.flatMap conjuncts := by
  cases es with
  | nil => cases h
  | cons f es =>
    obtain rfl := Option.some.inj h
    simpa using conjuncts_foldl f es

theorem conjunction?_eq_none {es : List Expr} : conjunction? es = none ↔ es = [] := by
  cases es <;> simp [conjunction?]

/-- An expression has a conjunct. -/
theorem conjuncts_ne_nil (e : Expr) : e.conjuncts ≠ [] := by
  induction e with
  | field => simp
  | binary op l r ihl _ => cases op <;> simp [ihl]

/-- A conjunct is no conjunction. -/
theorem conjuncts_of_mem {e f : Expr} (h : f ∈ e.conjuncts) : f.conjuncts = [f] := by
  induction e with
  | field => simp only [conjuncts_field, List.mem_singleton] at h; subst h; simp
  | binary op l r ihl ihr =>
    cases op with
    | equal => simp only [conjuncts_equal, List.mem_singleton] at h; subst h; simp
    | and => exact (List.mem_append.1 (conjuncts_and l r ▸ h)).elim ihl ihr

theorem flatMap_conjuncts {es : List Expr} (h : ∀ e ∈ es, e.conjuncts = [e]) :
    es.flatMap conjuncts = es := by
  induction es with
  | nil => rfl
  | cons e es ih =>
    rw [List.flatMap_cons, h e (List.mem_cons_self ..),
      ih fun f hf => h f (List.mem_cons_of_mem _ hf)]
    rfl

/-- **Conjuncts joined again are the conjuncts of the result.** -/
theorem conjuncts_conjunction_conjuncts {e f : Expr} (h : conjunction? e.conjuncts = some f) :
    f.conjuncts = e.conjuncts := by
  rw [conjuncts_conjunction h, flatMap_conjuncts fun _ => conjuncts_of_mem]

theorem comparedFields_conjunction {names : List String} {e : Expr}
    (h : conjunction? (names.map fieldEqual) = some e) : e.comparedFields = names := by
  rw [comparedFields, conjuncts_conjunction h]
  clear h
  induction names with
  | nil => rfl
  | cons n names ih => simpa using ih

end Expr

end Memberwise
