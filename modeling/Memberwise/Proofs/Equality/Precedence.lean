import Memberwise.Proofs.Equality.PrintedExpr

/-!
# Proofs/Equality/Precedence — a printed expression reads back as itself

An expression is read by a grammar of three levels (`Expr.Derives`): an operand is a field, or
anything in parentheses; a comparison joins operands from the left; a conjunction joins comparisons
from the left.  `Expr.read?` reads a text by it, with the operands that still wait for what is to
their right on a stack.

* `Expr.readRow?_eq_some_iff` — **the reader finds just what the grammar derives**, so a row of
  symbols has one reading at most;
* `Expr.read?_render_eq` — **a printed expression reads back as itself, and as nothing else**,
  whatever is nested in it.
-/

namespace Memberwise

open Text Token

/-- A word that can stand in an expression; a name is the one it is a spelling of. -/
inductive Symbol where
  | name (name : String)
  | dot
  | leftParen
  | rightParen
  | operator (op : BinaryOp)
  deriving DecidableEq, Repr

/-- The symbol a word is, if it can stand in an expression. -/
def Word.symbol? (w : Word) : Option Symbol :=
  match w.kind with
  | .ident => some (.name (unescape (String.ofList w.text)))
  | .dot => some .dot
  | .leftParen => some .leftParen
  | .rightParen => some .rightParen
  | .equalEqual => some (.operator .equal)
  | .andAnd => some (.operator .and)
  | _ => none

/-- The symbols of a text, if it is made up of symbols. -/
def symbols? (source : String) : Option (List Symbol) :=
  if (lex source).errors.isEmpty then (words source.toList).mapM Word.symbol? else none

namespace Expr

/-! ## The grammar -/

/-- How tightly an expression holds together, from the tightest on. -/
inductive Level where
  | operand
  | comparison
  | conjunction

/-- The expressions that a row of symbols stands for. -/
inductive Derives : Level → List Symbol → Expr → Prop
  | field (base name : String) :
      Derives .operand [.name base, .dot, .name name] (.field base name)
  | group {row : List Symbol} {e : Expr} (h : Derives .conjunction row e) :
      Derives .operand (.leftParen :: row ++ [.rightParen]) e
  | operand {row : List Symbol} {e : Expr} (h : Derives .operand row e) : Derives .comparison row e
  | equal {row row' : List Symbol} {l r : Expr} (hl : Derives .comparison row l)
      (hr : Derives .operand row' r) :
      Derives .comparison (row ++ .operator .equal :: row') (.binary .equal l r)
  | comparison {row : List Symbol} {e : Expr} (h : Derives .comparison row e) :
      Derives .conjunction row e
  | and {row row' : List Symbol} {l r : Expr} (hl : Derives .conjunction row l)
      (hr : Derives .comparison row' r) :
      Derives .conjunction (row ++ .operator .and :: row') (.binary .and l r)

/-! ## The reader -/

/-- An expression with what waits to its left, if anything does. -/
def joinLeft (op : BinaryOp) (left : Option Expr) (e : Expr) : Expr :=
  match left with
  | none => e
  | some l => .binary op l e

/-- What waits for its right operand between two parentheses: what stands before the last `&&`, and
what stands before the last `==` after it. -/
structure Waiting where
  conjunct : Option Expr
  compared : Option Expr

namespace Waiting

/-- Nothing waits. -/
def empty : Waiting := ⟨none, none⟩

/-- The comparison that ends in an operand. -/
def comparison (w : Waiting) (e : Expr) : Expr := joinLeft .equal w.compared e

/-- The conjunction that ends in an operand. -/
def conjunction (w : Waiting) (e : Expr) : Expr := joinLeft .and w.conjunct (w.comparison e)

end Waiting

/-- Read on, inside parentheses with something waiting before each of them, from an operand or from
where one has to stand. -/
def readRow? (w : Waiting) (outer : List Waiting) : Option Expr → List Symbol → Option Expr
  | none, .name base :: .dot :: .name name :: row => readRow? w outer (some (.field base name)) row
  | none, .leftParen :: row => readRow? .empty (w :: outer) none row
  | some e, .operator .equal :: row => readRow? ⟨w.conjunct, some (w.comparison e)⟩ outer none row
  | some e, .operator .and :: row => readRow? ⟨some (w.conjunction e), none⟩ outer none row
  | some e, .rightParen :: row =>
    match outer with
    | [] => none
    | v :: outer => readRow? v outer (some (w.conjunction e)) row
  | some e, [] => if outer.isEmpty then some (w.conjunction e) else none
  | _, _ => none

/-- Read an expression: comparison binds tighter than conjunction, both group from the left, and
parentheses come before either. -/
def read? (source : String) : Option Expr := (symbols? source).bind (readRow? .empty [] none)

/-! ## The reader finds what the grammar derives -/

variable {row row' : List Symbol} {e f : Expr}

/-- How the reader gets over a row of each level: an operand is read as it is, a comparison leaves
its last operand behind what waits before that, a conjunction its last comparison. -/
def IsReadAs : Level → List Symbol → Expr → Prop
  | .operand, row, e => ∀ w outer rest,
      readRow? w outer none (row ++ rest) = readRow? w outer (some e) rest
  | .comparison, row, e => ∃ compared last, joinLeft .equal compared last = e
      ∧ ∀ conjunct outer rest, readRow? ⟨conjunct, none⟩ outer none (row ++ rest)
        = readRow? ⟨conjunct, compared⟩ outer (some last) rest
  | .conjunction, row, e => ∃ w last, Waiting.conjunction w last = e
      ∧ ∀ outer rest, readRow? .empty outer none (row ++ rest) = readRow? w outer (some last) rest

theorem Derives.isReadAs {level : Level} (h : Derives level row e) : IsReadAs level row e := by
  induction h with
  | field base name =>
    intro w outer rest
    simp [readRow?]
  | group _ ih =>
    obtain ⟨v, last, rfl, hread⟩ := ih
    intro w outer rest
    rw [List.cons_append, List.cons_append, List.append_assoc, readRow?, hread,
      List.singleton_append, readRow?]
  | operand _ ih => exact ⟨none, _, rfl, fun conjunct outer rest => ih _ outer rest⟩
  | equal _ _ ihl ihr =>
    obtain ⟨compared, last, rfl, hread⟩ := ihl
    refine ⟨some _, _, rfl, fun conjunct outer rest => ?_⟩
    rw [List.append_assoc, hread, List.cons_append, readRow?, ihr]
    rfl
  | comparison _ ih =>
    obtain ⟨compared, last, rfl, hread⟩ := ih
    exact ⟨⟨none, compared⟩, last, rfl, fun outer rest => hread none outer rest⟩
  | and _ _ ihl ihr =>
    obtain ⟨w, last, rfl, hread⟩ := ihl
    obtain ⟨compared, last', rfl, hread'⟩ := ihr
    refine ⟨⟨some (w.conjunction last), compared⟩, last', rfl, fun outer rest => ?_⟩
    rw [List.append_assoc, hread, List.cons_append, readRow?, hread']

/-- The rows that leave an operand waiting at an operator, or no operand. -/
def IsBefore (level : Level) (op : BinaryOp) (left : Option Expr) (row : List Symbol) : Prop :=
  match left with
  | none => row = []
  | some l => ∃ row', Derives level row' l ∧ row = row' ++ [.operator op]

/-- The rows that leave these operands waiting. -/
def Waiting.Stands (w : Waiting) (row : List Symbol) : Prop :=
  ∃ first second, row = first ++ second ∧ IsBefore .conjunction .and w.conjunct first
    ∧ IsBefore .comparison .equal w.compared second

namespace Waiting

variable {w : Waiting}

theorem stands_empty : Waiting.empty.Stands [] := ⟨[], [], rfl, rfl, rfl⟩

/-- An operand ends the comparison that waits for it. -/
theorem Stands.comparison (h : w.Stands row) (he : Derives .operand row' e) :
    ∃ first second, row ++ row' = first ++ second
      ∧ Derives .comparison second (w.comparison e)
      ∧ IsBefore .conjunction .and w.conjunct first := by
  obtain ⟨first, second, rfl, hfirst, hsecond⟩ := h
  refine ⟨first, second ++ row', List.append_assoc .., ?_, hfirst⟩
  rw [Waiting.comparison]
  cases hw : w.compared with
  | none =>
    rw [hw] at hsecond
    subst hsecond
    exact .operand he
  | some l =>
    rw [hw] at hsecond
    obtain ⟨row, hl, rfl⟩ := hsecond
    rw [List.append_assoc]
    exact .equal hl he

/-- An operand ends the conjunction that waits for it. -/
theorem Stands.conjunction (h : w.Stands row) (he : Derives .operand row' e) :
    Derives .conjunction (row ++ row') (w.conjunction e) := by
  obtain ⟨first, second, hrow, hc, hfirst⟩ := h.comparison he
  rw [hrow, Waiting.conjunction]
  cases hw : w.conjunct with
  | none =>
    rw [hw] at hfirst
    obtain rfl := hfirst
    exact .comparison hc
  | some l =>
    rw [hw] at hfirst
    obtain ⟨row, hl, rfl⟩ := hfirst
    rw [List.append_assoc]
    exact .and hl hc

/-- Before `==` the comparison so far waits. -/
theorem Stands.equal (h : w.Stands row) (he : Derives .operand row' e) :
    (Waiting.mk w.conjunct (some (w.comparison e))).Stands
      (row ++ row' ++ [.operator .equal]) := by
  obtain ⟨first, second, hrow, hc, hfirst⟩ := h.comparison he
  exact ⟨first, _, by rw [hrow, List.append_assoc], hfirst, second, hc, rfl⟩

/-- Before `&&` the conjunction so far waits. -/
theorem Stands.and (h : w.Stands row) (he : Derives .operand row' e) :
    (Waiting.mk (some (w.conjunction e)) none).Stands (row ++ row' ++ [.operator .and]) :=
  ⟨_, [], (List.append_nil _).symm, ⟨_, h.conjunction he, rfl⟩, rfl⟩

end Waiting

/-- The rows that leave these operands waiting between parentheses still open, the innermost ones
first. -/
inductive AllStand : Waiting → List Waiting → List Symbol → Prop
  | outermost {w : Waiting} {row : List Symbol} (h : w.Stands row) : AllStand w [] row
  | inside {v w : Waiting} {outer : List Waiting} {row row' : List Symbol}
      (ho : AllStand v outer row) (h : w.Stands row') :
      AllStand w (v :: outer) (row ++ .leftParen :: row')

/-- What waits between the innermost parentheses can be put in place of something else there. -/
theorem AllStand.exists_inner {w : Waiting} {outer : List Waiting} (h : AllStand w outer row) :
    ∃ before inner, row = before ++ inner ∧ w.Stands inner
      ∧ ∀ v row', v.Stands row' → AllStand v outer (before ++ row') := by
  cases h with
  | outermost h => exact ⟨[], row, rfl, h, fun v row' hv => .outermost hv⟩
  | @inside _ _ _ row inner ho h =>
    refine ⟨row ++ [.leftParen], inner, by simp, h, fun v row' hv => ?_⟩
    rw [List.append_assoc]
    exact .inside ho hv

/-- The rows that are passed when these operands wait and an operand has just been read, or none. -/
def IsPassed (w : Waiting) (outer : List Waiting) (last : Option Expr) (row : List Symbol) : Prop :=
  match last with
  | none => AllStand w outer row
  | some e => ∃ before operand, row = before ++ operand ∧ AllStand w outer before
    ∧ Derives .operand operand e

/-- **What the reader finds is derived** from the symbols it has passed and those to come. -/
theorem derives_of_readRow? {w : Waiting} {outer : List Waiting} {last : Option Expr}
    (h : readRow? w outer last row' = some f) (hrow : IsPassed w outer last row) :
    Derives .conjunction (row ++ row') f := by
  fun_induction readRow? w outer last row' generalizing row with
  | case1 w outer base name rest ih =>
    have hf := ih h ⟨row, _, rfl, hrow, .field base name⟩
    rwa [List.append_assoc] at hf
  | case2 w outer rest ih =>
    have hf := ih h (AllStand.inside hrow Waiting.stands_empty)
    rwa [List.append_assoc] at hf
  | case3 w outer e rest ih =>
    obtain ⟨before, operand, rfl, hrow, he⟩ := hrow
    obtain ⟨before, inner, rfl, hw, hall⟩ := hrow.exists_inner
    simpa using ih h (hall _ _ (hw.equal he))
  | case4 w outer e rest ih =>
    obtain ⟨before, operand, rfl, hrow, he⟩ := hrow
    obtain ⟨before, inner, rfl, hw, hall⟩ := hrow.exists_inner
    simpa using ih h (hall _ _ (hw.and he))
  | case5 => cases h
  | case6 w e rest v outer ih =>
    obtain ⟨before, operand, rfl, hrow, he⟩ := hrow
    cases hrow with
    | inside houter hw => simpa using ih h ⟨_, _, rfl, houter, .group (hw.conjunction he)⟩
  | case7 w outer e houter =>
    obtain ⟨before, operand, rfl, hrow, he⟩ := hrow
    obtain rfl := Option.some.inj h
    cases hrow with
    | outermost hw => simpa using hw.conjunction he
    | inside => cases houter
  | case8 => cases h
  | case9 => cases h

/-- **The reader finds just what the grammar derives.** -/
theorem readRow?_eq_some_iff :
    readRow? .empty [] none row = some e ↔ Derives .conjunction row e := by
  refine ⟨fun h => derives_of_readRow? h (.outermost Waiting.stands_empty), fun h => ?_⟩
  obtain ⟨w, last, rfl, hread⟩ := h.isReadAs
  have hrow := hread [] []
  rwa [List.append_nil] at hrow

/-- A row of symbols stands for one expression at most. -/
theorem Derives.unique (h : Derives .conjunction row e) (h' : Derives .conjunction row f) : e = f :=
  Option.some.inj ((readRow?_eq_some_iff.mpr h).symm.trans (readRow?_eq_some_iff.mpr h'))

/-! ## What is printed -/

/-- A row in parentheses, if they are needed. -/
def encloseSymbols (needed : Bool) (row : List Symbol) : List Symbol :=
  if needed then .leftParen :: row ++ [.rightParen] else row

/-- The symbols of a printed expression. -/
def symbolRow : Expr → List Symbol
  | field base name => [.name base, .dot, .name name]
  | binary op l r =>
    encloseSymbols (needsParentheses op false l) l.symbolRow ++ .operator op ::
      encloseSymbols (needsParentheses op true r) r.symbolRow

/-- The level an expression has by its outermost operator. -/
def level : Expr → Level
  | field .. => .operand
  | binary .equal .. => .comparison
  | binary .and .. => .conjunction

/-- The level that an operand has to have on one side of an operator. -/
def operandLevel : BinaryOp → (onRight : Bool) → Level
  | .equal, false => .comparison
  | .equal, true => .operand
  | .and, false => .conjunction
  | .and, true => .comparison

theorem Derives.conjunction (h : Derives e.level row e) : Derives .conjunction row e := by
  match e, h with
  | .field .., h => exact .comparison (.operand h)
  | .binary .equal .., h => exact .comparison h
  | .binary .and .., h => exact h

/-- Parentheses stand just where an operand needs them. -/
theorem Derives.enclosed (h : Derives e.level row e) (op : BinaryOp) (onRight : Bool) :
    Derives (operandLevel op onRight) (encloseSymbols (needsParentheses op onRight e) row) e := by
  have hgroup : Derives .operand (.leftParen :: row ++ [.rightParen]) e := .group h.conjunction
  match e, op, onRight, h with
  | .field .., .equal, true, h => exact h
  | .field .., .equal, false, h | .field .., .and, true, h => exact .operand h
  | .field .., .and, false, h => exact .comparison (.operand h)
  | .binary .equal .., .equal, true, _ => exact hgroup
  | .binary .equal .., .equal, false, h | .binary .equal .., .and, true, h => exact h
  | .binary .equal .., .and, false, h => exact .comparison h
  | .binary .and .., .equal, true, _ => exact hgroup
  | .binary .and .., .equal, false, _ | .binary .and .., .and, true, _ => exact .operand hgroup
  | .binary .and .., .and, false, h => exact h

/-- **A printed expression is derived**, at the level of its outermost operator. -/
theorem derives_symbolRow (e : Expr) : Derives e.level e.symbolRow e := by
  induction e with
  | field base name => exact .field base name
  | binary op l r ihl ihr =>
    have hl := ihl.enclosed op false
    have hr := ihr.enclosed op true
    cases op with
    | equal => exact .equal hl hr
    | and => exact .and hl hr

/-- The symbols that a row of pieces gives. -/
def Gives (ps : List Piece) (row : List Symbol) : Prop :=
  (ps.filterMap Piece.word?).mapM Word.symbol? = some row

section Gives

variable {ps qs : List Piece}

theorem Gives.append (hp : Gives ps row) (hq : Gives qs row') : Gives (ps ++ qs) (row ++ row') := by
  rw [Gives] at hp hq ⊢
  rw [List.filterMap_append, List.mapM_append, hp, hq]
  rfl

theorem gives_nameOf {name : String} (h : isIdentifier name = true) :
    Gives [nameOf name] [.name name] := by
  simp [Gives, nameOf, Piece.word?, Word.symbol?, unescape_escape_of_isIdentifier h]

theorem gives_operator (op : BinaryOp) : Gives [space 0, op.piece, space 0] [.operator op] := by
  cases op <;> rfl

theorem Gives.enclose (h : Gives ps row) (needed : Bool) :
    Gives (encloseRow needed ps) (encloseSymbols needed row) := by
  cases needed with
  | false => exact h
  | true =>
    have hleft : Gives [mark '('] [.leftParen] := rfl
    have hright : Gives [mark ')'] [.rightParen] := rfl
    exact (hleft.append h).append hright

end Gives

theorem gives_row (h : e.IsNamed) : Gives e.row e.symbolRow := by
  induction e with
  | field base name =>
    have hdot : Gives [mark '.'] [.dot] := rfl
    exact (gives_nameOf h.1).append (hdot.append (gives_nameOf h.2))
  | binary op l r ihl ihr =>
    have hl := (ihl h.1).enclose (needsParentheses op false l)
    have hr := (ihr h.2).enclose (needsParentheses op true r)
    simpa [row, symbolRow] using (hl.append (gives_operator op)).append hr

/-- **The printed text is made up of its symbols.** -/
theorem symbols?_render (h : e.IsNamed) : symbols? e.render = some e.symbolRow := by
  have hpieces : pieces e.render.toList = e.row := by
    have hrow := pieces_row (isRow_row h isBounded_nil).1
    rw [List.append_nil, pieces, List.append_nil] at hrow
    rw [render, toList_layOut, text_row, hrow]
  have herrors : (lex e.render).errors = [] :=
    errors_eq_nil_iff.mpr (hpieces ▸ List.all_eq_true.mp (isSound_row e))
  rw [symbols?, herrors, words_eq, hpieces]
  exact gives_row h

/-- The expressions that a text stands for. -/
def StandsFor (source : String) (e : Expr) : Prop :=
  ∃ row, symbols? source = some row ∧ Derives .conjunction row e

theorem read?_eq_some_iff {source : String} : read? source = some e ↔ StandsFor source e := by
  simp only [read?, Option.bind_eq_some_iff, readRow?_eq_some_iff, StandsFor]

-- Without parentheses `==` comes first, and what stands on the left.
example : read? "a.x == b.x && a.y && \x60in\x60.z == (a.z == b.z)" = some
    (.binary .and (.binary .and (.binary .equal (.field "a" "x") (.field "b" "x")) (.field "a" "y"))
      (.binary .equal (.field "in" "z") (.binary .equal (.field "a" "z") (.field "b" "z")))) := by
  decide +kernel

/-- **A printed expression reads back as itself, and as nothing else**: its text stands for it alone
in the grammar in which `==` binds tighter than `&&`, both group from the left and parentheses come
before either.  So no two expressions are printed alike. -/
theorem read?_render_eq {e : Expr} (h : e.IsNamed) :
    read? e.render = some e ∧ (∀ f, StandsFor e.render f ↔ f = e)
      ∧ ∀ f, f.IsNamed → f.render = e.render → f = e := by
  have hread : ∀ {e : Expr}, e.IsNamed → read? e.render = some e := fun h =>
    read?_eq_some_iff.mpr ⟨_, symbols?_render h, (derives_symbolRow _).conjunction⟩
  refine ⟨hread h, fun f => ?_, fun f hf heq => ?_⟩
  · rw [← read?_eq_some_iff, hread h, Option.some.injEq]
    exact eq_comm
  · have hf := hread hf
    rw [heq, hread h] at hf
    exact (Option.some.inj hf).symm

/-- Both operators on either side, and a reserved word for a name. -/
theorem read?_render_eq_nested :
    let a : Expr := .binary .and (.field "a" "x") (.field "b" "class")
    let b : Expr := .binary .equal (.field "a" "y") (.field "b" "y")
    let e : Expr := .binary .and (.binary .equal a b) (.binary .and b (.binary .equal b a))
    e.IsNamed ∧ read? e.render = some e ∧ (∀ f, StandsFor e.render f ↔ f = e)
      ∧ ∀ f, f.IsNamed → f.render = e.render → f = e := by
  intro a b e
  have h : e.IsNamed := by simp +decide [e, a, b, IsNamed]
  exact ⟨h, read?_render_eq h⟩

end Expr

end Memberwise
