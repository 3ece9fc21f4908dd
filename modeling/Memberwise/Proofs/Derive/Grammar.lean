import Memberwise.Derive.Grammar
import Memberwise.Proofs.Derive.Taking

/-!
# Proofs/Derive/Grammar — the readers of types, attributes and constants take

The readers call each other with a smaller budget, so they are shown to take all at once:
`GrammarTakes` says it of every one of them at one budget.  What one of them does with its budget is
a sequence of steps that take and of readers with the budget before, so it takes too; the induction
is on the budget (`grammarTakes`).
-/

namespace Memberwise.Derive.Reader

/-- Whether the readers of types, bounds and parameters take. -/
structure TypesTake (b : Nat) : Prop where
  type : ∀ plus, Takes (readType b plus)
  parenthesized : ∀ plus, Takes (readParenthesized b plus)
  moreBounds : Takes (readMoreBounds b)
  bounds : ∀ plus, Takes (readBounds b plus)
  traitBounds : ∀ plus, Takes (readTraitBounds b plus)
  bound : Takes (readBound b)
  traitBound : Takes (readTraitBound b)
  binder : Takes (readBinder b)
  functionType : Takes (readFunctionType b)
  functionArgument : Takes (readFunctionArgument b)
  parameter : Takes (readParameter b)

/-- Whether the readers of paths and their arguments take. -/
structure PathsTake (b : Nat) : Prop where
  typePath : Takes (readTypePath b)
  selfTyped : ∀ inExpr, Takes (readSelfTyped b inExpr)
  calls : ∀ path, Takes (readCalls b path)
  path : ∀ inExpr, Takes (readPath b inExpr)
  laterSegments : ∀ inExpr selfTyped path, Takes (readLaterSegments b inExpr selfTyped path)
  segment : ∀ inExpr, Takes (readSegment b inExpr)
  genericArguments : Takes (readGenericArguments b)
  genericArgument : Takes (readGenericArgument b)
  constant : Takes (readConstant b)
  callArguments : Takes (readCallArguments b)
  result : Takes (readResult b)

/-- Whether the readers of attributes and expressions take. -/
structure ExpressionsTake (b : Nat) : Prop where
  attributes : Takes (readAttributes b)
  oneAttribute : ∀ start, Takes (readAttribute b start)
  expr : Takes (readExpr b)
  laterOperands : Takes (readLaterOperands b)
  operand : Takes (readOperand b)
  suffixes : Takes (readSuffixes b)
  atom : Takes (readAtom b)

/-- Whether every reader of the grammar takes at this budget. -/
structure GrammarTakes (b : Nat) : Prop extends TypesTake b, PathsTake b, ExpressionsTake b

namespace GrammarTakes

variable {b : Nat}

/-! ## The next budget

A reader is taken apart step by step.  What is left are single steps, which take, and readers with
the budget before, which take by assumption. -/

theorem paths_succ (h : GrammarTakes b) : PathsTake (b + 1) := by
  constructor <;> intros
  all_goals simp only [readTypePath, readSelfTyped, readCalls, readPath, readLaterSegments,
    readSegment, readGenericArguments, readGenericArgument, readConstant, readCallArguments,
    readResult]
  all_goals repeat' with_reducible first
    | intro _
    | apply takes_bind
    | apply takes_pure
    | apply takes_ite
    | apply takes_commaList
    | apply takes_plusList
    | simp only [h.type, h.bound, h.selfTyped, h.calls, h.path, h.laterSegments, h.segment,
        h.genericArguments, h.genericArgument, h.callArguments, h.result,
        takes_failure, takes_look, takes_require, takes_tree, takes_eatOperator, takes_operator,
        takes_optionalOperator, takes_anyWord, takes_keyword, takes_lifetime, takes_grouped,
        takes_group]
    | split

theorem types_succ (h : GrammarTakes b) : TypesTake (b + 1) := by
  constructor <;> intros
  all_goals simp only [readType, readParenthesized, readMoreBounds, readBounds, readTraitBounds,
    readBound, readTraitBound, readBinder, readFunctionType, readFunctionArgument, readParameter]
  all_goals repeat' with_reducible first
    | intro _
    | apply takes_bind
    | apply takes_pure
    | apply takes_ite
    | apply takes_commaList
    | apply takes_plusList
    | simp only [h.type, h.parenthesized, h.moreBounds, h.bounds, h.traitBounds, h.bound,
        h.traitBound, h.binder, h.functionType, h.parameter, h.typePath, h.path, h.constant,
        h.callArguments, h.result, h.attributes, takes_get, takes_failure, takes_look,
        takes_require, takes_tree, takes_eatOperator, takes_operator, takes_optionalOperator,
        takes_anyWord, takes_name, takes_keyword, takes_optionalKeyword, takes_lifetime,
        takes_literal, takes_grouped, takes_group, takes_within]
    | split

/-- An attribute takes its path, and then the group or the value after it. -/
theorem takes_readAttribute (h : GrammarTakes b) (start : Nat) :
    Takes (readAttribute (b + 1) start) := by
  rw [readAttribute]
  -- However the path is read, what follows it is either a group, which is taken whole, or is read.
  refine takes_bind (takes_look _) fun _ => takes_ite
    (takes_bind takes_place fun _ => takes_bind takes_anyWord fun _ =>
      takes_bind (takes_pure _) fun _ => ?_)
    (takes_bind takes_readPlainPath fun _ => ?_)
  all_goals
    refine takes_get_bind fun ts => ?_
    split
    case h_1 => exact takesAt_set_bind (List.suffix_cons ..) (takes_pure _)
    case h_2 =>
      refine takes_bind (takes_look _) (fun _ => takes_ite ?_ (takes_pure _)) ts
      exact takes_bind takes_place fun _ => takes_bind (takes_operator "=") fun _ =>
        takes_bind h.expr fun _ => takes_pure _

/-- An operand takes the one tree that it is, or the trees of a longer phrase. -/
theorem takes_readAtom (h : GrammarTakes b) : Takes (readAtom (b + 1)) := by
  rw [readAtom]
  refine takes_get_bind fun ts => ?_
  split
  case h_1 => exact takesAt_set_bind (List.suffix_cons ..) (takes_pure _)
  case h_2 => exact takesAt_set_bind (List.suffix_cons ..) (takes_pure _)
  case h_3 =>
    refine takesAt_set_bind (List.suffix_cons ..) ?_
    exact takes_bind (takes_within _ _) fun _ => takes_pure _
  case h_4 =>
    refine takesAt_set_bind (List.suffix_cons ..) ?_
    exact takes_bind (takes_within _ _) fun _ => takes_pure _
  case h_5 =>
    refine (?_ : Takes _) ts
    repeat' with_reducible first
      | intro _
      | apply takes_bind
      | apply takes_pure
      | apply takes_ite
      | simp only [h.expr, h.atom, h.selfTyped, h.path, takes_look, takes_require, takes_tree,
          takes_operator, takes_anyWord, takes_keyword, takes_group]

theorem expressions_succ (h : GrammarTakes b) : ExpressionsTake (b + 1) := by
  constructor
  case oneAttribute => exact h.takes_readAttribute
  case atom => exact h.takes_readAtom
  all_goals simp only [readAttributes, readExpr, readLaterOperands, readOperand, readSuffixes]
  all_goals repeat' with_reducible first
    | intro _
    | apply takes_bind
    | apply takes_pure
    | apply takes_ite
    | apply takes_forIn
    | simp only [h.type, h.genericArguments, h.attributes, h.expr, h.laterOperands, h.operand,
        h.suffixes, h.atom, takes_get, takes_failure, takes_look, takes_require, takes_tree,
        takes_eatOperator, takes_operator, takes_keyword, takes_optionalKeyword, takes_grouped,
        takes_place]
    | split

end GrammarTakes

/-- **Every reader of the grammar takes**, whatever its budget. -/
theorem grammarTakes (b : Nat) : GrammarTakes b := by
  induction b with
  | zero => refine ⟨?_, ?_, ?_⟩ <;> constructor <;> intros <;> exact takes_failure
  | succ b ih => exact ⟨ih.types_succ, ih.paths_succ, ih.expressions_succ⟩

/-- What starts with a budget takes if it does at each. -/
theorem takes_withBudget {read : Nat → Reader α} (h : ∀ b, Takes (read b)) :
    Takes (withBudget read) :=
  takes_get_bind fun ts => h _ ts

end Memberwise.Derive.Reader
