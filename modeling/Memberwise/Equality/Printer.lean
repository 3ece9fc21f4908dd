import Memberwise.Equality.Extension
import Memberwise.Text.Fragment

/-!
# Equality/Printer — an extension as source text

There is one layout: the header, the equality function one level in and its body one level further,
and the closing braces.  A name that is a reserved word stands between backticks.  Both operators
group from the left and comparison binds tighter than conjunction, so only an operand that would be
grouped otherwise is put in parentheses.
-/

namespace Memberwise

open Text

namespace Expr

/-- Whether an operand has to be put in parentheses: a right operand under its own operator, or a
conjunction under a comparison. -/
def needsParentheses (parent : BinaryOp) (onRight : Bool) : Expr → Bool
  | field .. => false
  | binary op _ _ => (op == parent && onRight) || (parent == .equal && op == .and)

/-- A row in parentheses, if they are needed. -/
def enclose (needed : Bool) (row : List Fragment) : List Fragment :=
  if needed then .text "(" :: row ++ [.text ")"] else row

/-- An expression as laid-out text. -/
def fragments : Expr → List Fragment
  | field base name => [.text (escape base), .text ".", .text (escape name)]
  | binary op l r =>
    enclose (needsParentheses op false l) (fragments l)
      ++ [.space, .text op.symbol, .space]
      ++ enclose (needsParentheses op true r) (fragments r)

/-- An expression as source text. -/
def render (e : Expr) : String := layOut e.fragments

end Expr

namespace EqualityFunction

/-- The first line of an equality function. -/
def header (f : EqualityFunction) : List Fragment :=
  let operand := escape f.operandType
  (match f.access with
    | some level => [.text level.keyword, .space]
    | none => [])
  ++ [.text s!"static func {BinaryOp.equal.symbol}(", .text s!"{Expr.leftOperand}: ",
    .text operand, .text s!", {Expr.rightOperand}: ", .text operand, .text ") -> Bool \x7b"]

/-- An equality function as laid-out text, one level in, with the line end after it. -/
def fragments (f : EqualityFunction) : List Fragment :=
  .indent 1 :: f.header
  ++ [.lineEnd, .indent 2, .text "return "] ++ f.body.fragments
  ++ [.lineEnd, .indent 1, .text "\x7d", .lineEnd]

end EqualityFunction

namespace Extension

/-- The first line of an extension. -/
def header (e : Extension) : List Fragment :=
  [.text "extension ", .text (escape e.extendedType)]
  ++ (if e.conformances.isEmpty then []
    else [.text ": ", .text (String.intercalate ", " (e.conformances.map escape))])
  ++ [.text " \x7b"]

/-- An extension as laid-out text, with no line end after it. -/
def fragments (e : Extension) : List Fragment :=
  e.header ++ [.lineEnd] ++ e.function.fragments ++ [.text "\x7d"]

/-- An extension as source text, with no line end after it. -/
def render (e : Extension) : String := layOut e.fragments

/-- Extensions as source text: each with a line end after it, and an empty line between two. -/
def renderAll (es : List Extension) : String :=
  String.intercalate "\n" (es.map fun e => e.render ++ "\n")

end Extension

end Memberwise
