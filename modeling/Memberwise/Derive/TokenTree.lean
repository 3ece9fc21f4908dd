/-!
# Derive/TokenTree — the tokens of an item, bracketed

The text of an item is a row of trees: words, lifetimes, single operator characters, literals, and
groups in brackets with a row of their own.  An operator of several characters is a row of
characters each of which but the last is joined to the next.  Offsets count characters.

What is printed has no offsets and no joined characters: every operator is one piece of text.
Pieces stand one space apart; round and square brackets touch what they enclose, braces do not.
-/

namespace Memberwise.Derive

/-- The brackets around a group. -/
inductive Delimiter where
  | parenthesis
  | bracket
  | brace
  deriving DecidableEq, Repr, Inhabited

/-- A token, or a group of them. -/
inductive TokenTree where
  /-- An identifier or keyword; the mark `r#` of a raw one is part of the text. -/
  | word (text : String) (start : Nat)
  /-- A lifetime, its quote included. -/
  | lifetime (text : String) (start : Nat)
  /-- One character of an operator, and whether it is joined to the next token. -/
  | mark (c : Char) (joined : Bool) (start : Nat)
  | literal (text : String) (start : Nat)
  /-- A group, from its opening bracket to its closing one. -/
  | group (delimiter : Delimiter) (content : List TokenTree) (start stop : Nat)
  deriving Repr, Inhabited

/-- Where a token starts. -/
def TokenTree.start : TokenTree → Nat
  | word _ n | lifetime _ n | mark _ _ n | literal _ n | group _ _ n _ => n

/-- A piece of printed text. -/
inductive Printed where
  | text (s : String)
  | group (delimiter : Delimiter) (content : List Printed)
  deriving Repr, Inhabited

namespace Printed

mutual

/-- A piece as text. -/
def render : Printed → String
  | text s => s
  | group .parenthesis ps => "(" ++ renderAll ps ++ ")"
  | group .bracket ps => "[" ++ renderAll ps ++ "]"
  | group .brace [] => "\x7b \x7d"
  | group .brace (p :: ps) => "\x7b " ++ render p ++ renderRest ps ++ " \x7d"

/-- A row of pieces as text. -/
def renderAll : List Printed → String
  | [] => ""
  | p :: ps => render p ++ renderRest ps

/-- The later pieces of a row, a space before each. -/
def renderRest : List Printed → String
  | [] => ""
  | p :: ps => " " ++ render p ++ renderRest ps

end

/-- Pieces of text. -/
def texts (ss : List String) : List Printed := ss.map text

/-- A character written directly before a row. -/
def glue (c : Char) : List Printed → List Printed
  | text s :: ps => text (c.toString ++ s) :: ps
  | ps => text c.toString :: ps

/-- Rows with commas between them. -/
def commaSeparated : List (List Printed) → List Printed
  | [] => []
  | [row] => row
  | row :: rows => row ++ text "," :: commaSeparated rows

end Printed

/-! ## Printing tokens as they stand -/

mutual

/-- A tree as it stands. -/
def TokenTree.asIs : TokenTree → Printed
  | .word s _ | .lifetime s _ | .literal s _ => .text s
  | .mark c _ _ => .text c.toString
  | .group d ts _ _ => .group d (allAsIs ts)

/-- A row of trees as it stands: a joined character touches what comes next. -/
def allAsIs : List TokenTree → List Printed
  | [] => []
  | .mark c true _ :: ts => Printed.glue c (allAsIs ts)
  | t :: ts => t.asIs :: allAsIs ts

end

/-! ## Printing operators apart -/

/-- The operators of several characters, the longer ones first. -/
def longOperators : List String :=
  ["<<=", ">>=", "...", "..=", "::", "->", "=>", "==", "!=", "<=", ">=", "&&", "||", "+=", "-=",
    "*=", "/=", "%=", "^=", "&=", "|=", "<<", ">>", ".."]

/-- The operator at the front of a run of operator characters: the longest there is. -/
def operatorAtFront (run : List Char) : List Char :=
  ((longOperators.map String.toList).find? (·.isPrefixOf run)).getD (run.take 1)

/-- A run of operator characters as operators, each as long as it can be. -/
def splitOperators (run : List Char) : List String :=
  match run with
  | [] => []
  | c :: cs =>
    let op := operatorAtFront (c :: cs)
    String.ofList op :: splitOperators (cs.drop (op.length - 1))
termination_by run.length

mutual

/-- A tree with its operators apart. -/
def TokenTree.apart : TokenTree → Printed
  | .word s _ | .lifetime s _ | .literal s _ => .text s
  | .mark c _ _ => .text c.toString
  | .group d ts _ _ => .group d (allApart [] ts)

/-- A row of trees with its operators apart, after a run of joined characters. -/
def allApart (run : List Char) : List TokenTree → List Printed
  | [] => Printed.texts (splitOperators run)
  | .mark c joined _ :: ts =>
    if joined then allApart (run ++ [c]) ts
    else Printed.texts (splitOperators (run ++ [c])) ++ allApart [] ts
  | t :: ts => Printed.texts (splitOperators run) ++ t.apart :: allApart [] ts

end

/-! ## Sizes -/

mutual

/-- The number of tokens in a tree, its brackets counted once. -/
def TokenTree.size : TokenTree → Nat
  | .group _ ts _ _ => 1 + totalSize ts
  | _ => 1

/-- The number of tokens in a row of trees. -/
def totalSize : List TokenTree → Nat
  | [] => 0
  | t :: ts => t.size + totalSize ts

end

end Memberwise.Derive
