import Memberwise.Derive.TokenTree

/-!
# Derive/Lookahead — what a row of tokens begins with

An operator may be the front of a longer one: `<` begins wherever `<=` does.  Where that matters the
longer one is excluded by name.
-/

namespace Memberwise.Derive

/-! ## Tokens -/

/-- Whether a row begins with the characters of an operator, each joined to the next. -/
def startsMarks : List Char → List TokenTree → Bool
  | [c], .mark d _ _ :: _ => c == d
  | c :: cs, .mark d joined _ :: ts => c == d && joined && startsMarks cs ts
  | _, _ => false

/-- Whether a row begins with an operator, which may be the front of a longer one. -/
def startsOperator (op : String) (ts : List TokenTree) : Bool := startsMarks op.toList ts

/-- Whether a row begins with one of some operators. -/
def startsAnyOperator (ops : List String) (ts : List TokenTree) : Bool :=
  ops.any (startsOperator · ts)

/-- Whether a row begins with a word of this text. -/
def startsKeyword (word : String) : List TokenTree → Bool
  | .word s _ :: _ => s == word
  | _ => false

/-- Whether a row begins with one of some words. -/
def startsAnyKeyword (words : List String) (ts : List TokenTree) : Bool :=
  words.any (startsKeyword · ts)

/-- Whether a row begins with a word of any kind. -/
def startsWord : List TokenTree → Bool
  | .word .. :: _ => true
  | _ => false

/-- The words that name nothing. -/
def keywords : List String :=
  ["_", "abstract", "as", "async", "await", "become", "box", "break", "const", "continue", "crate",
    "do", "dyn", "else", "enum", "extern", "false", "final", "fn", "for", "if", "impl", "in", "let",
    "loop", "macro", "match", "mod", "move", "mut", "override", "priv", "pub", "ref", "return",
    "Self", "self", "static", "struct", "super", "trait", "true", "try", "type", "typeof", "unsafe",
    "unsized", "use", "virtual", "where", "while", "yield"]

/-- Whether a row begins with a word that can be a name. -/
def startsName : List TokenTree → Bool
  | .word s _ :: _ => !keywords.contains s
  | _ => false

/-- Whether a row begins with a lifetime. -/
def startsLifetime : List TokenTree → Bool
  | .lifetime .. :: _ => true
  | _ => false

/-- Whether a row begins with a group in these brackets. -/
def startsGroup (d : Delimiter) : List TokenTree → Bool
  | .group e .. :: _ => e == d
  | _ => false

/-- Whether a row begins with a group. -/
def startsAnyGroup : List TokenTree → Bool
  | .group .. :: _ => true
  | _ => false

/-- Whether a row begins with a constant: a literal, a truth value, or a number after a minus. -/
def startsConstant : List TokenTree → Bool
  | .literal .. :: _ => true
  | .mark '-' _ _ :: .literal s _ :: _ => s.toList.head?.any Char.isDigit
  | ts => startsAnyKeyword ["true", "false"] ts

/-- Whether a row begins with a text in quotes, with or without escapes. -/
def startsText : List TokenTree → Bool
  | .literal s _ :: _ => s.toList.head?.any ['"', 'r'].contains
  | _ => false

/-! ## Phrases, and where their lists end -/

/-- Whether the list of a bound's operands ends: at a comma or a closing angle. -/
def boundsEnd (ts : List TokenTree) : Bool := startsAnyOperator [",", ">"] ts

/-- Whether a bound of a where clause ends. -/
def predicateEnd (ts : List TokenTree) : Bool :=
  ts.isEmpty || startsGroup .brace ts || startsAnyOperator [",", ";", "="] ts
    || (startsOperator ":" ts && !startsOperator "::" ts)

/-- Whether another bound can follow a plus sign. -/
def startsBound (ts : List TokenTree) : Bool :=
  startsWord ts || startsOperator "::" ts || startsOperator "?" ts || startsLifetime ts
    || startsGroup .parenthesis ts

/-- Whether a path begins here. -/
def startsPath (ts : List TokenTree) : Bool :=
  startsName ts || startsAnyKeyword ["super", "self", "Self", "crate"] ts || startsOperator "::" ts

/-- The operators between two operands, the longer ones first. -/
def binaryOperators : List String :=
  ["<<=", ">>=", "..=", "&&", "||", "<<", ">>", "==", "<=", "!=", ">=", "+=", "-=", "*=", "/=",
    "%=", "^=", "&=", "|=", "..", "+", "-", "*", "/", "%", "^", "&", "|", "<", ">", "="]

/-- The operator between two operands that comes next. -/
def binaryOperator? (ts : List TokenTree) : Option String :=
  if startsOperator "=>" ts then none else binaryOperators.find? (startsOperator · ts)

/-- Whether the last segment of a path is called with argument types, perhaps after colons. -/
def startsCall (ts : List TokenTree) : Bool :=
  startsGroup .parenthesis ts
    || (startsOperator "::" ts && startsGroup .parenthesis (ts.drop 2))

/-- Whether a range goes on to an upper end. -/
def startsOperand (ts : List TokenTree) : Bool :=
  !(ts.isEmpty || startsKeyword "as" ts
    || startsAnyOperator [",", ";", "?", "=", "+", "/", "%", "^", ">", "<=", "!=", "-=", "*=", "&=",
      "|=", "<<="] ts
    || (startsOperator "." ts && !startsOperator ".." ts))

end Memberwise.Derive
