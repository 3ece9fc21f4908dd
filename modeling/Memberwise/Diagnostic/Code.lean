/-!
# Diagnostic/Code — what can be wrong, by number

Each kind of problem has a code whose first digit names the phase that finds it: reading characters,
reading declarations, expanding, or the tool itself.

**Each code belongs to exactly one phase** by construction (`phase` is a function), and **its number
finds it again** (`parse?_render`).
-/

namespace Memberwise.Diagnostic

/-- A kind of problem. -/
inductive Code where
  | invalidCharacter
  | unterminatedString
  | unterminatedComment
  | unexpectedToken
  | unclosedDelimiter
  | expectedIdentifier
  | expectedDeclaration
  | unsupportedDeclaration
  | malformedBinding
  | assemblyFailure
  deriving DecidableEq, Repr, Inhabited

/-- The phase that finds a problem. -/
inductive Phase where
  | lexer
  | parser
  | expansion
  | internal
  deriving DecidableEq, Repr

namespace Code

/-- Every code, in the order of the numbers. -/
def all : List Code :=
  [invalidCharacter, unterminatedString, unterminatedComment, unexpectedToken, unclosedDelimiter,
    expectedIdentifier, expectedDeclaration, unsupportedDeclaration, malformedBinding,
    assemblyFailure]

/-- The number of a code, as shown. -/
def render : Code → String
  | invalidCharacter => "E0001"
  | unterminatedString => "E0002"
  | unterminatedComment => "E0003"
  | unexpectedToken => "E1001"
  | unclosedDelimiter => "E1002"
  | expectedIdentifier => "E1003"
  | expectedDeclaration => "E1004"
  | unsupportedDeclaration => "E2001"
  | malformedBinding => "E2002"
  | assemblyFailure => "E9001"

/-- The phase a code belongs to. -/
def phase : Code → Phase
  | invalidCharacter | unterminatedString | unterminatedComment => .lexer
  | unexpectedToken | unclosedDelimiter | expectedIdentifier | expectedDeclaration => .parser
  | unsupportedDeclaration | malformedBinding => .expansion
  | assemblyFailure => .internal

/-- Whether a code is found before anything is expanded. -/
def isFrontEnd (c : Code) : Bool := c.phase == .lexer || c.phase == .parser

/-- The code a text numbers, in either case of its letter: `e` is the one other character whose
capital is `E`, and no other character has a digit for its capital. -/
def parse? (s : String) : Option Code :=
  let upper := s.toList.map fun c => if c = 'e' then 'E' else c
  all.find? (·.render.toList == upper)

/-- The wording for a text that numbers no code. -/
def unknownMessage : String := "unknown error code"

theorem mem_all (c : Code) : c ∈ all := by cases c <;> decide

/-- **The number of a code finds it again.** -/
theorem parse?_render (c : Code) : parse? c.render = some c := by cases c <;> decide

end Code

/-- The word for a phase. -/
def Phase.render : Phase → String
  | .lexer => "lexer"
  | .parser => "parser"
  | .expansion => "expansion"
  | .internal => "internal"

end Memberwise.Diagnostic
