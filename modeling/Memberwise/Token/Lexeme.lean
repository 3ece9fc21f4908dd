import Memberwise.Text.Name
import Memberwise.Token.Number

/-!
# Token/Lexeme — a text as a row of pieces

Every nonempty text begins with exactly one piece: a run of blanks, a comment, a token, a string
literal, or characters that are no token.  Which one is settled by the longest match, and `front`
says for a first character and what follows it which piece it begins and how many of the following
characters belong to it.  A text is the row of its pieces: `pieces` cuts it up.

**Cutting loses nothing**: the pieces put together are the text (`flatMap_text_pieces`), and no
piece is empty (`text_ne_nil_of_mem_pieces`).
-/

namespace Memberwise.Token

open Text

/-- What a piece of a text is. -/
inductive Lexeme where
  /-- Spaces, tabs, returns and form feeds. -/
  | blank
  | lineComment
  | blockComment (closed : Bool)
  | token (kind : TokenKind)
  | literal (closed : Bool)
  /-- Characters that are no token. -/
  | invalid
  deriving DecidableEq, Repr

/-- A part of a text with what it is. -/
structure Piece where
  lexeme : Lexeme
  text : List Char
  deriving DecidableEq, Repr

/-- The characters that only separate tokens. -/
def isBlank (c : Char) : Bool := c == ' ' || c == '\t' || c == '\r' || c == '\x0c'

/-- The keywords, with their kinds. -/
def keywords : List (String × TokenKind) :=
  [("struct", .structKw), ("class", .classKw), ("enum", .enumKw), ("protocol", .protocolKw),
    ("extension", .extensionKw), ("func", .funcKw), ("init", .initKw), ("deinit", .deinitKw),
    ("subscript", .subscriptKw), ("var", .varKw), ("let", .letKw), ("typealias", .typealiasKw),
    ("associatedtype", .associatedtypeKw), ("case", .caseKw), ("import", .importKw),
    ("static", .staticKw), ("where", .whereKw), ("operator", .operatorKw), ("return", .returnKw)]

/-- Whether the UTF-8 form of a character begins like that of some character past ASCII that
continues a name: the first byte of all others is `0xEE`, `0xF1`, `0xF2` or `0xF4`. -/
def startsLikeNameCharacter (c : Char) : Bool :=
  let n := c.toNat
  0x80 ≤ n && !(0xe000 ≤ n && n < 0xf000) && !(0x40000 ≤ n && n < 0xc0000) && n < 0x100000

/-- The kind of a bare word: its keyword's, or a name's.  A keyword that runs into a character whose
first byte could still continue a name counts as a name. -/
def wordKind (word : List Char) (next : Option Char) : TokenKind :=
  if next.any startsLikeNameCharacter then .ident
  else (keywords.lookup (String.ofList word)).getD .ident

/-- The kind of a mark that is one token wherever it stands. -/
def markKind? : Char → Option TokenKind
  | '@' => some .atSign
  | '\\' => some .backslash
  | '(' => some .leftParen
  | ')' => some .rightParen
  | '\x7b' => some .leftBrace
  | '\x7d' => some .rightBrace
  | '[' => some .leftBracket
  | ']' => some .rightBracket
  | '<' => some .less
  | '>' => some .greater
  | ':' => some .colon
  | ';' => some .semicolon
  | ',' => some .comma
  | '.' => some .dot
  | '?' => some .question
  | '!' => some .bang
  | '=' => some .equal
  | '&' => some .ampersand
  | '\n' => some .newline
  | '+' | '-' | '*' | '/' | '%' | '|' | '^' | '~' => some .operator
  | _ => none

/-- The kind of a mark of two characters. -/
def markPairKind? : Char → Char → Option TokenKind
  | '=', '=' => some .equalEqual
  | '&', '&' => some .andAnd
  | '-', '>' => some .arrow
  | _, _ => none

/-- A mark: two characters where they are one, else one. -/
def markFront (c : Char) (s : List Char) : Lexeme × Nat :=
  match s.head?.bind (markPairKind? c), markKind? c with
  | some kind, _ => (.token kind, 1)
  | none, some kind => (.token kind, 0)
  | none, none => (.invalid, 0)

/-- A name between backticks, whose closing one stands on the same line; without it, all up to the
line's end is no token. -/
def backtickFront (s : List Char) : Lexeme × Nat :=
  let n := run (fun c => c != backtick && c != '\n') s
  if n = 0 then (.invalid, 0)
  else if (s.drop n).head? = some backtick then (.token .ident, n + 1)
  else (.invalid, n)

/-- A `$` name, which needs a name character after the `$`. -/
def dollarFront (s : List Char) : Lexeme × Nat :=
  let n := run isXidContinue s
  if n = 0 then (.invalid, 0) else (.token .ident, n)

/-- A run of `#` that opens no literal: one is a token, several together are none. -/
def hashFront (s : List Char) : Lexeme × Nat :=
  let n := run (· == '#') s
  if n = 0 then (.token .hash, 0) else (.invalid, n)

/-- The piece at the front of the text `c :: s`, and how many characters of `s` belong to it. -/
def front (c : Char) (s : List Char) : Lexeme × Nat :=
  if isBlank c then (.blank, run isBlank s)
  else if isNameStart c then
    let n := run isXidContinue s
    (.token (wordKind (c :: s.take n) (s.drop n).head?), n)
  else if c.isDigit then
    let (kind, n) := number c s
    (.token kind, n)
  else if c = '/' ∧ s.head? = some '/' then (.lineComment, run (· != '\n') s)
  else if c = '/' ∧ s.head? = some '*' then
    let e := blockComment 0 s.tail
    (.blockComment e.closed, 1 + e.length)
  else
    match literal? (c :: s) with
    | some e => (.literal e.closed, e.length - 1)
    | none =>
      if c = '#' then hashFront s
      else if c = backtick then backtickFront s
      else if c = '$' then dollarFront s
      else markFront c s

/-- A text, cut into its pieces. -/
def pieces : List Char → List Piece
  | [] => []
  | c :: s => ⟨(front c s).1, c :: s.take (front c s).2⟩ :: pieces (s.drop (front c s).2)
termination_by s => s.length
decreasing_by
  simp only [List.length_drop, List.length_cons]
  omega

/-! ## Cutting loses nothing -/

/-- **The pieces put together are the text.** -/
theorem flatMap_text_pieces (s : List Char) : (pieces s).flatMap Piece.text = s := by
  fun_induction pieces s with
  | case1 => rfl
  | case2 c s ih => simp [ih]

/-- **No piece is empty.** -/
theorem text_ne_nil_of_mem_pieces {s : List Char} {p : Piece} (h : p ∈ pieces s) :
    p.text ≠ [] := by
  fun_induction pieces s with
  | case1 => cases h
  | case2 c s ih =>
    rcases List.mem_cons.1 h with rfl | h
    · simp
    · exact ih h

end Memberwise.Token
