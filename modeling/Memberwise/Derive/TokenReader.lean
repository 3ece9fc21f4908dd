import Memberwise.Derive.Literal
import Memberwise.Derive.TokenTree
import Memberwise.Text.Blank
import Memberwise.Text.Quoted
import Memberwise.Token.Comment

/-!
# Derive/TokenReader — the token trees of a text

Blanks and comments stand between tokens.  A documentation comment stands for an attribute with its
text.  The brackets of a text have to match; otherwise, and where something is no token, the text
has no token trees.
-/

namespace Memberwise.Derive

open Text (isNameStart isXidContinue isWhite)

/-- A token, or a bracket still to be matched. -/
inductive Part where
  | opening (delimiter : Delimiter) (start : Nat)
  | closing (delimiter : Delimiter) (start : Nat)
  | tree (t : TokenTree)
  deriving Repr, Inhabited

/-! ## Words and operators -/

/-- The characters operators are made of, and the quote of a lifetime. -/
def markCharacters : List Char :=
  ['~', '!', '@', '#', '$', '%', '^', '&', '*', '-', '=', '+', '|', ';', ':', ',', '<', '.', '>',
    '/', '?', '\'']

/-- Whether an operator character is at the front; a comment is none. -/
def startsMark : List Char → Bool
  | '/' :: '/' :: _ => false
  | '/' :: '*' :: _ => false
  | c :: _ => markCharacters.contains c
  | [] => false

/-- What is left after the identifier at the front, raw or not. -/
def afterIdentifier? : List Char → Option (List Char)
  | 'r' :: '#' :: s =>
    match afterWord? s with
    | none => none
    | some rest =>
      let name := String.ofList (s.take (s.length - rest.length))
      if ["_", "super", "self", "Self", "crate"].contains name then none else some rest
  | s => afterWord? s

/-- The openings that would begin a literal and so begin no identifier. -/
def literalOpenings : List String :=
  ["r\"", "r#\"", "r##", "b\"", "b\'", "br\"", "br#", "c\"", "cr\"", "cr#"]

/-- The first characters of a text, up to what is left of it. -/
def upTo (s rest : List Char) : String := String.ofList (s.take (s.length - rest.length))

/-- The token at the front and what is left after it. -/
def readToken? (start : Nat) (s : List Char) : Option (TokenTree × List Char) :=
  match afterLiteral? s with
  | some rest => some (.literal (upTo s rest) start, rest)
  | none =>
    if startsMark s then
      match s with
      | [] => none
      | '\'' :: name =>
        match afterIdentifier? name with
        | none => none
        | some rest =>
          let raw := ['r', '#'].isPrefixOf name
          if rest.head? = some '\'' ∨ (rest.head? = some '#' ∧ !raw) then none
          else some (.lifetime (upTo s rest) start, rest)
      | c :: rest => some (.mark c (startsMark rest) start, rest)
    else if (literalOpenings.map String.toList).any (·.isPrefixOf s) then none
    else (afterIdentifier? s).map fun rest => (.word (upTo s rest) start, rest)

/-! ## Comments -/

/-- The attribute that a documentation comment stands for; one `inside` what it describes has an
exclamation mark. -/
def documentation (start : Nat) (inside : Bool) (text : List Char) : List TokenTree :=
  let quoted := String.join (text.map fun c => if c = '\'' then "'" else Text.quotedChar c)
  .mark '#' false start :: (if inside then [.mark '!' false start] else [])
  ++ [.group .bracket
    [.word "doc" start, .mark '=' false start, .literal ("\"" ++ quoted ++ "\"") start] start start]

/-- Whether every return is followed by a newline. -/
def returnsPaired : List Char → Bool
  | [] => true
  | '\r' :: '\n' :: s => returnsPaired s
  | '\r' :: _ => false
  | _ :: s => returnsPaired s

/-- The text of a line up to its end, which may be a return and a newline. -/
def lineText (s : List Char) : List Char :=
  let line := s.takeWhile (· != '\n')
  if (s.drop line.length).isEmpty then line
  else if line.getLast? = some '\r' then line.dropLast else line

/-- What a comment at the front is: its length, and its tokens if it documents something; nothing if
it is never closed or is not allowed. -/
def readComment? (start : Nat) (s : List Char) : Option (Nat × List TokenTree) :=
  let documented (skip cut length : Nat) (inside : Bool) (body : List Char) :
      Option (Nat × List TokenTree) :=
    let text := (body.drop skip).take (body.length - skip - cut)
    if returnsPaired text then some (length, documentation start inside text) else none
  match s with
  | '/' :: '/' :: rest =>
    let line := '/' :: '/' :: lineText rest
    if ['/', '/', '!'].isPrefixOf line then documented 3 0 line.length true line
    else if ['/', '/', '/'].isPrefixOf line && !(['/', '/', '/', '/'].isPrefixOf line) then
      documented 3 0 line.length false line
    else some (line.length, [])
  | '/' :: '*' :: rest =>
    let e := Token.blockComment 0 rest
    let body := s.take (e.length + 2)
    if !e.closed then none
    else if ['/', '*', '!'].isPrefixOf body then documented 3 2 body.length true body
    else if ['/', '*', '*'].isPrefixOf body && body.length ≠ 4
        && !(['/', '*', '*', '*'].isPrefixOf body) then
      documented 3 2 body.length false body
    else some (body.length, [])
  | _ => none

/-- Whether a character only separates tokens: white space and the marks of writing direction. -/
def isSeparator (c : Char) : Bool := isWhite c || c == '\u200e' || c == '\u200f'

/-! ## Parts and trees -/

/-- The parts of a text that starts at an offset. -/
def readParts? (start : Nat) (s : List Char) : Option (List Part) :=
  match s with
  | [] => some []
  | c :: rest =>
    if isSeparator c then readParts? (start + 1) rest
    else if c = '/' ∧ (rest.head? = some '/' ∨ rest.head? = some '*') then
      match readComment? start (c :: rest) with
      | none => none
      | some (length, trees) =>
        (readParts? (start + 1 + (length - 1)) (rest.drop (length - 1))).map
          (trees.map Part.tree ++ ·)
    else
      let one (p : Part) : Option (List Part) := (readParts? (start + 1) rest).map (p :: ·)
      match c with
      | '(' => one (.opening .parenthesis start)
      | '[' => one (.opening .bracket start)
      | '\x7b' => one (.opening .brace start)
      | ')' => one (.closing .parenthesis start)
      | ']' => one (.closing .bracket start)
      | '\x7d' => one (.closing .brace start)
      | _ =>
        match readToken? start (c :: rest) with
        | none => none
        | some (t, left) =>
          if left.length ≤ rest.length then
            (readParts? (start + 1 + (rest.length - left.length)) left).map (.tree t :: ·)
          else none
termination_by s.length
decreasing_by all_goals grind

/-- A bracket that is open, and the trees before it, the last one first. -/
structure OpenGroup where
  delimiter : Delimiter
  start : Nat
  before : List TokenTree
  deriving Repr

/-- The trees that parts make up, inside open groups and after trees of the innermost, the last one
first. -/
def nest? : List OpenGroup → List TokenTree → List Part → Option (List TokenTree)
  | [], done, [] => some done.reverse
  | _ :: _, _, [] => none
  | groups, done, .opening d start :: ps => nest? (⟨d, start, done⟩ :: groups) [] ps
  | groups, done, .tree t :: ps => nest? groups (t :: done) ps
  | [], _, .closing .. :: _ => none
  | g :: groups, done, .closing d stop :: ps =>
    if g.delimiter = d then nest? groups (.group d done.reverse g.start stop :: g.before) ps
    else none

/-- The token trees of a text; a byte order mark at its front is no token. -/
def readTrees? (s : List Char) : Option (List TokenTree) :=
  let parts := match s with
    | '\ufeff' :: rest => readParts? 1 rest
    | s => readParts? 0 s
  parts.bind (nest? [] [])

end Memberwise.Derive
