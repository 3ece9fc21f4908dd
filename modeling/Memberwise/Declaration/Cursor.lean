import Memberwise.Text.Blank
import Memberwise.Token.Basic

/-!
# Declaration/Cursor — a place in a list of tokens

A cursor is the tokens already passed and the ones still to come, together with the source that
gives them their text.  It moves by `skip n`, past `n` tokens or to the end if there are fewer; past
the last token it reads the closing `endOfFile`, and never moves further.

**Moving is adding**: `skip_skip` says that two moves are one, so a stretch of reading is described
by a number, and `position_skip` that the position counts the tokens passed.
-/

namespace Memberwise

open Text

/-- A place in a list of tokens. -/
structure Cursor where
  source : List Char
  /-- The offset where the source ends. -/
  stop : Nat
  /-- The tokens passed, the last one first. -/
  passed : List Token
  /-- The tokens to come. -/
  rest : List Token
  deriving DecidableEq, Repr

namespace Cursor

/-- The place before the first token. -/
def start (source : List Char) (tokens : TokenList) : Cursor :=
  ⟨source, tokens.stop, [], tokens.tokens⟩

/-- How many tokens have been passed. -/
def position (c : Cursor) : Nat := c.passed.length

/-- The token at the end of every list. -/
def last (c : Cursor) : Token := ⟨.endOfFile, .point c.stop⟩

/-- The token `n` places ahead, or the end. -/
def ahead (c : Cursor) (n : Nat) : Token := c.rest.getD n c.last

/-- The next token, or the end. -/
def current (c : Cursor) : Token := c.ahead 0

/-- The kind of the next token. -/
def kind (c : Cursor) : TokenKind := c.current.kind

/-- The span of the next token. -/
def span (c : Cursor) : Span := c.current.span

/-- The kind of the token passed last. -/
def previousKind? (c : Cursor) : Option TokenKind := c.passed.head?.map (·.kind)

/-- The span of the token passed last; before the first token, the span of nothing. -/
def previousSpan (c : Cursor) : Span := (c.passed.head?.map (·.span)).getD .none

/-- The next token that ends no line. -/
def pastNewlines (c : Cursor) : Token := (c.rest.find? (·.kind != .newline)).getD c.last

/-- Whether no token is left. -/
def atEnd (c : Cursor) : Bool := c.kind == .endOfFile

/-- The cursor `n` tokens further on, or at the end. -/
def skip (n : Nat) (c : Cursor) : Cursor :=
  { c with passed := (c.rest.take n).reverse ++ c.passed, rest := c.rest.drop n }

/-- The cursor past the next token, if there is one. -/
def advance (c : Cursor) : Cursor := c.skip 1

/-- How many of the next tokens are of the given kinds. -/
def countWhile (p : TokenKind → Bool) (c : Cursor) : Nat :=
  (c.rest.takeWhile (p ·.kind)).length

/-- How many line ends come next. -/
def newlines (c : Cursor) : Nat := c.countWhile (· == .newline)

/-- How many line ends and semicolons come next. -/
def separators (c : Cursor) : Nat := c.countWhile fun k => k == .newline || k == .semicolon

/-- The source text of a span, empty if the span is not one of the source. -/
def text (c : Cursor) (s : Span) : List Char := (s.slice? c.source).getD []

/-- The text of the next token. -/
def currentText (c : Cursor) : List Char := c.text c.span

/-- The source text over two spans and all between them, without white space at its ends. -/
def textBetween (c : Cursor) (first final : Span) : List Char := trim (c.text (first.merge final))

/-- Whether the next token is a name written exactly so. -/
def isWord (c : Cursor) (word : String) : Bool :=
  c.kind == .ident && c.currentText == word.toList

/-! ## Moving is adding -/

@[simp] theorem skip_zero (c : Cursor) : c.skip 0 = c := by simp [skip]

/-- **Two moves are one.** -/
@[simp] theorem skip_skip (c : Cursor) (m n : Nat) : (c.skip m).skip n = c.skip (m + n) := by
  simp [skip, List.take_add, List.drop_drop]

@[simp] theorem source_skip (c : Cursor) (n : Nat) : (c.skip n).source = c.source := rfl

@[simp] theorem stop_skip (c : Cursor) (n : Nat) : (c.skip n).stop = c.stop := rfl

@[simp] theorem rest_skip (c : Cursor) (n : Nat) : (c.skip n).rest = c.rest.drop n := rfl

@[simp] theorem last_skip (c : Cursor) (n : Nat) : (c.skip n).last = c.last := rfl

@[simp] theorem text_skip (c : Cursor) (n : Nat) : (c.skip n).text = c.text := rfl

theorem length_rest_skip (c : Cursor) (n : Nat) : (c.skip n).rest.length = c.rest.length - n := by
  simp

/-- **The position counts the tokens passed.** -/
theorem position_skip (c : Cursor) (n : Nat) :
    (c.skip n).position = c.position + min n c.rest.length := by
  simp [position, skip, Nat.add_comm]

theorem ahead_skip (c : Cursor) (m n : Nat) : (c.skip m).ahead n = c.ahead (m + n) := by
  simp [ahead, List.getD_eq_getElem?_getD]

theorem newlines_le (c : Cursor) : c.newlines ≤ c.rest.length :=
  (List.takeWhile_sublist _).length_le

theorem separators_le (c : Cursor) : c.separators ≤ c.rest.length :=
  (List.takeWhile_sublist _).length_le

end Cursor

end Memberwise
