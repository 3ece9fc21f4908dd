import Memberwise.Diagnostic.Basic
import Memberwise.Text.Escape
import Memberwise.Token.Lexeme

/-!
# Token/Lex — from pieces to tokens and errors

Each piece of a text stands at an offset, the bytes of the pieces before it.  Pieces that are tokens
or literals give a token there; a comment gives none, except that a block comment over several lines
leaves an empty `newline` at its end, since declarations end at line ends.  Characters that are no
token are dropped with an error, and an unclosed literal or comment is an error too, but reading
always goes on.

Offsets are natural numbers here, where the tool has 32 bits for them and takes every larger one for
the last that 32 bits hold.  In a text below 4 GiB there is no larger one, so what is shown of spans
is about such texts.

**The offsets chain**: `placed_append` splits the placement of a row of pieces at any point, so what
a piece gives depends on the pieces before it through their length alone.
-/

namespace Memberwise

open Token Text

/-- What is wrong with the characters of a text. -/
inductive LexErrorKind where
  /-- A character that is part of no token. -/
  | invalidCharacter (c : Char)
  | unterminatedString
  | unterminatedComment
  deriving DecidableEq, Repr

/-- Wrong characters and where they stand. -/
structure LexError where
  kind : LexErrorKind
  span : Span
  deriving DecidableEq, Repr

/-- What to report about wrong characters. -/
def LexError.toDiagnostic (e : LexError) : Diagnostic :=
  match e.kind with
  | .invalidCharacter c =>
    .error .invalidCharacter s!"invalid character `{showChar c}`" e.span "not valid here"
  | .unterminatedString =>
    (Diagnostic.error .unterminatedString "unterminated string literal" e.span
      "string starts here").suggesting "add the closing quote"
  | .unterminatedComment =>
    (Diagnostic.error .unterminatedComment "unterminated block comment"
      ⟨e.span.start, e.span.start + 2⟩ "comment starts here").noting
        "block comments nest; each `/*` needs its own `*/`"

namespace Token

/-- A piece and the span it covers. -/
structure Placed where
  piece : Piece
  span : Span
  deriving DecidableEq, Repr

/-- The pieces of a row with their spans, the first one starting at an offset. -/
def placed (offset : Nat) : List Piece → List Placed
  | [] => []
  | p :: ps =>
    ⟨p, ⟨offset, offset + byteLength p.text⟩⟩ :: placed (offset + byteLength p.text) ps

/-- The tokens a piece gives. -/
def Placed.tokens (p : Placed) : List Token :=
  match p.piece.lexeme with
  | .token kind => [⟨kind, p.span⟩]
  | .literal _ => [⟨.text, p.span⟩]
  | .blockComment _ =>
    if p.piece.text.contains '\n' then [⟨.newline, .point p.span.stop⟩] else []
  | .blank | .lineComment | .invalid => []

/-- The errors a piece gives. -/
def Placed.errors (p : Placed) : List LexError :=
  match p.piece.lexeme with
  | .literal false => [⟨.unterminatedString, p.span⟩]
  | .blockComment false => [⟨.unterminatedComment, p.span⟩]
  | .invalid => [⟨.invalidCharacter (p.piece.text.headD '\ufffd'), p.span⟩]
  | _ => []

end Token

/-- The tokens of a text and what is wrong with its characters. -/
structure Lexed where
  tokens : TokenList
  errors : List LexError
  deriving DecidableEq, Repr

/-- Read the tokens of a text. -/
def lexText (source : List Char) : Lexed :=
  let row := placed 0 (pieces source)
  ⟨⟨row.flatMap Placed.tokens, byteLength source⟩, row.flatMap Placed.errors⟩

/-- Read the tokens of a text. -/
def lex (source : String) : Lexed := lexText source.toList

namespace Token

/-! ## The offsets chain -/

@[simp] theorem placed_nil (offset : Nat) : placed offset [] = [] := rfl

@[simp] theorem map_piece_placed (offset : Nat) (ps : List Piece) :
    (placed offset ps).map Placed.piece = ps := by
  induction ps generalizing offset with
  | nil => rfl
  | cons p ps ih => simp [placed, ih]

/-- **The offsets chain**: what follows a row of pieces starts where its bytes end. -/
theorem placed_append (offset : Nat) (ps qs : List Piece) :
    placed offset (ps ++ qs)
      = placed offset ps ++ placed (offset + byteLength (ps.flatMap Piece.text)) qs := by
  induction ps generalizing offset with
  | nil => simp
  | cons p ps ih => simp [placed, ih, Nat.add_assoc]

/-- Every placed piece lies between the offset and the end of the row. -/
theorem span_le_of_mem_placed {offset : Nat} {ps : List Piece} {p : Placed}
    (h : p ∈ placed offset ps) :
    offset ≤ p.span.start ∧ p.span.start ≤ p.span.stop
      ∧ p.span.stop ≤ offset + byteLength (ps.flatMap Piece.text) := by
  induction ps generalizing offset with
  | nil => cases h
  | cons q ps ih =>
    simp only [placed, List.mem_cons] at h
    simp only [List.flatMap_cons, byteLength_append]
    rcases h with rfl | h
    · exact ⟨Nat.le_refl _, by simp, by simp⟩
    · obtain ⟨h₁, h₂, h₃⟩ := ih h
      exact ⟨by omega, h₂, by omega⟩

end Token

end Memberwise
