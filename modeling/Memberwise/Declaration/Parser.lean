import Memberwise.Declaration.Cursor
import Memberwise.Declaration.ParseError
import Memberwise.Text.Name

/-!
# Declaration/Parser — reading as taking a number of tokens

A parser looks at a cursor and answers with a result or an error and with how many tokens it takes,
in either case; what follows goes on from there.  A parser has no way to move a cursor backwards, to
pass the end or to change a token, because all it says about the cursor is a number.
-/

namespace Memberwise

open Text

/-- What reading at one place comes to. -/
structure Outcome (α : Type) where
  result : Except ParseError α
  /-- How many tokens are taken, also by a failure. -/
  taken : Nat

namespace Outcome

variable {α β : Type}

/-- The outcome of a stretch of reading that begins `n` tokens further on. -/
def after (n : Nat) (o : Outcome α) : Outcome α := ⟨o.result, n + o.taken⟩

/-- The outcome with another value. -/
def map (f : α → β) (o : Outcome α) : Outcome β := ⟨o.result.map f, o.taken⟩

@[simp] theorem result_after (n : Nat) (o : Outcome α) : (o.after n).result = o.result := rfl

@[simp] theorem taken_after (n : Nat) (o : Outcome α) : (o.after n).taken = n + o.taken := rfl

@[simp] theorem after_zero (o : Outcome α) : o.after 0 = o := by simp [after]

@[simp] theorem after_after (m n : Nat) (o : Outcome α) :
    (o.after n).after m = o.after (m + n) := by
  simp [after, Nat.add_assoc]

end Outcome

/-- A way to read at a cursor. -/
def Parser (α : Type) : Type := Cursor → Outcome α

namespace Parser

variable {α β : Type}

/-- Read nothing and answer a value. -/
def pure (a : α) : Parser α := fun _ => ⟨.ok a, 0⟩

/-- Read one thing, then another from where it ends; a failure ends it all. -/
def bind (p : Parser α) (f : α → Parser β) : Parser β := fun c =>
  match (p c).result with
  | .ok a => (f a (c.skip (p c).taken)).after (p c).taken
  | .error e => ⟨.error e, (p c).taken⟩

instance : Monad Parser where
  pure := pure
  bind := bind

/-- Look at the cursor. -/
def here : Parser Cursor := fun c => ⟨.ok c, 0⟩

/-- Fail at the next token. -/
def fail (fault : ParseFault) : Parser α := fun c => ⟨.error ⟨fault, c.span, none⟩, 0⟩

/-- Take `n` tokens, or all if there are fewer. -/
def take (n : Nat) : Parser Unit := fun c => ⟨.ok (), min n c.rest.length⟩

/-- Take the next token, and answer it or the end. -/
def next : Parser Token := fun c => ⟨.ok c.current, min 1 c.rest.length⟩

/-- Take the next token if it is of a kind, and answer whether it was. -/
def eat (kind : TokenKind) : Parser Bool := fun c =>
  if c.kind = kind then ⟨.ok true, min 1 c.rest.length⟩ else ⟨.ok false, 0⟩

/-- Take the line ends that come next. -/
def skipNewlines : Parser Unit := fun c => ⟨.ok (), c.newlines⟩

/-- Take a token of a kind. -/
def expect (kind : TokenKind) : Parser Token := fun c =>
  if c.kind = kind then next c else fail (.expectedToken kind c.kind) c

/-- Take a name, and answer it without backticks, and where it stands. -/
def identifier : Parser (String × Span) := fun c =>
  if c.kind = .ident then ⟨.ok (String.ofList (unescapeText c.currentText), c.span), 1⟩
  else fail (.expectedIdentifier c.kind) c

/-- Read inside a construct: an error that names none yet names this one. -/
def inside (construct : Construct) (p : Parser α) : Parser α := fun c =>
  ⟨(p c).result.mapError (·.within construct), (p c).taken⟩

/-! ## Sequencing -/

@[simp] theorem pure_apply (a : α) (c : Cursor) : (Pure.pure a : Parser α) c = ⟨.ok a, 0⟩ := rfl

/-- What follows a success goes on from where it ends. -/
theorem bind_of_ok {p : Parser α} {f : α → Parser β} {c : Cursor} {a : α} {n : Nat}
    (h : p c = ⟨.ok a, n⟩) : (p >>= f) c = (f a (c.skip n)).after n := by
  change bind p f c = _
  simp [bind, h]

/-- Nothing follows a failure. -/
theorem bind_of_error {p : Parser α} {f : α → Parser β} {c : Cursor} {e : ParseError} {n : Nat}
    (h : p c = ⟨.error e, n⟩) : (p >>= f) c = ⟨.error e, n⟩ := by
  change bind p f c = _
  simp [bind, h]

end Parser

end Memberwise
