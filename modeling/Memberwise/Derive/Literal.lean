import Memberwise.Text.Name

/-!
# Derive/Literal — how far a literal of an item reaches

Literals are texts, bytes and zero-ended texts in quotes, with or without escapes, single characters
and bytes, and numbers; a suffix may follow each.  Every function answers what is left after the
literal at the front, or nothing if there is none.
-/

namespace Memberwise.Derive

open Text (isNameStart isXidContinue)

/-- What is left after the word at the front. -/
def afterWord? : List Char → Option (List Char)
  | [] => none
  | c :: s => if isNameStart c then some (s.dropWhile isXidContinue) else none

/-- What is left after the suffix at the front, if there is one. -/
def afterSuffix (s : List Char) : List Char := (afterWord? s).getD s

/-- The value of a hexadecimal digit. -/
def hexValue? (c : Char) : Option Nat :=
  if c.isDigit then some (c.toNat - '0'.toNat)
  else if 'a' ≤ c ∧ c ≤ 'f' then some (c.toNat - 'a'.toNat + 10)
  else if 'A' ≤ c ∧ c ≤ 'F' then some (c.toNat - 'A'.toNat + 10)
  else none

/-- What a quoted literal is made of. -/
inductive QuotedKind where
  /-- Characters. -/
  | text
  /-- Bytes: only ASCII may stand for itself. -/
  | bytes
  /-- Characters, of which none is zero. -/
  | zeroEnded
  deriving DecidableEq, Repr

namespace QuotedKind

/-- Whether an escape by two digits may have this value. -/
def allowsHex : QuotedKind → Nat → Bool
  | text, n => n < 0x80
  | bytes, _ => true
  | zeroEnded, n => n != 0

/-- Whether an escape by code point may have this value. -/
def allowsCodePoint : QuotedKind → Nat → Bool
  | text, n => decide n.isValidChar
  | bytes, _ => false
  | zeroEnded, n => n != 0 && decide n.isValidChar

/-- Whether a character may stand for itself. -/
def allowsBare : QuotedKind → Char → Bool
  | text, _ => true
  | bytes, c => c.toNat < 0x80
  | zeroEnded, c => c.toNat != 0

end QuotedKind

/-- What is left after the code point of an escape, from after its brace: up to six digits and
underscores after the first, and a closing brace. -/
def afterCodePoint? (kind : QuotedKind) : (value digits : Nat) → List Char → Option (List Char)
  | _, _, [] => none
  | value, digits, c :: s =>
    if c = '\x7d' then if 0 < digits && kind.allowsCodePoint value then some s else none
    else if c = '_' then if 0 < digits then afterCodePoint? kind value digits s else none
    else match hexValue? c with
      | some d => if digits < 6 then afterCodePoint? kind (value * 16 + d) (digits + 1) s else none
      | none => none

/-- What is left after an escape, from after its backslash; a line end may be escaped. -/
def afterEscape? (kind : QuotedKind) : List Char → Option (List Char)
  | 'x' :: a :: b :: s =>
    match hexValue? a, hexValue? b with
    | some m, some n => if kind.allowsHex (m * 16 + n) then some s else none
    | _, _ => none
  | 'u' :: '\x7b' :: s => afterCodePoint? kind 0 0 s
  | '0' :: s => if kind = .zeroEnded then none else some s
  | '\r' :: '\n' :: s => some s
  | c :: s => if ['n', 'r', 't', '\\', '\'', '"', '\n'].contains c then some s else none
  | [] => none

/-- What is left after a quoted literal, from after its opening quote. -/
def afterQuoted? (kind : QuotedKind) (s : List Char) : Option (List Char) :=
  match s with
  | [] => none
  | '"' :: s => some s
  | '\\' :: s =>
    match afterEscape? kind s with
    | none => none
    | some rest => if rest.length ≤ s.length then afterQuoted? kind rest else none
  | '\r' :: '\n' :: s => afterQuoted? kind s
  | '\r' :: _ => none
  | c :: s => if kind.allowsBare c then afterQuoted? kind s else none
termination_by s.length

/-- What is left after a literal without escapes, from after its opening quote: up to a quote with
as many `#` after it as stood before the opening one. -/
def afterRaw? (kind : QuotedKind) (hashes : List Char) : List Char → Option (List Char)
  | [] => none
  | '"' :: s => if hashes.isPrefixOf s then some (s.drop hashes.length) else afterRaw? kind hashes s
  | '\r' :: '\n' :: s => afterRaw? kind hashes s
  | '\r' :: _ => none
  | c :: s => if kind.allowsBare c then afterRaw? kind hashes s else none

/-- What is left after a literal without escapes, from its `#` or opening quote. -/
def afterRawOpening? (kind : QuotedKind) (s : List Char) : Option (List Char) :=
  let hashes := s.takeWhile (· == '#')
  match s.dropWhile (· == '#') with
  | '"' :: rest => if hashes.length ≤ 255 then afterRaw? kind hashes rest else none
  | _ => none

/-- What is left after one character or its escape and a closing quote. -/
def afterSingle? (kind : QuotedKind) : List Char → Option (List Char)
  | '\\' :: c :: s =>
    if c = '\n' ∨ c = '\r' then none
    else match afterEscape? kind (c :: s) with
      | some ('\'' :: rest) => some rest
      | _ => none
  | c :: '\'' :: s => if c ≠ '\\' ∧ kind.allowsBare c then some s else none
  | _ => none

/-! ## Numbers -/

/-- What is left after the digits of an integer in a base; every integer needs one. -/
def afterDigits? (base : Nat) : (found : Bool) → List Char → Option (List Char)
  | found, [] => if found then some [] else none
  | found, c :: s =>
    if c.isDigit then
      if c.toNat - '0'.toNat < base then afterDigits? base true s else none
    else if base = 16 ∧ (hexValue? c).isSome then afterDigits? base true s
    else if c = '_' then
      if !found ∧ base = 10 then none else afterDigits? base found s
    else if found then some (c :: s) else none

/-- What is left after the digits of an integer with or without a base. -/
def afterBased? : List Char → Option (List Char)
  | '0' :: 'x' :: s => afterDigits? 16 false s
  | '0' :: 'o' :: s => afterDigits? 8 false s
  | '0' :: 'b' :: s => afterDigits? 2 false s
  | s => afterDigits? 10 false s

/-- How the part of a float before its exponent ends. -/
structure Mantissa where
  /-- Whether there was a dot. -/
  dot : Bool
  /-- What is left, from the letter of the exponent if there is one. -/
  rest : List Char
  deriving Repr

/-- The part of a float before its exponent.  A dot that begins a range or a name belongs to no
number. -/
def mantissa? (dot : Bool) : List Char → Option Mantissa
  | [] => some ⟨dot, []⟩
  | c :: s =>
    if c.isDigit ∨ c = '_' then mantissa? dot s
    else if c = '.' ∧ !dot then
      match s.head? with
      | some d => if d = '.' ∨ isNameStart d then none else mantissa? true s
      | none => mantissa? true s
    else some ⟨dot, c :: s⟩

/-- What is left after an exponent, from after its letter: a sign or none, and a digit. -/
def afterExponent? : (sign value : Bool) → List Char → Option (List Char)
  | _, value, [] => if value then some [] else none
  | sign, value, c :: s =>
    if c = '+' ∨ c = '-' then
      if value then some (c :: s) else if sign then none else afterExponent? true value s
    else if c.isDigit then afterExponent? sign true s
    else if c = '_' then afterExponent? sign value s
    else if value then some (c :: s) else none

/-- What is left after a float: it has a dot or an exponent. -/
def afterFloat? : List Char → Option (List Char)
  | [] => none
  | c :: s =>
    if !c.isDigit then none
    else match mantissa? false s with
      | none => none
      | some m =>
        let bare := if m.dot then some m.rest else none
        match m.rest with
        | [] => bare
        | e :: rest =>
          if e = 'e' ∨ e = 'E' then (afterExponent? false false rest).or bare else bare

/-- What is left after a suffix, unless a name goes on there. -/
def atWordBreak? (s : List Char) : Option (List Char) :=
  let rest := afterSuffix s
  match rest with
  | [] => some rest
  | c :: _ => if isXidContinue c then none else some rest

/-! ## All literals -/

/-- What is left after the literal at the front. -/
def afterLiteral? (s : List Char) : Option (List Char) :=
  let quoted : Option (List Char) := match s with
    | '"' :: s => afterQuoted? .text s
    | 'r' :: s => afterRawOpening? .text s
    | 'b' :: '"' :: s => afterQuoted? .bytes s
    | 'b' :: 'r' :: s => afterRawOpening? .bytes s
    | 'c' :: '"' :: s => afterQuoted? .zeroEnded s
    | 'c' :: 'r' :: s => afterRawOpening? .zeroEnded s
    | 'b' :: '\'' :: s => afterSingle? .bytes s
    | '\'' :: s => afterSingle? .text s
    | _ => none
  (quoted.map afterSuffix).or
    (((afterFloat? s).bind atWordBreak?).or ((afterBased? s).bind atWordBreak?))

end Memberwise.Derive
