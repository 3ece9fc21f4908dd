/-!
# Text/Escape — a character shown in a message

A character that a reader cannot see, or that a message needs for its own quoting, is shown by an
escape: a letter for tab, return and newline, the character itself after a backslash for a quote or
a backslash, and the code point in hexadecimal for all that is not printable ASCII.
-/

namespace Memberwise.Text

/-- A code point in lower-case hexadecimal, without leading zeros. -/
def hexadecimal (n : Nat) : String := String.ofList (Nat.toDigits 16 n)

/-- A character as a message shows it. -/
def showChar (c : Char) : String :=
  match c with
  | '\t' => "\\t"
  | '\r' => "\\r"
  | '\n' => "\\n"
  | '\'' => "\\'"
  | '"' => "\\\""
  | '\\' => "\\\\"
  | c =>
    if 0x20 ≤ c.toNat ∧ c.toNat ≤ 0x7e then c.toString
    else "\\u\x7b" ++ hexadecimal c.toNat ++ "\x7d"

end Memberwise.Text
