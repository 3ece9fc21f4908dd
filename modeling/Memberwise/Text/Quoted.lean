import Memberwise.Text.Escape
import Memberwise.Text.Visible

/-!
# Text/Quoted — a text between quotes, in one line

Between the quotes each character stands for itself if it can be seen there; a quote and a backslash
take a backslash before them, and what cannot be seen is written by a letter or by its code point.
-/

namespace Memberwise.Text

/-- A character as it stands between quotes. -/
def quotedChar (c : Char) : String :=
  match c with
  | '\x00' => "\\0"
  | '\t' => "\\t"
  | '\r' => "\\r"
  | '\n' => "\\n"
  | '"' => "\\\""
  | '\\' => "\\\\"
  | c => if isVisible c then c.toString else "\\u\x7b" ++ hexadecimal c.toNat ++ "\x7d"

/-- A text between quotes. -/
def quote (s : String) : String := "\"" ++ String.join (s.toList.map quotedChar) ++ "\""

end Memberwise.Text
