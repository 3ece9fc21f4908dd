import Memberwise.Token.Basic
import Memberwise.Token.Quoted

/-!
# Token/Number — how far a number literal reaches

An integer is decimal digits, or `0x`, `0o` or `0b` and digits of that radix; underscores may stand
after the first digit.  A fraction or an exponent makes a decimal number a float, and each needs a
digit of its own: where that digit is missing the literal ends before the dot or the `e`, and where
a radix has no digit the literal is the lone `0`.

**A number takes no more than there is** (`numberLength_le`).
-/

namespace Memberwise.Token

/-- The digits of the radix that a letter after `0` stands for. -/
def radixDigit? : Char → Option (Char → Bool)
  | 'x' => some fun c => c.isDigit || ('a' ≤ c && c ≤ 'f') || ('A' ≤ c && c ≤ 'F')
  | 'o' => some fun c => '0' ≤ c && c ≤ '7'
  | 'b' => some fun c => c == '0' || c == '1'
  | _ => none

/-- Digits of a class, or underscores among them. -/
def orUnderscore (digit : Char → Bool) (c : Char) : Bool := digit c || c == '_'

/-- The length of an exponent at the front of a text: `e`, a sign or none, and digits; zero if there
is none. -/
def exponentLength : List Char → Nat
  | e :: s =>
    if e = 'e' ∨ e = 'E' then
      let sign := if s.head? = some '+' ∨ s.head? = some '-' then 1 else 0
      let digits := run Char.isDigit (s.drop sign)
      if digits = 0 then 0 else 1 + sign + digits
    else 0
  | [] => 0

/-- The length of a fraction at the front of a text: a dot, a digit, and more of them with
underscores; zero if there is none. -/
def fractionLength : List Char → Nat
  | '.' :: d :: s => if d.isDigit then 2 + run (orUnderscore Char.isDigit) s else 0
  | _ => 0

/-- The length of radix and digits after a `0`; zero if there is none. -/
def radixLength : List Char → Nat
  | r :: d :: s =>
    match radixDigit? r with
    | some digit => if digit d then 2 + run (orUnderscore digit) s else 0
    | none => 0
  | _ => 0

/-- The kind of the number that begins with the digit `c`, and how many characters of what follows
belong to it. -/
def number (c : Char) (s : List Char) : TokenKind × Nat :=
  let radix := if c = '0' then radixLength s else 0
  if radix ≠ 0 then (.int, radix)
  else
    let whole := run (orUnderscore Char.isDigit) s
    let fraction := fractionLength (s.drop whole)
    let exponent := exponentLength (s.drop (whole + fraction))
    (if fraction + exponent = 0 then .int else .float, whole + fraction + exponent)

/-! ## A number stays inside the text -/

theorem exponentLength_le (s : List Char) : exponentLength s ≤ s.length := by
  cases s with
  | nil => simp [exponentLength]
  | cons e s =>
    simp only [exponentLength, List.length_cons]
    have h₁ := run_le Char.isDigit (s.drop 1)
    have h₀ := run_le Char.isDigit (s.drop 0)
    simp only [List.length_drop] at h₀ h₁
    have hs : s = [] → s.length = 0 := fun h => by simp [h]
    cases s <;> grind

theorem fractionLength_le (s : List Char) : fractionLength s ≤ s.length := by
  unfold fractionLength
  split
  · have := run_le (orUnderscore Char.isDigit) ‹List Char›
    grind
  · omega

theorem radixLength_le (s : List Char) : radixLength s ≤ s.length := by
  unfold radixLength
  split
  · rename_i r d s
    split
    · have := run_le (orUnderscore ‹Char → Bool›) s
      grind
    · omega
  · omega

/-- **A number takes no more than there is.** -/
theorem number_le (c : Char) (s : List Char) : (number c s).2 ≤ s.length := by
  have h₁ := radixLength_le s
  have h₂ := run_le (orUnderscore Char.isDigit) s
  have h₃ := fractionLength_le (s.drop (run (orUnderscore Char.isDigit) s))
  have h₄ := exponentLength_le (s.drop (run (orUnderscore Char.isDigit) s
    + fractionLength (s.drop (run (orUnderscore Char.isDigit) s))))
  simp only [List.length_drop] at h₃ h₄
  simp only [number]
  split <;> grind

end Memberwise.Token
