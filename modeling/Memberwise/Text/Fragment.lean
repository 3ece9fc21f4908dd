/-!
# Text/Fragment — text laid out in lines

What is printed is a row of fragments: text, line ends, indentation by levels of four spaces, and
single spaces.  A row stands for the characters of its fragments one after the other.

**Rows join as their texts do** (`chars_append`).
-/

namespace Memberwise.Text

/-- A piece of laid-out text. -/
inductive Fragment where
  | text (s : String)
  | lineEnd
  /-- The blanks before a line at a nesting level. -/
  | indent (level : Nat)
  | space
  deriving DecidableEq, Repr

namespace Fragment

/-- The number of spaces in a level of indentation. -/
def indentWidth : Nat := 4

/-- The characters a fragment stands for. -/
def chars : Fragment → List Char
  | text s => s.toList
  | lineEnd => ['\n']
  | indent level => List.replicate (level * indentWidth) ' '
  | space => [' ']

end Fragment

/-- The characters a row of fragments stands for. -/
def chars (row : List Fragment) : List Char := row.flatMap Fragment.chars

/-- The text a row of fragments stands for. -/
def layOut (row : List Fragment) : String := String.ofList (chars row)

@[simp] theorem chars_nil : chars [] = [] := rfl

@[simp] theorem chars_cons (f : Fragment) (row : List Fragment) :
    chars (f :: row) = f.chars ++ chars row := rfl

/-- **Rows join as their texts do.** -/
@[simp] theorem chars_append (row row' : List Fragment) :
    chars (row ++ row') = chars row ++ chars row' := by
  simp [chars]

@[simp] theorem toList_layOut (row : List Fragment) : (layOut row).toList = chars row := by
  simp [layOut]

end Memberwise.Text
