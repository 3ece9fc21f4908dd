import Memberwise.Text.Xid

/-!
# Text/Name — identifiers, reserved words, and how a name is written

An identifier is a letter or underscore followed by characters that continue a name.  Being reserved
is a separate matter: a reserved word is an identifier too, but in source it has to stand between
backticks.  `escape` writes a name so that it can be read back, `unescape` reads one.

**Reading undoes writing**: `unescape_escape` holds of every text that does not itself begin with a
backtick, hence of every identifier (`unescape_escape_of_isIdentifier`).
-/

namespace Memberwise.Text

/-- The words that cannot stand as a bare name. -/
def reservedWords : List String :=
  ["associatedtype", "class", "deinit", "enum", "extension", "fileprivate", "func", "import",
    "init", "inout", "internal", "let", "operator", "private", "precedencegroup", "protocol",
    "public", "rethrows", "static", "struct", "subscript", "typealias", "var", "break", "case",
    "catch", "continue", "default", "defer", "do", "else", "fallthrough", "for", "guard", "if",
    "in", "repeat", "return", "throw", "switch", "where", "while", "as", "false", "is", "nil",
    "self", "Self", "super", "throws", "true", "try"]

/-- Whether a word has to be put between backticks to be a name. -/
def isReserved (word : String) : Bool := reservedWords.contains word

/-- Whether a name may begin with this character: a letter or the underscore. -/
def isNameStart (c : Char) : Bool := c == '_' || isXidStart c

/-- Whether these characters spell an identifier, reserved or not. -/
def isIdentifierText : List Char → Bool
  | [] => false
  | c :: s => isNameStart c && s.all isXidContinue

/-- Whether a text is an identifier, reserved or not. -/
def isIdentifier (name : String) : Bool := isIdentifierText name.toList

/-- The backtick, which encloses a reserved word used as a name. -/
def backtick : Char := '\x60'

/-- A name as it has to appear in source: a reserved word stands between backticks. -/
def escape (name : String) : String :=
  if isReserved name then String.ofList (backtick :: name.toList ++ [backtick]) else name

/-- The name that a spelling stands for: its enclosing backticks taken off, if it has both. -/
def unescapeText : List Char → List Char
  | [] => []
  | c :: s => if c = backtick ∧ s.getLast? = some backtick then s.dropLast else c :: s

/-- The name that a spelling stands for. -/
def unescape (spelling : String) : String := String.ofList (unescapeText spelling.toList)

/-! ## Reading undoes writing -/

theorem isXidContinue_of_isNameStart {c : Char} (h : isNameStart c = true) :
    isXidContinue c = true := by
  rcases Bool.or_eq_true_iff.1 h with h | h
  · rw [beq_iff_eq.1 h]; decide
  · exact isXidContinue_of_isXidStart h

/-- Every character of an identifier continues a name. -/
theorem all_isXidContinue {s : List Char} (h : isIdentifierText s = true) :
    s.all isXidContinue = true := by
  cases s with
  | nil => rfl
  | cons c s =>
    simp only [isIdentifierText, Bool.and_eq_true] at h
    simp [isXidContinue_of_isNameStart h.1, h.2]

theorem unescapeText_quoted (s : List Char) :
    unescapeText (backtick :: s ++ [backtick]) = s := by
  simp [unescapeText]

theorem unescapeText_bare {c : Char} {s : List Char} (h : c ≠ backtick) :
    unescapeText (c :: s) = c :: s := by
  simp [unescapeText, h]

/-- **Reading undoes writing**, for a text that does not begin with a backtick. -/
theorem unescape_escape {name : String} (h : name.toList.head? ≠ some backtick) :
    unescape (escape name) = name := by
  unfold escape unescape
  split
  · simp only [String.toList_ofList, unescapeText_quoted, String.ofList_toList]
  · cases hs : name.toList with
    | nil => rw [← String.ofList_toList (s := name), hs]; rfl
    | cons c s =>
      rw [unescapeText_bare (fun hc => h (by simp [hs, hc])), ← hs, String.ofList_toList]

/-- **Reading undoes writing** for every identifier. -/
theorem unescape_escape_of_isIdentifier {name : String} (h : isIdentifier name = true) :
    unescape (escape name) = name := by
  refine unescape_escape fun hb => ?_
  cases hs : name.toList with
  | nil => simp [hs] at hb
  | cons c s =>
    simp only [hs, List.head?_cons, Option.some.injEq] at hb
    subst hb
    simp only [isIdentifier, hs, isIdentifierText, Bool.and_eq_true] at h
    exact absurd h.1 (by decide)

end Memberwise.Text
