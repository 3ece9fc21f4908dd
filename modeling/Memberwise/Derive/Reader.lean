import Memberwise.Derive.Lookahead

/-!
# Derive/Reader — taking tokens from the front of a row

A reader takes trees from the front of a row and answers something about them, or fails.  Looking
ahead takes nothing.  Lists end at what the caller names, and the loop over their items is bounded
by the length of the row.
-/

namespace Memberwise.Derive

/-- A reader of token trees. -/
abbrev Reader (α : Type) : Type := StateT (List TokenTree) Option α

namespace Reader

/-- Whether what comes next has a property. -/
def look (p : List TokenTree → Bool) : Reader Bool := do return p (← get)

/-- Fail unless what comes next has a property. -/
def require (p : List TokenTree → Bool) : Reader Unit := do if !p (← get) then failure

/-- Where the next tree starts. -/
def place : Reader Nat := do
  match ← get with
  | t :: _ => return t.start
  | [] => failure

/-- Take any tree. -/
def tree : Reader TokenTree := do
  match ← get with
  | t :: ts => set ts; return t
  | [] => failure

/-- Take an operator, if it comes next. -/
def eatOperator (op : String) : Reader Bool := do
  let ts ← get
  if startsOperator op ts then set (ts.drop op.length); return true
  else return false

/-- Take an operator. -/
def operator (op : String) : Reader (List Printed) := do
  if ← eatOperator op then return [.text op] else failure

/-- Take an operator, if it comes next, and print it. -/
def optionalOperator (op : String) : Reader (List Printed) := do
  if ← eatOperator op then return [.text op] else return []

/-- Take any word, a keyword too. -/
def anyWord : Reader String := do
  match ← tree with
  | .word s _ => return s
  | _ => failure

/-- Take a name. -/
def name : Reader String := do
  require startsName
  anyWord

/-- Take a word of this text. -/
def keyword (word : String) : Reader (List Printed) := do
  require (startsKeyword word)
  return [.text (← anyWord)]

/-- Take a word of this text, if it comes next. -/
def optionalKeyword (word : String) : Reader (List Printed) := do
  if ← look (startsKeyword word) then keyword word else return []

/-- Take a lifetime. -/
def lifetime : Reader String := do
  match ← tree with
  | .lifetime s _ => return s
  | _ => failure

/-- Take a literal. -/
def literal : Reader (List Printed) := do
  match ← tree with
  | .literal s _ => return [.text s]
  | _ => failure

/-- Take a group in these brackets: what is in it. -/
def group (d : Delimiter) : Reader (List TokenTree) := do
  match ← tree with
  | .group e ts _ _ => if e = d then return ts else failure
  | _ => failure

/-- Read all of a row apart from the one being read. -/
def within (ts : List TokenTree) (r : Reader α) : Reader α := do
  match r.run ts with
  | some (a, []) => return a
  | _ => failure

/-- Read all of a group in these brackets. -/
def grouped (d : Delimiter) (r : Reader α) : Reader α := do within (← group d) r

/-! ## Lists -/

/-- Items with commas between them, at most `n`, up to where the list ends; with each item, whether
a comma follows. -/
def itemsUpTo (stop : List TokenTree → Bool) (item : Reader α) : Nat → Reader (List (α × Bool))
  | 0 => failure
  | n + 1 => do
    if ← look stop then return []
    let a ← item
    if ← look stop then return [(a, false)]
    let _ ← operator ","
    return (a, true) :: (← itemsUpTo stop item n)

/-- Items with commas between them, and perhaps after the last, up to where the list ends. -/
def commaList (stop : List TokenTree → Bool) (item : Reader α) : Reader (List (α × Bool)) := do
  itemsUpTo stop item ((← get).length + 1)

/-- Items with commas between them, to the end of the row. -/
def commaListToEnd (item : Reader α) : Reader (List (α × Bool)) := commaList List.isEmpty item

/-- Operands with plus signs between them, at most `n`, up to where the list ends. -/
def sumUpTo (stop : List TokenTree → Bool) (item : Reader (List Printed)) :
    Nat → Reader (List Printed)
  | 0 => failure
  | n + 1 => do
    if ← look stop then return []
    let a ← item
    if ← eatOperator "+" then return a ++ .text "+" :: (← sumUpTo stop item n)
    return a

/-- Operands with plus signs between them, and perhaps after the last, up to where the list ends. -/
def plusList (stop : List TokenTree → Bool) (item : Reader (List Printed)) :
    Reader (List Printed) := do
  sumUpTo stop item ((← get).length + 1)

end Reader

end Memberwise.Derive
