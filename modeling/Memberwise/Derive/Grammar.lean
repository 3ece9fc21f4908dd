import Memberwise.Derive.Phrase
import Memberwise.Derive.Reader

/-!
# Derive/Grammar — reading types, attributes and constants

Only how far a type or a constant reaches and how it is printed matters here, so readers answer
phrases: printed text, with the little that later choices depend on.

The readers call each other, and each call hands on a smaller budget; the budget that `withBudget`
starts with is more than any text of its size can use.
-/

namespace Memberwise.Derive

open Reader

/-- A path without arguments: its words, where each stands, and the path as it is printed. -/
def readPlainPath : Reader (Bool × List (String × Nat) × List Printed) := do
  let rooted ← eatOperator "::"
  let first ← segment
  let rest ← more ((← get).length + 1)
  let words := first :: rest
  let text := (words.map fun w => [Printed.text w.1]).intersperse [.text "::"]
  return (rooted, words, (if rooted then [.text "::"] else []) ++ text.flatten)
where
  /-- A word of the path. -/
  segment : Reader (String × Nat) := do
    require fun ts => startsName ts || startsAnyKeyword ["super", "self", "Self", "crate"] ts
    let n ← place
    return (← anyWord, n)
  /-- The later words of the path. -/
  more : Nat → Reader (List (String × Nat))
    | 0 => failure
    | n + 1 => do
      if ← eatOperator "::" then
        let w ← segment
        return w :: (← more n)
      return []

mutual

/-- A type; a sum of bounds is one only where plus signs are allowed. -/
def readType (budget : Nat) (plus : Bool) : Reader TypeText := do
  match budget with
  | 0 => failure
  | b + 1 =>
    let binder ← readBinder b
    if !binder.isEmpty then
      require fun ts => startsName ts
        || startsAnyKeyword ["fn", "unsafe", "extern", "super", "self", "Self", "crate"] ts
    if ← look (startsGroup .parenthesis) then readParenthesized b plus
    else if ← look (startsAnyKeyword ["fn", "unsafe", "extern"]) then
      return ⟨binder ++ (← readFunctionType b), .other⟩
    else if ← look fun ts => startsPath ts || startsOperator "<" ts then
      let (selfTyped, path) ← readTypePath b
      if selfTyped then return ⟨path.text, .other⟩
      if path.plain && (← look fun ts => startsOperator "!" ts && !startsOperator "!=" ts) then
        let bang ← operator "!"
        require startsAnyGroup
        return ⟨path.text ++ bang ++ [(← tree).asIs], .other⟩
      let sum ← look fun ts => plus && startsOperator "+" ts
      if sum then
        let _ ← operator "+"
        if ← look startsBound then
          let more ← readBounds b true
          return ⟨binder ++ path.text ++ .text "+" :: more, .other⟩
        return ⟨binder ++ path.text ++ [.text "+"], .other⟩
      if !binder.isEmpty then return ⟨binder ++ path.text, .bound⟩
      return ⟨path.text, .path path.lone⟩
    else if ← look (startsKeyword "dyn") then
      let word ← keyword "dyn"
      let star ← optionalOperator "*"
      return ⟨word ++ star ++ (← readTraitBounds b plus), .other⟩
    else if ← look (startsGroup .bracket) then
      let content ← grouped .bracket (do
        let element ← readType b true
        if ← eatOperator ";" then
          return element.text ++ .text ";" :: (← readExpr b)
        return element.text)
      return ⟨[.group .bracket content], .other⟩
    else if ← eatOperator "*" then
      require (startsAnyKeyword ["const", "mut"])
      let word ← anyWord
      return ⟨.text "*" :: .text word :: (← readType b false).text, .other⟩
    else if ← eatOperator "&" then
      let region ← if ← look startsLifetime then pure [Printed.text (← lifetime)] else pure []
      let mutable ← optionalKeyword "mut"
      return ⟨.text "&" :: region ++ mutable ++ (← readType b false).text, .other⟩
    else if ← eatOperator "!" then return ⟨[.text "!"], .other⟩
    else if ← look (startsKeyword "impl") then
      let word ← keyword "impl"
      return ⟨word ++ (← readTraitBounds b plus), .other⟩
    else if ← look (startsKeyword "_") then return ⟨← keyword "_", .other⟩
    else if ← look startsLifetime then
      return ⟨← readTraitBounds b true, .other⟩
    else failure

/-- A type in parentheses, a tuple, or a sum of bounds whose first is in parentheses. -/
def readParenthesized (budget : Nat) (plus : Bool) : Reader TypeText := do
  match budget with
  | 0 => failure
  | b + 1 =>
    let content ← group .parenthesis
    if content.isEmpty then return ⟨[.group .parenthesis []], .other⟩
    if startsLifetime content then
      let text ← within content (readTraitBounds b true)
      return ⟨[.group .parenthesis text], .parenthesized⟩
    if startsOperator "?" content then
      let bound ← within content (readBound b)
      return ⟨.group .parenthesis bound :: (← readMoreBounds b), .other⟩
    let (first, tail) ← within content (do
      let first ← readType b true
      if ← eatOperator "," then
        let rest ← commaListToEnd (do return (← readType b true).text)
        return (first, some (printItems rest))
      return (first, none))
    match tail with
    | some rest => return ⟨[.group .parenthesis (first.text ++ .text "," :: rest)], .other⟩
    | none =>
      let asBound := match first.shape with
        | .path _ | .bound => true
        | _ => false
      let text := [Printed.group .parenthesis first.text]
      if plus && asBound && (← look (startsOperator "+")) then
        return ⟨text ++ (← readMoreBounds b), .other⟩
      return ⟨text, .parenthesized⟩

/-- Bounds after a first one, a plus sign before each. -/
def readMoreBounds (budget : Nat) : Reader (List Printed) := do
  match budget with
  | 0 => failure
  | b + 1 =>
    if ← eatOperator "+" then
      let bound ← readBound b
      return .text "+" :: bound ++ (← readMoreBounds b)
    return []

/-- Bounds with plus signs between them, if those are allowed, and perhaps after the last. -/
def readBounds (budget : Nat) (plus : Bool) : Reader (List Printed) := do
  match budget with
  | 0 => failure
  | b + 1 =>
    let bound ← readBound b
    if plus && (← look (startsOperator "+")) then
      let _ ← operator "+"
      if ← look startsBound then return bound ++ .text "+" :: (← readBounds b plus)
      return bound ++ [.text "+"]
    return bound

/-- Bounds of which one at least is no lifetime. -/
def readTraitBounds (budget : Nat) (plus : Bool) : Reader (List Printed) := do
  match budget with
  | 0 => failure
  | b + 1 =>
    let before ← get
    let text ← readBounds b plus
    let taken := before.take (before.length - (← get).length)
    let onlyLifetimes := taken.all fun
      | .lifetime .. => true
      | .mark '+' _ _ => true
      | _ => false
    if onlyLifetimes then failure
    return text

/-- A bound: a lifetime, or a path that may be in parentheses and after a binder and a question
mark. -/
def readBound (budget : Nat) : Reader (List Printed) := do
  match budget with
  | 0 => failure
  | b + 1 =>
    if ← look startsLifetime then return [.text (← lifetime)]
    if ← look (startsKeyword "use") then
      let word ← keyword "use"
      let _ ← operator "<"
      let args ← commaList (startsOperator ">") (do
        if ← look startsLifetime then return [Printed.text (← lifetime)]
        require fun ts => startsName ts || startsKeyword "Self" ts
        return [Printed.text (← anyWord)])
      let _ ← operator ">"
      return word ++ .text "<" :: printItems args ++ [.text ">"]
    if ← look (startsGroup .parenthesis) then
      let content ← group .parenthesis
      return [.group .parenthesis (← within content (readTraitBound b))]
    readTraitBound b

/-- A bound by a path. -/
def readTraitBound (budget : Nat) : Reader (List Printed) := do
  match budget with
  | 0 => failure
  | b + 1 =>
    let binder ← readBinder b
    let modifier ← optionalOperator "?"
    let binder' ← if binder.isEmpty && !modifier.isEmpty then readBinder b else pure []
    let path ← readPath b false
    let arguments ← if path.bareEnd && (← look startsCall) then
        let _ ← eatOperator "::"
        pure (← readCallArguments b).1
      else pure []
    return binder ++ modifier ++ binder' ++ path.text ++ arguments

/-- The lifetimes that a binder introduces, if there is one. -/
def readBinder (budget : Nat) : Reader (List Printed) := do
  match budget with
  | 0 => failure
  | b + 1 =>
    if ← look (startsKeyword "for") then
      let word ← keyword "for"
      let _ ← operator "<"
      let ps ← commaList (startsOperator ">") (readParameter b)
      let _ ← operator ">"
      return word ++ .text "<" :: printItems (ps.map fun (p, comma) => (p.full, comma))
        ++ [.text ">"]
    return []

/-- A path that may begin with a self type, its last segment perhaps called with argument types;
whether it has a self type, and the path. -/
def readTypePath (budget : Nat) : Reader (Bool × PathText) := do
  match budget with
  | 0 => failure
  | b + 1 =>
    if ← look (startsOperator "<") then
      let text ← readSelfTyped b false
      return (true, ← readCalls b text)
    let path ← readPath b false
    return (false, ← readCalls b path)

/-- A path after a self type. -/
def readSelfTyped (budget : Nat) (inExpr : Bool) : Reader PathText := do
  match budget with
  | 0 => failure
  | b + 1 =>
    let _ ← operator "<"
    let type ← readType b true
    let role ← if ← look (startsKeyword "as") then
        let word ← keyword "as"
        pure (word ++ (← readPath b false).text)
      else pure []
    let _ ← operator ">"
    let _ ← operator "::"
    let (segment, bare) ← readSegment b inExpr
    readLaterSegments b inExpr true
      ⟨.text "<" :: type.text ++ role ++ .text ">" :: .text "::" :: segment, false, false, bare⟩

/-- Calls of the last segment of a path with argument types, and what follows them. -/
def readCalls (budget : Nat) (path : PathText) : Reader PathText := do
  match budget with
  | 0 => failure
  | b + 1 =>
    if path.bareEnd && (← look startsCall) then
      let _ ← eatOperator "::"
      let (arguments, goesOn) ← readCallArguments b
      let called : PathText := ⟨path.text ++ arguments, false, false, false⟩
      if goesOn then readCalls b (← readLaterSegments b false false called)
      else return called
    else return path

/-- A path. -/
def readPath (budget : Nat) (inExpr : Bool) : Reader PathText := do
  match budget with
  | 0 => failure
  | b + 1 =>
    let root ← optionalOperator "::"
    let (segment, bare) ← readSegment b inExpr
    readLaterSegments b inExpr false ⟨root ++ segment, root.isEmpty, bare, bare⟩

/-- The later segments of a path; after a self type even before a parenthesis. -/
def readLaterSegments (budget : Nat) (inExpr selfTyped : Bool) (path : PathText) :
    Reader PathText := do
  match budget with
  | 0 => failure
  | b + 1 =>
    if ← look fun ts => startsOperator "::" ts
        && (selfTyped || !startsGroup .parenthesis (ts.drop 2)) then
      let colons ← operator "::"
      let (segment, bare) ← readSegment b inExpr
      readLaterSegments b inExpr selfTyped
        ⟨path.text ++ colons ++ segment, false, path.plain && bare, bare⟩
    else return path

/-- A segment of a path, and whether it has no arguments.  In an expression arguments need colons
before them. -/
def readSegment (budget : Nat) (inExpr : Bool) : Reader (List Printed × Bool) := do
  match budget with
  | 0 => failure
  | b + 1 =>
    if ← look (startsAnyKeyword ["super", "self", "crate", "try"]) then
      return ([.text (← anyWord)], true)
    require fun ts => startsName ts || startsKeyword "Self" ts
    let word ← anyWord
    let direct ← look fun ts => !inExpr && startsOperator "<" ts && !startsOperator "<=" ts
    let colons ← look fun ts => startsOperator "::" ts && startsOperator "<" (ts.drop 2)
    if direct || colons then
      let front ← optionalOperator "::"
      return (.text word :: front ++ (← readGenericArguments b), false)
    return ([.text word], true)

/-- Arguments in angles. -/
def readGenericArguments (budget : Nat) : Reader (List Printed) := do
  match budget with
  | 0 => failure
  | b + 1 =>
    let _ ← operator "<"
    let args ← commaList (startsOperator ">") (readGenericArgument b)
    let _ ← operator ">"
    return .text "<" :: printReordered (·.1) (·.2) args ++ [.text ">"]

/-- An argument in angles: whether it is a lifetime, and the argument. -/
def readGenericArgument (budget : Nat) : Reader (Bool × List Printed) := do
  match budget with
  | 0 => failure
  | b + 1 =>
    if ← look fun ts => startsLifetime ts && !startsOperator "+" (ts.drop 1) then
      return (true, [.text (← lifetime)])
    if ← look fun ts => startsConstant ts || startsGroup .brace ts then
      return (false, ← readConstant b)
    let type ← readType b true
    if type.shape = .path true then
      if ← eatOperator "=" then
        if ← look fun ts => startsConstant ts || startsGroup .brace ts then
          return (false, type.text ++ .text "=" :: (← readConstant b))
        return (false, type.text ++ .text "=" :: (← readType b true).text)
      if ← eatOperator ":" then
        return (false, type.text ++ .text ":" :: (← plusList boundsEnd (readBound b)))
    return (false, type.text)

/-- A constant argument: a literal, a name, or a block. -/
def readConstant (budget : Nat) : Reader (List Printed) := do
  match budget with
  | 0 => failure
  | _ + 1 =>
    if ← look startsConstant then
      let sign ← optionalOperator "-"
      match ← tree with
      | .literal s _ | .word s _ => return sign ++ [.text s]
      | _ => failure
    if ← look startsName then return [.text (← anyWord)]
    return [.group .brace (allApart [] (← group .brace))]

/-- Argument types in parentheses with a result type, and whether a path may go on after them. -/
def readCallArguments (budget : Nat) : Reader (List Printed × Bool) := do
  match budget with
  | 0 => failure
  | b + 1 =>
    let args ← grouped .parenthesis (commaListToEnd (do return (← readType b true).text))
    let (result, goesOn) ← readResult b
    return (.group .parenthesis (printItems args) :: result, goesOn)

/-- A result type, if there is one, and whether a path may go on after it. -/
def readResult (budget : Nat) : Reader (List Printed × Bool) := do
  match budget with
  | 0 => failure
  | b + 1 =>
    if ← eatOperator "->" then
      let type ← readType b false
      return (.text "->" :: type.text, type.shape = .parenthesized)
    return ([], true)

/-- The type of a function. -/
def readFunctionType (budget : Nat) : Reader (List Printed) := do
  match budget with
  | 0 => failure
  | b + 1 =>
    let safety ← optionalKeyword "unsafe"
    let convention ← if ← look (startsKeyword "extern") then
        let word ← keyword "extern"
        let name ← if ← look startsText then literal else pure []
        pure (word ++ name)
      else pure []
    let word ← keyword "fn"
    let args ← grouped .parenthesis (commaListToEnd (readFunctionArgument b))
    let (result, _) ← readResult b
    return safety ++ convention ++ word ++ .group .parenthesis (printItems args) :: result

/-- An argument of a function type: a type, perhaps after a name, or dots for any number of them. -/
def readFunctionArgument (budget : Nat) : Reader (List Printed) := do
  match budget with
  | 0 => failure
  | b + 1 =>
    let attributes ← readAttributes b
    let attributeText := attributes.flatMap (·.text)
    let named ← look fun ts => (startsName ts || startsAnyKeyword ["_", "self"] ts)
      && startsOperator ":" (ts.drop 1) && !startsOperator "::" (ts.drop 1)
    let name ← if named then
        let word ← anyWord
        pure (.text word :: (← operator ":"))
      else pure []
    if ← eatOperator "..." then return attributeText ++ name ++ [.text "..."]
    return attributeText ++ name ++ (← readType b true).text

/-- A generic parameter. -/
def readParameter (budget : Nat) : Reader Parameter := do
  match budget with
  | 0 => failure
  | b + 1 =>
    let attributes := (← readAttributes b).flatMap (·.text)
    let withColon (bounds : List Printed) : List Printed :=
      if bounds.isEmpty then [] else .text ":" :: bounds
    if ← look startsLifetime then
      let name ← lifetime
      let bounds ← if ← eatOperator ":" then
          plusList boundsEnd (do return [Printed.text (← lifetime)])
        else pure []
      return ⟨.lifetime, attributes, name, withColon bounds, []⟩
    else if ← look startsName then
      let name ← anyWord
      let bounds ← if ← eatOperator ":" then
          plusList (fun ts => boundsEnd ts || startsOperator "=" ts) (readBound b)
        else pure []
      let default ← if ← eatOperator "=" then pure (.text "=" :: (← readType b true).text)
        else pure []
      return ⟨.type, attributes, name, withColon bounds, default⟩
    else if ← look (startsKeyword "const") then
      let _ ← keyword "const"
      let name ← name
      let colon ← operator ":"
      let type ← readType b true
      let default ← if ← eatOperator "=" then pure (.text "=" :: (← readConstant b)) else pure []
      return ⟨.const, attributes, name, colon ++ type.text, default⟩
    else
      let _ ← keyword "_"
      return ⟨.type, attributes, "_", [], []⟩

/-- The attributes that come next. -/
def readAttributes (budget : Nat) : Reader (List ItemAttribute) := do
  match budget with
  | 0 => failure
  | b + 1 =>
    if ← look (startsOperator "#") then
      let start ← place
      let _ ← operator "#"
      let a ← grouped .bracket (readAttribute b start)
      return a :: (← readAttributes b)
    return []

/-- What stands in the brackets of an attribute. -/
def readAttribute (budget : Nat) (start : Nat) : Reader ItemAttribute := do
  match budget with
  | 0 => failure
  | b + 1 =>
    let (rooted, path, text) ← if ← look (startsKeyword "unsafe") then
        let n ← place
        let word ← anyWord
        pure (false, [(word, n)], [Printed.text word])
      else readPlainPath
    let print (rest : List Printed) : List Printed :=
      [.text "#", .group .bracket (text ++ rest)]
    match ← get with
    | .group d content _ close :: ts =>
      set ts
      return ⟨start, rooted, path, .list content close, print [.group d (allAsIs content)]⟩
    | _ =>
      if ← look fun ts => startsOperator "=" ts && !startsAnyOperator ["==", "=>"] ts then
        let n ← place
        let _ ← operator "="
        let value ← readExpr b
        return ⟨start, rooted, path, .value n, print (.text "=" :: value)⟩
      return ⟨start, rooted, path, .none, print []⟩

/-- An expression: operands with operators between them. -/
def readExpr (budget : Nat) : Reader (List Printed) := do
  match budget with
  | 0 => failure
  | b + 1 =>
    if ← look (startsOperator "..") then
      let op := if ← look (startsOperator "..=") then "..=" else ".."
      let text ← operator op
      if ← look startsOperand then return text ++ (← readExpr b)
      return text
    let first ← readOperand b
    return first ++ (← readLaterOperands b)

/-- The later operands of an expression, each after its operator. -/
def readLaterOperands (budget : Nat) : Reader (List Printed) := do
  match budget with
  | 0 => failure
  | b + 1 =>
    if ← look (startsKeyword "as") then
      let word ← keyword "as"
      let type ← readType b false
      return word ++ type.text ++ (← readLaterOperands b)
    match binaryOperator? (← get) with
    | none => return []
    | some op =>
      let text ← operator op
      if ["..", "..="].contains op && !(← look startsOperand) then return text
      let operand ← readOperand b
      return text ++ operand ++ (← readLaterOperands b)

/-- An operand with the operators before it. -/
def readOperand (budget : Nat) : Reader (List Printed) := do
  match budget with
  | 0 => failure
  | b + 1 =>
    if ← eatOperator "&" then
      let mutable ← optionalKeyword "mut"
      return .text "&" :: mutable ++ (← readOperand b)
    for op in ["*", "!", "-"] do
      if ← eatOperator op then return .text op :: (← readOperand b)
    let atom ← readAtom b
    return atom ++ (← readSuffixes b)

/-- Calls, indices, fields and question marks after an operand. -/
def readSuffixes (budget : Nat) : Reader (List Printed) := do
  match budget with
  | 0 => failure
  | b + 1 =>
    if ← look (startsGroup .parenthesis) then
      let args ← grouped .parenthesis (commaListToEnd (readExpr b))
      return .group .parenthesis (printItems args) :: (← readSuffixes b)
    if ← look (startsGroup .bracket) then
      let index ← grouped .bracket (readExpr b)
      return .group .bracket index :: (← readSuffixes b)
    if ← eatOperator "?" then return .text "?" :: (← readSuffixes b)
    if ← look fun ts => startsOperator "." ts && !startsOperator ".." ts then
      let dot ← operator "."
      match ← tree with
      | .literal s _ => return dot ++ .text s :: (← readSuffixes b)
      | .word s _ =>
        if keywords.contains s && s != "await" then failure
        let generics ← if ← look (fun ts => startsOperator "::" ts
            && startsOperator "<" (ts.drop 2)) then
            let colons ← operator "::"
            let args ← readGenericArguments b
            require (startsGroup .parenthesis)
            pure (colons ++ args)
          else pure []
        return dot ++ .text s :: generics ++ (← readSuffixes b)
      | _ => failure
    return []

/-- An operand without operators. -/
def readAtom (budget : Nat) : Reader (List Printed) := do
  match budget with
  | 0 => failure
  | b + 1 =>
    match ← get with
    | .literal s _ :: ts => set ts; return [.text s]
    | .group .brace content _ _ :: ts => set ts; return [.group .brace (allApart [] content)]
    | .group .parenthesis content _ _ :: ts =>
      set ts
      return [.group .parenthesis (printItems (← within content (commaListToEnd (readExpr b))))]
    | .group .bracket content _ _ :: ts =>
      set ts
      let text ← within content (do
        if ← look List.isEmpty then return []
        let first ← readExpr b
        if ← eatOperator ";" then return first ++ .text ";" :: (← readExpr b)
        if ← eatOperator "," then
          return first ++ .text "," :: printItems (← commaListToEnd (readExpr b))
        return first)
      return [.group .bracket text]
    | _ =>
      if ← look (startsAnyKeyword ["true", "false"]) then return [.text (← anyWord)]
      if ← look (startsAnyKeyword ["unsafe", "loop", "const", "async"]) then
        let word ← anyWord
        return [.text word, .group .brace (allApart [] (← group .brace))]
      if ← look (startsKeyword "match") then
        let word ← keyword "match"
        let subject ← readExpr b
        return word ++ subject ++ [.group .brace (allApart [] (← group .brace))]
      if ← look (startsKeyword "if") then
        let word ← keyword "if"
        let condition ← readExpr b
        let text := word ++ condition ++ [.group .brace (allApart [] (← group .brace))]
        if ← look (startsKeyword "else") then
          let other ← keyword "else"
          require fun ts => startsGroup .brace ts || startsKeyword "if" ts
          return text ++ other ++ (← readAtom b)
        return text
      if ← look (startsOperator "<") then return (← readSelfTyped b true).text
      require startsPath
      let path ← readPath b true
      if path.plain && (← look fun ts => startsOperator "!" ts && !startsOperator "!=" ts) then
        let bang ← operator "!"
        require startsAnyGroup
        return path.text ++ bang ++ [(← tree).asIs]
      return path.text

end

/-- A reader with a budget larger than a row of this size can use. -/
def withBudget (read : Nat → Reader α) : Reader α := do read (16 * (totalSize (← get) + 1))

end Memberwise.Derive
