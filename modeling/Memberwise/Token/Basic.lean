import Memberwise.Span

/-!
# Token/Basic — tokens, and the list of them that a text becomes

A token is a kind and a span; its text is the slice of the source there.  A `TokenList` is the
tokens of a text together with the offset of its end, where the list closes with the one
`endOfFile`.
-/

namespace Memberwise

/-- What a token is. -/
inductive TokenKind where
  /-- A name, between backticks or not, or a `$` followed by name characters. -/
  | ident
  | int
  | float
  /-- A string literal of any kind. -/
  | text
  | structKw
  | classKw
  | enumKw
  | protocolKw
  | extensionKw
  | funcKw
  | initKw
  | deinitKw
  | subscriptKw
  | varKw
  | letKw
  | typealiasKw
  | associatedtypeKw
  | caseKw
  | importKw
  | staticKw
  | whereKw
  | operatorKw
  | returnKw
  | atSign
  | hash
  | backslash
  | leftParen
  | rightParen
  | leftBrace
  | rightBrace
  | leftBracket
  | rightBracket
  | less
  | greater
  | colon
  | semicolon
  | comma
  | dot
  | equal
  | equalEqual
  | andAnd
  | arrow
  | question
  | bang
  | ampersand
  /-- Any other operator character. -/
  | operator
  /-- The end of a line, where declarations and initializers may end too. -/
  | newline
  | endOfFile
  deriving DecidableEq, Repr, Inhabited

namespace TokenKind

/-- What a message calls a token of this kind. -/
def describe : TokenKind → String
  | ident => "identifier"
  | int => "integer literal"
  | float => "float literal"
  | text => "string literal"
  | structKw => "`struct`"
  | classKw => "`class`"
  | enumKw => "`enum`"
  | protocolKw => "`protocol`"
  | extensionKw => "`extension`"
  | funcKw => "`func`"
  | initKw => "`init`"
  | deinitKw => "`deinit`"
  | subscriptKw => "`subscript`"
  | varKw => "`var`"
  | letKw => "`let`"
  | typealiasKw => "`typealias`"
  | associatedtypeKw => "`associatedtype`"
  | caseKw => "`case`"
  | importKw => "`import`"
  | staticKw => "`static`"
  | whereKw => "`where`"
  | operatorKw => "`operator`"
  | returnKw => "`return`"
  | atSign => "`@`"
  | hash => "`#`"
  | backslash => "`\\`"
  | leftParen => "`(`"
  | rightParen => "`)`"
  | leftBrace => "`\x7b`"
  | rightBrace => "`\x7d`"
  | leftBracket => "`[`"
  | rightBracket => "`]`"
  | less => "`<`"
  | greater => "`>`"
  | colon => "`:`"
  | semicolon => "`;`"
  | comma => "`,`"
  | dot => "`.`"
  | equal => "`=`"
  | equalEqual => "`==`"
  | andAnd => "`&&`"
  | arrow => "`->`"
  | question => "`?`"
  | bang => "`!`"
  | ampersand => "`&`"
  | operator => "operator"
  | newline => "newline"
  | endOfFile => "end of file"

/-- The name a token listing gives this kind. -/
def listingName : TokenKind → String
  | ident => "Ident"
  | int => "Int"
  | float => "Float"
  | text => "Str"
  | structKw => "Struct"
  | classKw => "Class"
  | enumKw => "Enum"
  | protocolKw => "Protocol"
  | extensionKw => "Extension"
  | funcKw => "Func"
  | initKw => "Init"
  | deinitKw => "Deinit"
  | subscriptKw => "Subscript"
  | varKw => "Var"
  | letKw => "Let"
  | typealiasKw => "Typealias"
  | associatedtypeKw => "Associatedtype"
  | caseKw => "Case"
  | importKw => "Import"
  | staticKw => "Static"
  | whereKw => "Where"
  | operatorKw => "OperatorKw"
  | returnKw => "Return"
  | atSign => "At"
  | hash => "Hash"
  | backslash => "Backslash"
  | leftParen => "LParen"
  | rightParen => "RParen"
  | leftBrace => "LBrace"
  | rightBrace => "RBrace"
  | leftBracket => "LBracket"
  | rightBracket => "RBracket"
  | less => "Lt"
  | greater => "Gt"
  | colon => "Colon"
  | semicolon => "Semicolon"
  | comma => "Comma"
  | dot => "Dot"
  | equal => "Eq"
  | equalEqual => "EqEq"
  | andAnd => "AndAnd"
  | arrow => "Arrow"
  | question => "Question"
  | bang => "Bang"
  | ampersand => "Amp"
  | operator => "Op"
  | newline => "Newline"
  | endOfFile => "Eof"

/-- Every kind, in the order of the declaration. -/
def all : List TokenKind :=
  [ident, int, float, text, structKw, classKw, enumKw, protocolKw, extensionKw, funcKw, initKw,
    deinitKw, subscriptKw, varKw, letKw, typealiasKw, associatedtypeKw, caseKw, importKw, staticKw,
    whereKw, operatorKw, returnKw, atSign, hash, backslash, leftParen, rightParen, leftBrace,
    rightBrace, leftBracket, rightBracket, less, greater, colon, semicolon, comma, dot, equal,
    equalEqual, andAnd, arrow, question, bang, ampersand, operator, newline, endOfFile]

/-- The kind a token listing gives this name. -/
def ofListingName? (name : String) : Option TokenKind := all.find? (·.listingName == name)

/-- Whether a token of this kind opens a bracketed group. -/
def isOpen : TokenKind → Bool
  | leftParen | leftBrace | leftBracket => true
  | _ => false

/-- Whether a token of this kind closes a bracketed group. -/
def isClose : TokenKind → Bool
  | rightParen | rightBrace | rightBracket => true
  | _ => false

/-- Whether a token of this kind begins a declaration. -/
def isDeclarationKeyword : TokenKind → Bool
  | structKw | classKw | enumKw | protocolKw | extensionKw | funcKw | initKw | deinitKw
  | subscriptKw | varKw | letKw | typealiasKw | associatedtypeKw | caseKw | importKw => true
  | _ => false

/-- No kind both opens and closes a group. -/
theorem isClose_eq_false_of_isOpen {k : TokenKind} (h : k.isOpen = true) : k.isClose = false := by
  cases k <;> first | rfl | cases h

theorem mem_all (k : TokenKind) : k ∈ all := by cases k <;> decide

end TokenKind

/-- A token and where it stands. -/
structure Token where
  kind : TokenKind
  span : Span
  deriving DecidableEq, Repr, Inhabited

/-- The tokens of a text, and the offset of its end. -/
structure TokenList where
  tokens : List Token
  stop : Nat
  deriving DecidableEq, Repr, Inhabited

namespace TokenList

/-- The token that closes every list. -/
def last (ts : TokenList) : Token := ⟨.endOfFile, .point ts.stop⟩

/-- The tokens in order, the closing `endOfFile` included. -/
def toList (ts : TokenList) : List Token := ts.tokens ++ [ts.last]

/-- The number of tokens, the closing `endOfFile` included. -/
def length (ts : TokenList) : Nat := ts.tokens.length + 1

@[simp] theorem length_toList (ts : TokenList) : ts.toList.length = ts.length := by
  simp [toList, length]

end TokenList

end Memberwise
