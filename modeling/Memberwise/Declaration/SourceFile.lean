import Memberwise.Declaration.Head
import Memberwise.Token.Lex

/-!
# Declaration/SourceFile — the declarations of a text

A file, and likewise a member block, is declarations separated by line ends and semicolons.  Reading
never stops at an error: the error is noted and reading goes on after the end of its line, brackets
kept balanced, so one that closes the block around it is left standing (`recoveryLength`).  A block
ends before its closing brace or at the end of the text; a closing brace outside any block is an
error of its own.

Every round takes a token, even where neither a declaration nor recovery took one, and so reading
comes to an end (`declarations` is defined by recursion on the tokens left).
-/

namespace Memberwise

/-- The tokens to pass after an error, up to the end of its line or a bracket that closes what is
around it; `depth` groups have been opened on the way. -/
def recoveryLength : (depth : Nat) → List Token → Nat
  | _, [] => 0
  | depth, t :: ts =>
    if depth = 0 ∧ (t.kind = .newline ∨ t.kind = .semicolon ∨ t.kind.isClose) then 0
    else if t.kind.isOpen then recoveryLength (depth + 1) ts + 1
    else if t.kind.isClose then recoveryLength (depth - 1) ts + 1
    else recoveryLength depth ts + 1

/-- The declarations of a stretch of text, what is wrong with it, and how many tokens it takes. -/
structure Parsed where
  declarations : List Declaration
  errors : List ParseError
  taken : Nat
  deriving Repr

namespace Parsed

/-- Nothing but `n` tokens passed. -/
def nothing (n : Nat) : Parsed := ⟨[], [], n⟩

/-- What one round read, before what is read after it, `n` tokens further on. -/
def preceded (declaration : Option Declaration) (errors : List ParseError) (n : Nat)
    (later : Parsed) : Parsed :=
  ⟨declaration.toList ++ later.declarations, errors ++ later.errors, n + later.taken⟩

end Parsed

/-- What is being read at the level of a block or of the file. -/
def levelConstruct (inBlock : Bool) : Construct := if inBlock then .memberBlock else .sourceFile

/-- The declarations that come next, up to the end, or in a block up to its closing brace. -/
def declarations (inBlock : Bool) (c : Cursor) : Parsed :=
  let before := c.separators
  let c' := c.skip before
  match _h : c'.rest with
  | [] => .nothing before
  | t :: _ =>
    if t.kind = .rightBrace then
      if inBlock then .nothing before
      else
        (declarations inBlock (c.skip (before + 1))).preceded none
          [⟨.strayBrace, t.span, some .sourceFile⟩] (before + 1)
    else
      let o := Parser.head c'
      let resume (declaration : Option Declaration) (errors : List ParseError) (n : Nat) : Parsed :=
        (declarations inBlock (c.skip (before + max 1 n))).preceded declaration errors
          (before + max 1 n)
      let recover (errors : List ParseError) (e : ParseError) (n : Nat) : Parsed :=
        resume none (errors ++ [e.within (levelConstruct inBlock)])
          (n + recoveryLength 0 (c'.skip n).rest)
      match o.result with
      | .error e => recover [] e o.taken
      | .ok .directive => resume none [] o.taken
      | .ok (.complete d) => resume (some d) [] o.taken
      | .ok (.type d) =>
        match _ho : (c'.skip o.taken).rest with
        | [] => recover [] (expectedBlock (c'.skip o.taken)) o.taken
        | opened :: _ =>
          if opened.kind = .leftBrace then
            let block := declarations true (c'.skip (o.taken + 1))
            let n := o.taken + 1 + block.taken
            if (c'.skip n).kind = .rightBrace then
              resume (some { d with
                members := some block.declarations, span := d.span.merge (c'.skip n).span })
                block.errors (n + 1)
            else
              recover block.errors
                ⟨.unclosedBlock opened.span, (c'.skip n).span, some .memberBlock⟩ n
          else recover [] (expectedBlock (c'.skip o.taken)) o.taken
termination_by c.rest.length
decreasing_by
  all_goals
    have h := congrArg List.length _h
    simp only [c', Cursor.length_rest_skip, List.length_cons] at h
    simp only [Cursor.length_rest_skip]
    omega
where
  /-- The error of a type header with no block after it. -/
  expectedBlock (c : Cursor) : ParseError :=
    ⟨.expectedToken .leftBrace c.kind, c.span, some .typeDeclaration⟩

/-- The declarations of a file and what is wrong with it. -/
structure SourceFile where
  declarations : List Declaration
  errors : List ParseError
  deriving Repr

/-- The declarations that the tokens of a source make up. -/
def SourceFile.ofTokens (source : List Char) (tokens : TokenList) : SourceFile :=
  let parsed := Memberwise.declarations false (.start source tokens)
  ⟨parsed.declarations, parsed.errors⟩

/-- A source text read as tokens and then as declarations. -/
structure Reading where
  lexed : Lexed
  file : SourceFile

/-- Read a source text. -/
def Reading.ofSource (source : String) : Reading :=
  let lexed := lex source
  ⟨lexed, .ofTokens source.toList lexed.tokens⟩

/-- Everything wrong with a text before expansion: characters first, then declarations. -/
def Reading.diagnostics (r : Reading) : List Diagnostic :=
  r.lexed.errors.map LexError.toDiagnostic ++ r.file.errors.map ParseError.toDiagnostic

end Memberwise
