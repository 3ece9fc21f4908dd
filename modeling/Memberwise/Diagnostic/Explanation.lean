import Memberwise.Diagnostic.Code

/-!
# Diagnostic/Explanation — what a code means, at length

Each code is explained in a short text with a heading, a few sentences and, where it helps, an
example.
-/

namespace Memberwise.Diagnostic.Code

/-- The lines of the explanation of a code. -/
def explanationLines : Code → List String
  | invalidCharacter => [
      "# E0001: Invalid character",
      "",
      "The lexer found a character that cannot start any token of the",
      "declaration language.",
      "",
      "```swift",
      "struct Price \x7b",
      "    let amount: Int ¤",
      "\x7d",
      "```",
      "",
      "Remove the character, or move it into a string literal or comment."]
  | unterminatedString => [
      "# E0002: Unterminated string literal",
      "",
      "A string literal was opened but never closed. Single-line strings end at",
      "the next unescaped `\"` on the same line; multi-line strings end at `\"\"\"`.",
      "",
      "```swift",
      "let title = \"Hello",
      "```",
      "",
      "Close the literal with a matching quote."]
  | unterminatedComment => [
      "# E0003: Unterminated block comment",
      "",
      "A `/*` comment was not closed before the end of the file. Block comments",
      "nest, so every `/*` needs its own `*/`."]
  | unexpectedToken => [
      "# E1001: Unexpected token",
      "",
      "The parser expected something else at this position, for example a `\x7b` to",
      "open a member block or a `:` before a type annotation.",
      "",
      "```swift",
      "struct Point",
      "    let x: Int",
      "\x7d",
      "```",
      "",
      "Add the missing token (`struct Point \x7b`)."]
  | unclosedDelimiter => [
      "# E1002: Unclosed delimiter",
      "",
      "A `(`, `[`, or `\x7b` was opened but the file ended before the matching",
      "closing delimiter."]
  | expectedIdentifier => [
      "# E1003: Expected identifier",
      "",
      "A declaration keyword such as `struct`, `func`, or `let` must be followed",
      "by a name.",
      "",
      "```swift",
      "struct \x7b",
      "\x7d",
      "```"]
  | expectedDeclaration => [
      "# E1004: Expected declaration",
      "",
      "Only declarations may appear at the top level of a file or inside a member",
      "block. Statements and expressions are skipped until the next declaration."]
  | unsupportedDeclaration => [
      "# E2001: Unsupported declaration kind",
      "",
      "`@Equatable` synthesizes equality for record types (structs) only. It was",
      "attached to a class, enum, protocol, function, or other declaration.",
      "",
      "```swift",
      "@Equatable",
      "class Session \x7b",
      "    let id: String",
      "\x7d",
      "```",
      "",
      "No code is generated and the declaration is left unchanged. Declare the",
      "type as a `struct`, or write the `Equatable` conformance by hand."]
  | malformedBinding => [
      "# E2002: Malformed member binding",
      "",
      "A property is bound with a pattern that has no single name, so it can't be",
      "compared field by field:",
      "",
      "```swift",
      "@Equatable",
      "struct Segment \x7b",
      "    let (start, end): (Int, Int)",
      "\x7d",
      "```",
      "",
      "The member is left out of the generated `==`. Split it into named",
      "properties to have it compared."]
  | assemblyFailure => [
      "# E9001: Failed to build extension",
      "",
      "The synthesized `extension` did not assemble into a valid declaration. This",
      "is an internal error; the expansion contributes no code and compilation",
      "continues. Please report the input that triggered it."]

/-- The explanation of a code. -/
def explanation (c : Code) : String := String.join (c.explanationLines.map (· ++ "\n"))

end Memberwise.Diagnostic.Code
