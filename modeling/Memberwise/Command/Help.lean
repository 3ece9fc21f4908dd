/-!
# Command/Help — what the tool says about itself
-/

namespace Memberwise.Command

/-- The name and version of the tool. -/
def versionLine : String := "equatec 0.1.0"

/-- What the options of an expansion do. -/
def optionHelp : List String :=
  ["Options for expand and check:",
    "  --emit=<mode>            source (default) or extensions",
    "  --color=<mode>           auto (default), always, or never",
    "  --wrapper=<name>         Also exclude members with @<name>",
    "  --no-default-wrappers    Clear the built-in wrapper list",
    "  --skip-marker=<name>     Per-member opt-out attribute (default SkipEquatable)",
    "  --view-marker=<name>     Supertype that excludes `body` (default View)",
    "  --no-view-marker         Never exclude `body`",
    "  --alias=<name>           Accept @<name> as @Equatable",
    "  --no-parallel            Expand files one at a time"]

/-- What the tool does. -/
def help : List String :=
  ["equatec: synthesize Equatable conformances for @Equatable structs",
    "",
    "Usage: equatec <command> [options]",
    "",
    "Commands:",
    "  expand <files...>    Print each file with its extensions inserted",
    "  check <files...>     Report diagnostics without printing output",
    "  parse <file>         Show the parsed declaration tree",
    "  lex <file>           Show the token stream",
    "  explain <code>       Explain an error code",
    "  help                 Show this message",
    "  version              Show version information",
    ""]
  ++ optionHelp
  ++ ["",
    "Environment:",
    "  EQUATE_LOG           Tracing filter (e.g. equate_expand=debug)",
    "  EQUATE_LOG_TREE=1    Print spans as an indented tree"]

end Memberwise.Command
