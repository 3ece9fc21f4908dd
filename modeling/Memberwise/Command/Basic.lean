import Memberwise.Command.Options

/-!
# Command/Basic — what the tool is asked to do

The first argument names a command, the others are its own.  Without arguments the tool shows its
help.  A command that lacks what it needs is a usage error.
-/

namespace Memberwise.Command

/-- The two commands that expand files. -/
inductive Verb where
  /-- Print the result. -/
  | expand
  /-- Only report what is wrong. -/
  | check
  deriving DecidableEq, Repr

/-- The word for a command that expands files. -/
def Verb.render : Verb → String
  | expand => "expand"
  | check => "check"

/-- What the tool is asked to do. -/
inductive Task where
  | expansion (verb : Verb) (options : Options) (paths : List String)
  /-- Show the declarations of a file. -/
  | parse (path : String)
  /-- Show the tokens of a file. -/
  | lex (path : String)
  | explain (code : String)
  | help
  | version
  deriving Repr

/-- Why arguments ask for nothing that can be done. -/
inductive UsageError where
  | options (error : OptionError)
  /-- An expansion of no files. -/
  | noFiles (verb : Verb)
  | noParsePath
  | noLexPath
  | noCode
  | unknownCommand (word : String)
  deriving Repr

/-- The expansion that arguments ask for. -/
def expansionTask (verb : Verb) (arguments : List String) : Except UsageError Task :=
  match Options.ofArguments arguments with
  | .error e => .error (.options e)
  | .ok (options, paths) =>
    if paths.isEmpty then .error (.noFiles verb) else .ok (.expansion verb options paths)

/-- The task that a command makes of its first argument; the others do not count. -/
def firstArgumentTask (make : String → Task) (missing : UsageError) :
    List String → Except UsageError Task
  | [] => .error missing
  | argument :: _ => .ok (make argument)

/-- What the tool is asked to do by its arguments. -/
def Task.ofArguments : List String → Except UsageError Task
  | [] => .ok .help
  | command :: arguments =>
    match command with
    | "expand" => expansionTask .expand arguments
    | "check" => expansionTask .check arguments
    | "parse" => firstArgumentTask .parse .noParsePath arguments
    | "lex" => firstArgumentTask .lex .noLexPath arguments
    | "help" | "--help" | "-h" => .ok .help
    | "version" | "--version" | "-v" => .ok .version
    | "--explain" | "explain" => firstArgumentTask .explain .noCode arguments
    | _ => .error (.unknownCommand command)

/-- The files a task reads, in the order it reads them. -/
def Task.paths : Task → List String
  | expansion _ _ paths => paths
  | parse path | lex path => [path]
  | explain _ | help | version => []

end Memberwise.Command
