import Memberwise.Diagnostic.Terminal
import Memberwise.Expansion.Registry
import Memberwise.Record.ExclusionRules

/-!
# Command/Options — the arguments of an expansion

An argument is a flag, a flag with a value after an equals sign, or the path of a file.  What each
argument means does not depend on the others; flags take effect in the order they are given, so a
later one can undo an earlier one.  The first argument that means nothing is an error.
-/

namespace Memberwise.Command

open Diagnostic (ColorMode)

/-- What is printed for a file. -/
inductive EmitMode where
  /-- The whole text with the extensions in it. -/
  | source
  | extensions
  deriving DecidableEq, Repr, Inhabited

/-- The word for what is printed. -/
def EmitMode.render : EmitMode → String
  | source => "source"
  | extensions => "extensions"

/-- Everything an expansion needs besides the files. -/
structure Options where
  emit : EmitMode
  color : ColorMode
  /-- Whether files may be expanded side by side; the results are the same. -/
  parallel : Bool
  rules : ExclusionRules
  registry : Registry
  deriving DecidableEq, Repr, Inhabited

/-- The options when no argument says otherwise. -/
def Options.standard : Options := ⟨.source, .auto, true, .standard, .standard⟩

/-- Why an argument means nothing. -/
inductive OptionError where
  | invalidEmit (value : String)
  | invalidColor (value : String)
  /-- A flag whose name is missing. -/
  | missingName (flag : String)
  | unknown (argument : String)
  deriving DecidableEq, Repr

/-- The wording of why an argument means nothing. -/
def OptionError.message : OptionError → String
  | invalidEmit value => s!"invalid --emit value '{value}' (expected source or extensions)"
  | invalidColor value => s!"invalid --color value '{value}' (expected auto, always, or never)"
  | missingName flag => s!"{flag} needs a name"
  | unknown argument => s!"unknown option '{argument}'"

/-- What an argument means. -/
inductive Argument where
  | emit (mode : EmitMode)
  | color (mode : ColorMode)
  | wrapper (name : String)
  | noDefaultWrappers
  | skipMarker (name : String)
  | viewMarker (name : String)
  | noViewMarker
  | alias (name : String)
  | noParallel
  | file (path : String)
  deriving DecidableEq, Repr

namespace Argument

/-- The value of a flag in an argument, if the argument is that flag with a value. -/
def value? (flag argument : String) : Option String :=
  ((flag ++ "=").toList.isPrefixOf? argument.toList).map String.ofList

/-- A name given to a flag. -/
def named (flag : String) (make : String → Argument) (name : String) :
    Except OptionError Argument :=
  if name.isEmpty then .error (.missingName flag) else .ok (make name)

/-- What is printed, by its word. -/
def emitMode (word : String) : Except OptionError Argument :=
  match word with
  | "source" => .ok (.emit .source)
  | "extensions" => .ok (.emit .extensions)
  | _ => .error (.invalidEmit word)

/-- When colours are used, by its word. -/
def colorMode (word : String) : Except OptionError Argument :=
  match word with
  | "auto" => .ok (.color .auto)
  | "always" => .ok (.color .always)
  | "never" => .ok (.color .never)
  | _ => .error (.invalidColor word)

/-- The flags that take a value, and what is made of the value. -/
def valueFlags : List (String × (String → Except OptionError Argument)) :=
  [("--emit", emitMode), ("--color", colorMode), ("--wrapper", named "--wrapper" .wrapper),
    ("--skip-marker", named "--skip-marker" .skipMarker),
    ("--view-marker", named "--view-marker" .viewMarker), ("--alias", named "--alias" .alias)]

/-- The flags without a value. -/
def plainFlags : List (String × Argument) :=
  [("--no-default-wrappers", .noDefaultWrappers), ("--no-view-marker", .noViewMarker),
    ("--no-parallel", .noParallel)]

/-- Read an argument. -/
def read (argument : String) : Except OptionError Argument :=
  match valueFlags.findSome? fun f => (value? f.1 argument).map f.2 with
  | some result => result
  | none =>
    match plainFlags.lookup argument with
    | some a => .ok a
    | none =>
      if argument.toList.head? = some '-' then .error (.unknown argument)
      else .ok (.file argument)

/-- Read arguments; the first that means nothing is the error. -/
def readAll : List String → Except OptionError (List Argument)
  | [] => .ok []
  | s :: rest =>
    match read s with
    | .error e => .error e
    | .ok a => (readAll rest).map (a :: ·)

/-- The path of a file argument. -/
def path? : Argument → Option String
  | file path => some path
  | _ => none

end Argument

namespace Options

/-- The options after one more argument. -/
def apply (o : Options) : Argument → Options
  | .emit mode => { o with emit := mode }
  | .color mode => { o with color := mode }
  | .wrapper name => { o with rules := o.rules.addWrapper name }
  | .noDefaultWrappers => { o with rules := o.rules.clearWrappers }
  | .skipMarker name => { o with rules.skipMarker := name }
  | .viewMarker name => { o with rules.viewMarker := some name }
  | .noViewMarker => { o with rules.viewMarker := none }
  | .alias name => { o with registry := o.registry.insert name .equatable }
  | .noParallel => { o with parallel := false }
  | .file _ => o

/-- The options and the files that arguments ask for. -/
def ofArguments (arguments : List String) : Except OptionError (Options × List String) :=
  (Argument.readAll arguments).map fun as =>
    (as.foldl apply standard, as.filterMap Argument.path?)

end Options

end Memberwise.Command
