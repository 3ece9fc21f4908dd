import Memberwise.Command.Basic
import Memberwise.Command.Help
import Memberwise.Command.Listing
import Memberwise.Diagnostic.Explanation
import Memberwise.Diagnostic.Queue
import Memberwise.Expansion.OfSource

/-!
# Command/Run — what the tool prints, and whether it succeeds

A run writes to two channels and ends with a status: zero, or one if the arguments made no sense, a
file could not be read, or a file has an error.  All files are read before anything is done; the
first that cannot be read ends the run.

What is wrong with a file goes through a queue of its own, so that a long list of errors is cut
short and nothing is said twice.
-/

namespace Memberwise.Command

open Diagnostic (Queue QueueConfig Terminal NamedSource)

/-- What a run leaves behind. -/
structure Outcome where
  out : String
  err : String
  status : Nat
  deriving DecidableEq, Repr, Inhabited

namespace Outcome

/-- A run that printed something and succeeded. -/
def printed (out : String) : Outcome := ⟨out, "", 0⟩

/-- A run that failed. -/
def failed (err out : String) : Outcome := ⟨out, err, 1⟩

end Outcome

/-- Why a file cannot be read. -/
inductive ReadError where
  | notFound
  | permissionDenied
  /-- The bytes are not UTF-8. -/
  | notText
  | other (reason : String)
  deriving DecidableEq, Repr

/-- The wording of why the file of a path cannot be read. -/
def ReadError.message (path : String) : ReadError → String
  | notFound => s!"cannot find file '{path}'"
  | permissionDenied => s!"permission denied reading '{path}'"
  | notText => s!"'{path}' contains invalid UTF-8 data"
  | other reason => s!"cannot read '{path}': {reason}"

/-- How paths are read. -/
abbrev FileReader : Type := String → Except ReadError String

/-- A file with its path. -/
structure File where
  path : String
  text : String
  deriving DecidableEq, Repr

/-- The files of paths, or what is wrong with the first that cannot be read. -/
def readFiles (read : FileReader) : List String → Except String (List File)
  | [] => .ok []
  | path :: paths =>
    match read path with
    | .error e => .error (e.message path)
    | .ok text => (readFiles read paths).map (⟨path, text⟩ :: ·)

/-! ## Usage -/

/-- What is printed for arguments that ask for nothing that can be done. -/
def UsageError.outcome : UsageError → Outcome
  | options error => .failed (lines [s!"error: {error.message}"]) ""
  | noFiles verb =>
    .failed (lines [s!"Usage: equatec {verb.render} <file.swift>... [options]", ""])
      (lines optionHelp)
  | noParsePath => .failed (lines ["Usage: equatec parse <file.swift>"]) ""
  | noLexPath => .failed (lines ["Usage: equatec lex <file.swift>"]) ""
  | noCode =>
    .failed (lines ["Usage: equatec explain <ERROR_CODE>", "Example: equatec explain E2001"]) ""
  | unknownCommand word => .failed (lines [s!"Unknown command: {word}", ""]) (lines help)

/-! ## Explaining a code -/

/-- The line of a phase with its codes. -/
def phaseLine (phase : Diagnostic.Phase) : String :=
  "  " ++ String.ofList (phase.render.toList.rightpad 10 ' ') ++ " "
    ++ String.intercalate ", "
      ((Diagnostic.Code.all.filter (·.phase == phase)).map Diagnostic.Code.render)

/-- What is printed for a text that numbers no code. -/
def unknownCode (word : String) : String :=
  lines <| [s!"Unknown error code: {word}", "", "Known codes:"]
    ++ [.lexer, .parser, .expansion, .internal].map phaseLine

/-- The explanation of a code. -/
def explain (word : String) : Outcome :=
  match Diagnostic.Code.parse? word with
  | none => .failed (unknownCode word) ""
  | some code => .printed (lines [code.explanation])

/-! ## Expanding files -/

/-- What is reported about a file. -/
structure Report where
  text : String
  errors : Nat
  warnings : Nat
  deriving DecidableEq, Repr

/-- The queue that the diagnostics of a file go through. -/
def reportQueue (diagnostics : List Diagnostic) : Queue :=
  (Queue.empty .standard).addAll diagnostics

/-- Report the diagnostics of a file. -/
def report (colors : Bool) (file : File) (diagnostics : List Diagnostic) : Report :=
  let queue := reportQueue diagnostics
  let terminal : Terminal := ⟨colors, some (.ofText file.path file.text)⟩
  ⟨terminal.renderAll queue.flush.1, queue.errorCount, queue.warningCount⟩

/-- What a file comes to in an expansion of files. -/
structure FileResult where
  file : File
  expansion : SourceExpansion
  report : Report

/-- Expand a file. -/
def FileResult.ofFile (options : Options) (colors : Bool) (file : File) : FileResult :=
  let expansion := SourceExpansion.ofSource options.registry options.rules file.text
  ⟨file, expansion, Command.report colors file expansion.diagnostics⟩

namespace FileResult

/-- What is printed of a file that is expanded with or without others. -/
def expanded (emit : EmitMode) (several : Bool) (r : FileResult) : String :=
  let text := match emit with
    | .source => r.expansion.output
    | .extensions => r.expansion.extensions
  if several then
    s!"// {r.file.path}\n" ++ text ++ (if text.toList.getLast? = some '\n' then "" else "\n")
  else text

/-- The line for a file that is checked: nothing if it has errors that do not keep it from being
expanded. -/
def checked (r : FileResult) : String :=
  if r.expansion.failedToRead then
    s!"SKIPPED: {r.file.path} (not expanded: syntax errors)\n"
  else if r.report.errors = 0 then
    let n := r.expansion.count
    s!"OK: {r.file.path} ({n} extension" ++ (if n = 1 then "" else "s") ++ ")\n"
  else ""

/-- What is printed of a file. -/
def printed (verb : Verb) (options : Options) (several : Bool) (r : FileResult) : String :=
  match verb with
  | .expand => r.expanded options.emit several
  | .check => r.checked

end FileResult

/-- What a count comes to over several files. -/
def total (count : FileResult → Nat) (results : List FileResult) : Nat :=
  results.foldr (count · + ·) 0

/-- Expand files. -/
def expandFiles (verb : Verb) (options : Options) (toTerminal : Bool) (files : List File) :
    Outcome :=
  let colors := options.color.usesColors toTerminal
  let results := files.map (FileResult.ofFile options colors)
  let errors := total (·.report.errors) results
  let warnings := total (·.report.warnings) results
  let several := decide (1 < files.length)
  ⟨String.join (results.map (·.printed verb options several)),
    String.join (results.map (·.report.text)) ++ Terminal.summary ⟨colors, none⟩ errors warnings,
    if 0 < errors then 1 else 0⟩

/-! ## Running -/

/-- Do a task with the files it reads; a listing is of the one file. -/
def Task.perform (toTerminal : Bool) (files : List File) : Task → Outcome
  | expansion verb options _ => expandFiles verb options toTerminal files
  | parse _ => .printed (String.join (files.map fun f => declarationListing f.path f.text))
  | lex _ => .printed (String.join (files.map fun f => tokenListing f.path f.text))
  | explain word => Command.explain word
  | help => .printed (lines Command.help)
  | version => .printed (lines [versionLine])

/-- Do what arguments ask for. -/
def run (read : FileReader) (toTerminal : Bool) (arguments : List String) : Outcome :=
  match Task.ofArguments arguments with
  | .error e => e.outcome
  | .ok task =>
    match readFiles read task.paths with
    | .error message => .failed (lines [s!"error: {message}"]) ""
    | .ok files => task.perform toTerminal files

end Memberwise.Command
