import Memberwise.Command.Run

/-!
# Main — the program

Arguments and files go in, two streams of text and a status come out; everything between is
`Command.run`.
-/

open Memberwise.Command

/-- Read the file of a path. -/
def readFile (path : String) : IO (Except ReadError String) := do
  try
    let bytes ← IO.FS.readBinFile path
    match String.fromUTF8? bytes with
    | some text => return .ok text
    | none => return .error .notText
  catch e =>
    match e with
    | .noFileOrDirectory .. => return .error .notFound
    | .permissionDenied .. => return .error .permissionDenied
    | e => return .error (.other (toString e))

/-- Read the files of a task, each path once. -/
def readPaths (paths : List String) : IO (List (String × Except ReadError String)) :=
  paths.eraseDups.mapM fun path => do return (path, ← readFile path)

def main (arguments : List String) : IO UInt32 := do
  let paths := match Task.ofArguments arguments with
    | .ok task => task.paths
    | .error _ => []
  let files ← readPaths paths
  let read : FileReader := fun path => (files.lookup path).getD (.error .notFound)
  let stderr ← IO.getStderr
  let outcome := run read (← stderr.isTty) arguments
  (← IO.getStdout).putStr outcome.out
  stderr.putStr outcome.err
  return outcome.status.toUInt32
