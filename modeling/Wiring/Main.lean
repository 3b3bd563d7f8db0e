import Wiring.CommandLine.Outcome

/-!
The command. It reads the files that its arguments lead to and prints the outcome.
-/

namespace Wiring

/-- Why a file cannot be read, as far as the system tells. A directory is told apart from
a path through a file by the details. -/
def fileError : IO.Error → FileError
  | .noFileOrDirectory .. => .notFound
  | .inappropriateType _ _ details =>
    if details.toLower.startsWith "is a" then .isADirectory else .notADirectory
  | _ => .other

/-- The text of a file, or why it has none. -/
def readText (path : String) : IO (Except FileError String) := do
  try
    let bytes ← IO.FS.readBinFile path
    match String.fromUTF8? bytes with
    | some text => return .ok text
    | none => return .error .invalidData
  catch e => return .error (fileError e)

def readTexts (paths : List String) : IO (Entries (Except FileError String)) :=
  paths.mapM fun path => do
    let text ← readText path
    return (path, text)

def filesOf (texts : Entries (Except FileError String)) : Files := fun path =>
  (Entries.find? path texts).getD (.error .notFound)

/-- The files that options lead to. A manifest is read before the files it lists. -/
def gather (options : CommandLine.Options) : IO Files := do
  let manifest ← readTexts options.manifest.toList
  let texts ← readTexts (options.paths (filesOf manifest))
  return filesOf (manifest ++ texts)

/-- The outcome of the command with some arguments. -/
def answer (arguments : List String) : IO CommandLine.Outcome :=
  match CommandLine.Options.parse arguments with
  | .ok options => do
    let files ← gather options
    return options.outcome files
  | .error refusal => return refusal.outcome

end Wiring

def main (arguments : List String) : IO UInt32 := do
  let outcome ← Wiring.answer arguments
  for line in outcome.report do
    IO.eprintln line
  IO.print outcome.output
  return outcome.code.toUInt32
