import Wiring.CommandLine.Help
import Wiring.Definition.Display
import Wiring.Source.Manifest

/-!
What the command line answers. It prints all definitions that are asked for, those of
the manifest before those of the files, or else nothing.
-/

namespace Wiring.CommandLine

/-- Why the definitions that are asked for cannot be printed. -/
inductive Failure where
  | noSources
  | manifest (path : String) (cause : ManifestError)
  | reading (cause : ReadError)
deriving DecidableEq

def Failure.message : Failure → String
  | .noSources => "Error: no sources given (pass FILES or --manifest)"
  | .manifest path cause => "Error loading manifest '" ++ path ++ "': " ++ cause.message
  | .reading cause => "Error: " ++ cause.message

namespace Options

/-- The definitions of the manifest, if one is given. -/
def readManifest (files : Files) (options : Options) :
    Traced Event Failure (List ObjectDefinition) :=
  match options.manifest with
  | none => pure []
  | some path => do
    let manifest ← Traced.ofExcept ((Manifest.load files path).mapError (Failure.manifest path))
    (manifest.read files).mapError .reading

/-- The definitions that are asked for. The dialect is that of the files alone. -/
def read (files : Files) (options : Options) : Traced Event Failure (List ObjectDefinition) :=
  if options.manifest.isNone && options.files.isEmpty then Traced.fail .noSources
  else do
    let listed ← options.readManifest files
    let given ← (readFiles files none options.dialect options.files).mapError .reading
    return listed ++ given

/-- The paths of the files that are read, besides the manifest itself. -/
def paths (files : Files) (options : Options) : List String :=
  let listed := match options.manifest with
    | none => []
    | some path =>
      match Manifest.load files path with
      | .error _ => []
      | .ok manifest => manifest.resolvedSources.filterMap fun source => source.1.path?
  listed ++ options.files

end Options

/-- The exit code, what is printed, and what is reported aside. -/
structure Outcome where
  code : Nat
  output : String
  report : List String
deriving DecidableEq

/-- Lines of text, each with its line break. -/
def lines (texts : List String) : String := String.join (texts.map fun text => text ++ "\n")

def eventText (e : Event) : String :=
  e.level.name ++ ": " ++ e.message
    ++ String.join (e.fields.map fun field => " " ++ field.1 ++ "=" ++ field.2)

/-- The log, of which all but warnings is left out unless it is asked for. -/
def logText (verbose : Bool) (trace : List Event) : List String :=
  (trace.filter fun e => verbose || e.level = .warn).map eventText

/-- What is answered to arguments that are not acted upon. -/
def Refusal.outcome : Refusal → Outcome
  | .help false => ⟨0, lines Help.brief, []⟩
  | .help true => ⟨0, lines Help.full, []⟩
  | .usage error => ⟨2, "", ["error: " ++ error.message]⟩

/-- What is answered to options. -/
def Options.outcome (files : Files) (options : Options) : Outcome :=
  let reading := options.read files
  let log := logText options.verbose reading.trace
  match reading.answer with
  | .ok definitions => ⟨0, lines (definitions.map ObjectDefinition.display), log⟩
  | .error failure => ⟨1, "", log ++ [failure.message]⟩

def outcome (files : Files) (arguments : List String) : Outcome :=
  match Options.parse arguments with
  | .ok options => options.outcome files
  | .error refusal => refusal.outcome

end Wiring.CommandLine
