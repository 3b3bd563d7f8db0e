import Wiring.Dialect.Basic

/-!
Options of the command line. Arguments are files and options in any order. An option has
a long name after two dashes or a letter after one, and several letters may share a dash.
The value of an option stands behind an equals sign, directly behind its letter, or in
the next argument, where it must not look like an option itself. After a lone pair of
dashes there are only files.
-/

namespace Wiring.CommandLine

inductive Setting where
  | manifest
  | dialect
deriving DecidableEq

inductive Flag where
  | verbose
  | help
deriving DecidableEq

inductive Switch where
  | setting (setting : Setting)
  | flag (flag : Flag)
deriving DecidableEq

namespace Switch

def all : List Switch := [.setting .manifest, .setting .dialect, .flag .verbose, .flag .help]

/-- The long name, which follows two dashes. -/
def name : Switch → String
  | .setting .manifest => "manifest"
  | .setting .dialect => "dialect"
  | .flag .verbose => "verbose"
  | .flag .help => "help"

/-- The letter, which follows one dash. -/
def letter : Switch → Char
  | .setting .manifest => 'm'
  | .setting .dialect => 'd'
  | .flag .verbose => 'v'
  | .flag .help => 'h'

def ofName? (name : List Char) : Option Switch := all.find? fun s => s.name.toList == name

def ofLetter? (letter : Char) : Option Switch := all.find? fun s => s.letter == letter

end Switch

structure Options where
  manifest : Option String
  dialect : Option Dialect
  verbose : Bool
  files : List String
deriving DecidableEq, Inhabited

inductive UsageError where
  | unknown (argument : String)
  | missingValue (setting : Setting)
  | unwantedValue (flag : Flag) (value : String)
  | invalidValue (setting : Setting) (value : String)
  | repeated (switch : Switch)
  | emptyFile
deriving DecidableEq

inductive Refusal where
  /-- A description of the options is asked for, brief or in full. -/
  | help (full : Bool)
  | usage (error : UsageError)
deriving DecidableEq

namespace UsageError

def switchText (s : Switch) : String := "--" ++ s.name

def message : UsageError → String
  | .unknown argument => "unexpected argument '" ++ argument ++ "' found"
  | .missingValue setting =>
    "a value is required for '" ++ switchText (.setting setting) ++ "' but none was supplied"
  | .unwantedValue flag value =>
    "unexpected value '" ++ value ++ "' for '" ++ switchText (.flag flag) ++ "' found"
  | .invalidValue setting value =>
    "invalid value '" ++ value ++ "' for '" ++ switchText (.setting setting) ++ "'"
  | .repeated switch =>
    "the argument '" ++ switchText switch ++ "' cannot be used multiple times"
  | .emptyFile => "a value is required for '[FILES]...' but none was supplied"

end UsageError

/-- Arguments that have been read so far. -/
structure Progress where
  options : Options
  /-- The option whose value is to come. -/
  pending : Option Setting
  /-- Whether only files are to come. -/
  onlyFiles : Bool
deriving Inhabited

namespace Progress

def start : Progress := ⟨⟨none, none, false, []⟩, none, false⟩

def refuse (error : UsageError) : Except Refusal Progress := .error (.usage error)

def addFile (progress : Progress) (path : String) : Except Refusal Progress :=
  if path.isEmpty then refuse .emptyFile
  else
    let options := progress.options
    .ok { progress with options := { options with files := options.files ++ [path] } }

/-- Turns an option on. A description of the options is in full if it is asked for by
the long name. -/
def turnOn (progress : Progress) (full : Bool) : Flag → Except Refusal Progress
  | .help => .error (.help full)
  | .verbose =>
    if progress.options.verbose then refuse (.repeated (.flag .verbose))
    else .ok { progress with options := { progress.options with verbose := true } }

def setValue (progress : Progress) (setting : Setting) (value : String) :
    Except Refusal Progress :=
  let options := progress.options
  match setting with
  | .manifest =>
    if value.isEmpty then refuse (.missingValue .manifest)
    else if options.manifest.isSome then refuse (.repeated (.setting .manifest))
    else .ok { progress with options := { options with manifest := some value }, pending := none }
  | .dialect =>
    match Dialect.ofName? value with
    | none => refuse (.invalidValue .dialect value)
    | some dialect =>
      if options.dialect.isSome then refuse (.repeated (.setting .dialect))
      else
        .ok { progress with options := { options with dialect := some dialect }, pending := none }

def readLong (progress : Progress) (text : List Char) : Except Refusal Progress :=
  let name := text.takeWhile (· ≠ '=')
  match Switch.ofName? name, text.drop name.length with
  | none, _ => refuse (.unknown ("--" ++ String.ofList name))
  | some (.setting setting), _ :: value => progress.setValue setting (String.ofList value)
  | some (.setting setting), [] => .ok { progress with pending := some setting }
  | some (.flag flag), _ :: value => refuse (.unwantedValue flag (String.ofList value))
  | some (.flag flag), [] => progress.turnOn true flag

/-- Reads the letters after a dash. What follows the letter of an option with a value is
that value. -/
def readLetters (progress : Progress) : List Char → Except Refusal Progress
  | [] => .ok progress
  | letter :: rest =>
    match Switch.ofLetter? letter with
    | none => refuse (.unknown (String.ofList ['-', letter]))
    | some (.setting setting) =>
      match rest with
      | [] => .ok { progress with pending := some setting }
      | '=' :: value => progress.setValue setting (String.ofList value)
      | value => progress.setValue setting (String.ofList value)
    | some (.flag flag) =>
      match progress.turnOn false flag with
      | .ok progress => progress.readLetters rest
      | .error refusal => .error refusal

/-- Nothing but a value can follow an option that waits for one. -/
def settled (progress : Progress) : Except Refusal Progress :=
  match progress.pending with
  | none => .ok progress
  | some setting => refuse (.missingValue setting)

/-- Reads one argument. A lone dash is a value or a file. -/
def readArgument (progress : Progress) (argument : String) : Except Refusal Progress :=
  if progress.onlyFiles then progress.addFile argument
  else
    match argument.toList with
    | ['-', '-'] => do
      let progress ← progress.settled
      return { progress with onlyFiles := true }
    | '-' :: '-' :: text => do
      let progress ← progress.settled
      progress.readLong text
    | '-' :: letter :: letters => do
      let progress ← progress.settled
      progress.readLetters (letter :: letters)
    | _ =>
      match progress.pending with
      | some setting => progress.setValue setting argument
      | none => progress.addFile argument

end Progress

def Options.parse (arguments : List String) : Except Refusal Options := do
  let progress ← arguments.foldlM Progress.readArgument Progress.start
  let progress ← progress.settled
  return progress.options

end Wiring.CommandLine
