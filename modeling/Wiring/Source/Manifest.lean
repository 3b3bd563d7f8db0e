import Wiring.Source.Selection
import Wiring.Toml.Document

/-!
Manifests. A manifest is a configuration text that lists sources in the order in which
they are read, each with its path and perhaps its dialect. Relative paths start from the
directory of the manifest.
-/

namespace Wiring

structure ManifestEntry where
  path : String
  dialect : Option Dialect
deriving DecidableEq

/-- The sources of a manifest and the directory from which their paths start. -/
structure Manifest where
  baseDir : String
  sources : List ManifestEntry
deriving DecidableEq

inductive ManifestError where
  | io (cause : FileError)
  | malformed
deriving DecidableEq

def ManifestError.message : ManifestError → String
  | .io cause => "Failed to read manifest file: " ++ cause.name
  | .malformed => "Failed to parse manifest TOML: <parser>"

namespace ManifestEntry

/-- Whether a value is an array or a table with nothing in it. -/
def isEmptyContainer : Toml.Value → Bool
  | .array [] => true
  | .table _ [] => true
  | _ => false

/-- The dialect that a value names. It is a text, or a table whose first key is the name
and has nothing under it. A table in braces may have no second key. -/
def dialect? (inBraces : Bool) : Toml.Value → Option Dialect
  | .text name => Dialect.ofName? name
  | .table kind ((name, value) :: rest) =>
    if isEmptyContainer value && ((!inBraces && kind ≠ .inline) || rest.isEmpty) then
      Dialect.ofName? name
    else none
  | _ => none

def path? : Toml.Value → Option String
  | .text path => some path
  | _ => none

/-- The entry with a path and perhaps a dialect. -/
def ofValues? (inBraces : Bool) (path : Toml.Value) (dialect : Option Toml.Value) :
    Option ManifestEntry := do
  let path ← path? path
  match dialect with
  | none => return ⟨path, none⟩
  | some value =>
    let dialect ← dialect? inBraces value
    return ⟨path, some dialect⟩

/-- The entry that a table describes. It has no other keys. -/
def ofTable? (inBraces : Bool) (table : Toml.Table) : Option ManifestEntry :=
  if (Entries.keys table).all fun key => key == "path" || key == "dialect" then do
    let path ← Entries.find? "path" table
    ofValues? inBraces path (Entries.find? "dialect" table)
  else none

/-- The entry that a value describes: a table, or an array with the path and the dialect
at its front. -/
def ofValue? : Toml.Value → Option ManifestEntry
  | .table _ table => ofTable? true table
  | .array [] => none
  | .array [path] => ofValues? true path none
  | .array (path :: dialect :: _) => ofValues? true path (some dialect)
  | _ => none

end ManifestEntry

namespace Manifest

def entries? : Toml.Value → Option (List ManifestEntry)
  | .array items => items.mapM ManifestEntry.ofValue?
  | .tables tables => tables.mapM fun table => ManifestEntry.ofTable? false table
  | _ => none

/-- The manifest that a text describes. Its paths start from the working directory. A
text without a list of sources has none. -/
def parse? (text : String) : Option Manifest := do
  let table ← Toml.parse? text
  match Entries.find? "source" table with
  | none => return ⟨".", []⟩
  | some sources =>
    let entries ← entries? sources
    return ⟨".", entries⟩

/-- The same sources, with paths that start from another directory. -/
def withBaseDir (manifest : Manifest) (baseDir : String) : Manifest := { manifest with baseDir }

def directoryOf (path : String) : String :=
  match Path.parent? path with
  | none => "."
  | some directory => if directory.isEmpty then "." else directory

def load (files : Files) (path : String) : Except ManifestError Manifest :=
  match files path with
  | .error cause => .error (.io cause)
  | .ok text =>
    match parse? text with
    | none => .error .malformed
    | some manifest => .ok (manifest.withBaseDir (directoryOf path))

/-- The sources of a manifest with their declared dialects. -/
def resolvedSources (manifest : Manifest) : List (Source × Option Dialect) :=
  manifest.sources.map fun entry =>
    (.file (Path.join manifest.baseDir entry.path), entry.dialect)

/-- Reads the definitions of all sources of a manifest, in order. -/
def read (files : Files) (manifest : Manifest) : Reading (List ObjectDefinition) := do
  Traced.record (.readingManifest manifest.sources.length manifest.baseDir)
  readSources files manifest.resolvedSources

end Manifest

end Wiring
