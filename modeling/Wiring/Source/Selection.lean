import Wiring.Source.Reading

/-!
Reading sources of several dialects. A source without a declared dialect is in that of
its extension, or of the namespace of its root element, or else in structured text.
Dialects are selected for all sources before any is read, and neighbours in the same
dialect are read together.
-/

namespace Wiring

/-- The dialect that the namespace of a root element tells. -/
def Markup.rootDialect (location : String) (root : Xml.Node) : Except ReadError Dialect :=
  match root.name.uri.bind Dialect.ofNamespace? with
  | some dialect => .ok dialect
  | none =>
    .error (.malformed location (.unknownRoot root.name.localName (root.name.uri.getD "")))

namespace Source

/-- Whether the extension of a file is that of structured text. -/
def hasStructuredExtension (source : Source) : Bool :=
  (source.path?.bind Path.extension?).any fun extension =>
    Text.equalsIgnoringCase extension "yaml" || Text.equalsIgnoringCase extension "yml"

/-- The dialect a source is written in. -/
def dialect (files : Files) (source : Source) : Except ReadError Dialect :=
  if source.hasStructuredExtension then .ok .yaml
  else do
    let text ← source.load files
    if (Text.trimStart text).toList.head? = some '<' then
      let root ← Markup.parseRoot source.location text
      Markup.rootDialect source.location root
    else return .yaml

end Source

/-- Selects the dialect of a source, which may be declared. -/
def select (files : Files) (source : Source) (declared : Option Dialect) :
    Reading (Dialect × Source) := do
  let dialect ← match declared with
    | some dialect => pure dialect
    | none => Traced.ofExcept (source.dialect files)
  Traced.record (.selectedDialect source.location dialect)
  return (dialect, source)

/-- Selects the dialects of several sources in order. -/
def selectAll (files : Files) : List (Source × Option Dialect) → Reading (List (Dialect × Source))
  | [] => pure []
  | (source, declared) :: sources => do
    let selected ← select files source declared
    let rest ← selectAll files sources
    return selected :: rest

/-- Puts neighbours of the same dialect together. -/
def groupByDialect : List (Dialect × Source) → List (Dialect × List Source)
  | [] => []
  | (dialect, source) :: rest =>
    match groupByDialect rest with
    | (next, sources) :: groups =>
      if dialect = next then (dialect, source :: sources) :: groups
      else (dialect, [source]) :: (next, sources) :: groups
    | [] => [(dialect, [source])]

/-- The definitions of groups of sources, in order. -/
def readGroups (files : Files) : List (Dialect × List Source) → Reading (List ObjectDefinition)
  | [] => pure []
  | (dialect, sources) :: groups => do
    let definitions ← dialect.readAll files sources
    let rest ← readGroups files groups
    return definitions ++ rest

def readSources (files : Files) (sources : List (Source × Option Dialect)) :
    Reading (List ObjectDefinition) := do
  let selected ← selectAll files sources
  readGroups files (groupByDialect selected)

/-- The definitions of files whose relative paths are taken from a base directory, if one
is given. A declared dialect holds for all of them. -/
def readFiles (files : Files) (baseDir : Option String) (dialect : Option Dialect)
    (paths : List String) : Reading (List ObjectDefinition) :=
  readSources files (paths.map fun path =>
    (.file ((baseDir.map fun base => Path.join base path).getD path), dialect))

end Wiring
