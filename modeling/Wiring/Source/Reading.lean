import Wiring.Declaration.Elaboration
import Wiring.Dialect.Components
import Wiring.Dialect.Markup
import Wiring.Dialect.Root
import Wiring.Dialect.StructuredText
import Wiring.Source.Basic
import Wiring.Yaml.Composition

/-!
Reading sources of one dialect. Each source is read on its own: the templates of one are
unknown to the others. The first source that cannot be read ends the reading.
-/

namespace Wiring.Dialect

/-- The definitions in a root element in the markup of a vocabulary. -/
def readRoot (v : Vocabulary) (location : String) (root : Xml.Node) :
    Reading (List ObjectDefinition) := do
  let uri ← Traced.ofExcept (Markup.rootNamespace location v.root v.dialect.namespaces root)
  definitionsOf location (Markup.document v uri root)

/-- The definitions of a document in the markup of a vocabulary. -/
def readMarkup (v : Vocabulary) (location text : String) : Reading (List ObjectDefinition) := do
  let root ← Traced.ofExcept (Markup.parseRoot location text)
  readRoot v location root

/-- The definitions of a document in component markup. -/
def readComponents (location text : String) : Reading (List ObjectDefinition) := do
  let root ← Traced.ofExcept (Markup.parseRoot location text)
  let _ ← Traced.ofExcept (Markup.rootNamespace location "components" legacy.namespaces root)
  Components.document location root

/-- The definitions that the mappings of a document in structured text declare. -/
def readMappings (location : String) (mappings : List Yaml.Mapping) :
    Reading (List ObjectDefinition) :=
  definitionsOf location (StructuredText.document mappings)

/-- The definitions of a document in structured text. -/
def readStructuredText (location text : String) : Reading (List ObjectDefinition) :=
  match Yaml.parseObjects? text with
  | some mappings => readMappings location mappings
  | none => Traced.fail (.malformed location .unparsable)

/-- The definitions of a document in a dialect. -/
def readText : Dialect → String → String → Reading (List ObjectDefinition)
  | .legacy => readComponents
  | .objects => readMarkup Vocabulary.objects
  | .springBeans => readMarkup Vocabulary.beans
  | .yaml => readStructuredText

/-- The definitions of a source in a dialect. -/
def read (files : Files) (dialect : Dialect) (source : Source) :
    Reading (List ObjectDefinition) := do
  Traced.record (.parsing dialect source.location)
  let text ← Traced.ofExcept (source.load files)
  dialect.readText source.location text

/-- The definitions of several sources in a dialect, in order. -/
def readAll (files : Files) (dialect : Dialect) : List Source → Reading (List ObjectDefinition)
  | [] => pure []
  | source :: sources => do
    let definitions ← dialect.read files source
    let rest ← dialect.readAll files sources
    return definitions ++ rest

end Wiring.Dialect
