import Wiring.Dialect.Basic

/-!
What is logged while sources are read. Warnings tell of input that is skipped; the rest
follows the course of the reading. Each event has one wording and a list of fields.
-/

namespace Wiring

/-- What is wrong with a written value or entry. It is reported under the name that
the value has, or of the mapping that holds the entry. -/
inductive Complaint where
  | foreignElement (element : String)
  | unknownElement (element : String)
  | targetlessReference
  | taggedValue (tag : String)
  | unhandledElement
  | unhandledEntry
  | keylessEntry
  | compoundKey
deriving DecidableEq

inductive Event where
  | parsing (dialect : Dialect) (source : String)
  | selectedDialect (source : String) (dialect : Dialect)
  | readingManifest (sources : Nat) (baseDir : String)
  | mergingTemplate (object template : String)
  | parsedObject (object : String)
  | parsedInline (object : String)
  | registered (object : String)
  | foreignDeclaration (source element : String)
  | missingId (source : String)
  | untyped (source object : String) (element : Option String)
  | unrecognizedValue (source object property : String)
  | unnamedProperty (source object : String)
  | unreadableAttribute (source object key : String)
  | unsupportedExpression (source property : String)
  | skippedProperty (source object property : String)
  | complaint (reason : Complaint) (value : String)
deriving DecidableEq

inductive Level where
  | debug
  | warn
deriving DecidableEq

def Level.name : Level → String
  | .debug => "debug"
  | .warn => "warn"

namespace Complaint

def message : Complaint → String
  | .foreignElement _ => "element from a foreign namespace"
  | .unknownElement _ => "don't know how to handle element"
  | .targetlessReference => "reference without a target"
  | .taggedValue _ => "tagged values are not supported"
  | .unhandledElement => "don't know how to handle element"
  | .unhandledEntry => "don't know how to handle entry"
  | .keylessEntry => "mapping entry without a key"
  | .compoundKey => "dictionary key is not a scalar"

def fields (value : String) : Complaint → List (String × String)
  | .foreignElement element => [("element", element)]
  | .unknownElement element => [("element", element), ("value", value)]
  | .taggedValue tag => [("value", value), ("tag", tag)]
  | _ => [("value", value)]

end Complaint

namespace Event

/-- The message with which the reading of a source begins. -/
def parsingMessage : Dialect → String
  | .legacy => "parsing legacy components"
  | .objects => "parsing object markup"
  | .springBeans => "parsing bean markup"
  | .yaml => "parsing structured text"

def level : Event → Level
  | .parsing .. => .debug
  | .selectedDialect .. => .debug
  | .readingManifest .. => .debug
  | .mergingTemplate .. => .debug
  | .parsedObject .. => .debug
  | .parsedInline .. => .debug
  | .registered .. => .debug
  | _ => .warn

def message : Event → String
  | .parsing dialect _ => parsingMessage dialect
  | .selectedDialect .. => "selected dialect"
  | .readingManifest .. => "reading manifest"
  | .mergingTemplate .. => "merging template"
  | .parsedObject _ => "parsed object"
  | .parsedInline _ => "parsed inline object"
  | .registered _ => "registered programmatic object"
  | .foreignDeclaration .. => "skipping element from a foreign namespace"
  | .missingId _ => "declaration without an id"
  | .untyped .. => "no matching type found for object"
  | .unrecognizedValue .. => "unrecognized value shape, skipping"
  | .unnamedProperty .. => "property without a name"
  | .unreadableAttribute .. => "ignoring non-string value"
  | .unsupportedExpression .. => "unsupported expression:"
  | .skippedProperty .. => "skipping property"
  | .complaint reason _ => reason.message

def fields : Event → List (String × String)
  | .parsing _ source => [("source", source)]
  | .selectedDialect source dialect => [("source", source), ("dialect", dialect.name)]
  | .readingManifest sources baseDir => [("sources", toString sources), ("base_dir", baseDir)]
  | .mergingTemplate object template => [("object", object), ("template", template)]
  | .parsedObject object => [("object", object)]
  | .parsedInline object => [("object", object)]
  | .registered object => [("object", object)]
  | .foreignDeclaration source element => [("source", source), ("element", element)]
  | .missingId source => [("source", source)]
  | .untyped source object none => [("source", source), ("object", object)]
  | .untyped source object (some element) =>
    [("source", source), ("object", object), ("element", element)]
  | .unrecognizedValue source object property =>
    [("source", source), ("object", object), ("property", property)]
  | .unnamedProperty source object => [("source", source), ("object", object)]
  | .unreadableAttribute source object key =>
    [("source", source), ("object", object), ("key", key)]
  | .unsupportedExpression source property => [("source", source), ("property", property)]
  | .skippedProperty source object property =>
    [("source", source), ("object", object), ("property", property)]
  | .complaint reason value => reason.fields value

end Event

end Wiring
