import Wiring.Declaration.Basic
import Wiring.Yaml.Value

/-!
Structured text as declarations. A mapping is a reference, a collection with its shape
named, an inline declaration, or else a plain dictionary; which of them it is, its keys
tell.
-/

namespace Wiring.StructuredText

open Yaml (Mapping)

/-- The scalar of a value that is not compound. -/
def scalar? : Yaml.Value → Option Scalar
  | .null => some .null
  | .bool b => some (.bool b)
  | .number n => some (Scalar.ofText n.text)
  | .string s => some (Scalar.ofText s)
  | _ => none

/-- Whether a flag is set, as a truth value or as a text. -/
def isSet : Option Yaml.Value → Bool
  | some (.bool b) => b
  | some (.string s) => Text.equalsIgnoringCase s "true"
  | _ => false

/-- An attribute that should be a text. -/
def textAttribute : Option Yaml.Value → TextAttribute
  | none => .absent
  | some v =>
    match v.asText? with
    | some text => .given text
    | none => .unreadable

def scopeToken (v : Yaml.Value) : String := v.keyText?.getD v.describe

/-- The content of a reference: its target is a text, or stands under `object`. -/
def reference (target : Yaml.Value) : Content :=
  let text := match target with
    | .mapping entries => (Mapping.find? "object" entries).bind Yaml.Value.asText?
    | v => v.asText?
  match text with
  | some target => .reference target
  | none => .nothing

/-- An item of a collection. It is reported as such if nothing can be made of it. -/
def item : Content → Content
  | .unusable complaints => .unusable (complaints ++ [.unhandledElement])
  | content => content

def isDeclaration (entries : Mapping) : Bool :=
  (Mapping.find? "object" entries).isSome || (Mapping.find? "class" entries).isSome

/-- The first of some types that has content. -/
def firstShorthand : List (Builtin × Option Content) → Shorthand
  | [] => .absent
  | (type, some content) :: _ => .present type content
  | (_, none) :: types => firstShorthand types

/-- A declaration with the attributes that some entries give, and given parts. -/
def declarationOf (entries : Mapping) (shorthand : Shorthand)
    (arguments : List WrittenArgument) (properties : List WrittenProperty) : Declaration where
  explicitId := (Mapping.find? "object" entries).bind Yaml.Value.keyText?
  typeName := textAttribute (Mapping.find? "class" entries)
  scope := (Mapping.find? "scope" entries).map scopeToken
  lazyInit := isSet (Mapping.find? "lazy-init" entries)
  isAbstract := isSet (Mapping.find? "abstract" entries)
  parent := textAttribute (Mapping.find? "parent" entries)
  shorthand := shorthand
  element := none
  arguments := arguments
  properties := properties

mutual

/-- The content that a value stands for. -/
def content : Yaml.Value → Content
  | .mapping entries =>
    match Mapping.find? "ref" entries with
    | some target => reference target
    | none =>
      let shaped (shape : Shape) (key : String) : Option Content :=
        (itemsUnder key entries).map (.sequence shape)
      (shaped .tuple "tuple" <|> shaped .set "set" <|> shaped .frozenSet "frozenset"
        <|> shaped .list "list" <|> (entriesUnder "dict" entries).map Content.mapping
        <|> (if isDeclaration entries then
              some (Content.inline (declarationOf entries
                (firstShorthand
                  (Builtin.all.map fun type => (type, contentUnder type.name entries)))
                (arguments entries) (properties entries)))
            else none)).getD (.mapping (writtenEntries entries))
  | .sequence items => .sequence .list (contents items)
  | .tagged tag _ => .unusable [.taggedValue (Yaml.tagText tag)]
  | v =>
    match scalar? v with
    | some value => .scalar value
    | none => .nothing
termination_by structural v => v

/-- The contents of the items of a collection. -/
def contents : List Yaml.Value → List Content
  | [] => []
  | v :: vs => item (content v) :: contents vs
termination_by structural vs => vs

/-- The items of the sequence under a key. -/
def itemsUnder (key : String) : List (Yaml.Value × Yaml.Value) → Option (List Content)
  | [] => none
  | (k, .sequence items) :: entries =>
    if k.equals (.string key) then some (contents items) else itemsUnder key entries
  | _ :: entries => itemsUnder key entries
termination_by structural entries => entries

/-- The entries of the mapping under a key. -/
def entriesUnder (key : String) : List (Yaml.Value × Yaml.Value) → Option (List WrittenEntry)
  | [] => none
  | (k, .mapping inner) :: entries =>
    if k.equals (.string key) then some (writtenEntries inner) else entriesUnder key entries
  | _ :: entries => entriesUnder key entries
termination_by structural entries => entries

def contentUnder (key : String) : List (Yaml.Value × Yaml.Value) → Option Content
  | [] => none
  | (k, v) :: entries =>
    if k.equals (.string key) then some (content v) else contentUnder key entries
termination_by structural entries => entries

def writtenEntries : List (Yaml.Value × Yaml.Value) → List WrittenEntry
  | [] => []
  | (k, v) :: entries =>
    let entry := match k.keyText? with
      | some key => WrittenEntry.keyed key (content v)
      | none => .keyless .compoundKey
    entry :: writtenEntries entries
termination_by structural entries => entries

/-- The positional arguments of a sequence. An empty item leaves its place open. -/
def positional : List Yaml.Value → List WrittenArgument
  | [] => []
  | .null :: vs => .positional .nothing :: positional vs
  | v :: vs => .positional (content v) :: positional vs
termination_by structural vs => vs

def named : List (Yaml.Value × Yaml.Value) → List WrittenArgument
  | [] => []
  | (k, v) :: entries =>
    let argument := match k.keyText? with
      | some name => WrittenArgument.named name (content v)
      | none => .ignored "constructor-args"
    argument :: named entries
termination_by structural entries => entries

/-- The arguments of a declaration with some entries. -/
def arguments : List (Yaml.Value × Yaml.Value) → List WrittenArgument
  | [] => []
  | (k, v) :: entries =>
    if k.equals (.string "constructor-args") then
      match v with
      | .sequence items => positional items
      | .mapping inner => named inner
      | _ => [.ignored "constructor-args"]
    else arguments entries
termination_by structural entries => entries

def namedProperties : List (Yaml.Value × Yaml.Value) → List WrittenProperty
  | [] => []
  | (k, v) :: entries =>
    let property := match k.keyText? with
      | some name => WrittenProperty.named name (content v)
      | none => .ignored "properties"
    property :: namedProperties entries
termination_by structural entries => entries

/-- The properties of a declaration with some entries. -/
def properties : List (Yaml.Value × Yaml.Value) → List WrittenProperty
  | [] => []
  | (k, v) :: entries =>
    if k.equals (.string "properties") then
      match v with
      | .mapping inner => namedProperties inner
      | _ => [.ignored "properties"]
    else properties entries
termination_by structural entries => entries

end

def declaration (entries : Mapping) : Declaration :=
  declarationOf entries
    (firstShorthand (Builtin.all.map fun type => (type, contentUnder type.name entries)))
    (arguments entries) (properties entries)

/-- A mapping at the top level of a document. -/
def topLevel (entries : Mapping) : TopLevel :=
  match Mapping.find? "object" entries with
  | some id => .declared (id.keyText?.getD "") false (declaration entries)
  | none => .unidentified

/-- What stands at the top level of a document. -/
def document (objects : List Mapping) : List TopLevel := objects.map topLevel

end Wiring.StructuredText
