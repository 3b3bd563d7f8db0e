import Wiring.Dialect.Markup
import Wiring.Dialect.StructuredText

/-!
Portable declarations: what both dialects with templates can say, free of how either
says it, and the two ways to write it down. In object markup every value is an element,
in structured text every value but a text is a mapping whose key tells its kind.
-/

namespace Wiring.Portable

mutual

/-- A value that both dialects can write. -/
inductive Value where
  | text (content : String)
  | reference (target : String)
  | sequence (shape : Shape) (items : List Value)
  | dictionary (entries : List (String × Value))
  /-- A declaration in the place of a value. It has to tell its type. -/
  | inline (id : Option String) (typeName : String) (body : Body)

/-- Constructor arguments are given by position, some places left open, or by name. -/
inductive Arguments where
  | positional (slots : List (Option Value))
  | named (entries : List (String × Value))

/-- A declaration but for its id and its type. -/
structure Body where
  scope : Option String
  lazyInit : Option Bool
  isAbstract : Option Bool
  parent : Option String
  arguments : Arguments
  properties : List (String × Value)

end

/-- A declaration at the top level of a document. -/
structure Declaration where
  id : String
  typeName : Option String
  body : Body

/-! Object markup. -/

section Markup

open Xml (Node Attribute)

/-- The attributes that are given. -/
def attributes (fields : List (String × Option String)) : List Attribute :=
  fields.filterMap fun field => field.2.map fun text => ⟨⟨none, field.1⟩, text⟩

def flagText : Bool → String
  | true => "true"
  | false => "false"

/-- The element name of a collection. -/
def shapeTag : Shape → String
  | .list => "list"
  | .tuple => "tuple"
  | .set => "set"
  | .frozenSet => "frozenset"

variable (uri : String)

def element (name : String) (fields : List (String × Option String)) (children : List Node) :
    Node := .element ⟨some uri, name⟩ (attributes fields) children

/-- The text node of a text, unless it is empty. -/
def textNodes (content : String) : List Node :=
  if content.isEmpty then [] else [.text content]

/-- The attributes of a declaration. -/
def declarationFields (id typeName scope : Option String) (lazyInit isAbstract : Option Bool)
    (parent : Option String) : List (String × Option String) :=
  [("id", id), ("class", typeName), ("scope", scope), ("lazy-init", lazyInit.map flagText),
    ("abstract", isAbstract.map flagText), ("parent", parent)]

mutual

/-- The element of a value. -/
def Value.node : Value → Node
  | .text content => element uri "value" [] (textNodes content)
  | .reference target => element uri "ref" [("object", some target)] []
  | .sequence shape items => element uri (shapeTag shape) [] (itemNodes items)
  | .dictionary entries => element uri "dict" [] (entryNodes entries)
  | .inline id typeName body => body.node id (some typeName)
termination_by structural v => v

/-- The element of a declaration. -/
def Body.node (id typeName : Option String) : Body → Node
  | ⟨scope, lazyInit, isAbstract, parent, arguments, properties⟩ =>
    element uri "object" (declarationFields id typeName scope lazyInit isAbstract parent)
      (arguments.nodes ++ namedNodes "property" properties)
termination_by structural body => body

def itemNodes : List Value → List Node
  | [] => []
  | item :: items => item.node :: itemNodes items
termination_by structural items => items

def entryNodes : List (String × Value) → List Node
  | [] => []
  | (key, value) :: entries =>
    element uri "entry" [("key", some key)] [value.node] :: entryNodes entries
termination_by structural entries => entries

/-- The elements of some constructor arguments. -/
def Arguments.nodes : Arguments → List Node
  | .positional slots => slotNodes slots
  | .named entries => namedNodes "constructor-arg" entries
termination_by structural arguments => arguments

def slotNodes : List (Option Value) → List Node
  | [] => []
  | none :: slots => element uri "constructor-arg" [] [] :: slotNodes slots
  | some value :: slots => element uri "constructor-arg" [] [value.node] :: slotNodes slots
termination_by structural slots => slots

/-- Elements of one name that each name the value in them. -/
def namedNodes (tag : String) : List (String × Value) → List Node
  | [] => []
  | (name, value) :: entries =>
    element uri tag [("name", some name)] [value.node] :: namedNodes tag entries
termination_by structural entries => entries

end

/-- The root element of a document. -/
def root (declarations : List Declaration) : Node :=
  element uri "objects" [] (declarations.map fun d => d.body.node uri (some d.id) d.typeName)

end Markup

/-! Structured text. -/

section StructuredText

/-- The entries that are given. -/
def entries (fields : List (String × Option Yaml.Value)) : Yaml.Mapping :=
  fields.filterMap fun field => field.2.map fun value => (.string field.1, value)

mutual

/-- A value in structured text. -/
def Value.structured : Value → Yaml.Value
  | .text content => .string content
  | .reference target => .mapping [(.string "ref", .string target)]
  | .sequence shape items => .mapping [(.string (shapeTag shape), .sequence (structuredItems items))]
  | .dictionary entries => .mapping [(.string "dict", .mapping (structuredEntries entries))]
  | .inline id typeName body => .mapping (body.structured id (some typeName))
termination_by structural v => v

/-- The mapping of a declaration. -/
def Body.structured (id typeName : Option String) : Body → Yaml.Mapping
  | ⟨scope, lazyInit, isAbstract, parent, arguments, properties⟩ =>
    entries [("object", id.map .string), ("class", typeName.map .string),
      ("scope", scope.map .string), ("lazy-init", lazyInit.map .bool),
      ("abstract", isAbstract.map .bool), ("parent", parent.map .string),
      ("constructor-args", some arguments.structured),
      ("properties", some (.mapping (structuredEntries properties)))]
termination_by structural body => body

def structuredItems : List Value → List Yaml.Value
  | [] => []
  | item :: items => item.structured :: structuredItems items
termination_by structural items => items

def structuredEntries : List (String × Value) → Yaml.Mapping
  | [] => []
  | (key, value) :: entries => (.string key, value.structured) :: structuredEntries entries
termination_by structural entries => entries

def Arguments.structured : Arguments → Yaml.Value
  | .positional slots => .sequence (structuredSlots slots)
  | .named entries => .mapping (structuredEntries entries)
termination_by structural arguments => arguments

def structuredSlots : List (Option Value) → List Yaml.Value
  | [] => []
  | none :: slots => .null :: structuredSlots slots
  | some value :: slots => value.structured :: structuredSlots slots
termination_by structural slots => slots

end

/-- The mappings of a document. -/
def mappings (declarations : List Declaration) : List Yaml.Mapping :=
  declarations.map fun d => d.body.structured (some d.id) d.typeName

end StructuredText

end Wiring.Portable
