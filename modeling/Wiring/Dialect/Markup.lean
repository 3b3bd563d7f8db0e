import Wiring.Declaration.Basic
import Wiring.Dialect.Vocabulary
import Wiring.Xml.Tree

/-!
Object markup and bean markup as declarations. An element counts only in the namespace
of the root element, and only elements, attributes and the text directly in an element
matter, so comments and instructions change nothing.
-/

namespace Wiring.Markup

open Xml (Node Attribute)

/-- Whether an attribute that is a flag is set. -/
def isSet (flag : Option String) : Bool :=
  flag.any fun text =>
    Text.equalsIgnoringCase (Text.trim text) "true" || Text.trim text == "1"

/-- The content of a reference element. The target is an attribute or the text. -/
def reference (v : Vocabulary) (attributes : List Attribute) (children : List Node) : Content :=
  let text := Text.trim (Xml.ownText children)
  let written := if text.isEmpty then none else some text
  let given := (Xml.attribute? v.target attributes).or (Xml.attribute? "local" attributes)
  match given.or written with
  | some target => .reference target
  | none => .unusable [.targetlessReference]

/-- The entries of an element that maps names to texts. -/
def props (uri : String) (children : List Node) : List WrittenEntry :=
  (children.filter fun n => n.isNamed uri "prop").map fun n =>
    .keyed ((n.attribute? "key").getD "") (Content.ofText (Xml.ownText n.children))

/-- The key of a mapping entry: an attribute, or the text of the value in its first
`key` element. -/
def entryKey? (uri : String) (attributes : List Attribute) (children : List Node) :
    Option String :=
  (Xml.attribute? "key" attributes).or do
    let key ← Xml.child? uri "key" children
    let value ← Xml.child? uri "value" key.children
    return Xml.ownText value.children

/-- The shorthand that an element name is, with the text of the element. -/
def shorthand (v : Vocabulary) (name : String) (children : List Node) : Shorthand :=
  if v.hasShorthands then
    match Builtin.ofName? Builtin.scalars name with
    | some type => .present type (Content.ofText (Xml.ownText children))
    | none => .absent
  else .absent

/-- The content of an element that stands for a value given as an attribute or as
content. -/
def slot (attributes : List Attribute) (content : Option Content) : Content :=
  match Xml.attribute? "ref" attributes with
  | some target => .reference target
  | none =>
    match Xml.attribute? "value" attributes with
    | some text => Content.ofText text
    | none => content.getD .nothing

/-- The declaration of an element, given what its children amount to. -/
def declarationOf (v : Vocabulary) (name : String) (attributes : List Attribute)
    (children : List Node) (arguments : List WrittenArgument)
    (properties : List WrittenProperty) : Declaration where
  explicitId := Xml.attribute? "id" attributes
  typeName := .ofText? (Xml.attribute? "class" attributes)
  scope := Xml.attribute? "scope" attributes
  lazyInit := isSet (Xml.attribute? "lazy-init" attributes)
  isAbstract := isSet (Xml.attribute? "abstract" attributes)
  parent := if v.hasTemplates then .ofText? (Xml.attribute? "parent" attributes) else .absent
  shorthand := shorthand v name children
  element := some name
  arguments := arguments
  properties := properties

mutual

/-- The content that an element stands for. -/
def content (v : Vocabulary) (uri : String) : Node → Content
  | .element name attributes children =>
    if name.uri ≠ some uri then .unusable [.foreignElement name.localName]
    else
      match v.tag? name.localName with
      | some .reference => reference v attributes children
      | some .value =>
        let text := Xml.ownText children
        if Text.isAllBlank text then (firstContent v uri children).getD (Content.ofText text)
        else Content.ofText text
      | some .props => .mapping (props uri children)
      | some (.sequence shape) => .sequence shape (contents v uri children)
      | some .mapping => .mapping (entries v uri children)
      | some .object =>
        .inline (declarationOf v name.localName attributes children
          (arguments v uri children) (properties v uri children))
      | none => .unusable [.unknownElement name.localName]
  | _ => .nothing
termination_by structural node => node

/-- The content of the first element among some nodes. -/
def firstContent (v : Vocabulary) (uri : String) : List Node → Option Content
  | [] => none
  | node :: nodes => if node.isElement then some (content v uri node) else firstContent v uri nodes
termination_by structural nodes => nodes

/-- The contents of the elements among some nodes. -/
def contents (v : Vocabulary) (uri : String) : List Node → List Content
  | [] => []
  | node :: nodes =>
    if node.isElement then content v uri node :: contents v uri nodes else contents v uri nodes
termination_by structural nodes => nodes

/-- The content of the first element in a mapping entry that is not its key. -/
def entryContent (v : Vocabulary) (uri : String) : List Node → Option Content
  | [] => none
  | node :: nodes =>
    if node.isElement && !node.isNamed uri "key" then some (content v uri node)
    else entryContent v uri nodes
termination_by structural nodes => nodes

def entries (v : Vocabulary) (uri : String) : List Node → List WrittenEntry
  | [] => []
  | .element name attributes children :: nodes =>
    let rest := entries v uri nodes
    if name = ⟨some uri, "entry"⟩ then
      let value := (entryContent v uri children).or
        ((Xml.attribute? "value" attributes).map Content.ofText)
      match entryKey? uri attributes children with
      | some key => .keyed key (value.getD .nothing) :: rest
      | none => .keyless .keylessEntry :: rest
    else rest
  | _ :: nodes => entries v uri nodes
termination_by structural nodes => nodes

def arguments (v : Vocabulary) (uri : String) : List Node → List WrittenArgument
  | [] => []
  | .element name attributes children :: nodes =>
    let rest := arguments v uri nodes
    if name = ⟨some uri, "constructor-arg"⟩ then
      let value := slot attributes (firstContent v uri children)
      match Xml.attribute? "name" attributes with
      | some name => .named name value :: rest
      | none => .positional value :: rest
    else rest
  | _ :: nodes => arguments v uri nodes
termination_by structural nodes => nodes

def properties (v : Vocabulary) (uri : String) : List Node → List WrittenProperty
  | [] => []
  | .element name attributes children :: nodes =>
    let rest := properties v uri nodes
    if name = ⟨some uri, "property"⟩ then
      match Xml.attribute? "name" attributes with
      | some name => .named name (slot attributes (firstContent v uri children)) :: rest
      | none => .unnamed :: rest
    else rest
  | _ :: nodes => properties v uri nodes
termination_by structural nodes => nodes

end

/-- An element at the top level of a document. -/
def topLevel (v : Vocabulary) (uri : String) (node : Node) : TopLevel :=
  if node.name.uri ≠ some uri then .foreign node.name.localName
  else
    let id := (node.attribute? "id").getD ""
    .declared id id.isEmpty
      (declarationOf v node.name.localName node.attributes node.children
        (arguments v uri node.children) (properties v uri node.children))

/-- What stands in the root element of a document. -/
def document (v : Vocabulary) (uri : String) (root : Node) : List TopLevel :=
  (Xml.elements root.children).map (topLevel v uri)

end Wiring.Markup
