/-!
Trees of XML documents. Names are expanded: prefixes are replaced by the namespaces they
stand for. Text holds decoded characters, and a CDATA section is text.
-/

namespace Wiring.Xml

/-- A name with its namespace, if it is in one. -/
structure Name where
  uri : Option String
  localName : String
deriving DecidableEq, Inhabited

structure Attribute where
  name : Name
  value : String
deriving DecidableEq, Inhabited

inductive Node where
  | element (name : Name) (attributes : List Attribute) (children : List Node)
  | text (content : String)
  | comment (content : String)
  | instruction (target content : String)
deriving Inhabited

/-- The value of the attribute of a name that is in no namespace. -/
def attribute? (name : String) (attributes : List Attribute) : Option String :=
  (attributes.find? fun a => a.name == ⟨none, name⟩).map Attribute.value

namespace Node

def isElement : Node → Bool
  | .element .. => true
  | _ => false

/-- The expanded name of an element; other nodes have an empty one. -/
def name : Node → Name
  | .element name .. => name
  | _ => ⟨none, ""⟩

def attributes : Node → List Attribute
  | .element _ attributes _ => attributes
  | _ => []

def children : Node → List Node
  | .element _ _ children => children
  | _ => []

/-- The value of an attribute of an element. -/
def attribute? (name : String) (node : Node) : Option String :=
  Xml.attribute? name node.attributes

/-- Whether a node is an element of a name in a namespace. -/
def isNamed (uri localName : String) : Node → Bool
  | .element name _ _ => name == ⟨some uri, localName⟩
  | _ => false

/-- The characters of a text node; other nodes have none. -/
def content : Node → String
  | .text content => content
  | _ => ""

end Node

/-- The text that stands directly among some nodes, across comments. -/
def ownText (nodes : List Node) : String := String.join (nodes.map Node.content)

theorem ownText_cons (node : Node) (nodes : List Node) :
    ownText (node :: nodes) = node.content ++ ownText nodes := by
  simp [ownText, String.join_cons]

def elements (nodes : List Node) : List Node := nodes.filter Node.isElement

/-- The first element of a name among some nodes. -/
def child? (uri localName : String) (nodes : List Node) : Option Node :=
  nodes.find? fun n => n.isNamed uri localName

end Wiring.Xml
