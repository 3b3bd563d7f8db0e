import Wiring.Xml.Token
import Wiring.Xml.Tree

/-!
Documents: tags are nested, prefixes are replaced by namespaces, and references by
characters. A document has exactly one root element, with nothing but comments,
instructions and white space around it.
-/

namespace Wiring.Xml

def xmlNamespace : String := "http://www.w3.org/XML/1998/namespace"

/-- The namespace of namespace declarations, which must not be declared. -/
def declarationNamespace : String := "http://www.w3.org/2000/xmlns/"

/-- Namespaces by prefix, the nearest declaration first; the default one has the empty
prefix. -/
abbrev Bindings := List (String × String)

def Bindings.find? (bindings : Bindings) (qualifier : String) : Option String :=
  (List.find? (fun b => b.1 == qualifier) bindings).map Prod.snd

/-- The namespace declarations among attributes with decoded values, and the other
attributes. -/
def splitDeclarations : List (RawName × String) →
    Option (Bindings × List (RawName × String))
  | [] => some ([], [])
  | (name, value) :: attributes => do
    let (bindings, others) ← splitDeclarations attributes
    if name.qualifier = "xmlns" then
      if value = declarationNamespace then none
      else if (name.localName = "xml") ≠ (value = xmlNamespace) then none
      else if value = xmlNamespace then return (bindings, others)
      else if bindings.any (fun b => b.1 == name.localName) then none
      else return ((name.localName, value) :: bindings, others)
    else if name.localName = "xmlns" then
      if value = xmlNamespace ∨ value = declarationNamespace then none
      else return (("", value) :: bindings, others)
    else return (bindings, (name, value) :: others)

def elementName? (bindings : Bindings) (name : RawName) : Option Name :=
  match bindings.find? name.qualifier with
  | some uri => some ⟨some uri, name.localName⟩
  | none => if name.qualifier.isEmpty then some ⟨none, name.localName⟩ else none

/-- The expanded name of an attribute, to which the default namespace does not apply. -/
def attributeName? (bindings : Bindings) (name : RawName) : Option Name :=
  if name.qualifier = "xml" then some ⟨some xmlNamespace, name.localName⟩
  else if name.qualifier.isEmpty then some ⟨none, name.localName⟩
  else (bindings.find? name.qualifier).map fun uri => ⟨some uri, name.localName⟩

/-- The attributes of an element; none may be given twice. -/
def expandAttributes? (bindings : Bindings) :
    List (RawName × String) → Option (List Attribute)
  | [] => some []
  | (name, value) :: attributes => do
    let name ← attributeName? bindings name
    let others ← expandAttributes? bindings attributes
    if others.any (fun a => a.name == name) then none else return ⟨name, value⟩ :: others

/-- An element that is open, with the children it has so far. -/
structure OpenElement where
  raw : RawName
  name : Name
  attributes : List Attribute
  bindings : Bindings
  children : List Node

namespace OpenElement

/-- The element of a start tag inside some bindings. -/
def ofTag? (outer : Bindings) (raw : RawName) (attributes : List (RawName × List Char)) :
    Option OpenElement := do
  if raw.qualifier = "xmlns" then none
  else
    let decoded ← attributes.mapM fun (name, chars) => do
      let value ← decodeValue chars
      return (name, String.ofList value)
    let (declared, others) ← splitDeclarations decoded
    let bindings := declared ++ outer
    let name ← elementName? bindings raw
    let attributes ← expandAttributes? bindings others
    return { raw, name, attributes, bindings, children := [] }

def toNode (element : OpenElement) : Node :=
  .element element.name element.attributes element.children

def addChild (element : OpenElement) (node : Node) : OpenElement :=
  { element with children := element.children ++ [node] }

end OpenElement

/-- Whether a token may stand outside the root element. -/
def isMiscellaneous : Token → Bool
  | .comment _ => true
  | .instruction .. => true
  | .text chars => chars.all isSpace
  | _ => false

/-- The root element of a document, from the rest of its tokens. The open elements are
given innermost first, and `above` holds those around the innermost one. -/
def nest? (element : OpenElement) (above : List OpenElement) : List Token → Option Node
  | [] => none
  | .start raw attributes isEmpty :: tokens => do
    let inner ← OpenElement.ofTag? element.bindings raw attributes
    if isEmpty then nest? (element.addChild inner.toNode) above tokens
    else nest? inner (element :: above) tokens
  | .close raw :: tokens =>
    if raw ≠ element.raw then none
    else
      match above with
      | [] => if tokens.all isMiscellaneous then some element.toNode else none
      | outer :: above => nest? (outer.addChild element.toNode) above tokens
  | .text chars :: tokens => do
    let content ← decodeText chars
    nest? (element.addChild (.text (String.ofList content))) above tokens
  | .section chars :: tokens =>
    nest? (element.addChild (.text (String.ofList (decodeSection chars)))) above tokens
  | .comment chars :: tokens =>
    nest? (element.addChild (.comment (String.ofList chars))) above tokens
  | .instruction target content :: tokens =>
    nest? (element.addChild (.instruction (String.ofList target) (String.ofList content)))
      above tokens

/-- The root element of a document, from all of its tokens. -/
def rootOf? : List Token → Option Node
  | [] => none
  | .start raw attributes isEmpty :: tokens => do
    let root ← OpenElement.ofTag? [] raw attributes
    if isEmpty then
      if tokens.all isMiscellaneous then some root.toNode else none
    else nest? root [] tokens
  | token :: tokens => if isMiscellaneous token then rootOf? tokens else none

/-- The root element of a document, if the text is one. -/
def parse? (s : String) : Option Node := do
  let tokens ← tokens? s
  rootOf? tokens

end Wiring.Xml
