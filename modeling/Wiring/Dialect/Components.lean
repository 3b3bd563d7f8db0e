import Wiring.Declaration.Basic
import Wiring.Dialect.Basic
import Wiring.Expression.Parse
import Wiring.Report.ReadError
import Wiring.Xml.Tree

/-!
Component markup. Components are flat: a property is a reference, a list of references,
or a literal expression. A property with any other expression is reported and skipped.
-/

namespace Wiring.Components

open Xml (Node)

/-- Whether a node is an element of component markup of a name. -/
def isComponentElement (name : String) (node : Node) : Bool :=
  node.isNamed Dialect.legacyNamespace name

/-- The first element of component markup of a name in a node. -/
def child? (name : String) (node : Node) : Option Node :=
  Xml.child? Dialect.legacyNamespace name node.children

/-- The text of an element without the blanks around it. -/
def trimmedText (node : Node) : String := Text.trim (Xml.ownText node.children)

/-- References to some targets, named as the elements of a list. -/
def referenceItems (name : String) (index : Nat) : List String → List ValueDefinition
  | [] => []
  | target :: targets =>
    .reference (Naming.element name Shape.list.label index) target ::
      referenceItems name (index + 1) targets

/-- The value of a property of a name, unless its expression cannot be read. -/
def propertyValue? (name : String) (property : Node) : Option ValueDefinition :=
  match property.attribute? "local" with
  | some target => some (.reference name target)
  | none =>
    match child? "local" property with
    | some reference => some (.reference name (trimmedText reference))
    | none =>
      match child? "list" property with
      | some list =>
        let targets := (list.children.filter (isComponentElement "local")).map trimmedText
        some (.sequence name .list (referenceItems name 0 targets))
      | none =>
        match Expression.parse (trimmedText property) with
        | .ok expression => some (expression.toDefinition name)
        | .error _ => none

def properties (source object : String) : List Node → Reading (List ValueDefinition)
  | [] => pure []
  | property :: rest => do
    let name := (property.attribute? "name").getD ""
    match propertyValue? name property with
    | some value =>
      let values ← properties source object rest
      return value :: values
    | none =>
      Traced.recordAll
        [.unsupportedExpression source name, .skippedProperty source object name]
      properties source object rest

def definition (source : String) (component : Node) : Reading ObjectDefinition := do
  let id := (component.attribute? "id").getD ""
  let scope ← Traced.ofExcept (Scope.ofDeclared source id (component.attribute? "scope"))
  let values ← properties source id (component.children.filter (isComponentElement "property"))
  return { ObjectDefinition.ofFactory id (Factory.ofClass (component.attribute? "class")) with
    scope, properties := values }

def definitions (source : String) : List Node → Reading (List ObjectDefinition)
  | [] => pure []
  | component :: components => do
    let definition ← definition source component
    Traced.record (.parsedObject definition.id)
    let rest ← definitions source components
    return definition :: rest

/-- The definitions in the root element of a document. -/
def document (source : String) (root : Node) : Reading (List ObjectDefinition) :=
  definitions source (root.children.filter (isComponentElement "component"))

end Wiring.Components
