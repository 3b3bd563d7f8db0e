import Wiring.Definition.Shape
import Wiring.Dialect.Basic

/-!
Vocabularies of the markup dialects that declare objects. The dialects share one
grammar and differ in a few names, and in whether they have templates and shorthands.
-/

namespace Wiring

/-- What an element that stands for a value means. -/
inductive Tag where
  | reference
  | value
  | props
  | sequence (shape : Shape)
  | mapping
  | object
deriving DecidableEq

/-- The names in which markup dialects differ. -/
structure Vocabulary where
  dialect : Dialect
  root : String
  /-- The element of a declaration written inline. -/
  object : String
  /-- The attribute of a reference that names its target. -/
  target : String
  mapping : String
  hasTemplates : Bool
  hasShorthands : Bool

namespace Vocabulary

def objects : Vocabulary where
  dialect := .objects
  root := "objects"
  object := "object"
  target := "object"
  mapping := "dict"
  hasTemplates := true
  hasShorthands := true

def beans : Vocabulary where
  dialect := .springBeans
  root := "beans"
  object := "bean"
  target := "bean"
  mapping := "map"
  hasTemplates := false
  hasShorthands := false

def tag? (v : Vocabulary) (name : String) : Option Tag :=
  if name = "ref" then some .reference
  else if name = "value" then some .value
  else if name = "props" then some .props
  else if name = "list" then some (.sequence .list)
  else if name = "tuple" then some (.sequence .tuple)
  else if name = "set" then some (.sequence .set)
  else if name = "frozenset" then some (.sequence .frozenSet)
  else if name = v.mapping then some .mapping
  else if name = v.object then some .object
  else none

end Vocabulary

end Wiring
