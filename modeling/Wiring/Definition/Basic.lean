import Wiring.Definition.Factory
import Wiring.Definition.Scalar
import Wiring.Definition.Scope
import Wiring.Definition.Shape

/-!
Definitions of objects and of the values they hold, in no particular dialect. A value
stays a definition until it is resolved against a registry: a reference is just the id
of its target, and an inline object carries its whole definition. Every value has a
name.
-/

namespace Wiring

mutual

/-- A value that is not resolved yet, under its name. -/
inductive ValueDefinition where
  | scalar (name : String) (value : Scalar)
  | reference (name target : String)
  | inner (name : String) (definition : ObjectDefinition)
  | mapping (name : String) (entries : List (String × ValueDefinition))
  | sequence (name : String) (shape : Shape) (items : List ValueDefinition)

/-- The description of one object to be constructed. An argument that is `none` is an
empty slot. -/
structure ObjectDefinition where
  id : String
  factory : Factory
  scope : Scope
  lazyInit : Bool
  isAbstract : Bool
  parent : Option String
  args : List (Option ValueDefinition)
  named : List (String × ValueDefinition)
  properties : List ValueDefinition

end

namespace ValueDefinition

instance : Inhabited ValueDefinition := ⟨.scalar "" .null⟩

def ofText (name text : String) : ValueDefinition := .scalar name (Scalar.ofText text)

def name : ValueDefinition → String
  | .scalar name _ => name
  | .reference name _ => name
  | .inner name _ => name
  | .mapping name _ => name
  | .sequence name _ _ => name

/-- The same value under another name. -/
def rename (newName : String) : ValueDefinition → ValueDefinition
  | .scalar _ value => .scalar newName value
  | .reference _ target => .reference newName target
  | .inner _ definition => .inner newName definition
  | .mapping _ entries => .mapping newName entries
  | .sequence _ shape items => .sequence newName shape items

@[simp] theorem name_rename (newName : String) (d : ValueDefinition) :
    (d.rename newName).name = newName := by
  cases d <;> rfl

end ValueDefinition

namespace ObjectDefinition

def ofFactory (id : String) (factory : Factory) : ObjectDefinition where
  id := id
  factory := factory
  scope := .singleton
  lazyInit := false
  isAbstract := false
  parent := none
  args := []
  named := []
  properties := []

instance : Inhabited ObjectDefinition := ⟨ofFactory "" .unspecified⟩

/-- The first property of a name. -/
def property? (d : ObjectDefinition) (name : String) : Option ValueDefinition :=
  d.properties.find? fun p => p.name == name

end ObjectDefinition

end Wiring
