import Wiring.Definition.Basic
import Wiring.Entries

/-!
The arguments and properties of a declaration, and how those of a template go beneath
them: what the declaration gives wins, and the template fills what is left open.
-/

namespace Wiring

/-- Constructor arguments and properties. A positional argument that is `none` is left
open for a template. -/
structure Arguments where
  positional : List (Option ValueDefinition)
  named : Entries ValueDefinition
  properties : List ValueDefinition

namespace Arguments

def empty : Arguments := ⟨[], [], []⟩

instance : Inhabited Arguments := ⟨empty⟩

/-- Fills open slots from those of a template, and appends the slots it has beyond. -/
def fillSlots : List (Option ValueDefinition) → List (Option ValueDefinition) →
    List (Option ValueDefinition)
  | [], inherited => inherited
  | own, [] => own
  | some value :: own, _ :: inherited => some value :: fillSlots own inherited
  | none :: own, slot :: inherited => slot :: fillSlots own inherited

/-- Adds the named arguments that are not given yet. -/
def addNamed (own inherited : Entries ValueDefinition) : Entries ValueDefinition :=
  inherited.foldl (fun entries entry => Entries.putNew entry.1 entry.2 entries) own

/-- Whether there is a property of a name. -/
def hasProperty (properties : List ValueDefinition) (name : String) : Bool :=
  properties.any fun p => p.name == name

/-- Adds a property unless there is one of its name. -/
def addProperty (properties : List ValueDefinition) (p : ValueDefinition) :
    List ValueDefinition :=
  if hasProperty properties p.name then properties else properties ++ [p]

/-- Adds the properties whose names are not present yet. -/
def addProperties (own inherited : List ValueDefinition) : List ValueDefinition :=
  inherited.foldl addProperty own

/-- The arguments with those of a template beneath them. -/
def mergeParent (own parent : Arguments) : Arguments where
  positional := fillSlots own.positional parent.positional
  named := addNamed own.named parent.named
  properties := addProperties own.properties parent.properties

end Arguments

end Wiring
