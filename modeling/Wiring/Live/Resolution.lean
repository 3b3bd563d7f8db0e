import Wiring.Definition.Basic
import Wiring.Live.Value

/-!
Resolution turns a definition into a live value. Scalars pass through, references and
inline objects are fetched by id, and collections are rebuilt element by element in
their own shape. The first failing lookup ends the resolution. `ValueDefinition.targets`
lists the ids that are looked up, in order.
-/

namespace Wiring.ValueDefinition

mutual

def resolve (registry : Registry) : ValueDefinition → Lookups Value
  | .scalar _ value => pure (Value.ofScalar value)
  | .reference _ target => do
    let object ← registry.fetch target
    return .object object
  | .inner _ definition => do
    let object ← registry.fetch definition.id
    return .object object
  | .mapping _ entries => do
    let values ← resolveEntries registry entries
    return .map values
  | .sequence _ shape items => do
    let values ← resolveItems registry items
    return Value.ofItems shape values
termination_by structural d => d

def resolveItems (registry : Registry) : List ValueDefinition → Lookups (List Value)
  | [] => pure []
  | item :: items => do
    let value ← item.resolve registry
    let values ← resolveItems registry items
    return value :: values
termination_by structural items => items

def resolveEntries (registry : Registry) :
    List (String × ValueDefinition) → Lookups (List (String × Value))
  | [] => pure []
  | (key, entry) :: entries => do
    let value ← entry.resolve registry
    let values ← resolveEntries registry entries
    return (key, value) :: values
termination_by structural entries => entries

end

mutual

/-- The ids that a value refers to, in the order of the text, without looking into
inline definitions. -/
def targets : ValueDefinition → List String
  | .scalar _ _ => []
  | .reference _ target => [target]
  | .inner _ definition => [definition.id]
  | .mapping _ entries => targetsOfEntries entries
  | .sequence _ _ items => targetsOfItems items
termination_by structural d => d

def targetsOfItems : List ValueDefinition → List String
  | [] => []
  | item :: items => item.targets ++ targetsOfItems items
termination_by structural items => items

def targetsOfEntries : List (String × ValueDefinition) → List String
  | [] => []
  | (_, entry) :: entries => entry.targets ++ targetsOfEntries entries
termination_by structural entries => entries

end

end Wiring.ValueDefinition
