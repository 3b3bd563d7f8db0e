import Wiring.Template.Arguments

/-!
Drafts: declarations as they stand in a source, before their templates are merged.
-/

namespace Wiring

structure Draft where
  id : String
  factory : Factory
  scope : Scope
  lazyInit : Bool
  isAbstract : Bool
  parent : Option String
  args : Arguments
  /-- The definitions written inline in the declaration, in document order. -/
  inner : List ObjectDefinition

namespace Draft

def ofFactory (id : String) (factory : Factory) : Draft where
  id := id
  factory := factory
  scope := .singleton
  lazyInit := false
  isAbstract := false
  parent := none
  args := Arguments.empty
  inner := []

instance : Inhabited Draft := ⟨ofFactory "" .unspecified⟩

/-- Whether a draft tells what it constructs, or leaves that to a template. -/
def isTyped (draft : Draft) : Bool := draft.factory.isSpecified || draft.parent.isSome

/-- The definition with the attributes of the draft and a given factory and arguments. -/
def build (draft : Draft) (factory : Factory) (args : Arguments) : ObjectDefinition where
  id := draft.id
  factory := factory
  scope := draft.scope
  lazyInit := draft.lazyInit
  isAbstract := draft.isAbstract
  parent := draft.parent
  args := args.positional
  named := args.named
  properties := args.properties

/-- The definition as declared, no template consulted. -/
def declared (draft : Draft) : ObjectDefinition := draft.build draft.factory draft.args

end Draft

end Wiring
