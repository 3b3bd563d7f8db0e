import Wiring.Entries
import Wiring.Traced

/-!
Registries, from which live objects are fetched by id. Every lookup is recorded. A
registry answers a plain lookup and a template lookup separately, because a template
may serve as a parent although it is never handed out itself.
-/

namespace Wiring

/-- A live object, told apart from others by its label. -/
structure Instance where
  label : String
deriving DecidableEq, Inhabited

/-- Why a registry hands out no object. -/
inductive RegistryError where
  | unknownReference (id : String)
  | abstractInstantiation (id : String)
  | factory (id message : String)
deriving DecidableEq

def RegistryError.message : RegistryError → String
  | .unknownReference id => "unknown reference: no object named '" ++ id ++ "'"
  | .abstractInstantiation id => "object '" ++ id ++ "' is abstract and cannot be instantiated"
  | .factory id message => "factory for '" ++ id ++ "' failed: " ++ message

/-- A question put to a registry. -/
inductive Lookup where
  | object (id : String)
  | template (id : String)
deriving DecidableEq

structure Registry where
  object : String → Except RegistryError Instance
  template : String → Except RegistryError Instance

/-- A computation that asks a registry. -/
abbrev Lookups (α : Type) := Traced Lookup RegistryError α

namespace Registry

/-- Fetches an object and records that. -/
def fetch (registry : Registry) (id : String) : Lookups Instance :=
  ⟨[.object id], registry.object id⟩

/-- Fetches an object as a parent template and records that. -/
def fetchTemplate (registry : Registry) (id : String) : Lookups Instance :=
  ⟨[.template id], registry.template id⟩

end Registry

/-- A registry of ready-made instances. The ids in `templates` are reachable as
templates only. -/
structure StaticRegistry where
  objects : Entries Instance
  templates : List String

namespace StaticRegistry

def empty : StaticRegistry := ⟨[], []⟩

/-- Registers an instance. What is marked as a template stays so. -/
def insert (registry : StaticRegistry) (id : String) (object : Instance) : StaticRegistry :=
  { registry with objects := registry.objects.put id object }

/-- Registers an instance that is reachable as a template only. -/
def insertAbstract (registry : StaticRegistry) (id : String) (object : Instance) :
    StaticRegistry :=
  { objects := registry.objects.put id object
    templates := if id ∈ registry.templates then registry.templates else id :: registry.templates }

def contains (registry : StaticRegistry) (id : String) : Bool := registry.objects.hasKey id

def getTemplate (registry : StaticRegistry) (id : String) : Except RegistryError Instance :=
  match registry.objects.find? id with
  | some object => .ok object
  | none => .error (.unknownReference id)

def getObject (registry : StaticRegistry) (id : String) : Except RegistryError Instance :=
  if id ∈ registry.templates then .error (.abstractInstantiation id)
  else registry.getTemplate id

/-- The registry as a source of live objects. -/
def toRegistry (registry : StaticRegistry) : Registry where
  object := registry.getObject
  template := registry.getTemplate

end StaticRegistry

end Wiring
