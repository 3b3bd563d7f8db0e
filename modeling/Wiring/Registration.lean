import Wiring.Definition.Basic
import Wiring.Entries
import Wiring.Report.ReadError

/-!
Definitions registered in code. When a build function is declared it gets an identity, by
which it is told apart from all others. Copies of what was declared share that identity,
whatever else is set on them, and each of them may be registered, at any time and more than
once. A registration replaces an earlier one of its name in its place.
-/

namespace Wiring

/-- A build function under a name, with what the container is to know. -/
structure Registration where
  name : String
  build : Build
  scope : Scope
  lazyInit : Bool
  isAbstract : Bool

/-- A registration whose build function has its identity. -/
structure Declared extends Registration where
  identity : Nat

namespace Declared

def factory (declared : Declared) : RegisteredFactory :=
  ⟨declared.name, declared.identity, declared.build⟩

def definition (declared : Declared) : ObjectDefinition :=
  { ObjectDefinition.ofFactory declared.name (.registered declared.factory) with
    scope := declared.scope
    lazyInit := declared.lazyInit
    isAbstract := declared.isAbstract
    parent := declared.factory.parent }

end Declared

/-- What is registered so far. -/
structure Registrations where
  entries : Entries Declared
  /-- An identity that is later than all that were registered so far. -/
  next : Nat

namespace Registrations

def empty : Registrations := ⟨[], 0⟩

/-- Registers what was declared before; its identity stays what it is. -/
def add (registrations : Registrations) (declared : Declared) : Registrations where
  entries := registrations.entries.put declared.name declared
  next := max registrations.next (declared.identity + 1)

/-- Declares a build function and registers it at once. -/
def register (registrations : Registrations) (registration : Registration) : Registrations :=
  registrations.add { registration with identity := registrations.next }

def definitions (registrations : Registrations) : List ObjectDefinition :=
  registrations.entries.map fun entry => entry.2.definition

def read (registrations : Registrations) : Reading (List ObjectDefinition) := do
  Traced.recordAll (registrations.definitions.map fun d => .registered d.id)
  return registrations.definitions

end Registrations

end Wiring
