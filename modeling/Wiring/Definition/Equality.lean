import Wiring.Definition.Basic
import Wiring.Entries

/-!
Equality of definitions. Names count, sequences compare element by element in order,
and mappings and named arguments compare as dictionaries, without regard to order.
Floats compare as numbers and registered factories by identity, so this is not
structural equality.
-/

namespace Wiring

mutual

def ValueDefinition.equals : ValueDefinition → ValueDefinition → Bool
  | .scalar n a, .scalar m b => n == m && a.equals b
  | .reference n a, .reference m b => n == m && a == b
  | .inner n a, .inner m b => n == m && a.equals b
  | .mapping n a, .mapping m b => n == m && a.length == b.length && equalEntries a b
  | .sequence n s a, .sequence m t b => n == m && s == t && equalItems a b
  | _, _ => false
termination_by structural d => d

def ObjectDefinition.equals : ObjectDefinition → ObjectDefinition → Bool
  | ⟨id, factory, scope, lazyInit, isAbstract, parent, args, named, properties⟩, b =>
    id == b.id && factory.equals b.factory && scope == b.scope && lazyInit == b.lazyInit
      && isAbstract == b.isAbstract && parent == b.parent && equalSlots args b.args
      && named.length == b.named.length && equalEntries named b.named
      && equalItems properties b.properties
termination_by structural d => d

def equalItems : List ValueDefinition → List ValueDefinition → Bool
  | [], [] => true
  | a :: as, b :: bs => a.equals b && equalItems as bs
  | _, _ => false
termination_by structural items => items

def equalSlots : List (Option ValueDefinition) → List (Option ValueDefinition) → Bool
  | [], [] => true
  | none :: as, none :: bs => equalSlots as bs
  | some a :: as, some b :: bs => a.equals b && equalSlots as bs
  | _, _ => false
termination_by structural slots => slots

/-- Whether every entry has an equal one under its key. -/
def equalEntries : List (String × ValueDefinition) → List (String × ValueDefinition) → Bool
  | [], _ => true
  | (key, a) :: entries, other =>
    (match Entries.find? key other with
      | some b => a.equals b
      | none => false) && equalEntries entries other
termination_by structural entries => entries

end

end Wiring
