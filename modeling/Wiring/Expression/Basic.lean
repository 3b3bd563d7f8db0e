import Wiring.Definition.Basic
import Wiring.Definition.Naming
import Wiring.Entries

/-!
Literal expressions and the value definitions they stand for. The parts of a value are
named after their places below it. The keys of a dictionary are scalars, and of several
entries whose keys have the same text the last one gives the value.
-/

namespace Wiring

/-- The groupings of expressions in brackets. -/
inductive Grouping where
  | list
  | tuple
  | set
deriving DecidableEq, Inhabited

/-- The shape of the sequence that a grouping stands for. -/
def Grouping.shape : Grouping → Shape
  | .list => .list
  | .tuple => .tuple
  | .set => .set

inductive Expression where
  | atom (value : Scalar)
  | group (grouping : Grouping) (items : List Expression)
  | dict (entries : List (Scalar × Expression))
deriving Inhabited

namespace Expression

mutual

/-- The value definition of an expression under a name. -/
def toDefinition (name : String) : Expression → ValueDefinition
  | .atom (.text s) => ValueDefinition.ofText name s
  | .atom value => .scalar name value
  | .group grouping items =>
    .sequence name grouping.shape (itemDefinitions name grouping.shape 0 items)
  | .dict entries => .mapping name (entryDefinitions name [] entries)
termination_by structural e => e

/-- The definitions of the elements of a sequence from an index on. -/
def itemDefinitions (name : String) (shape : Shape) (index : Nat) :
    List Expression → List ValueDefinition
  | [] => []
  | item :: items =>
    item.toDefinition (Naming.element name shape.label index) ::
      itemDefinitions name shape (index + 1) items
termination_by structural items => items

/-- The definitions of the entries of a dictionary, put into those before them. -/
def entryDefinitions (name : String) (done : Entries ValueDefinition) :
    List (Scalar × Expression) → Entries ValueDefinition
  | [] => done
  | (key, value) :: entries =>
    entryDefinitions name
      (done.put key.key (value.toDefinition (Naming.entry name key.key))) entries
termination_by structural entries => entries

end

end Expression

end Wiring
