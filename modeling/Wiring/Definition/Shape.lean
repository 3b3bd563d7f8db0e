/-!
Shapes of sequences. They differ in whether order and repetition matter, in the label
their elements are named with, and in how they are shown.
-/

namespace Wiring

inductive Shape where
  | list
  | tuple
  | set
  | frozenSet
deriving DecidableEq, Inhabited

namespace Shape

/-- The label in the names of elements. Frozen sets share that of sets. -/
def label : Shape → String
  | .list => "list"
  | .tuple => "tuple"
  | .set => "set"
  | .frozenSet => "set"

/-- Whether equal elements collapse and order does not matter. -/
def isUnique : Shape → Bool
  | .list => false
  | .tuple => false
  | .set => true
  | .frozenSet => true

/-- What is shown before and after the elements. -/
def brackets : Shape → String × String
  | .list => ("[", "]")
  | .tuple => ("(", ")")
  | .set => ("set\x7b", "\x7d")
  | .frozenSet => ("frozenset\x7b", "\x7d")

end Shape

end Wiring
