/-!
Names of the parts of a definition. A value inside another is named after the one it
lies in, and a definition written inline gets an id made of its owner, the name of the
value that holds it, and its own id if it gives one.
-/

namespace Wiring.Naming

/-- Stands for an id that is not given. -/
def anonymous : String := "<anonymous>"

/-- The id of a definition written inline at `path` in the definition `owner`, which
may itself have no id. -/
def inner (owner path : String) (explicit : Option String) : String :=
  (if owner.isEmpty then anonymous else owner) ++ "." ++ path ++ "."
    ++ explicit.getD anonymous

/-- The name of an element of a sequence. -/
def element (name label : String) (index : Nat) : String :=
  name ++ "." ++ label ++ "[" ++ toString index ++ "]"

/-- The name of an entry of a mapping. -/
def entry (name key : String) : String := name ++ ".dict['" ++ key ++ "']"

def positional (index : Nat) : String := "constr[" ++ toString index ++ "]"

end Wiring.Naming
