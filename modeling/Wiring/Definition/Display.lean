import Wiring.Definition.Basic

/-!
The printed form of definitions. A value is printed without its name; an object prints
a head line, and then one line for each argument and property.
-/

namespace Wiring

namespace ValueDefinition

mutual

/-- The printed form of a value. -/
def display : ValueDefinition → String
  | .scalar _ value => value.display
  | .reference _ target => "ref(" ++ target ++ ")"
  | .inner _ definition => "object(" ++ definition.id ++ ")"
  | .mapping _ entries => "\x7b" ++ ", ".intercalate (displayEntries entries) ++ "\x7d"
  | .sequence _ shape items =>
    shape.brackets.1 ++ ", ".intercalate (displayItems items) ++ shape.brackets.2
termination_by structural d => d

/-- The printed forms of the elements of a sequence. -/
def displayItems : List ValueDefinition → List String
  | [] => []
  | item :: items => item.display :: displayItems items
termination_by structural items => items

/-- The printed forms of the entries of a mapping. -/
def displayEntries : List (String × ValueDefinition) → List String
  | [] => []
  | (key, value) :: entries =>
    (Text.quoted key ++ ": " ++ value.display) :: displayEntries entries
termination_by structural entries => entries

end

end ValueDefinition

namespace ObjectDefinition

/-- The line of the positional argument at an index. -/
def displayArg (index : Nat) : Option ValueDefinition → String
  | some value => "\n  arg[" ++ toString index ++ "] = " ++ value.display
  | none => "\n  arg[" ++ toString index ++ "] = <unset>"

def display (d : ObjectDefinition) : String :=
  let head := "object " ++ d.id ++ " (" ++ d.scope.name
    ++ (if d.lazyInit then ", lazy-init" else "")
    ++ (if d.isAbstract then ", abstract" else "")
    ++ (match d.parent with
      | some parent => ", parent=" ++ parent
      | none => "")
    ++ ") <- " ++ d.factory.display
  let args := d.args.mapIdx displayArg
  let named := d.named.map fun (name, value) => "\n  arg " ++ name ++ " = " ++ value.display
  let properties := d.properties.map fun p => "\n  property " ++ p.name ++ " = " ++ p.display
  String.join (head :: (args ++ named ++ properties))

end ObjectDefinition

end Wiring
