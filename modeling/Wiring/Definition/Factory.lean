import Wiring.Live.Registry
import Wiring.Text.Blank
import Wiring.Text.Quoted

/-!
Factories: what a definition constructs. A factory names a type, a built-in type, or a
build function registered in code. Build functions are compared by an identity that
their maker gives them, never by what they compute.
-/

namespace Wiring

/-- Built-in types with a declaration shorthand. -/
inductive Builtin where
  | str
  | unicode
  | int
  | long
  | float
  | decimal
  | bool
  | complex
  | list
  | tuple
  | dict
deriving DecidableEq, Inhabited

namespace Builtin

def name : Builtin → String
  | .str => "str"
  | .unicode => "unicode"
  | .int => "int"
  | .long => "long"
  | .float => "float"
  | .decimal => "decimal"
  | .bool => "bool"
  | .complex => "complex"
  | .list => "list"
  | .tuple => "tuple"
  | .dict => "dict"

/-- The types with a shorthand in markup. -/
def scalars : List Builtin := [.str, .unicode, .int, .long, .float, .decimal, .bool, .complex]

/-- The types with a shorthand in structured text. -/
def all : List Builtin := scalars ++ [.list, .tuple, .dict]

/-- The type of a name in a table of shorthands. -/
def ofName? (table : List Builtin) (name : String) : Option Builtin :=
  table.find? fun t => t.name == name

end Builtin

/-- How a registered factory builds its instance: from the registry alone, or also from
the instance of a parent template. -/
inductive Build where
  | plain (run : Registry → Lookups Instance)
  | derived (parent : String) (run : Registry → Instance → Lookups Instance)

/-- A build function registered in code under a name, with the identity by which it is
compared. -/
structure RegisteredFactory where
  name : String
  identity : Nat
  build : Build

namespace RegisteredFactory

/-- The template the factory feeds from, if any. -/
def parent (factory : RegisteredFactory) : Option String :=
  match factory.build with
  | .plain _ => none
  | .derived parent _ => some parent

/-- Builds an instance. The instance of a declared parent is fetched first. -/
def invoke (factory : RegisteredFactory) (registry : Registry) : Lookups Instance :=
  match factory.build with
  | .plain run => run registry
  | .derived parent run => do
    let base ← registry.fetchTemplate parent
    run registry base

/-- The same name, the same parent and the same build function. -/
def equals (a b : RegisteredFactory) : Bool :=
  a.name == b.name && a.parent == b.parent && a.identity == b.identity

/-- A description of the factory, without its build function. -/
def describe (factory : RegisteredFactory) : String :=
  let parent := match factory.parent with
    | none => "None"
    | some parent => "Some(" ++ Text.quoted parent ++ ")"
  "Programmatic(ProgrammaticFactory \x7b name: " ++ Text.quoted factory.name
    ++ ", parent: " ++ parent ++ ", .. \x7d)"

end RegisteredFactory

/-- What a definition constructs. -/
inductive Factory where
  | reflective (typeName : String)
  | builtin (type : Builtin)
  | registered (factory : RegisteredFactory)
  | unspecified
deriving Inhabited

namespace Factory

/-- The factory of a declared class; a missing or blank class declares none. -/
def ofClass (declared : Option String) : Factory :=
  match declared with
  | none => .unspecified
  | some name => if Text.isAllBlank name then .unspecified else .reflective (Text.trim name)

def isSpecified : Factory → Bool
  | .unspecified => false
  | _ => true

def display : Factory → String
  | .reflective typeName => typeName
  | .builtin type => "builtin:" ++ type.name
  | .registered factory => "fn:" ++ factory.name
  | .unspecified => "<unspecified>"

def equals : Factory → Factory → Bool
  | .reflective a, .reflective b => a == b
  | .builtin a, .builtin b => a == b
  | .registered a, .registered b => a.equals b
  | .unspecified, .unspecified => true
  | _, _ => false

end Factory

end Wiring
