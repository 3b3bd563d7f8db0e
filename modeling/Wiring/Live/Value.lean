import Wiring.Definition.Scalar
import Wiring.Definition.Shape
import Wiring.Live.Registry

/-!
Live values, the results of resolution. Equality never mixes kinds: floats are equal if
their bits agree, objects if they are the same instance, and sets and maps are equal
regardless of order. A set is searched as a hash table is: only members whose digest
agrees are compared. What goes into a digest is therefore exactly what equal values
are bound to share.
-/

namespace Wiring

inductive Value where
  | null
  | bool (value : Bool)
  | int (value : Int64)
  | float (value : Binary64)
  | text (value : String)
  | object (value : Instance)
  | sequence (shape : Shape) (items : List Value)
  | map (entries : List (String × Value))
deriving Inhabited

/-- A piece of the data by which values are told apart before they are compared. -/
inductive DigestItem where
  | kind (number : Nat)
  | flag (value : Bool)
  | word (value : UInt64)
  | text (value : String)
  | identity (value : Instance)
  | count (value : Nat)
deriving DecidableEq

namespace Value

/-- The number of the kind of a sequence. -/
def shapeKind : Shape → Nat
  | .list => 6
  | .tuple => 7
  | .set => 8
  | .frozenSet => 9

mutual

/-- The data that is hashed for a value. Of a set or map it is the size alone, since
nothing else of them is independent of order. -/
def digest : Value → List DigestItem
  | .null => [.kind 0]
  | .bool b => [.kind 1, .flag b]
  | .int n => [.kind 2, .word n.toUInt64]
  | .float x => [.kind 3, .word x.bits]
  | .text s => [.kind 4, .text s]
  | .object i => [.kind 5, .identity i]
  | .sequence shape items =>
    .kind (shapeKind shape) :: .count items.length ::
      (if shape.isUnique then [] else digestItems items)
  | .map entries => [.kind 10, .count entries.length]
termination_by structural v => v

/-- The data of several values, one after the other. -/
def digestItems : List Value → List DigestItem
  | [] => []
  | v :: vs => v.digest ++ digestItems vs
termination_by structural vs => vs

end

mutual

def equals : Value → Value → Bool
  | .null, .null => true
  | .bool a, .bool b => a == b
  | .int a, .int b => a == b
  | .float a, .float b => a.bits == b.bits
  | .text a, .text b => a == b
  | .object a, .object b => a == b
  | .sequence s a, .sequence t b =>
    s == t && (if s.isUnique then a.length == b.length && allMembers a b else equalItems a b)
  | .map a, .map b => a.length == b.length && equalEntries a b
  | _, _ => false
termination_by structural v => v

def equalItems : List Value → List Value → Bool
  | [], [] => true
  | a :: as, b :: bs => a.equals b && equalItems as bs
  | _, _ => false
termination_by structural vs => vs

/-- Whether every value is found among the members of a set. -/
def allMembers : List Value → List Value → Bool
  | [], _ => true
  | a :: as, members =>
    members.any (fun b => a.digest == b.digest && a.equals b) && allMembers as members
termination_by structural vs => vs

/-- Whether every entry has an equal one under its key. -/
def equalEntries : List (String × Value) → List (String × Value) → Bool
  | [], _ => true
  | (key, a) :: entries, other =>
    (match Entries.find? key other with
      | some b => a.equals b
      | none => false) && equalEntries entries other
termination_by structural entries => entries

end

/-- Whether a value is found among the members of a set. -/
def isMember (v : Value) (members : List Value) : Bool :=
  members.any fun b => v.digest == b.digest && v.equals b

/-- The members of a set after a value was added; an equal one that came first stays. -/
def addMember (members : List Value) (v : Value) : List Value :=
  if v.isMember members then members else members ++ [v]

/-- The members of the set of some values, the first of equal ones in its place. -/
def members (vs : List Value) : List Value := vs.foldl addMember []

/-- A sequence of a shape made from its items in order. -/
def ofItems (shape : Shape) (items : List Value) : Value :=
  .sequence shape (if shape.isUnique then members items else items)

def ofScalar : Scalar → Value
  | .null => .null
  | .bool b => .bool b
  | .int n => .int n
  | .float x => .float x
  | .text s => .text s

def asText? : Value → Option String
  | .text s => some s
  | _ => none

def asObject? : Value → Option Instance
  | .object i => some i
  | _ => none

/-- A tuple in parentheses; a single item keeps its comma, and nothing at all is
written for the empty tuple. -/
def describeTuple : List String → String
  | [] => ""
  | [item] => "(" ++ item ++ ",)"
  | items => "(" ++ ", ".intercalate items ++ ")"

/-- A sequence of a shape, from the descriptions of its items. -/
def describeSequence (shape : Shape) (items : List String) : String :=
  match shape with
  | .list => "[" ++ ", ".intercalate items ++ "]"
  | .tuple => describeTuple items
  | .set => "\x7b" ++ ", ".intercalate items ++ "\x7d"
  | .frozenSet => "frozen\x7b" ++ ", ".intercalate items ++ "\x7d"

mutual

/-- The value as it is described in diagnostics. -/
def describe : Value → String
  | .null => "None"
  | .bool true => "true"
  | .bool false => "false"
  | .int n => toString n.toInt
  | .float x => Layout.shown.write x
  | .text s => Text.quoted s
  | .object i => "Object(" ++ i.label ++ ")"
  | .sequence shape items => describeSequence shape (describeItems items)
  | .map entries => "\x7b" ++ ", ".intercalate (describeEntries entries) ++ "\x7d"
termination_by structural v => v

def describeItems : List Value → List String
  | [] => []
  | v :: vs => v.describe :: describeItems vs
termination_by structural vs => vs

def describeEntries : List (String × Value) → List String
  | [] => []
  | (key, v) :: entries => (Text.quoted key ++ ": " ++ v.describe) :: describeEntries entries
termination_by structural entries => entries

end

end Value

/-- An immutable set of live values. Members are distinct if it is made by `ofValues`. -/
structure FrozenSet where
  members : List Value

namespace FrozenSet

def ofValues (vs : List Value) : FrozenSet := ⟨Value.members vs⟩

def size (set : FrozenSet) : Nat := set.members.length

def isEmpty (set : FrozenSet) : Bool := set.members.isEmpty

def contains (set : FrozenSet) (v : Value) : Bool := v.isMember set.members

end FrozenSet

end Wiring
