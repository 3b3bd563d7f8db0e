import Wiring.Number.Reading
import Wiring.Yaml.Value

/-!
What scalars stand for. A plain scalar may be null, a truth value or a number; any other
scalar is a string, unless a tag says what it is to be. Numbers with leading zeros are
strings.
-/

namespace Wiring.Yaml

/-- Whether a text is one of the words for null. -/
def isNullWord (s : String) : Bool := s == "null" || s == "Null" || s == "NULL" || s == "~"

def truth? (s : String) : Option Bool :=
  if s = "true" ∨ s = "True" ∨ s = "TRUE" then some true
  else if s = "false" ∨ s = "False" ∨ s = "FALSE" then some false
  else none

/-- A sign at the front of a text, and what follows it. -/
def takeSign : List Char → Option Char × List Char
  | '+' :: cs => (some '+', cs)
  | '-' :: cs => (some '-', cs)
  | cs => (none, cs)

/-- Whether a text is digits after a sign, with a zero at the front that is not all. -/
def hasLeadingZero (cs : List Char) : Bool :=
  match (takeSign cs).2 with
  | '0' :: c :: rest => (c :: rest).all Char.isDigit
  | _ => false

/-- The magnitude that is written without a sign: with the mark of a base, or in
decimal. -/
def magnitude? (cs : List Char) : Option Nat :=
  let marked := match cs with
    | '0' :: 'x' :: rest => Number.digitsInBase? 16 rest
    | '0' :: 'o' :: rest => Number.digitsInBase? 8 rest
    | '0' :: 'b' :: rest => Number.digitsInBase? 2 rest
    | _ => none
  marked.or (Number.digitsInBase? 10 cs)

/-- The integer that a text is, whatever its size. -/
def integer? (s : String) : Option Int :=
  if hasLeadingZero s.toList then none
  else
    match takeSign s.toList with
    | (some '-', cs) => (magnitude? cs).map fun n => -(n : Int)
    | (_, cs) => (magnitude? cs).map fun n => (n : Int)

/-- A finite number with an optional sign, or one of the words for infinity and NaN. -/
def float? (s : String) : Option Binary64 :=
  let (sign, cs) := takeSign s.toList
  let word := String.ofList cs
  if word = ".inf" ∨ word = ".Inf" ∨ word = ".INF" then
    some (Binary64.infinity (sign == some '-'))
  else if s = ".nan" ∨ s = ".NaN" ∨ s = ".NAN" then some Binary64.nan
  else do
    let x ← Number.unsigned? (sign == some '-') cs
    if x.isInfinite then none else return x

/-- The integers that a value can hold. -/
def isStored (n : Int) : Bool := -(Nat.pow 2 63) ≤ n && n < Nat.pow 2 64

/-- The integers that are not taken for anything else. -/
def isWide (n : Int) : Bool := -(Nat.pow 2 127) ≤ n && n < Nat.pow 2 128

/-- The value of an integer: an error if it is too large to be stored and yet not so
large that it counts as a float. -/
def integerValue? (s : String) : Option (Option Value) :=
  match integer? s with
  | some n =>
    if isStored n then some (some (.number (.int n)))
    else if isWide n then none
    else some none
  | none => some none

/-- The value of a plain scalar. -/
def plainValue? (s : String) : Option Value :=
  if s.isEmpty || isNullWord s then some .null
  else
    match truth? s with
    | some b => some (.bool b)
    | none => do
      match ← integerValue? s with
      | some value => return value
      | none =>
        if hasLeadingZero s.toList then return .string s
        else
          match float? s with
          | some x => return .number (.float x)
          | none => return .string s

/-- The value of a scalar without regard to its tag. -/
def untaggedValue? (s : String) (isPlain : Bool) : Option Value :=
  if isPlain then plainValue? s else some (.string s)

/-- The tag that a scalar is an integer, and so on. -/
def coreTag (kind : String) : String := "tag:yaml.org,2002:" ++ kind

/-- The value of a scalar with a tag that does not belong to the document. -/
def globalValue? (tag s : String) : Option Value :=
  if tag = coreTag "bool" then (truth? s).map .bool
  else if tag = coreTag "int" then do
    let value ← integerValue? s
    value
  else if tag = coreTag "float" then (float? s).map fun x => .number (.float x)
  else if tag = coreTag "null" then if isNullWord s then some .null else none
  else some (.string s)

/-- A tag that belongs to the document, without its exclamation mark. -/
def localTag? (tag : String) : Option String :=
  match tag.toList with
  | ['!'] => some "!"
  | '!' :: cs => some (String.ofList cs)
  | _ => none

def scalarValue? (tag : Option String) (s : String) (isPlain : Bool) : Option Value :=
  match tag with
  | none => untaggedValue? s isPlain
  | some tag =>
    match localTag? tag with
    | some name => (untaggedValue? s isPlain).map (.tagged name)
    | none => globalValue? tag s

/-- A value with the tag of its node, which counts only if it belongs to the document. -/
def withTag (tag : Option String) (value : Value) : Value :=
  match tag.bind localTag? with
  | some name => .tagged name value
  | none => value

end Wiring.Yaml
