import Wiring.Number.Layout
import Wiring.Text.Quoted

/-!
Values of structured text. Mappings keep the order of their entries and have distinct
keys; a value of any kind can be a key. A tag that belongs to the document stays with its
value.
-/

namespace Wiring.Yaml

/-- A number. Integers have at most 64 bits, with or without a sign. -/
inductive Numeral where
  | int (value : Int)
  | float (value : Binary64)
deriving DecidableEq

namespace Numeral

def text : Numeral → String
  | .int n => toString n
  | .float x => Layout.structured.write x

/-- Equality of numbers. All NaNs are one, and so are the zeros. -/
def equals : Numeral → Numeral → Bool
  | .int a, .int b => a == b
  | .float a, .float b => (a.isNaN && b.isNaN) || a.numericEq b
  | _, _ => false

end Numeral

inductive Value where
  | null
  | bool (value : Bool)
  | number (value : Numeral)
  | string (value : String)
  | sequence (items : List Value)
  | mapping (entries : List (Value × Value))
  /-- A value with a tag, which is given without its exclamation mark. -/
  | tagged (tag : String) (value : Value)
deriving Inhabited

/-- The text of a tag with exactly one exclamation mark in front of it. -/
def tagText (tag : String) : String :=
  match tag.toList with
  | '!' :: c :: cs => "!" ++ String.ofList (c :: cs)
  | _ => "!" ++ tag

namespace Value

mutual

/-- Equality of values. The order of entries does not matter. -/
def equals : Value → Value → Bool
  | .null, .null => true
  | .bool a, .bool b => a == b
  | .number a, .number b => a.equals b
  | .string a, .string b => a == b
  | .sequence a, .sequence b => equalItems a b
  | .mapping a, .mapping b => a.length == b.length && equalEntries a b
  | .tagged t a, .tagged u b => tagText t == tagText u && a.equals b
  | _, _ => false
termination_by structural v => v

def equalItems : List Value → List Value → Bool
  | [], [] => true
  | a :: as, b :: bs => a.equals b && equalItems as bs
  | _, _ => false
termination_by structural vs => vs

/-- Whether every entry has an equal one. -/
def equalEntries : List (Value × Value) → List (Value × Value) → Bool
  | [], _ => true
  | (key, value) :: entries, other =>
    other.any (fun entry => key.equals entry.1 && value.equals entry.2)
      && equalEntries entries other
termination_by structural entries => entries

end

mutual

/-- The value as it is described in messages. -/
def describe : Value → String
  | .null => "Null"
  | .bool true => "Bool(true)"
  | .bool false => "Bool(false)"
  | .number n => "Number(" ++ n.text ++ ")"
  | .string s => "String(" ++ Text.quoted s ++ ")"
  | .sequence items => "Sequence [" ++ ", ".intercalate (describeItems items) ++ "]"
  | .mapping entries => "Mapping \x7b" ++ ", ".intercalate (describeEntries entries) ++ "\x7d"
  | .tagged tag value =>
    "TaggedValue \x7b tag: " ++ tagText tag ++ ", value: " ++ value.describe ++ " \x7d"
termination_by structural v => v

def describeItems : List Value → List String
  | [] => []
  | v :: vs => v.describe :: describeItems vs
termination_by structural vs => vs

/-- Keys that are plain values are described without their kind. -/
def describeEntries : List (Value × Value) → List String
  | [] => []
  | (key, value) :: entries =>
    let keyText := match key with
      | .bool true => "true"
      | .bool false => "false"
      | .number n => n.text
      | .string s => Text.quoted s
      | key => key.describe
    (keyText ++ ": " ++ value.describe) :: describeEntries entries
termination_by structural entries => entries

end

/-- The text of a value as a key, if it is a plain value. -/
def keyText? : Value → Option String
  | .string s => some s
  | .bool true => some "True"
  | .bool false => some "False"
  | .number n => some n.text
  | .null => some "None"
  | _ => none

/-- The text of a string, with a tag or without one. -/
def asText? : Value → Option String
  | .string s => some s
  | .tagged _ (.string s) => some s
  | _ => none

end Value

abbrev Mapping := List (Value × Value)

def Mapping.find? (key : String) : Mapping → Option Value
  | [] => none
  | (.string k, v) :: rest => if k = key then some v else find? key rest
  | _ :: rest => find? key rest

/-- The value of a key that is equal to a given one. -/
def Mapping.hasKey (key : Value) (entries : Mapping) : Bool :=
  List.any entries fun entry => entry.1.equals key

end Wiring.Yaml
