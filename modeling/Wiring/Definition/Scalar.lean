import Wiring.Number.Layout
import Wiring.Text.Quoted

/-!
Scalars, the plain values a definition can hold. Text that spells a truth value with a
capital letter is read as that truth value; all other text stays text.
-/

namespace Wiring

/-- A plain value. Integers are words of 64 bits. -/
inductive Scalar where
  | null
  | bool (value : Bool)
  | int (value : Int64)
  | float (value : Binary64)
  | text (value : String)
deriving DecidableEq, Inhabited

namespace Scalar

def ofText (s : String) : Scalar :=
  if s = "True" then .bool true
  else if s = "False" then .bool false
  else .text s

/-- The text of a scalar as the key of a mapping. -/
def key : Scalar → String
  | .null => "None"
  | .bool true => "True"
  | .bool false => "False"
  | .int n => toString n.toInt
  | .float x => Layout.plain.write x
  | .text s => s

/-- The text of a scalar as it is shown. -/
def display : Scalar → String
  | .null => "none"
  | .bool true => "true"
  | .bool false => "false"
  | .int n => toString n.toInt
  | .float x => Layout.shown.write x
  | .text s => Text.quoted s

/-- Equality of scalars as values: floats compare as numbers, so a NaN equals nothing
and the zeros equal each other. -/
def equals : Scalar → Scalar → Bool
  | .null, .null => true
  | .bool a, .bool b => a == b
  | .int a, .int b => a == b
  | .float a, .float b => a.numericEq b
  | .text a, .text b => a == b
  | _, _ => false

theorem ofText_ne_true (s : String) : ofText s ≠ .text "True" := by
  unfold ofText
  split
  · simp
  · split <;> simp_all

theorem ofText_ne_false (s : String) : ofText s ≠ .text "False" := by
  unfold ofText
  split
  · simp
  · split <;> simp_all

end Scalar

end Wiring
