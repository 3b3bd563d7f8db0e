import Wiring.Text.Blank

/-!
Scopes: how often the container builds an object. A scope is read from a token, in any
case or in its qualified spelling; blanks around it do not matter.
-/

namespace Wiring

/-- How many instances a container makes of an object. -/
inductive Scope where
  /-- One instance for the whole container. -/
  | singleton
  /-- A new instance for each request. -/
  | prototype
deriving DecidableEq, Inhabited

namespace Scope

def name : Scope → String
  | .singleton => "singleton"
  | .prototype => "prototype"

/-- The scope a token stands for. The qualified spellings keep their case. -/
def ofToken? (token : String) : Option Scope :=
  let t := Text.trim token
  if t = "scope.SINGLETON" then some .singleton
  else if t = "scope.PROTOTYPE" then some .prototype
  else if Text.equalsIgnoringCase t "singleton" then some .singleton
  else if Text.equalsIgnoringCase t "prototype" then some .prototype
  else none

/-- What is said of a token that stands for no scope. -/
def unknownMessage (token : String) : String :=
  "unknown scope '" ++ token ++ "' (expected singleton or prototype)"

theorem ofToken?_name (s : Scope) : ofToken? s.name = some s := by
  cases s <;> decide

end Scope

end Wiring
