import Wiring.Source.Files

/-!
Sources of definitions: files, and texts in memory under a name.
-/

namespace Wiring

/-- Where the text of a document comes from. -/
inductive Source where
  | file (path : String)
  | inline (name content : String)
deriving DecidableEq, Inhabited

namespace Source

/-- The name of a source in the log and in errors. -/
def location : Source → String
  | .file path => path
  | .inline name _ => name

def path? : Source → Option String
  | .file path => some path
  | .inline _ _ => none

def load (files : Files) : Source → Except ReadError String
  | .file path =>
    match files path with
    | .ok text => .ok text
    | .error cause => .error (.io path cause)
  | .inline _ content => .ok content

end Source

end Wiring
