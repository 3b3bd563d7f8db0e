import Wiring.Definition.Scope
import Wiring.Report.Event
import Wiring.Text.Quoted
import Wiring.Traced

/-!
Why sources cannot be read. Every error names the source it arose in. The wording of
all errors is in `ReadError.message`.
-/

namespace Wiring

/-- Why a file has no text. -/
inductive FileError where
  | notFound
  | invalidData
  | isADirectory
  | notADirectory
  | other
deriving DecidableEq, Inhabited

def FileError.name : FileError → String
  | .notFound => "NotFound"
  | .invalidData => "InvalidData"
  | .isADirectory => "IsADirectory"
  | .notADirectory => "NotADirectory"
  | .other => "Other"

/-- Why a document as a whole cannot be interpreted. What the parser of its format has
to say is left out. -/
inductive Malformation where
  | unparsable
  | wrongRoot (expected : String) (namespaces : List String) (element uri : String)
  | unknownRoot (element uri : String)
  | missingObjectId
deriving DecidableEq

inductive ReadError where
  | io (location : String) (cause : FileError)
  | malformed (location : String) (reason : Malformation)
  | unknownScope (location object token : String)
  | unknownTemplate (location object parent : String)
  | circularTemplate (location : String) (chain : List String)
deriving DecidableEq

namespace Malformation

def message : Malformation → String
  | .unparsable => "<parser>"
  | .wrongRoot expected namespaces element uri =>
    "expected root <" ++ expected ++ "> in one of ["
      ++ ", ".intercalate (namespaces.map Text.quoted) ++ "], found <" ++ element ++ "> in "
      ++ Text.quoted uri
  | .unknownRoot element uri =>
    "cannot tell the dialect of root element <" ++ element ++ "> in namespace "
      ++ Text.quoted uri
  | .missingObjectId => "declaration without an 'object' id"

end Malformation

namespace ReadError

def location : ReadError → String
  | .io location _ => location
  | .malformed location _ => location
  | .unknownScope location _ _ => location
  | .unknownTemplate location _ _ => location
  | .circularTemplate location _ => location

/-- The name of the kind of an error. -/
def kind : ReadError → String
  | .io .. => "Io"
  | .malformed .. => "MalformedSource"
  | .unknownScope .. => "UnknownScope"
  | .unknownTemplate .. => "UnknownTemplate"
  | .circularTemplate .. => "CircularTemplate"

def message : ReadError → String
  | .io location cause => "failed to read " ++ location ++ ": " ++ cause.name
  | .malformed location reason => "malformed source " ++ location ++ ": " ++ reason.message
  | .unknownScope location object token =>
    location ++ ": object '" ++ object ++ "': " ++ Scope.unknownMessage token
  | .unknownTemplate location object parent =>
    location ++ ": object '" ++ object ++ "' inherits from unknown template '" ++ parent ++ "'"
  | .circularTemplate location chain =>
    location ++ ": circular template chain: " ++ " -> ".intercalate chain

end ReadError

/-- The scope that an object declares; without a token it is a singleton. -/
def Scope.ofDeclared (location object : String) : Option String → Except ReadError Scope
  | none => .ok .singleton
  | some token =>
    match Scope.ofToken? token with
    | some scope => .ok scope
    | none => .error (.unknownScope location object token)

/-- A reading: its log, and what was read or why it failed. -/
abbrev Reading (α : Type) := Traced Event ReadError α

end Wiring
