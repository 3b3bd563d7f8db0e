import Wiring.Definition.Scalar

/-!
Tokens of literal expressions. Names, the dot and text that is no token at all are
tokens too, so that an expression that needs them can be refused at the right place.
-/

namespace Wiring.Expression

inductive Bracket where
  | round
  | square
  | curly
deriving DecidableEq

namespace Bracket

def openingText : Bracket → String
  | .round => "("
  | .square => "["
  | .curly => "\x7b"

def closingText : Bracket → String
  | .round => ")"
  | .square => "]"
  | .curly => "\x7d"

end Bracket

inductive Token where
  | truth (value : Bool)
  | null
  | minus
  | opening (bracket : Bracket)
  | closing (bracket : Bracket)
  | comma
  | colon
  | dot
  | int (value : Int64)
  | float (value : Binary64)
  | text (value : String)
  | name (value : String)
  | unknown
deriving DecidableEq

namespace Token

/-- Whether a token occurs only in expressions that are richer than literals. -/
def isUnsupported : Token → Bool
  | .name _ => true
  | .dot => true
  | .unknown => true
  | _ => false

/-- The scalar a token stands for on its own. -/
def scalar? : Token → Option Scalar
  | .truth b => some (.bool b)
  | .null => some .null
  | .int n => some (.int n)
  | .float x => some (.float x)
  | .text s => some (.text s)
  | _ => none

/-- The scalar a token stands for after a minus sign. -/
def negated? : Token → Option Scalar
  | .int n => some (.int (-n))
  | .float x => some (.float x.neg)
  | _ => none

/-- The words for a token in a message. -/
def describe : Token → String
  | .truth true => "'True'"
  | .truth false => "'False'"
  | .null => "'None'"
  | .minus => "'-'"
  | .opening b => "'" ++ b.openingText ++ "'"
  | .closing b => "'" ++ b.closingText ++ "'"
  | .comma => "','"
  | .colon => "':'"
  | .dot => "'.'"
  | .int n => "number " ++ toString n.toInt
  | .float x => "number " ++ Layout.plain.write x
  | .text s => "string " ++ Text.quoted s
  | .name s => "name '" ++ s ++ "'"
  | .unknown => "unrecognized character"

end Token

end Wiring.Expression
