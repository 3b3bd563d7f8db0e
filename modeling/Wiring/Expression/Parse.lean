import Wiring.Expression.Basic
import Wiring.Expression.Lexeme

/-!
Reading an expression from its tokens. The reading keeps what is open around its place
as a stack of frames and takes one token after the other; there is never a choice. A
token is refused at the first place where no expression goes on with it, and what the
reading would take instead is then expected.
-/

namespace Wiring.Expression

/-- What is open around a place, with the parts that are finished. -/
inductive Frame where
  /-- A list in square brackets. -/
  | list (items : List Expression)
  /-- Round brackets: a grouping of one expression, or a tuple. -/
  | round (items : List Expression)
  /-- Curly brackets of which nothing is finished yet. -/
  | curly
  /-- Curly brackets that hold elements. -/
  | set (items : List Expression)
  /-- Curly brackets that hold entries, where a key stands. -/
  | dict (entries : List (Scalar × Expression))
  /-- Curly brackets that hold entries, where the value of a key stands. -/
  | value (entries : List (Scalar × Expression)) (key : Scalar)

/-- How far a reading has come. -/
inductive Progress where
  /-- An expression or, where that is allowed, a closing bracket comes next. -/
  | before (frames : List Frame)
  /-- A minus sign was read. -/
  | negative (frames : List Frame)
  /-- A scalar is complete. -/
  | afterScalar (value : Scalar) (frames : List Frame)
  /-- An expression is complete that is not a scalar on its own. -/
  | after (value : Expression) (frames : List Frame)
  /-- Round brackets hold nothing but a comma. -/
  | emptyTuple (frames : List Frame)

namespace Progress

def start : Progress := .before []

/-- A closing bracket where an expression could begin. -/
def closeBefore : Bracket → List Frame → Option Progress
  | .square, .list items :: frames => some (.after (.group .list items) frames)
  | .round, .round items :: frames => some (.after (.group .tuple items) frames)
  | .curly, .curly :: frames => some (.after (.dict []) frames)
  | .curly, .set items :: frames => some (.after (.group .set items) frames)
  | .curly, .dict entries :: frames => some (.after (.dict entries) frames)
  | _, _ => none

/-- An opening bracket. The key of an entry cannot begin with one. -/
def openFrame (bracket : Bracket) : List Frame → Option Progress
  | .dict _ :: _ => none
  | frames =>
    let frame := match bracket with
      | .square => Frame.list []
      | .round => Frame.round []
      | .curly => Frame.curly
    some (.before (frame :: frames))

/-- A token where an expression could begin. -/
def stepBefore (frames : List Frame) : Token → Option Progress
  | .minus => some (.negative frames)
  | .opening bracket => openFrame bracket frames
  | .closing bracket => closeBefore bracket frames
  | .comma =>
    match frames with
    | .round [] :: outer => some (.emptyTuple outer)
    | _ => none
  | token => token.scalar?.map fun value => .afterScalar value frames

/-- A token after an expression. -/
def stepAfter (value : Expression) : List Frame → Token → Option Progress
  | .list items :: frames, .comma => some (.before (.list (items ++ [value]) :: frames))
  | .list items :: frames, .closing .square =>
    some (.after (.group .list (items ++ [value])) frames)
  | .round items :: frames, .comma => some (.before (.round (items ++ [value]) :: frames))
  | .round [] :: frames, .closing .round => some (.after value frames)
  | .round items :: frames, .closing .round =>
    some (.after (.group .tuple (items ++ [value])) frames)
  | .curly :: frames, .comma => some (.before (.set [value] :: frames))
  | .curly :: frames, .closing .curly => some (.after (.group .set [value]) frames)
  | .set items :: frames, .comma => some (.before (.set (items ++ [value]) :: frames))
  | .set items :: frames, .closing .curly =>
    some (.after (.group .set (items ++ [value])) frames)
  | .value entries key :: frames, .comma =>
    some (.before (.dict (entries ++ [(key, value)]) :: frames))
  | .value entries key :: frames, .closing .curly =>
    some (.after (.dict (entries ++ [(key, value)])) frames)
  | _, _ => none

/-- A token after a scalar, which may turn out to be the key of an entry. -/
def stepAfterScalar (value : Scalar) : List Frame → Token → Option Progress
  | .curly :: frames, .colon => some (.before (.value [] value :: frames))
  | .dict entries :: frames, .colon => some (.before (.value entries value :: frames))
  | .dict _ :: _, _ => none
  | frames, token => stepAfter (.atom value) frames token

/-- How far the reading comes with one more token, unless the token is refused. -/
def step : Progress → Token → Option Progress
  | .before frames, token => stepBefore frames token
  | .negative frames, token => token.negated?.map fun value => .afterScalar value frames
  | .afterScalar value frames, token => stepAfterScalar value frames token
  | .after value frames, token => stepAfter value frames token
  | .emptyTuple frames, .closing .round => some (.after (.group .tuple []) frames)
  | .emptyTuple _, _ => none

/-- The expression that is read if the text ends here. -/
def result? : Progress → Option Expression
  | .afterScalar value [] => some (.atom value)
  | .after value [] => some value
  | _ => none

end Progress

/-- What a reading may go on with. -/
inductive Expectation where
  | token (token : Token)
  | endOfInput
  /-- The beginning of a scalar. -/
  | scalar
deriving DecidableEq

namespace Expectation

/-- The words for an expectation in a message. -/
def describe : Expectation → String
  | .token expected => expected.describe
  | .endOfInput => "end of input"
  | .scalar => "literal"

/-- Everything that may be expected, in the order of the words. -/
def all : List Expectation :=
  [.token (.opening .round), .token (.closing .round), .token .comma, .token .colon,
    .token (.opening .square), .token (.closing .square), .token (.opening .curly),
    .token (.closing .curly), .endOfInput, .scalar]

/-- Whether a reading goes on as expected. A minus sign may stand wherever a scalar may
begin. -/
def holdsAt (progress : Progress) : Expectation → Bool
  | .token expected => (progress.step expected).isSome
  | .endOfInput => progress.result?.isSome
  | .scalar => (progress.step .minus).isSome

end Expectation

/-- What is expected of a reading. After a minus sign nothing is listed. -/
def Progress.expected (progress : Progress) : List Expectation :=
  match progress with
  | .negative _ => []
  | _ => Expectation.all.filter (Expectation.holdsAt progress)

/-- Why a text is no literal expression. -/
structure ExpressionError where
  /-- The refused token; none at the end of the text. -/
  found : Option Token
  /-- The bytes of the refused token, or the end of the text. -/
  start : Nat
  stop : Nat
  expected : List Expectation
deriving DecidableEq

namespace ExpressionError

def message (error : ExpressionError) : String :=
  match error.found with
  | none => "Unexpected end of input"
  | some token =>
    if token.isUnsupported then
      "unsupported expression: " ++ token.describe ++ " (only literals are allowed)"
    else "Unexpected " ++ token.describe

def display (error : ExpressionError) : String :=
  "literal error at " ++ toString error.start ++ ".." ++ toString error.stop ++ ": "
    ++ error.message

end ExpressionError

/-- Goes on with a reading to the end of the text, which has `size` bytes. -/
def Progress.finish (size : Nat) (progress : Progress) :
    List SpannedToken → Except ExpressionError Expression
  | [] =>
    match progress.result? with
    | some value => .ok value
    | none => .error ⟨none, size, size, progress.expected⟩
  | token :: tokens =>
    match progress.step token.token with
    | some next => next.finish size tokens
    | none => .error ⟨some token.token, token.start, token.stop, progress.expected⟩

def parse (text : String) : Except ExpressionError Expression :=
  Progress.start.finish (byteLength text.toList) (tokens text)

end Wiring.Expression
