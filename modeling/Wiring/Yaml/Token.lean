import Wiring.Yaml.Block
import Wiring.Yaml.Plain
import Wiring.Yaml.Quoted
import Wiring.Yaml.Tag

/-!
Tokens of structured text. Indentation becomes explicit: block collections have tokens
for their beginning and end. A key is known only when the colon after it is met, so the
places where a key may have begun are kept, and its token is put there later; such a key
must lie in one line of at most 1024 characters.
-/

namespace Wiring.Yaml

inductive Token where
  | version (major minor : Nat)
  | handle (handle meaning : String)
  | documentStart
  | documentEnd
  | blockSequence
  | blockMapping
  | blockEnd
  | openSequence
  | closeSequence
  | openMapping
  | closeMapping
  | blockEntry
  | flowEntry
  | key
  | value
  | alias (name : String)
  | anchor (name : String)
  | tag (tag : WrittenTag)
  | scalar (text : String) (isPlain : Bool)
deriving DecidableEq

/-- A place where a key may have begun. -/
structure KeyPlace where
  /-- The number of tokens before the place. -/
  number : Nat
  position : Position
  /-- Nothing but a key can stand here. -/
  isRequired : Bool

/-- How far a text was read. -/
structure Scan where
  position : Position
  rest : List Char
  /-- The tokens, the last one first. -/
  tokens : List Token
  /-- The column of the innermost block collection; -1 outside of any. -/
  indent : Int
  /-- The columns around it, the nearest first. -/
  outer : List Int
  /-- For each open flow collection, the innermost first, and for the block around
  them, the place where a key may have begun. -/
  places : List (Option KeyPlace)
  /-- Whether a key may begin here. -/
  allowsKey : Bool

namespace Scan

/-- Nothing is read yet. A byte order mark counts as a character of the first line. -/
def start (cs : List Char) : Scan where
  position := match cs with
    | '\uFEFF' :: _ => ⟨1, 0, 1⟩
    | _ => ⟨0, 0, 0⟩
  rest := match cs with
    | '\uFEFF' :: rest => rest
    | _ => cs
  tokens := []
  indent := -1
  outer := []
  places := [none]
  allowsKey := true

def inFlow (s : Scan) : Bool := s.places.length > 1

def column (s : Scan) : Int := s.position.column

def add (s : Scan) (token : Token) : Scan := { s with tokens := token :: s.tokens }

def insert (s : Scan) (number : Nat) (token : Token) : Scan :=
  { s with tokens := s.tokens.insertIdx (s.tokens.length - number) token }

/-- Goes on behind some characters of the line. -/
def advance (s : Scan) (count : Nat) : Scan :=
  { s with position := s.position.advance count, rest := s.rest.drop count }

def moveTo (s : Scan) (position : Position) (rest : List Char) : Scan :=
  { s with position, rest }

def allowKey (s : Scan) (allowed : Bool) : Scan := { s with allowsKey := allowed }

/-- Skips white space and comments. Tabs count as white space only where no key may
begin. A new line in a block may begin with a key. -/
def skipSpace (inFlow : Bool) : Bool → Bool → Position → List Char → Bool × Position × List Char
  | allowsKey, _, here, '\r' :: '\n' :: cs =>
    skipSpace inFlow (allowsKey || !inFlow) false (here.newLine 2) cs
  | allowsKey, inComment, here, c :: cs =>
    if isBreak c then skipSpace inFlow (allowsKey || !inFlow) false (here.newLine 1) cs
    else if inComment || c == ' ' || (c == '\t' && (inFlow || !allowsKey)) then
      skipSpace inFlow allowsKey inComment (here.advance 1) cs
    else if c = '#' then skipSpace inFlow allowsKey true (here.advance 1) cs
    else (allowsKey, here, c :: cs)
  | allowsKey, _, here, [] => (allowsKey, here, [])

def toToken (s : Scan) : Scan :=
  let (allowsKey, position, rest) := skipSpace s.inFlow s.allowsKey false s.position s.rest
  { s with allowsKey, position, rest }

/-- Forgets places where no key can have begun any more. -/
def dropOldPlaces? (s : Scan) : Option Scan := do
  let places ← s.places.mapM fun place? =>
    match place? with
    | none => some none
    | some place =>
      if place.position.line < s.position.line || place.position.index + 1024 < s.position.index
      then if place.isRequired then none else some none
      else some (some place)
  return { s with places }

def dropPlace? (s : Scan) : Option Scan :=
  match s.places with
  | some place :: places =>
    if place.isRequired then none else some { s with places := none :: places }
  | _ => some s

/-- Keeps the current place if a key may begin here. -/
def savePlace? (s : Scan) : Option Scan :=
  if s.allowsKey then do
    let isRequired := !s.inFlow && s.indent == s.column
    let place : KeyPlace := ⟨s.tokens.length, s.position, isRequired⟩
    let s ← s.dropPlace?
    return { s with places := some place :: s.places.drop 1 }
  else some s

/-- Begins a block collection at a column that is further in. Its token goes behind
`number` earlier ones. -/
def openBlock (s : Scan) (column : Int) (number : Nat) (token : Token) : Scan :=
  if !s.inFlow && s.indent < column then
    { s.insert number token with indent := column, outer := s.indent :: s.outer }
  else s

/-- Ends the blocks that lie further in than a column. -/
def endBlocks (column indent : Int) (tokens : List Token) :
    List Int → Int × List Int × List Token
  | [] => (indent, [], tokens)
  | next :: outer =>
    if column < indent then endBlocks column next (.blockEnd :: tokens) outer
    else (indent, next :: outer, tokens)

/-- Ends the blocks that lie further in than a column, except in a flow collection. -/
def closeBlocks (s : Scan) (column : Int) : Scan :=
  if s.inFlow then s
  else
    let (indent, outer, tokens) := endBlocks column s.indent s.tokens s.outer
    { s with indent, outer, tokens }

def finish? (s : Scan) : Option (List Token) := do
  let s ← (s.closeBlocks (-1)).dropPlace?
  return s.tokens.reverse

/-- The number at the front of a text, of at most nine digits. -/
def takeNumber? (cs : List Char) : Option (Nat × List Char) :=
  let (digits, rest) := Number.spanDigits cs
  if digits.isEmpty ∨ digits.length > 9 then none
  else some (Number.digitsValue digits, rest)

def takeVersion? (cs : List Char) : Option (Token × List Char) := do
  let (major, rest) ← takeNumber? (cs.dropWhile isBlank)
  match rest with
  | '.' :: rest =>
    let (minor, rest) ← takeNumber? rest
    return (.version major minor, rest)
  | _ => none

/-- The handle that a directive declares, with its meaning. -/
def takeHandleMeaning? (cs : List Char) : Option (Token × List Char) := do
  let (handle, rest) ← takeHandle? (cs.dropWhile isBlank)
  if handle ≠ ['!'] ∧ handle.getLast? ≠ some '!' then none
  else if !rest.head?.any isBlank then none
  else
    let rest := rest.dropWhile isBlank
    let (uri, rest) ← takeUri? isUriChar rest.length rest
    if uri.isEmpty || !endsWord rest then none
    else return (.handle (String.ofList handle) (String.ofList uri), rest)

/-- A directive after its percent sign, up to the end of its line. -/
def takeDirective? (cs : List Char) : Option (Token × List Char) := do
  let name := cs.takeWhile isWordChar
  let rest := cs.drop name.length
  if !endsWord rest then none
  else
    let (token, rest) ←
      if name = "YAML".toList then takeVersion? rest
      else if name = "TAG".toList then takeHandleMeaning? rest
      else none
    let rest ← skipLineEnd? rest
    return (token, rest)

def directive? (s : Scan) (cs : List Char) : Option Scan := do
  let s ← (s.closeBlocks (-1)).dropPlace?
  let (token, rest) ← takeDirective? cs
  let after := s.position.advance (s.rest.length - rest.length)
  let s := (s.allowKey false).add token
  match takeBreak? rest with
  | some (_, length, rest) => return s.moveTo (after.newLine length) rest
  | none => return s.moveTo after rest

def documentMark? (s : Scan) (token : Token) : Option Scan := do
  let s ← (s.closeBlocks (-1)).dropPlace?
  return ((s.allowKey false).advance 3).add token

def openFlow? (s : Scan) (token : Token) : Option Scan := do
  let s ← s.savePlace?
  return (({ s with places := none :: s.places }.allowKey true).advance 1).add token

def closeFlow? (s : Scan) (token : Token) : Option Scan := do
  let s ← s.dropPlace?
  let places := if s.inFlow then s.places.drop 1 else s.places
  return (({ s with places }.allowKey false).advance 1).add token

def flowEntry? (s : Scan) : Option Scan := do
  let s ← s.dropPlace?
  return ((s.allowKey true).advance 1).add .flowEntry

def blockEntry? (s : Scan) : Option Scan :=
  if !s.inFlow && !s.allowsKey then none
  else do
    let s ← (s.openBlock s.column s.tokens.length .blockSequence).dropPlace?
    return ((s.allowKey true).advance 1).add .blockEntry

def key? (s : Scan) : Option Scan :=
  if !s.inFlow && !s.allowsKey then none
  else do
    let s ← (s.openBlock s.column s.tokens.length .blockMapping).dropPlace?
    return ((s.allowKey (!s.inFlow)).advance 1).add .key

/-- Reads a colon before a value. What stands before it is a key if one may have begun
there. -/
def value? (s : Scan) : Option Scan :=
  match s.places with
  | some place :: places =>
    let s := { s.insert place.number .key with places := none :: places }
    let s := s.openBlock place.position.column place.number .blockMapping
    some (((s.allowKey false).advance 1).add .value)
  | _ =>
    if !s.inFlow && !s.allowsKey then none
    else
      let s := s.openBlock s.column s.tokens.length .blockMapping
      some (((s.allowKey (!s.inFlow)).advance 1).add .value)

/-- Reads the name of an anchor or alias. -/
def name? (s : Scan) (cs : List Char) (token : String → Token) : Option Scan := do
  let s ← s.savePlace?
  let name := cs.takeWhile isWordChar
  let rest := cs.drop name.length
  let ends := endsWord rest || rest.head?.any fun c => c ∈ "?:,]\x7d%@`".toList
  if name.isEmpty || !ends then none
  else return ((s.allowKey false).advance (name.length + 1)).add (token (String.ofList name))

def tag? (s : Scan) : Option Scan := do
  let s ← s.savePlace?
  let (tag, rest) ← takeTag? s.rest
  if endsWord rest || (s.inFlow && rest.head? == some ',') then
    return ((s.allowKey false).advance (s.rest.length - rest.length)).add (.tag tag)
  else none

def block? (s : Scan) (isLiteral : Bool) (cs : List Char) : Option Scan := do
  let s ← s.dropPlace?
  let (text, position, rest) ← takeBlock? isLiteral s.indent (s.position.advance 1) cs
  return ((s.allowKey true).moveTo position rest).add (.scalar (String.ofList text) false)

def quoted? (s : Scan) (quote : Quote) (cs : List Char) : Option Scan := do
  let s ← s.savePlace?
  let (text, position, rest) ← takeQuoted? quote (s.position.advance 1) cs
  return ((s.allowKey false).moveTo position rest).add (.scalar (String.ofList text) false)

def plain? (s : Scan) : Option Scan := do
  let s ← s.savePlace?
  let scalar ← takePlain? s.inFlow (s.indent + 1).toNat s.position s.rest
  let s := s.moveTo scalar.position scalar.rest
  return (s.allowKey scalar.endsLine).add (.scalar (String.ofList scalar.text) true)

/-- The characters that no plain scalar begins with. -/
def isIndicator (c : Char) : Bool := c ∈ "-?:,[]\x7b\x7d#&*!|>'\"%@`".toList

/-- Whether a plain scalar may begin with a character before some others. -/
def startsPlain (inFlow : Bool) (c : Char) (cs : List Char) : Bool :=
  !(isBlank c || isBreak c || isIndicator c) || (c == '-' && !cs.head?.any isBlank)
    || (!inFlow && (c == '?' || c == ':') && !endsWord cs)

def token? (s : Scan) (c : Char) (cs : List Char) : Option Scan :=
  let isFirst := s.position.column == 0
  if isFirst && c == '%' then s.directive? cs
  else if isFirst && startsWithMarks '-' (c :: cs) then s.documentMark? .documentStart
  else if isFirst && startsWithMarks '.' (c :: cs) then s.documentMark? .documentEnd
  else if c = '[' then s.openFlow? .openSequence
  else if c = '{' then s.openFlow? .openMapping
  else if c = ']' then s.closeFlow? .closeSequence
  else if c = '}' then s.closeFlow? .closeMapping
  else if c = ',' then s.flowEntry?
  else if c == '-' && endsWord cs then s.blockEntry?
  else if c == '?' && (s.inFlow || endsWord cs) then s.key?
  else if c == ':' && (s.inFlow || endsWord cs) then s.value?
  else if c = '*' then s.name? cs .alias
  else if c = '&' then s.name? cs .anchor
  else if c = '!' then s.tag?
  else if c == '|' && !s.inFlow then s.block? true cs
  else if c == '>' && !s.inFlow then s.block? false cs
  else if c = '\'' then s.quoted? .single cs
  else if c = '"' then s.quoted? .double cs
  else if startsPlain s.inFlow c cs then s.plain?
  else none

/-- The tokens of the rest of a text. `fuel` bounds their number. -/
def run? : Nat → Scan → Option (List Token)
  | 0, _ => none
  | fuel + 1, s => do
    let s ← s.toToken.dropOldPlaces?
    let s := s.closeBlocks s.column
    match s.rest with
    | [] => s.finish?
    | c :: cs =>
      let s ← s.token? c cs
      run? fuel s

end Scan

def tokens? (text : String) : Option (List Token) :=
  let cs := text.toList
  if cs.all isAllowed then (Scan.start cs).run? (cs.length + 1) else none

end Wiring.Yaml
