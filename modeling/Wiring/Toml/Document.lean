import Wiring.Toml.Quoted
import Wiring.Toml.Scalar
import Wiring.Toml.Value

/-!
Documents of configuration text. A document is a sequence of statements, each on a line
of its own: a header, which begins a table, or a key with its value.
-/

namespace Wiring.Toml

def isKeyChar (c : Char) : Bool := c.isAlphanum || c == '-' || c == '_'

/-- How many arrays and inline tables may lie in one another, and how many parts a key
may have. -/
def depthLimit : Nat := 79

def skipBlanks (cs : List Char) : List Char := cs.dropWhile isBlank

/-- What follows a comment. -/
def takeComment? : List Char → Option (List Char)
  | '#' :: cs => some (cs.dropWhile isText)
  | _ => none

/-- Skips blanks and a comment up to the end of the line. -/
def skipLineEnd? (cs : List Char) : Option (List Char) :=
  let rest := skipBlanks cs
  let rest := (takeComment? rest).getD rest
  match rest with
  | [] => some []
  | rest => takeNewline? rest

/-- Skips blanks, comments and line breaks. `fuel` bounds the number of lines. -/
def skipLines? : Nat → List Char → Option (List Char)
  | 0, _ => none
  | fuel + 1, cs =>
    match skipBlanks cs with
    | '#' :: rest =>
      match takeNewline? (rest.dropWhile isText) with
      | some rest => skipLines? fuel rest
      | none => none
    | rest =>
      match takeNewline? rest with
      | some rest => skipLines? fuel rest
      | none => some rest

def takeKeyPart? (cs : List Char) : Option (String × List Char) :=
  match takeQuotedLine? cs with
  | some (text, rest) => some (String.ofList text, rest)
  | none =>
    let part := cs.takeWhile isKeyChar
    if part.isEmpty then none else some (String.ofList part, cs.drop part.length)

/-- A key: parts with dots between them, and blanks around each. `fuel` bounds the number
of parts. -/
def takeKey? : Nat → List Char → Option (List String × List Char)
  | 0, _ => none
  | fuel + 1, cs => do
    let (part, rest) ← takeKeyPart? (skipBlanks cs)
    match skipBlanks rest with
    | '.' :: rest =>
      let (parts, rest) ← takeKey? fuel rest
      return (part :: parts, rest)
    | rest => return ([part], rest)

structure Assignment where
  path : List String
  key : String
  value : Value

/-- A key, an equals sign and a value. -/
def takeAssignment? (value? : List Char → Option (Value × List Char)) (cs : List Char) :
    Option (Assignment × List Char) := do
  let (parts, rest) ← takeKey? depthLimit cs
  match rest with
  | '=' :: rest =>
    let (value, rest) ← value? (skipBlanks rest)
    let key ← parts.getLast?
    return (⟨parts.dropLast, key, value⟩, rest)
  | _ => none

/-- The rest of an array. `fuel` bounds the number of its items. -/
def takeItems? (value? : List Char → Option (Value × List Char)) :
    Nat → List Char → Option (List Value × List Char)
  | 0, _ => none
  | fuel + 1, cs => do
    match ← skipLines? (cs.length + 1) cs with
    | ']' :: rest => return ([], rest)
    | start =>
      let (item, rest) ← value? start
      match ← skipLines? (rest.length + 1) rest with
      | ',' :: rest =>
        let (items, rest) ← takeItems? value? fuel rest
        return (item :: items, rest)
      | ']' :: rest => return ([item], rest)
      | _ => none

/-- The rest of an inline table that has an entry at least. `fuel` bounds the number of
its entries. -/
def takeAssignments? (value? : List Char → Option (Value × List Char)) :
    Nat → List Char → Option (List Assignment × List Char)
  | 0, _ => none
  | fuel + 1, cs => do
    let (assignment, rest) ← takeAssignment? value? cs
    match skipBlanks rest with
    | ',' :: rest =>
      let (assignments, rest) ← takeAssignments? value? fuel rest
      return (assignment :: assignments, rest)
    | '}' :: rest => return ([assignment], rest)
    | _ => none

def inlineTable? (assignments : List Assignment) : Option Value := do
  let assign (table : Table) (a : Assignment) := Table.assign? a.path a.key a.value .inline table
  let table ← assignments.foldlM assign []
  return .table .inline table

/-- The value at the front of a text, with at most `depth` arrays and inline tables in
one another. -/
def takeValue? : Nat → List Char → Option (Value × List Char)
  | depth, '[' :: cs =>
    match depth with
    | 0 => none
    | depth + 1 => do
      let (items, rest) ← takeItems? (takeValue? depth) (cs.length + 1) cs
      return (.array items, rest)
  | depth, '{' :: cs =>
    match depth with
    | 0 => none
    | depth + 1 =>
      match skipBlanks cs with
      | '}' :: rest => some (.table .inline [], rest)
      | start => do
        let (assignments, rest) ← takeAssignments? (takeValue? depth) (start.length + 1) start
        let table ← inlineTable? assignments
        return (table, rest)
  | _, cs =>
    match takeQuoted? cs with
    | some (text, rest) => some (.text (String.ofList text), rest)
    | none => (takeScalar? cs).map fun rest => (.scalar, rest)

/-- A document that is being read: its outermost table, and the header whose table is
being filled. -/
structure Document where
  root : Table
  header : List String

namespace Document

def empty : Document := ⟨[], []⟩

/-- Fills in a value in the current table. -/
def assign? (document : Document) (a : Assignment) : Option Document := do
  let root ← Table.modify? false (Table.assign? a.path a.key a.value) document.header .header
    document.root
  return { document with root }

/-- Begins a table under a header. -/
def openHeader? (document : Document) (isRepeated : Bool) (parts : List String) :
    Option Document := do
  let key ← parts.getLast?
  let root ←
    if isRepeated then Table.openNext? parts.dropLast key document.root
    else Table.openTable? parts.dropLast key document.root
  return ⟨root, parts⟩

/-- Reads a header after its first bracket, or after both if it is repeated. -/
def takeHeader? (document : Document) (isRepeated : Bool) (cs : List Char) :
    Option (Document × List Char) := do
  let (parts, rest) ← takeKey? depthLimit cs
  let rest ← takeChar? ']' rest
  let rest ← if isRepeated then takeChar? ']' rest else some rest
  let document ← document.openHeader? isRepeated parts
  return (document, rest)

def takeStatement? (document : Document) (cs : List Char) : Option (Document × List Char) :=
  match cs with
  | '[' :: '[' :: rest => document.takeHeader? true rest
  | '[' :: rest => document.takeHeader? false rest
  | _ => do
    let (assignment, rest) ← takeAssignment? (takeValue? depthLimit) cs
    let document ← document.assign? assignment
    return (document, rest)

/-- Reads statements to the end of a text. `fuel` bounds their number. -/
def finish? : Nat → Document → List Char → Option Document
  | 0, _, _ => none
  | fuel + 1, document, cs =>
    match skipBlanks cs with
    | [] => some document
    | c :: rest =>
      if c == '#' || c == '\n' || c == '\r' then do
        let rest ← skipLineEnd? (c :: rest)
        document.finish? fuel rest
      else do
        let (document, rest) ← document.takeStatement? (c :: rest)
        let rest ← skipLineEnd? rest
        document.finish? fuel rest

end Document

/-- The outermost table of a document. A byte order mark at its front does not count. -/
def parse? (text : String) : Option Table := do
  let cs := match text.toList with
    | '\uFEFF' :: cs => cs
    | cs => cs
  let document ← Document.empty.finish? (cs.length + 1) cs
  return document.root

end Wiring.Toml
