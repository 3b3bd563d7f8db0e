import Wiring.Yaml.Character

/-!
Block scalars: indented lines after a header. In the literal style line breaks stay; in
the folded style a single break between two lines that do not begin with a blank becomes
a space. The header may set the indentation, and what becomes of the breaks at the end.
-/

namespace Wiring.Yaml

/-- What becomes of the line breaks at the end of a block scalar. -/
inductive Chomping where
  /-- All are dropped. -/
  | strip
  /-- One is kept. -/
  | clip
  /-- All are kept. -/
  | keep
deriving DecidableEq

/-- The header of a block scalar after its style. -/
structure BlockHeader where
  chomping : Chomping
  /-- The indentation relative to the parent, if it is given. -/
  increment : Option Nat

def chomping? : Char → Option Chomping
  | '+' => some .keep
  | '-' => some .strip
  | _ => none

/-- The chomping at the front of a text, the usual one if none is given. -/
def takeChomping (cs : List Char) : Chomping × List Char :=
  match cs with
  | c :: rest =>
    match chomping? c with
    | some chomping => (chomping, rest)
    | none => (.clip, cs)
  | [] => (.clip, cs)

/-- The digit of an indentation at the front of a text, which must not be zero. -/
def takeIncrement? (cs : List Char) : Option (Option Nat × List Char) :=
  match cs with
  | c :: rest =>
    if c = '0' then none
    else if c.isDigit then some (some (c.toNat - '0'.toNat), rest)
    else some (none, cs)
  | [] => some (none, cs)

/-- The header at the front of a text. Its two parts come in either order. -/
def takeHeader? (cs : List Char) : Option (BlockHeader × List Char) :=
  match cs with
  | [] => some (⟨.clip, none⟩, [])
  | c :: rest =>
    match chomping? c with
    | some chomping => do
      let (increment, rest) ← takeIncrement? rest
      return (⟨chomping, increment⟩, rest)
    | none => do
      let (increment, rest) ← takeIncrement? cs
      let (chomping, rest) := if increment.isSome then takeChomping rest else (.clip, rest)
      return (⟨chomping, increment⟩, rest)

/-- What follows blanks and a comment, which must be a line break or the end. -/
def skipLineEnd? (cs : List Char) : Option (List Char) :=
  let rest := cs.dropWhile isBlank
  let rest := match rest with
    | '#' :: _ => rest.dropWhile fun c => !isBreak c
    | _ => rest
  match rest with
  | [] => some []
  | c :: _ => if isBreak c then some rest else none

/-- Line breaks and indentation in front of a line. -/
structure Margin where
  breaks : List Char
  /-- The widest indentation that was met. -/
  widest : Nat
  position : Position
  rest : List Char

/-- Reads the breaks and the indentation in front of a line, up to the column `limit` if
it is known. A tab must not stand in the indentation. -/
def takeMargin? (limit : Option Nat) (widest : Nat) (here : Position) :
    List Char → Option Margin
  | '\r' :: '\n' :: cs => do
    let margin ← takeMargin? limit (max widest here.column) (here.newLine 2) cs
    return { margin with breaks := '\n' :: margin.breaks }
  | c :: cs =>
    let isInside := limit.all fun n => here.column < n
    let widest := max widest here.column
    if c = ' ' ∧ isInside then takeMargin? limit widest (here.advance 1) cs
    else if c = '\t' ∧ isInside then none
    else if isBreak c then do
      let margin ← takeMargin? limit widest (here.newLine 1) cs
      return { margin with breaks := breakText c :: margin.breaks }
    else some ⟨[], widest, here, c :: cs⟩
  | [] => some ⟨[], max widest here.column, here, []⟩

/-- The lines of a block scalar that were read, before its end is chomped. -/
structure BlockText where
  text : List Char
  /-- The break of the last line. -/
  lastBreak : List Char
  startsBlank : Bool
  margin : Margin

/-- Reads the lines that are indented to a column. `fuel` bounds their number. -/
def takeLines? (isLiteral : Bool) (column : Nat) : Nat → BlockText → Option BlockText
  | 0, _ => none
  | fuel + 1, block =>
    let cs := block.margin.rest
    if block.margin.position.column ≠ column || cs.isEmpty then some block
    else do
      let startsBlank := cs.head?.any isBlank
      let isFolded := !isLiteral && block.lastBreak == ['\n'] && !block.startsBlank && !startsBlank
      let joint :=
        if isFolded then if block.margin.breaks.isEmpty then [' '] else []
        else block.lastBreak
      let line := cs.takeWhile fun c => !isBreak c
      let after := block.margin.position.advance line.length
      let text := block.text ++ joint ++ block.margin.breaks ++ line
      match takeBreak? (cs.drop line.length) with
      | some (c, length, rest) =>
        let margin ← takeMargin? (some column) 0 (after.newLine length) rest
        takeLines? isLiteral column fuel ⟨text, [c], startsBlank, margin⟩
      | none =>
        let margin ← takeMargin? (some column) 0 after []
        takeLines? isLiteral column fuel ⟨text, [], startsBlank, margin⟩

/-- The block scalar after its style character. `indent` is the column of the collection
it lies in, and -1 outside of any. -/
def takeBlock? (isLiteral : Bool) (indent : Int) (here : Position) (cs : List Char) :
    Option (List Char × Position × List Char) := do
  let (header, rest) ← takeHeader? cs
  let rest ← skipLineEnd? rest
  let after := here.advance (cs.length - rest.length)
  let (start, rest) := match takeBreak? rest with
    | some (_, length, rest) => (after.newLine length, rest)
    | none => (after, rest)
  let given := header.increment.map fun n => (max indent 0).toNat + n
  let margin ← takeMargin? given 0 start rest
  let column := given.getD (max margin.widest (max (indent + 1).toNat 1))
  let block ← takeLines? isLiteral column (rest.length + 1) ⟨[], [], false, margin⟩
  let text := match header.chomping with
    | .strip => block.text
    | .clip => block.text ++ block.lastBreak
    | .keep => block.text ++ block.lastBreak ++ block.margin.breaks
  return (text, block.margin.position, block.margin.rest)

end Wiring.Yaml
