import Wiring.Number.Reading
import Wiring.Xml.Character

/-!
Character data as written: references to characters, the ends of lines in text, and
white space in attribute values.
-/

namespace Wiring.Xml

/-- The character of a code point; one that no character has stands for U+FFFD. -/
def charOfCode (n : Nat) : Char :=
  if h : n.isValidChar then Char.ofNatAux n h else '\uFFFD'

/-- The name at the front of a text. -/
def takeName? : List Char → Option (List Char × List Char)
  | [] => none
  | c :: cs =>
    if isNameStart c then some (c :: cs.takeWhile isNameChar, cs.dropWhile isNameChar) else none

/-- A character of the five that have a name. -/
def namedChar? (name : String) : Option Char :=
  match name with
  | "quot" => some '"'
  | "amp" => some '&'
  | "apos" => some '\''
  | "lt" => some '<'
  | "gt" => some '>'
  | _ => none

/-- The character with the code written in some digits. -/
def codedChar? (base : Nat) (digits : List Char) : Option Char := do
  let n ← Number.digitsInBase? base digits
  let c := charOfCode n
  if n < Nat.pow 2 32 ∧ isChar c then some c else none

/-- The character of a reference, whose ampersand was read, and what follows it. -/
def takeReference? : List Char → Option (Char × List Char)
  | '#' :: 'x' :: cs =>
    let digits := cs.takeWhile fun c => (Number.hexValue? c).isSome
    match codedChar? 16 digits, cs.drop digits.length with
    | some c, ';' :: rest => some (c, rest)
    | _, _ => none
  | '#' :: cs =>
    let digits := cs.takeWhile Char.isDigit
    match codedChar? 10 digits, cs.drop digits.length with
    | some c, ';' :: rest => some (c, rest)
    | _, _ => none
  | cs =>
    match takeName? cs with
    | some (name, ';' :: rest) => (namedChar? (String.ofList name)).map fun c => (c, rest)
    | _ => none

/-- Adds a character to text, which is given backwards. A carriage return becomes a line
feed once it is known what follows it, and one before a line feed is dropped. -/
def pushText (done : List Char) (c : Char) (last : Bool) : List Char :=
  let ended := if last && c == '\r' then '\n' else c
  match done with
  | '\r' :: before => if c = '\n' then '\n' :: before else ended :: '\n' :: before
  | _ => ended :: done

/-- The characters of text as it is written, references replaced. The end of a line is
normalised only where it was not written as a reference: such a character, and the one
right behind it (`asIs`), are taken as they are. `fuel` bounds the number of steps. -/
def decodeTextFrom : Nat → List Char → Bool → List Char → Option (List Char)
  | _, done, _, [] => some done.reverse
  | 0, _, _, _ => none
  | fuel + 1, done, asIs, c :: cs =>
    if c = '&' then
      match takeReference? cs with
      | some (decoded, rest) => decodeTextFrom fuel (decoded :: done) true rest
      | none => none
    else if asIs then decodeTextFrom fuel (c :: done) false cs
    else decodeTextFrom fuel (pushText done c cs.isEmpty) false cs

/-- The characters of text as it is written. -/
def decodeText (cs : List Char) : Option (List Char) := decodeTextFrom cs.length [] false cs

/-- The characters of a CDATA section: only the ends of lines are normalised. -/
def decodeSection (cs : List Char) : List Char :=
  let rec go (done : List Char) : List Char → List Char
    | [] => done.reverse
    | c :: cs => go (pushText done c cs.isEmpty) cs
  go [] cs

/-- The characters of an attribute value: white space becomes spaces, references stay
as they are. `fuel` bounds the number of steps. -/
def decodeValueFrom : Nat → List Char → Option (List Char)
  | _, [] => some []
  | 0, _ => none
  | fuel + 1, c :: cs =>
    if c = '&' then do
      let (decoded, rest) ← takeReference? cs
      let decodedRest ← decodeValueFrom fuel rest
      return decoded :: decodedRest
    else if c = '\r' ∧ cs.head? = some '\n' then decodeValueFrom fuel cs
    else do
      let decodedRest ← decodeValueFrom fuel cs
      return (if isSpace c then ' ' else c) :: decodedRest

/-- The characters of an attribute value as it is written. -/
def decodeValue (cs : List Char) : Option (List Char) := decodeValueFrom cs.length cs

end Wiring.Xml
