import Wiring.Number.Reading
import Wiring.Yaml.Gap

/-!
Quoted scalars. In single quotes a quote is written twice; in double quotes a backslash
begins an escape sequence, and before a line break it joins two lines without a space.
-/

namespace Wiring.Yaml

inductive Quote where
  | single
  | double
deriving DecidableEq

def Quote.char : Quote → Char
  | .single => '\''
  | .double => '"'

/-- The character that a backslash and another character stand for. -/
def escapedChar? : Char → Option Char
  | '0' => some '\x00'
  | 'a' => some '\x07'
  | 'b' => some '\x08'
  | 't' => some '\t'
  | '\t' => some '\t'
  | 'n' => some '\n'
  | 'v' => some '\x0B'
  | 'f' => some '\x0C'
  | 'r' => some '\r'
  | 'e' => some '\x1B'
  | ' ' => some ' '
  | '"' => some '"'
  | '/' => some '/'
  | '\\' => some '\\'
  | 'N' => some '\u0085'
  | '_' => some '\u00A0'
  | 'L' => some '\u2028'
  | 'P' => some '\u2029'
  | _ => none

/-- The number of hexadecimal digits after a character that begins a numeric escape. -/
def escapeDigits? : Char → Option Nat
  | 'x' => some 2
  | 'u' => some 4
  | 'U' => some 8
  | _ => none

/-- The character of a code, unless it is a surrogate or beyond the last character. -/
def charOfCode? (code : Nat) : Option Char :=
  if code.isValidChar then some (Char.ofNat code) else none

/-- The character that an escape sequence without its backslash stands for, with the
length of the sequence. -/
def takeEscape? : List Char → Option (Char × Nat)
  | [] => none
  | c :: cs =>
    match escapedChar? c with
    | some d => some (d, 1)
    | none => do
      let count ← escapeDigits? c
      let digits := cs.take count
      if digits.length < count then none
      else
        let code ← Number.digitsInBase? 16 digits
        let d ← charOfCode? code
        return (d, count + 1)

/-- A run of characters in a quoted scalar. -/
structure QuotedRun where
  text : List Char
  /-- The number of characters it is written in. -/
  length : Nat

/-- The characters in single quotes up to white space or the closing quote. -/
def takeSingleRun : List Char → QuotedRun
  | '\'' :: '\'' :: cs =>
    let run := takeSingleRun cs
    ⟨'\'' :: run.text, run.length + 2⟩
  | c :: cs =>
    if c = '\'' || isBlank c || isBreak c then ⟨[], 0⟩
    else
      let run := takeSingleRun cs
      ⟨c :: run.text, run.length + 1⟩
  | [] => ⟨[], 0⟩

/-- The characters in double quotes up to white space, the closing quote or an escaped
line break. `skipped` counts the characters that belong to an escape sequence already
read. -/
def takeDoubleRun? : Nat → List Char → Option QuotedRun
  | skipped + 1, _ :: cs => takeDoubleRun? skipped cs
  | _, [] => some ⟨[], 0⟩
  | 0, c :: cs =>
    if c = '"' || isBlank c || isBreak c then some ⟨[], 0⟩
    else if c = '\\' then
      if cs.head?.any isBreak then some ⟨[], 0⟩
      else do
        let (d, length) ← takeEscape? cs
        let run ← takeDoubleRun? length cs
        return ⟨d :: run.text, run.length + length + 1⟩
    else do
      let run ← takeDoubleRun? 0 cs
      return ⟨c :: run.text, run.length + 1⟩

/-- The run of characters at the front of a quoted text. -/
def takeRun? : Quote → List Char → Option QuotedRun
  | .single, cs => some (takeSingleRun cs)
  | .double, cs => takeDoubleRun? 0 cs

/-- The rest of a quoted scalar after some text. `fuel` bounds the number of runs. -/
def takeQuotedFrom? (quote : Quote) :
    Nat → List Char → Position → List Char → Option (List Char × Position × List Char)
  | 0, _, _, _ => none
  | fuel + 1, text, here, cs =>
    if here.column = 0 && isDocumentMark cs then none
    else do
      let run ← takeRun? quote cs
      let text := text ++ run.text
      let after := here.advance run.length
      match cs.drop run.length with
      | [] => none
      | c :: rest =>
        if c = quote.char then return (text, after.advance 1, rest)
        else if c = '\\' then
          let (_, length, rest) ← takeBreak? rest
          let (gap, place, rest) ← takeGap? 0 true ((after.advance 1).newLine length) rest
          takeQuotedFrom? quote fuel (text ++ gap.breaks) place rest
        else
          let (gap, place, rest) ← takeGap? 0 false after (c :: rest)
          takeQuotedFrom? quote fuel (text ++ gap.fold) place rest

/-- The text in quotes at the front of a text whose opening quote was read. -/
def takeQuoted? (quote : Quote) (here : Position) (cs : List Char) :
    Option (List Char × Position × List Char) :=
  takeQuotedFrom? quote (cs.length + 1) [] here cs

end Wiring.Yaml
