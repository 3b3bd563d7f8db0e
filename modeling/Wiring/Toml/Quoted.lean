import Wiring.Number.Reading

/-!
Quoted text in configuration text, on one line or on several. Basic text has escape
sequences and literal text has none. In text on several lines a quote may stand by
itself or twice, also before the closing quotes, and a break right after the opening
quotes does not count.
-/

namespace Wiring.Toml

def isBlank (c : Char) : Bool := c == ' ' || c == '\t'

/-- The characters that may stand in text and comments, line breaks apart. -/
def isText (c : Char) : Bool := c == '\t' || (' ' ≤ c && c != '\x7F')

/-- What follows the line break at the front of a text. -/
def takeNewline? : List Char → Option (List Char)
  | '\n' :: cs => some cs
  | '\r' :: '\n' :: cs => some cs
  | _ => none

/-- The character of an escape sequence without its backslash, with the length of the
sequence. -/
def takeEscape? : List Char → Option (Char × Nat)
  | 'b' :: _ => some ('\x08', 1)
  | 't' :: _ => some ('\t', 1)
  | 'n' :: _ => some ('\n', 1)
  | 'f' :: _ => some ('\x0C', 1)
  | 'r' :: _ => some ('\r', 1)
  | '"' :: _ => some ('"', 1)
  | '\\' :: _ => some ('\\', 1)
  | 'u' :: cs => code? 4 cs
  | 'U' :: cs => code? 8 cs
  | _ => none
where
  code? (count : Nat) (cs : List Char) : Option (Char × Nat) := do
    let digits := cs.take count
    let code ← Number.digitsInBase? 16 digits
    if digits.length = count ∧ code.isValidChar then some (Char.ofNat code, count + 1) else none

/-- Skips the blanks and line breaks at the front of a text. -/
def skipBlankLines : List Char → List Char
  | '\r' :: '\n' :: cs => skipBlankLines cs
  | c :: cs => if isBlank c || c == '\n' then skipBlankLines cs else c :: cs
  | [] => []

/-- The text after the opening quote of a text on one line, up to its closing quote.
`fuel` bounds its length. -/
def takeLine? (quote : Char) : Nat → List Char → Option (List Char × List Char)
  | 0, _ => none
  | _ + 1, [] => none
  | fuel + 1, c :: cs =>
    if c = quote then some ([], cs)
    else if c == '\\' && quote == '"' then do
      let (d, length) ← takeEscape? cs
      let (text, rest) ← takeLine? quote fuel (cs.drop length)
      return (d :: text, rest)
    else if isText c then do
      let (text, rest) ← takeLine? quote fuel cs
      return (c :: text, rest)
    else none

/-- The text after the opening quotes of a text on several lines, up to its closing
quotes. `fuel` bounds its length. -/
def takeLines? (quote : Char) : Nat → List Char → Option (List Char × List Char)
  | 0, _ => none
  | _ + 1, [] => none
  | fuel + 1, c :: cs =>
    if c = quote then
      let count := (c :: cs).takeWhile (· == quote) |>.length
      if count < 3 then do
        let (text, rest) ← takeLines? quote fuel (cs.drop (count - 1))
        return (List.replicate count quote ++ text, rest)
      else
        let inner := min (count - 3) 2
        some (List.replicate inner quote, cs.drop (inner + 2))
    else if c == '\\' && quote == '"' then
      match takeNewline? (cs.dropWhile isBlank) with
      | some rest => takeLines? quote fuel (skipBlankLines rest)
      | none => do
        let (d, length) ← takeEscape? cs
        let (text, rest) ← takeLines? quote fuel (cs.drop length)
        return (d :: text, rest)
    else
      match takeNewline? (c :: cs) with
      | some rest => do
        let (text, rest) ← takeLines? quote fuel rest
        return ('\n' :: text, rest)
      | none =>
        if isText c then do
          let (text, rest) ← takeLines? quote fuel cs
          return (c :: text, rest)
        else none

/-- The quoted text at the front of a text, on one line. -/
def takeQuotedLine? : List Char → Option (List Char × List Char)
  | '"' :: cs => takeLine? '"' (cs.length + 1) cs
  | '\'' :: cs => takeLine? '\'' (cs.length + 1) cs
  | _ => none

/-- The quoted text at the front of a text. -/
def takeQuoted? (cs : List Char) : Option (List Char × List Char) :=
  match cs with
  | '"' :: '"' :: '"' :: cs => takeLines? '"' (cs.length + 1) ((takeNewline? cs).getD cs)
  | '\'' :: '\'' :: '\'' :: cs => takeLines? '\'' (cs.length + 1) ((takeNewline? cs).getD cs)
  | _ => takeQuotedLine? cs

end Wiring.Toml
