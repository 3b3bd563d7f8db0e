/-!
Characters of structured text, and positions in it. A line break is a line feed, a
carriage return, both together, or one of three further characters; the common ones are
all read as a line feed.
-/

namespace Wiring.Yaml

def isAllowed (c : Char) : Bool :=
  let n := c.toNat
  n == 0x09 || n == 0x0A || n == 0x0D || (0x20 ≤ n && n ≤ 0x7E) || n == 0x85
    || (0xA0 ≤ n && n ≤ 0xFFFD) || 0x10000 ≤ n

def isBlank (c : Char) : Bool := c == ' ' || c == '\t'

def isBreak (c : Char) : Bool :=
  c == '\n' || c == '\r' || c == '\u0085' || c == '\u2028' || c == '\u2029'

/-- The character that a line break is read as. -/
def breakText (c : Char) : Char := if c = '\u2028' ∨ c = '\u2029' then c else '\n'

def isWordChar (c : Char) : Bool := c.isAlphanum || c == '_' || c == '-'

/-- Whether a text is at its end or begins with white space. -/
def endsWord : List Char → Bool
  | [] => true
  | c :: _ => isBlank c || isBreak c

/-- Whether a text begins with a line of three given marks, which separates documents. -/
def startsWithMarks (mark : Char) : List Char → Bool
  | a :: b :: c :: rest => a == mark && b == mark && c == mark && endsWord rest
  | _ => false

/-- Whether a text begins with a mark between documents. -/
def isDocumentMark (cs : List Char) : Bool := startsWithMarks '-' cs || startsWithMarks '.' cs

/-- A place in a text: the characters before it, and its line and column. -/
structure Position where
  index : Nat
  line : Nat
  column : Nat
deriving DecidableEq

namespace Position

/-- The place some characters further on in the same line. -/
def advance (p : Position) (count : Nat) : Position :=
  { p with index := p.index + count, column := p.column + count }

/-- The beginning of the next line, after a break of some characters. -/
def newLine (p : Position) (count : Nat) : Position := ⟨p.index + count, p.line + 1, 0⟩

end Position

/-- The line break at the front of a text, with its length and what follows it. -/
def takeBreak? : List Char → Option (Char × Nat × List Char)
  | '\r' :: '\n' :: cs => some ('\n', 2, cs)
  | c :: cs => if isBreak c then some (breakText c, 1, cs) else none
  | [] => none

end Wiring.Yaml
