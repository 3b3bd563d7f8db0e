import Wiring.Text.Visibility

/-!
Quoted text. A quote, a backslash and the common controls are escaped by a backslash
and a letter; every other character that would not be seen, or that would join the
one before it, is escaped by its code point.
-/

namespace Wiring.Text

/-- The written form of one character inside quotes. -/
def escape (c : Char) : List Char :=
  if c = '\x00' then ['\\', '0']
  else if c = '\t' then ['\\', 't']
  else if c = '\r' then ['\\', 'r']
  else if c = '\n' then ['\\', 'n']
  else if c = '"' then ['\\', '"']
  else if c = '\\' then ['\\', '\\']
  else if isExtending c || isHidden c then
    '\\' :: 'u' :: '\x7b' :: (Nat.toDigits 16 c.toNat ++ ['\x7d'])
  else [c]

/-- The characters of a text between quotes, each in its written form. -/
def quotedChars (cs : List Char) : List Char := '"' :: (cs.flatMap escape ++ ['"'])

def quoted (s : String) : String := String.ofList (quotedChars s.toList)

end Wiring.Text
