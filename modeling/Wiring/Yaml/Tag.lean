import Wiring.Number.Reading
import Wiring.Yaml.Character

/-!
Tags as written: a handle, which stands for the front of the tag, and a suffix. A tag in
angle brackets is complete and has an empty handle.
-/

namespace Wiring.Yaml

structure WrittenTag where
  handle : String
  suffix : String
deriving DecidableEq

def isTagChar (c : Char) : Bool := isWordChar c || c ∈ ";/?:@&=+$.!~*'()%".toList

/-- The characters that tags in angle brackets and the meanings of handles may hold. -/
def isUriChar (c : Char) : Bool := isTagChar c || c == ',' || c == '[' || c == ']'

/-- The byte written as a percent sign and two hexadecimal digits. -/
def takeOctet? : List Char → Option (Nat × List Char)
  | '%' :: a :: b :: cs => do
    let octet ← Number.digitsInBase? 16 [a, b]
    return (octet, cs)
  | _ => none

/-- The number of bytes of a character that begins with a byte, and what the byte
contributes to its code. -/
def leadingOctet? (octet : Nat) : Option (Nat × Nat) :=
  if octet < 0x80 then some (1, octet)
  else if 0xC0 ≤ octet ∧ octet < 0xE0 then some (2, octet - 0xC0)
  else if 0xE0 ≤ octet ∧ octet < 0xF0 then some (3, octet - 0xE0)
  else if 0xF0 ≤ octet ∧ octet < 0xF8 then some (4, octet - 0xF0)
  else none

/-- Further bytes of a character. -/
def takeTrailing? : Nat → Nat → List Char → Option (Nat × List Char)
  | 0, code, cs => some (code, cs)
  | count + 1, code, cs => do
    let (octet, rest) ← takeOctet? cs
    if 0x80 ≤ octet ∧ octet < 0xC0 then takeTrailing? count (64 * code + (octet - 0x80)) rest
    else none

/-- A character written as escaped bytes. -/
def takeEscapedChar? (cs : List Char) : Option (Char × List Char) := do
  let (octet, rest) ← takeOctet? cs
  let (width, code) ← leadingOctet? octet
  let (code, rest) ← takeTrailing? (width - 1) code rest
  return (if code.isValidChar then Char.ofNat code else '\uFFFD', rest)

/-- The part of a tag at the front of a text. `fuel` bounds its length. -/
def takeUri? (isPart : Char → Bool) : Nat → List Char → Option (List Char × List Char)
  | 0, cs => some ([], cs)
  | fuel + 1, cs =>
    match cs with
    | [] => some ([], [])
    | c :: rest =>
      if c = '%' then do
        let (d, rest) ← takeEscapedChar? cs
        let (uri, rest) ← takeUri? isPart fuel rest
        return (d :: uri, rest)
      else if isPart c then do
        let (uri, rest) ← takeUri? isPart fuel rest
        return (c :: uri, rest)
      else some ([], cs)

/-- A handle at the front of a text: an exclamation mark, a word, and perhaps another
exclamation mark. -/
def takeHandle? : List Char → Option (List Char × List Char)
  | '!' :: cs =>
    let word := cs.takeWhile isWordChar
    match cs.dropWhile isWordChar with
    | '!' :: rest => some ('!' :: (word ++ ['!']), rest)
    | rest => some ('!' :: word, rest)
  | _ => none

/-- A tag in angle brackets, after the first one. -/
def takeVerbatim? (cs : List Char) : Option (WrittenTag × List Char) := do
  let (uri, rest) ← takeUri? isUriChar cs.length cs
  match rest with
  | '>' :: rest => if uri.isEmpty then none else return (⟨"", String.ofList uri⟩, rest)
  | _ => none

/-- The tag at the front of a text. -/
def takeTag? (cs : List Char) : Option (WrittenTag × List Char) :=
  match cs with
  | '!' :: '<' :: rest => takeVerbatim? rest
  | _ => do
    let (handle, rest) ← takeHandle? cs
    let (uri, rest) ← takeUri? isTagChar cs.length rest
    if handle.length > 1 ∧ handle.getLast? = some '!' then
      if uri.isEmpty then none
      else return (⟨String.ofList handle, String.ofList uri⟩, rest)
    else
      let suffix := handle.drop 1 ++ uri
      if suffix.isEmpty then return (⟨"", "!"⟩, rest)
      else return (⟨"!", String.ofList suffix⟩, rest)

end Wiring.Yaml
