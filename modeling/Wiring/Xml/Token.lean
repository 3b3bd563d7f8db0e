import Wiring.Xml.Character
import Wiring.Xml.Reference

/-!
Tokens of XML markup. Scanning checks how each piece of markup is spelled; how tags nest
and what names and references mean is left to the document. There are no tokens for
document type declarations, so a text with one has no tokens at all.
-/

namespace Wiring.Xml

/-- A name as written, with its prefix, which may be empty. -/
structure RawName where
  qualifier : String
  localName : String
deriving DecidableEq

/-- A piece of markup, or text between two of them. -/
inductive Token where
  | start (name : RawName) (attributes : List (RawName × List Char)) (isEmpty : Bool)
  | close (name : RawName)
  | text (chars : List Char)
  | section (chars : List Char)
  | comment (chars : List Char)
  | instruction (target content : List Char)

/-- The characters before the first place where `stop` stands, and those after it. -/
def takeUntil? (stop : List Char) : List Char → Option (List Char × List Char)
  | [] => none
  | c :: cs =>
    if stop.isPrefixOf (c :: cs) then some ([], (c :: cs).drop stop.length)
    else if isChar c then (takeUntil? stop cs).map fun (taken, rest) => (c :: taken, rest)
    else none

def holds (part : List Char) : List Char → Bool
  | [] => part.isEmpty
  | c :: cs => part.isPrefixOf (c :: cs) || holds part cs

/-- Whether a part of a name is empty or begins as a name does. -/
def startsAsName (cs : List Char) : Bool :=
  match cs with
  | [] => true
  | c :: _ => isNameStart c

/-- The name at the front of a text, split at its first colon. A second colon ends it. -/
def takeRawName? (cs : List Char) : Option (RawName × List Char) :=
  let isPart (c : Char) : Bool := isNameChar c && c != ':'
  let first := cs.takeWhile isPart
  let rest := cs.dropWhile isPart
  let (qualifier, localName, rest) := match rest with
    | ':' :: more => (first, more.takeWhile isPart, more.dropWhile isPart)
    | _ => ([], first, rest)
  if localName.isEmpty || !startsAsName qualifier || !startsAsName localName then none
  else some (⟨String.ofList qualifier, String.ofList localName⟩, rest)

/-- An equals sign and a quoted value. -/
def takeValue? (cs : List Char) : Option (List Char × List Char) :=
  match skipSpaces cs with
  | '=' :: cs =>
    match skipSpaces cs with
    | quote :: cs =>
      let value := cs.takeWhile fun c => c != quote && c != '<'
      if (quote = '"' ∨ quote = '\'') ∧ value.all isChar then
        match cs.drop value.length with
        | c :: rest => if c = quote then some (value, rest) else none
        | [] => none
      else none
    | [] => none
  | _ => none

/-- The rest of a start tag: its attributes, each after white space, and whether it is
closed at once. `fuel` bounds the number of attributes. -/
def takeAttributes? : Nat → List Char →
    Option (List (RawName × List Char) × Bool × List Char)
  | 0, _ => none
  | fuel + 1, cs =>
    match skipSpaces cs with
    | '/' :: '>' :: rest => some ([], true, rest)
    | '>' :: rest => some ([], false, rest)
    | rest =>
      if cs.head?.any isSpace then do
        let (name, rest) ← takeRawName? rest
        let (value, rest) ← takeValue? rest
        let (attributes, isEmpty, rest) ← takeAttributes? fuel rest
        return ((name, value) :: attributes, isEmpty, rest)
      else none

/-- The token that begins with `<`, which was read. -/
def takeMarkup? (cs : List Char) : Option (Token × List Char) :=
  match cs with
  | '!' :: '-' :: '-' :: cs => do
    let (content, rest) ← takeUntil? ['-', '-', '>'] cs
    if holds ['-', '-'] content || content.getLast? == some '-' then none
    else return (.comment content, rest)
  | '!' :: '[' :: 'C' :: 'D' :: 'A' :: 'T' :: 'A' :: '[' :: cs => do
    let (content, rest) ← takeUntil? [']', ']', '>'] cs
    return (.section content, rest)
  | '?' :: cs =>
    if ['x', 'm', 'l', ' '].isPrefixOf cs then none
    else do
      let (target, rest) ← takeName? cs
      let (content, rest) ← takeUntil? ['?', '>'] (skipSpaces rest)
      return (.instruction target content, rest)
  | '/' :: cs => do
    let (name, rest) ← takeRawName? cs
    match skipSpaces rest with
    | '>' :: rest => return (.close name, rest)
    | _ => none
  | cs => do
    let (name, rest) ← takeRawName? cs
    let (attributes, isEmpty, rest) ← takeAttributes? cs.length rest
    return (.start name attributes isEmpty, rest)

/-- Text up to the next markup. -/
def takeText? (cs : List Char) : Option (Token × List Char) :=
  let content := cs.takeWhile fun c => c != '<'
  if content.all isChar && !holds [']', ']', '>'] content then
    some (.text content, cs.drop content.length)
  else none

/-- The tokens of a text. `fuel` bounds their number. -/
def tokensFrom? : Nat → List Char → Option (List Token)
  | _, [] => some []
  | 0, _ => none
  | fuel + 1, cs => do
    let (token, rest) ← match cs with
      | '<' :: rest => takeMarkup? rest
      | _ => takeText? cs
    let tokens ← tokensFrom? fuel rest
    return token :: tokens

/-- One of the attributes of a declaration, and the white space after it. -/
def skipPseudoAttribute? (name : String) (cs : List Char) : Option (List Char) :=
  if name.toList.isPrefixOf cs then do
    let (_, rest) ← takeRawName? cs
    let (_, rest) ← takeValue? rest
    if rest.head?.any isSpace || ['?', '>'].isPrefixOf rest then return skipSpaces rest
    else none
  else some cs

/-- What follows the declaration at the front of a document, if there is one. It must
give a version. -/
def skipDeclaration? (cs : List Char) : Option (List Char) :=
  if "<?xml ".toList.isPrefixOf cs then do
    let rest := skipSpaces (cs.drop 5)
    if "version".toList.isPrefixOf rest then
      let rest ← skipPseudoAttribute? "version" rest
      let rest ← skipPseudoAttribute? "encoding" rest
      let rest ← skipPseudoAttribute? "standalone" rest
      match rest with
      | '?' :: '>' :: rest => return rest
      | _ => none
    else none
  else some cs

/-- The tokens of a document. A byte order mark at its front does not count. -/
def tokens? (s : String) : Option (List Token) := do
  let cs := match s.toList with
    | '\uFEFF' :: cs => cs
    | cs => cs
  let cs ← skipDeclaration? cs
  tokensFrom? cs.length cs

end Wiring.Xml
