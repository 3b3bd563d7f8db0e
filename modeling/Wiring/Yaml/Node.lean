import Wiring.Yaml.Token

/-!
Nodes of structured text, as they are nested in a document. A document is read from its
tokens; scalars are still text, and aliases are still names.
-/

namespace Wiring.Yaml

/-- What may stand before a node. -/
structure Properties where
  anchor : Option String
  tag : Option String
deriving DecidableEq

/-- A node, with aliases that refer to other nodes by some kind of reference. -/
inductive Node (Ref : Type) where
  | alias (target : Ref)
  | scalar (properties : Properties) (text : String) (isPlain : Bool)
  | sequence (properties : Properties) (items : List (Node Ref))
  | mapping (properties : Properties) (entries : List (Node Ref × Node Ref))

/-- Meanings of the handles of tags. -/
abbrev Handles := List (String × String)

namespace Handles

def builtin : Handles := [("!", "!"), ("!!", "tag:yaml.org,2002:")]

/-- The text of a tag, if its handle is known. -/
def resolve? (handles : Handles) (tag : WrittenTag) : Option String :=
  if tag.handle.isEmpty then some tag.suffix
  else (handles.find? fun h => h.1 == tag.handle).map fun h => h.2 ++ tag.suffix

end Handles

namespace Properties

def absent : Properties := ⟨none, none⟩

def isAbsent (p : Properties) : Bool := p.anchor.isNone && p.tag.isNone

/-- The properties at the front of some tokens: an anchor and a tag in either order. -/
def take? (handles : Handles) : List Token → Option (Properties × List Token)
  | .anchor name :: .tag tag :: rest => do
    let tag ← handles.resolve? tag
    return (⟨name, tag⟩, rest)
  | .anchor name :: rest => some (⟨name, none⟩, rest)
  | .tag tag :: .anchor name :: rest => do
    let tag ← handles.resolve? tag
    return (⟨name, tag⟩, rest)
  | .tag tag :: rest => do
    let tag ← handles.resolve? tag
    return (⟨none, tag⟩, rest)
  | tokens => some (Properties.absent, tokens)

end Properties

namespace Node

def empty : Node String := .scalar Properties.absent "" true

/-- Whether the first of some tokens is among given ones. -/
def isNext (tokens : List Token) (expected : List Token) : Bool :=
  tokens.head?.any fun token => token ∈ expected

mutual

/-- The node at the front of some tokens. Block collections occur only in a block, and a
sequence that is not indented only as a part of a mapping. `fuel` bounds the depth of
the reading. -/
def take? (handles : Handles) :
    Nat → Bool → Bool → List Token → Option (Node String × List Token)
  | 0, _, _, _ => none
  | _ + 1, _, _, .alias name :: rest => some (.alias name, rest)
  | fuel + 1, inBlock, mayAlign, tokens => do
    let (properties, rest) ← Properties.take? handles tokens
    match rest with
    | .scalar text isPlain :: rest => return (.scalar properties text isPlain, rest)
    | .openSequence :: rest =>
      let (items, rest) ← takeFlowItems? handles fuel true rest
      return (.sequence properties items, rest)
    | .openMapping :: rest =>
      let (entries, rest) ← takeFlowEntries? handles fuel true rest
      return (.mapping properties entries, rest)
    | _ =>
      if mayAlign && isNext rest [.blockEntry] then
        let (items, rest) ← takeAlignedItems? handles fuel rest
        return (.sequence properties items, rest)
      else if inBlock && isNext rest [.blockSequence] then
        let (items, rest) ← takeItems? handles fuel (rest.drop 1)
        return (.sequence properties items, rest)
      else if inBlock && isNext rest [.blockMapping] then
        let (entries, rest) ← takeEntries? handles fuel (rest.drop 1)
        return (.mapping properties entries, rest)
      else if properties.isAbsent then none
      else return (.scalar properties "" true, rest)

/-- A node that may be left out before some tokens. -/
def takeOptional? (handles : Handles) :
    Nat → Bool → Bool → List Token → List Token → Option (Node String × List Token)
  | 0, _, _, _, _ => none
  | fuel + 1, inBlock, mayAlign, stops, tokens =>
    if isNext tokens stops then some (empty, tokens)
    else take? handles fuel inBlock mayAlign tokens

/-- The value of an entry, which may be left out with its colon. -/
def takeValue? (handles : Handles) :
    Nat → Bool → List Token → List Token → Option (Node String × List Token)
  | 0, _, _, _ => none
  | fuel + 1, inBlock, stops, .value :: rest =>
    takeOptional? handles fuel inBlock inBlock stops rest
  | _ + 1, _, _, tokens => some (empty, tokens)

/-- The rest of a block sequence. -/
def takeItems? (handles : Handles) :
    Nat → List Token → Option (List (Node String) × List Token)
  | fuel + 1, .blockEntry :: rest => do
    let (item, rest) ← takeOptional? handles fuel true false [.blockEntry, .blockEnd] rest
    let (items, rest) ← takeItems? handles fuel rest
    return (item :: items, rest)
  | _ + 1, .blockEnd :: rest => some ([], rest)
  | _, _ => none

/-- The rest of a sequence that is aligned with the mapping it lies in. -/
def takeAlignedItems? (handles : Handles) :
    Nat → List Token → Option (List (Node String) × List Token)
  | 0, _ => none
  | fuel + 1, .blockEntry :: rest => do
    let (item, rest) ←
      takeOptional? handles fuel true false [.blockEntry, .key, .value, .blockEnd] rest
    let (items, rest) ← takeAlignedItems? handles fuel rest
    return (item :: items, rest)
  | _ + 1, tokens => some ([], tokens)

/-- The rest of a block mapping. -/
def takeEntries? (handles : Handles) :
    Nat → List Token → Option (List (Node String × Node String) × List Token)
  | fuel + 1, .key :: rest => do
    let (key, rest) ← takeOptional? handles fuel true true [.key, .value, .blockEnd] rest
    let (value, rest) ← takeValue? handles fuel true [.key, .value, .blockEnd] rest
    let (entries, rest) ← takeEntries? handles fuel rest
    return ((key, value) :: entries, rest)
  | _ + 1, .blockEnd :: rest => some ([], rest)
  | _, _ => none

/-- The rest of a flow sequence. An entry with a key is a mapping of its own. A key of
which nothing is written takes the token after it with it. -/
def takeFlowItems? (handles : Handles) :
    Nat → Bool → List Token → Option (List (Node String) × List Token)
  | 0, _, _ => none
  | _ + 1, _, .closeSequence :: rest => some ([], rest)
  | fuel + 1, isFirst, tokens => do
    let tokens ← if isFirst then some tokens else
      match tokens with
      | .flowEntry :: rest => some rest
      | _ => none
    match tokens with
    | .closeSequence :: rest => return ([], rest)
    | .key :: rest =>
      let isEmpty := isNext rest [.value, .flowEntry, .closeSequence]
      let (key, rest) ← if isEmpty then some (empty, rest.drop 1)
        else take? handles fuel false false rest
      let (value, rest) ← takeValue? handles fuel false [.flowEntry, .closeSequence] rest
      let (items, rest) ← takeFlowItems? handles fuel false rest
      return (.mapping Properties.absent [(key, value)] :: items, rest)
    | _ =>
      let (item, rest) ← take? handles fuel false false tokens
      let (items, rest) ← takeFlowItems? handles fuel false rest
      return (item :: items, rest)

/-- The rest of a flow mapping. An entry without a colon is a key. -/
def takeFlowEntries? (handles : Handles) :
    Nat → Bool → List Token → Option (List (Node String × Node String) × List Token)
  | 0, _, _ => none
  | _ + 1, _, .closeMapping :: rest => some ([], rest)
  | fuel + 1, isFirst, tokens => do
    let tokens ← if isFirst then some tokens else
      match tokens with
      | .flowEntry :: rest => some rest
      | _ => none
    match tokens with
    | .closeMapping :: rest => return ([], rest)
    | .key :: rest =>
      let stops := [.flowEntry, .closeMapping]
      let (key, rest) ← takeOptional? handles fuel false false (.value :: stops) rest
      let (value, rest) ← takeValue? handles fuel false stops rest
      let (entries, rest) ← takeFlowEntries? handles fuel false rest
      return ((key, value) :: entries, rest)
    | _ =>
      let (key, rest) ← take? handles fuel false false tokens
      let (entries, rest) ← takeFlowEntries? handles fuel false rest
      return ((key, empty) :: entries, rest)

end

end Node

/-- The directives in front of a document: whether there is one for the version, and
the handles that are declared. -/
structure Directives where
  hasVersion : Bool
  handles : Handles

namespace Directives

/-- The directives at the front of some tokens. A version must be 1.1 or 1.2, and nothing
may be declared twice. -/
def take? (directives : Directives) : List Token → Option (Directives × List Token)
  | .version major minor :: rest =>
    if !directives.hasVersion && major == 1 && (minor == 1 || minor == 2) then
      take? { directives with hasVersion := true } rest
    else none
  | .handle handle meaning :: rest =>
    if directives.handles.any fun h => h.1 == handle then none
    else take? { directives with handles := directives.handles ++ [(handle, meaning)] } rest
  | tokens => some (directives, tokens)

end Directives

/-- The tokens that begin a document with a mark, and directives before it. -/
def isExplicit : List Token → Bool
  | .version .. :: _ => true
  | .handle .. :: _ => true
  | .documentStart :: _ => true
  | _ => false

/-- A node that fills the rest of some tokens. -/
def wholeNode? (handles : Handles) (tokens : List Token) : Option (Node String) := do
  let (node, rest) ← Node.take? handles (3 * tokens.length + 3) true false tokens
  if rest.all (· == .documentEnd) then return node else none

/-- The only document in some tokens. -/
def document? (tokens : List Token) : Option (Node String) :=
  if isExplicit tokens then do
    let (directives, rest) ← Directives.take? ⟨false, []⟩ tokens
    match rest with
    | .documentStart :: rest => wholeNode? (directives.handles ++ Handles.builtin) rest
    | _ => none
  else wholeNode? Handles.builtin tokens

end Wiring.Yaml
