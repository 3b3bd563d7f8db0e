import Wiring.Yaml.Node
import Wiring.Yaml.Schema

/-!
Values composed from nodes. An alias stands for a copy of the node that its anchor marks,
which may be the node it lies in, so the depth of a value and the number of copies are
limited.

Anchors are numbered by the number of names known before; a name that is used again gets
a new number, which a later name may get as well, and an alias stands for the last node
of its number.
-/

namespace Wiring.Yaml

/-- The anchors of a document met so far. -/
structure Anchors where
  /-- The number of each name. -/
  numbers : List (String × Nat)
  /-- How many nodes had an anchor. -/
  count : Nat
  /-- The last node of each number, by its place among the nodes with an anchor. -/
  places : List (Nat × Nat)
  /-- The nodes with an anchor, by their places. -/
  nodes : List (Nat × Node Nat)

namespace Anchors

def empty : Anchors := ⟨[], 0, [], []⟩

/-- Gives a name to the node that comes next. -/
def declare (anchors : Anchors) (name : String) : Anchors :=
  let number := anchors.numbers.length
  { anchors with
    numbers := (anchors.numbers.filter fun n => n.1 != name) ++ [(name, number)]
    count := anchors.count + 1
    places := (number, anchors.count) :: anchors.places }

def number? (anchors : Anchors) (name : String) : Option Nat :=
  (anchors.numbers.find? fun n => n.1 == name).map Prod.snd

/-- Keeps a node that had an anchor. -/
def keep (anchors : Anchors) (place : Nat) (node : Node Nat) : Anchors :=
  { anchors with nodes := (place, node) :: anchors.nodes }

/-- The node that a number stands for. -/
def node? (anchors : Anchors) (number : Nat) : Option (Node Nat) := do
  let (_, place) ← anchors.places.find? fun p => p.1 == number
  let (_, node) ← anchors.nodes.find? fun n => n.1 == place
  return node

/-- Declares the anchor of a node, if it has one. -/
def enter (anchors : Anchors) (anchor : Option String) : Anchors :=
  match anchor with
  | some name => anchors.declare name
  | none => anchors

/-- Keeps a node that was entered when there were `before` anchors. -/
def leave (anchors : Anchors) (before : Anchors) (anchor : Option String) (node : Node Nat) :
    Node Nat × Anchors :=
  (node, if anchor.isSome then anchors.keep before.count node else anchors)

end Anchors

mutual

/-- Replaces the names of aliases by numbers. An alias must come after its anchor. -/
def link? (anchors : Anchors) : Node String → Option (Node Nat × Anchors)
  | .alias name => do
    let number ← anchors.number? name
    return (.alias number, anchors)
  | .scalar properties text isPlain =>
    some ((anchors.enter properties.anchor).leave anchors properties.anchor
      (.scalar properties text isPlain))
  | .sequence properties items => do
    let (items, after) ← linkItems? (anchors.enter properties.anchor) items
    return after.leave anchors properties.anchor (.sequence properties items)
  | .mapping properties entries => do
    let (entries, after) ← linkEntries? (anchors.enter properties.anchor) entries
    return after.leave anchors properties.anchor (.mapping properties entries)
termination_by structural node => node

def linkItems? (anchors : Anchors) : List (Node String) → Option (List (Node Nat) × Anchors)
  | [] => some ([], anchors)
  | item :: items => do
    let (item, anchors) ← link? anchors item
    let (items, anchors) ← linkItems? anchors items
    return (item :: items, anchors)
termination_by structural items => items

def linkEntries? (anchors : Anchors) :
    List (Node String × Node String) → Option (List (Node Nat × Node Nat) × Anchors)
  | [] => some ([], anchors)
  | (key, value) :: entries => do
    let (key, anchors) ← link? anchors key
    let (value, anchors) ← link? anchors value
    let (entries, anchors) ← linkEntries? anchors entries
    return ((key, value) :: entries, anchors)
termination_by structural entries => entries

end

mutual

/-- The number of events that announce a node: one for a scalar or alias, and two for a
collection besides those of its parts. -/
def Node.events : Node Nat → Nat
  | .alias _ => 1
  | .scalar .. => 1
  | .sequence _ items => itemEvents items + 2
  | .mapping _ entries => entryEvents entries + 2
termination_by structural node => node

def itemEvents : List (Node Nat) → Nat
  | [] => 0
  | item :: items => item.events + itemEvents items
termination_by structural items => items

def entryEvents : List (Node Nat × Node Nat) → Nat
  | [] => 0
  | (key, value) :: entries => key.events + value.events + entryEvents entries
termination_by structural entries => entries

end

/-- A composition: the state is the number of copies that may still be made. -/
abbrev Composition := StateT Nat Option

namespace Composition

def refuse {α : Type} : Composition α := fun _ => none

/-- A part that was composed, if it was. -/
def ofOption {α : Type} (x : Option α) : Composition α := fun copies => x.map fun a => (a, copies)

/-- The node that an alias stands for; other nodes stand for themselves. -/
def target (anchors : Anchors) : Node Nat → Composition (Node Nat)
  | .alias number => fun copies =>
    match copies, anchors.node? number with
    | copies + 1, some node => some (node, copies)
    | _, _ => none
  | node => pure node

/-- Puts an entry behind others, none of which may have its key. -/
def addEntry (entries : Mapping) (key value : Value) : Composition Mapping :=
  if entries.hasKey key then refuse else pure (entries ++ [(key, value)])

/-- The value of a node. At most `depth` collections may lie in one another. -/
def value (anchors : Anchors) : Nat → Node Nat → Composition Value
  | depth, node => do
    match ← target anchors node with
    | .alias _ => refuse
    | .scalar properties text isPlain => ofOption (scalarValue? properties.tag text isPlain)
    | .sequence properties items =>
      match depth with
      | 0 => refuse
      | depth + 1 =>
        let values ← items.mapM (value anchors depth)
        return withTag properties.tag (.sequence values)
    | .mapping properties entries =>
      match depth with
      | 0 => refuse
      | depth + 1 =>
        let values ← entries.foldlM (fun done entry => do
          let key ← value anchors depth entry.1
          let content ← value anchors depth entry.2
          addEntry done key content) []
        return withTag properties.tag (.mapping values)

/-- Whether a node is a scalar of which nothing is written. -/
def isBare : Node Nat → Bool
  | .scalar _ text isPlain => isPlain && text.isEmpty
  | _ => false

/-- The entries of a node that is to be a mapping, whatever its tag. -/
def mapping (anchors : Anchors) (depth : Nat) (node : Node Nat) : Composition Mapping := do
  match ← target anchors node with
  | .mapping _ entries =>
    match ← value anchors depth (.mapping Properties.absent entries) with
    | .mapping entries => return entries
    | _ => refuse
  | node => if isBare node then return [] else refuse

/-- The mappings in a node that is to be a sequence, whatever its tag. -/
def mappings (anchors : Anchors) (depth : Nat) (node : Node Nat) :
    Composition (List Mapping) := do
  match ← target anchors node with
  | .sequence _ items =>
    match depth with
    | 0 => refuse
    | depth + 1 => items.mapM (mapping anchors depth)
  | node => if isBare node then return [] else refuse

/-- The key of an entry in the outermost mapping, which must be a scalar. -/
def fieldName (anchors : Anchors) (node : Node Nat) : Composition String := do
  match ← target anchors node with
  | .scalar _ text _ => return text
  | _ => refuse

/-- The mappings under the key `objects`, of which there must be exactly one. The values
of other keys are not looked at. -/
def objects (anchors : Anchors) (depth : Nat) (found : Option (List Mapping)) :
    List (Node Nat × Node Nat) → Composition (List Mapping)
  | [] => ofOption found
  | (key, node) :: entries => do
    let name ← fieldName anchors key
    if name = "objects" then
      if found.isSome then refuse
      else
        let found ← mappings anchors depth node
        objects anchors depth (some found) entries
    else objects anchors depth found entries

end Composition

/-- How many collections may lie in one another. -/
def depthLimit : Nat := 128

/-- The mappings under the key `objects` of a document. -/
def parseObjects? (text : String) : Option (List Mapping) := do
  let tokens ← tokens? text
  let document ← document? tokens
  let (root, anchors) ← link? Anchors.empty document
  match root with
  | .mapping _ entries =>
    let (found, _) ← (Composition.objects anchors (depthLimit - 1) none entries).run
      (100 * root.events)
    return found
  | _ => none

end Wiring.Yaml
