import Wiring.Proofs.Elaboration.Inline
import Wiring.Proofs.Parity.Reading

/-!
What a mapping in structured text is. Its keys tell its form, and the form alone decides
which of its values are looked at and what they stand for.
-/

namespace Wiring.StructuredText

open Yaml (Mapping)

/-- The items of the first sequence under a key. -/
def sequenceUnder? (key : String) : Mapping → Option (List Yaml.Value)
  | [] => none
  | (k, .sequence items) :: entries =>
    if k.equals (.string key) then some items else sequenceUnder? key entries
  | _ :: entries => sequenceUnder? key entries

/-- The entries of the first mapping under a key. -/
def mappingUnder? (key : String) : Mapping → Option Mapping
  | [] => none
  | (k, .mapping inner) :: entries =>
    if k.equals (.string key) then some inner else mappingUnder? key entries
  | _ :: entries => mappingUnder? key entries

inductive Form where
  | reference (target : Yaml.Value)
  /-- A collection with its shape as the key of its items. -/
  | sequence (shape : Shape) (key : String) (items : List Yaml.Value)
  | dictionary (entries : Mapping)
  | declaration
  /-- A dictionary of its own entries. -/
  | plain

/-- The shapes with the keys that tell them, in the order in which they are looked for. -/
def shapes : List (Shape × String) :=
  [(.tuple, "tuple"), (.set, "set"), (.frozenSet, "frozenset"), (.list, "list")]

/-- The collection that some entries are, if one of them holds the items of a shape. -/
def collection? (entries : Mapping) : Option (Shape × String × List Yaml.Value) :=
  shapes.findSome? fun shape =>
    (sequenceUnder? shape.2 entries).map fun items => (shape.1, shape.2, items)

def form (entries : Mapping) : Form :=
  match Mapping.find? "ref" entries with
  | some target => .reference target
  | none =>
    match collection? entries with
    | some (shape, key, items) => .sequence shape key items
    | none =>
      match mappingUnder? "dict" entries with
      | some inner => .dictionary inner
      | none => if isDeclaration entries then .declaration else .plain

/-- What a mapping of a form stands for. -/
def Form.content (entries : Mapping) : Form → Content
  | .reference target => StructuredText.reference target
  | .sequence shape _ items => .sequence shape (contents items)
  | .dictionary inner => .mapping (writtenEntries inner)
  | .declaration => .inline (StructuredText.declaration entries)
  | .plain => .mapping (writtenEntries entries)

theorem itemsUnder_eq (key : String) (entries : Mapping) :
    itemsUnder key entries = (sequenceUnder? key entries).map contents := by
  induction entries with
  | nil => simp [itemsUnder, sequenceUnder?]
  | cons entry entries ih =>
    obtain ⟨k, v⟩ := entry
    by_cases hk : k.equals (.string key)
    · cases v <;> simp [itemsUnder, sequenceUnder?, hk, ih]
    · cases v <;> simp [itemsUnder, sequenceUnder?, hk, ih]

theorem entriesUnder_eq (key : String) (entries : Mapping) :
    entriesUnder key entries = (mappingUnder? key entries).map writtenEntries := by
  induction entries with
  | nil => simp [entriesUnder, mappingUnder?]
  | cons entry entries ih =>
    obtain ⟨k, v⟩ := entry
    by_cases hk : k.equals (.string key)
    · cases v <;> simp [entriesUnder, mappingUnder?, hk, ih]
    · cases v <;> simp [entriesUnder, mappingUnder?, hk, ih]

theorem content_mapping (entries : Mapping) :
    content (.mapping entries) = (form entries).content entries := by
  rw [content, form]
  cases Mapping.find? "ref" entries with
  | some target => rfl
  | none =>
    simp only [itemsUnder_eq, entriesUnder_eq, collection?, shapes, List.findSome?]
    cases sequenceUnder? "tuple" entries with
    | some items => rfl
    | none =>
      cases sequenceUnder? "set" entries with
      | some items => rfl
      | none =>
        cases sequenceUnder? "frozenset" entries with
        | some items => rfl
        | none =>
          cases sequenceUnder? "list" entries with
          | some items => rfl
          | none =>
            cases mappingUnder? "dict" entries with
            | some inner => rfl
            | none => cases isDeclaration entries <;> rfl

/-- What the lookups in some entries give for their form. -/
def Form.Tells (entries : Mapping) : Form → Prop
  | .reference target => Mapping.find? "ref" entries = some target
  | .sequence shape key items => Mapping.find? "ref" entries = none ∧
      collection? entries = some (shape, key, items)
  | .dictionary inner => Mapping.find? "ref" entries = none ∧ collection? entries = none ∧
      mappingUnder? "dict" entries = some inner
  | .declaration => Mapping.find? "ref" entries = none ∧ collection? entries = none ∧
      mappingUnder? "dict" entries = none ∧ isDeclaration entries = true
  | .plain => Mapping.find? "ref" entries = none ∧ collection? entries = none ∧
      mappingUnder? "dict" entries = none ∧ isDeclaration entries = false

theorem tells_form (entries : Mapping) : (form entries).Tells entries := by
  unfold form
  split
  · assumption
  · split
    · exact ⟨by assumption, by assumption⟩
    · split
      · exact ⟨by assumption, by assumption, by assumption⟩
      · split
        · exact ⟨by assumption, by assumption, by assumption, by assumption⟩
        · rename_i hdeclaration
          exact ⟨by assumption, by assumption, by assumption, by simpa using hdeclaration⟩

theorem form_of_tells {entries : Mapping} {told : Form} (htells : told.Tells entries) :
    form entries = told := by
  unfold form
  cases told with
  | reference target =>
    have href : Mapping.find? "ref" entries = some target := htells
    rw [href]
  | sequence shape key items =>
    obtain ⟨href, hcollection⟩ := htells
    rw [href, hcollection]
  | dictionary inner =>
    obtain ⟨href, hcollection, hdictionary⟩ := htells
    rw [href, hcollection, hdictionary]
  | declaration =>
    obtain ⟨href, hcollection, hdictionary, hdeclaration⟩ := htells
    rw [href, hcollection, hdictionary, hdeclaration]
    rfl
  | plain =>
    obtain ⟨href, hcollection, hdictionary, hdeclaration⟩ := htells
    rw [href, hcollection, hdictionary, hdeclaration]
    rfl

/-- A mapping of the form of a collection has its items under the key of the shape. -/
theorem sequenceUnder?_of_collection? {entries : Mapping} {shape : Shape} {key : String}
    {items : List Yaml.Value} (hcollection : collection? entries = some (shape, key, items)) :
    sequenceUnder? key entries = some items := by
  obtain ⟨found, -, hitems⟩ := List.exists_of_findSome?_eq_some hcollection
  obtain ⟨own, hunder, heq⟩ := Option.map_eq_some_iff.mp hitems
  cases heq
  exact hunder

theorem mem_of_sequenceUnder? {key : String} {entries : Mapping} {items : List Yaml.Value}
    (hitems : sequenceUnder? key entries = some items) :
    ∃ k, (k, .sequence items) ∈ entries := by
  induction entries with
  | nil => simp [sequenceUnder?] at hitems
  | cons entry entries ih =>
    obtain ⟨k, v⟩ := entry
    have hrest : sequenceUnder? key entries = some items →
        ∃ k', (k', Yaml.Value.sequence items) ∈ (k, v) :: entries := by
      intro h
      obtain ⟨k', hmem⟩ := ih h
      exact ⟨k', List.mem_cons_of_mem _ hmem⟩
    cases v with
    | sequence own =>
      rw [sequenceUnder?] at hitems
      split at hitems
      · obtain rfl := Option.some.inj hitems
        exact ⟨k, List.mem_cons_self⟩
      · exact hrest hitems
    | _ => exact hrest hitems

theorem mem_of_mappingUnder? {key : String} {entries inner : Mapping}
    (hinner : mappingUnder? key entries = some inner) :
    ∃ k, (k, .mapping inner) ∈ entries := by
  induction entries with
  | nil => simp [mappingUnder?] at hinner
  | cons entry entries ih =>
    obtain ⟨k, v⟩ := entry
    have hrest : mappingUnder? key entries = some inner →
        ∃ k', (k', Yaml.Value.mapping inner) ∈ (k, v) :: entries := by
      intro h
      obtain ⟨k', hmem⟩ := ih h
      exact ⟨k', List.mem_cons_of_mem _ hmem⟩
    cases v with
    | mapping own =>
      rw [mappingUnder?] at hinner
      split at hinner
      · obtain rfl := Option.some.inj hinner
        exact ⟨k, List.mem_cons_self⟩
      · exact hrest hinner
    | _ => exact hrest hinner

theorem positional_cons {v : Yaml.Value} (hne : v ≠ .null) (vs : List Yaml.Value) :
    positional (v :: vs) = .positional (content v) :: positional vs := by
  cases v with
  | null => exact absurd rfl hne
  | _ => simp [positional]

/-- The type whose shorthand some entries are, if nothing says otherwise. -/
def shorthandType? (entries : Mapping) : Option Builtin :=
  Builtin.all.find? fun type => (Mapping.find? type.name entries).isSome

/-- The type of which a declaration is nothing but a shorthand. -/
def shortType? (entries : Mapping) : Option Builtin :=
  if Declaration.isTyped (textAttribute (Mapping.find? "class" entries))
    (textAttribute (Mapping.find? "parent" entries)) then none
  else shorthandType? entries

theorem exists_of_shorthandType? {entries : Mapping} {type : Builtin}
    (htype : shorthandType? entries = some type) :
    ∃ value, Mapping.find? type.name entries = some value := by
  have hsome := List.find?_some htype
  exact Option.isSome_iff_exists.mp hsome

theorem shorthand_declaration (entries : Mapping) :
    (declaration entries).shorthand =
      match shorthandType? entries with
      | some type => .present type
          (((Mapping.find? type.name entries).map content).getD .nothing)
      | none => .absent := by
  have hfirst (types : List Builtin) :
      firstShorthand (types.map fun type => (type, contentUnder type.name entries)) =
        match types.find? fun type => (Mapping.find? type.name entries).isSome with
        | some type => .present type
            (((Mapping.find? type.name entries).map content).getD .nothing)
        | none => .absent := by
    induction types with
    | nil => rfl
    | cons type types ih =>
      rw [List.map_cons, contentUnder_eq]
      cases hfind : Mapping.find? type.name entries with
      | some value => simp [firstShorthand, hfind]
      | none => simpa [firstShorthand, hfind] using ih
  exact hfirst Builtin.all

end Wiring.StructuredText
