import Wiring.Proofs.Elaboration.Agreement
import Wiring.Proofs.Parity.Portable

/-!
What a portable declaration is read as. Both dialects read back the same content from
what a declaration is written as, but for the element names that object markup tells.
-/

namespace Wiring

namespace StructuredText

open Yaml (Mapping)

theorem find?_cons (k v : Yaml.Value) (key : String) (rest : Mapping) :
    Mapping.find? key ((k, v) :: rest) =
      if k.equals (.string key) then some v else Mapping.find? key rest := by
  cases k <;> simp [Mapping.find?, Yaml.Value.equals]

theorem contentUnder_eq (key : String) (entries : Mapping) :
    contentUnder key entries = (Mapping.find? key entries).map content := by
  induction entries with
  | nil => simp [contentUnder, Mapping.find?]
  | cons entry entries ih =>
    obtain ⟨k, v⟩ := entry
    rw [contentUnder, find?_cons, ih]
    split <;> rfl

theorem arguments_eq (entries : Mapping) :
    arguments entries =
      match Mapping.find? "constructor-args" entries with
      | some (.sequence items) => positional items
      | some (.mapping inner) => named inner
      | some _ => [.ignored "constructor-args"]
      | none => [] := by
  induction entries with
  | nil => simp [arguments, Mapping.find?]
  | cons entry entries ih =>
    obtain ⟨k, v⟩ := entry
    by_cases hk : k.equals (.string "constructor-args")
    · cases v <;> simp [arguments, find?_cons, hk]
    · cases v <;> simp [arguments, find?_cons, hk, ih]

theorem properties_eq (entries : Mapping) :
    properties entries =
      match Mapping.find? "properties" entries with
      | some (.mapping inner) => namedProperties inner
      | some _ => [.ignored "properties"]
      | none => [] := by
  induction entries with
  | nil => simp [properties, Mapping.find?]
  | cons entry entries ih =>
    obtain ⟨k, v⟩ := entry
    by_cases hk : k.equals (.string "properties")
    · cases v <;> simp [properties, find?_cons, hk]
    · cases v <;> simp [properties, find?_cons, hk, ih]

theorem itemsUnder_eq_none {key : String} {entries : Mapping}
    (hkey : Mapping.find? key entries = none) : itemsUnder key entries = none := by
  induction entries with
  | nil => rw [itemsUnder]
  | cons entry entries ih =>
    obtain ⟨k, v⟩ := entry
    rw [find?_cons] at hkey
    split at hkey
    · cases hkey
    · rename_i hk
      cases v <;> simp [itemsUnder, hk, ih hkey]

theorem entriesUnder_eq_none {key : String} {entries : Mapping}
    (hkey : Mapping.find? key entries = none) : entriesUnder key entries = none := by
  induction entries with
  | nil => rw [entriesUnder]
  | cons entry entries ih =>
    obtain ⟨k, v⟩ := entry
    rw [find?_cons] at hkey
    split at hkey
    · cases hkey
    · rename_i hk
      cases v <;> simp [entriesUnder, hk, ih hkey]

theorem firstShorthand_eq_absent {types : List (Builtin × Option Content)}
    (htypes : ∀ entry ∈ types, entry.2 = none) : firstShorthand types = .absent := by
  induction types with
  | nil => rfl
  | cons entry types ih =>
    obtain ⟨type, content⟩ := entry
    obtain rfl : content = none := htypes (type, content) List.mem_cons_self
    rw [firstShorthand]
    exact ih fun entry hentry => htypes entry (List.mem_cons_of_mem _ hentry)

/-- The keys that make a mapping something other than an inline declaration or a plain
dictionary. -/
def shapeKeys : List String := ["ref", "tuple", "set", "frozenset", "list", "dict"]

/-- A mapping with the keys of a declaration and none of those is one. -/
theorem content_declaration {entries : Mapping}
    (hkeys : ∀ key ∈ shapeKeys, Mapping.find? key entries = none)
    (hdeclaration : isDeclaration entries) :
    content (.mapping entries) = .inline (declaration entries) := by
  have hitems {key : String} (hkey : key ∈ shapeKeys) : itemsUnder key entries = none :=
    itemsUnder_eq_none (hkeys key hkey)
  have hdict : entriesUnder "dict" entries = none :=
    entriesUnder_eq_none (hkeys "dict" (by simp [shapeKeys]))
  have href : Mapping.find? "ref" entries = none := hkeys "ref" (by simp [shapeKeys])
  rw [content, href]
  simp [hitems (by simp [shapeKeys] : "tuple" ∈ shapeKeys),
    hitems (by simp [shapeKeys] : "set" ∈ shapeKeys),
    hitems (by simp [shapeKeys] : "frozenset" ∈ shapeKeys),
    hitems (by simp [shapeKeys] : "list" ∈ shapeKeys), hdict, hdeclaration, declaration]

end StructuredText

namespace Markup

theorem arguments_append (v : Vocabulary) (uri : String) (nodes more : List Xml.Node) :
    arguments v uri (nodes ++ more) = arguments v uri nodes ++ arguments v uri more := by
  induction nodes with
  | nil => simp [arguments]
  | cons node nodes ih =>
    cases node with
    | element name attributes children =>
      rw [List.cons_append, arguments, arguments, ih]
      split
      · split <;> rfl
      · rfl
    | text => simpa [arguments] using ih
    | comment => simpa [arguments] using ih
    | instruction => simpa [arguments] using ih

theorem properties_append (v : Vocabulary) (uri : String) (nodes more : List Xml.Node) :
    properties v uri (nodes ++ more) = properties v uri nodes ++ properties v uri more := by
  induction nodes with
  | nil => simp [properties]
  | cons node nodes ih =>
    cases node with
    | element name attributes children =>
      rw [List.cons_append, properties, properties, ih]
      split
      · split <;> rfl
      · rfl
    | text => simpa [properties] using ih
    | comment => simpa [properties] using ih
    | instruction => simpa [properties] using ih

end Markup

end Wiring
