import Wiring.Proofs.Dialect.Inside
import Wiring.Proofs.Elaboration.Stripping

/-!
Structured text without what is skipped in it. Items and entries that have no value are
deleted, and so are entries with a key that is no text; which values are looked at is for
the form of each mapping to tell, and deleting never changes a form. What is left is read
as what it was read as before, without what was skipped.
-/

namespace Wiring.StructuredText

open Yaml (Mapping)

/-- Whether there are arguments that a declaration can have. -/
def hasArguments (entries : Mapping) : Bool :=
  match Mapping.find? "constructor-args" entries with
  | some (.sequence _) => true
  | some (.mapping _) => true
  | _ => false

/-- Whether there are properties that a declaration can have. -/
def hasProperties (entries : Mapping) : Bool :=
  match Mapping.find? "properties" entries with
  | some (.mapping _) => true
  | _ => false

mutual

/-- A value without what is skipped in it. -/
def cleaned : Yaml.Value → Yaml.Value
  | .mapping entries => .mapping <|
    match form entries with
    | .reference _ => entries
    | .sequence _ key _ => cleanedSequence key entries
    | .dictionary _ => cleanedDictionary entries
    | .declaration =>
      match shortType? entries with
      | some type => cleanedUnder type.name entries
      | none => cleanedParts (hasArguments entries) (hasProperties entries) entries
    | .plain => cleanedEntries entries
  | .sequence items => .sequence (cleanedItems items)
  | v => v
termination_by structural v => v

def cleanedItems : List Yaml.Value → List Yaml.Value
  | [] => []
  | v :: vs => if (content v).isUsable then cleaned v :: cleanedItems vs else cleanedItems vs
termination_by structural vs => vs

/-- Positional arguments stay, since their slots count. -/
def cleanedSlots : List Yaml.Value → List Yaml.Value
  | [] => []
  | v :: vs => cleaned v :: cleanedSlots vs
termination_by structural vs => vs

def cleanedEntries : List (Yaml.Value × Yaml.Value) → List (Yaml.Value × Yaml.Value)
  | [] => []
  | (k, v) :: entries =>
    if k.keyText?.isSome && (content v).isUsable then (k, cleaned v) :: cleanedEntries entries
    else cleanedEntries entries
termination_by structural entries => entries

/-- The entries of a collection, with the items under its key cleaned. -/
def cleanedSequence (key : String) :
    List (Yaml.Value × Yaml.Value) → List (Yaml.Value × Yaml.Value)
  | [] => []
  | (k, .sequence items) :: entries =>
    (k, .sequence (if k.equals (.string key) then cleanedItems items else items)) ::
      cleanedSequence key entries
  | entry :: entries => entry :: cleanedSequence key entries
termination_by structural entries => entries

/-- The entries of a dictionary that is told to be one. -/
def cleanedDictionary : List (Yaml.Value × Yaml.Value) → List (Yaml.Value × Yaml.Value)
  | [] => []
  | (k, .mapping inner) :: entries =>
    (k, .mapping (if k.equals (.string "dict") then cleanedEntries inner else inner)) ::
      cleanedDictionary entries
  | entry :: entries => entry :: cleanedDictionary entries
termination_by structural entries => entries

/-- The entries of a shorthand, with the value under its key cleaned. -/
def cleanedUnder (key : String) :
    List (Yaml.Value × Yaml.Value) → List (Yaml.Value × Yaml.Value)
  | [] => []
  | (k, v) :: entries =>
    (k, if k.equals (.string key) then cleaned v else v) :: cleanedUnder key entries
termination_by structural entries => entries

def cleanedArguments : Yaml.Value → Yaml.Value
  | .sequence items => .sequence (cleanedSlots items)
  | .mapping inner => .mapping (cleanedEntries inner)
  | v => v
termination_by structural v => v

def cleanedProperties : Yaml.Value → Yaml.Value
  | .mapping inner => .mapping (cleanedEntries inner)
  | v => v
termination_by structural v => v

/-- The entries of a declaration, with its arguments and properties cleaned. What is neither
a sequence nor a mapping is deleted. -/
def cleanedParts (withArguments withProperties : Bool) :
    List (Yaml.Value × Yaml.Value) → List (Yaml.Value × Yaml.Value)
  | [] => []
  | (k, v) :: entries =>
    if k.equals (.string "constructor-args") then
      if withArguments then
        (k, cleanedArguments v) :: cleanedParts withArguments withProperties entries
      else cleanedParts withArguments withProperties entries
    else if k.equals (.string "properties") then
      if withProperties then
        (k, cleanedProperties v) :: cleanedParts withArguments withProperties entries
      else cleanedParts withArguments withProperties entries
    else (k, v) :: cleanedParts withArguments withProperties entries
termination_by structural entries => entries

end

/-- The entries of a declaration without what is skipped in it. -/
def cleanedDeclaration (entries : Mapping) : Mapping :=
  match shortType? entries with
  | some type => cleanedUnder type.name entries
  | none => cleanedParts (hasArguments entries) (hasProperties entries) entries

/-- The entries of a mapping of a form without what is skipped in it. -/
def Form.cleaned (entries : Mapping) : Form → Mapping
  | .reference _ => entries
  | .sequence _ key _ => cleanedSequence key entries
  | .dictionary _ => cleanedDictionary entries
  | .declaration => cleanedDeclaration entries
  | .plain => cleanedEntries entries

theorem cleaned_mapping (entries : Mapping) :
    cleaned (.mapping entries) = .mapping ((form entries).cleaned entries) := by
  rw [cleaned]
  cases form entries <;> rfl

/-! Deleting never changes the form of a mapping. -/

theorem equals_string_inj {k : Yaml.Value} {key other : String} (hkey : k.equals (.string key))
    (hne : key ≠ other) : k.equals (.string other) = false := by
  cases k with
  | string s =>
    simp only [Yaml.Value.equals, beq_iff_eq] at hkey
    subst hkey
    simpa [Yaml.Value.equals] using hne
  | _ => simp [Yaml.Value.equals] at hkey

/-- A key that equals one text equals another exactly if the texts are the same. -/
theorem equals_string_of_equals {k : Yaml.Value} {key other : String}
    (hother : k.equals (.string other)) :
    k.equals (.string key) = decide (key = other) := by
  by_cases hkey : key = other
  · subst hkey
    simpa using hother
  · simpa [hkey] using equals_string_inj hother (Ne.symm hkey)

theorem find?_eq_none_iff (key : String) (entries : Mapping) :
    Mapping.find? key entries = none ↔
      ∀ entry ∈ entries, entry.1.equals (.string key) = false := by
  induction entries with
  | nil => simp [Mapping.find?]
  | cons entry entries ih =>
    obtain ⟨k, v⟩ := entry
    rw [find?_cons, List.forall_mem_cons, ← ih]
    by_cases hk : k.equals (.string key) <;> simp [hk]

theorem sequenceUnder?_eq_none_iff (key : String) (entries : Mapping) :
    sequenceUnder? key entries = none ↔
      ∀ k items, (k, .sequence items) ∈ entries → k.equals (.string key) = false := by
  induction entries with
  | nil => simp [sequenceUnder?]
  | cons entry entries ih =>
    obtain ⟨k, v⟩ := entry
    cases v with
    | sequence items =>
      rw [sequenceUnder?]
      by_cases hk : k.equals (.string key) <;>
        simp [hk, ih, or_imp, forall_and, forall_eq_apply_imp_iff]
    | _ => simp [sequenceUnder?, ih]

theorem mappingUnder?_eq_none_iff (key : String) (entries : Mapping) :
    mappingUnder? key entries = none ↔
      ∀ k inner, (k, .mapping inner) ∈ entries → k.equals (.string key) = false := by
  induction entries with
  | nil => simp [mappingUnder?]
  | cons entry entries ih =>
    obtain ⟨k, v⟩ := entry
    cases v with
    | mapping inner =>
      rw [mappingUnder?]
      by_cases hk : k.equals (.string key) <;>
        simp [hk, ih, or_imp, forall_and, forall_eq_apply_imp_iff]
    | _ => simp [mappingUnder?, ih]

theorem collection?_eq_none_iff (entries : Mapping) :
    collection? entries = none ↔ ∀ shape ∈ shapes, sequenceUnder? shape.2 entries = none := by
  simp [collection?, List.findSome?_eq_none_iff]

/-- Each entry has the key of one of some entries, with a value of the same kind. -/
def Narrows (other entries : Mapping) : Prop :=
  ∀ entry ∈ other, ∃ v, (entry.1, v) ∈ entries ∧
    (∀ items, entry.2 = .sequence items → ∃ before, v = .sequence before) ∧
    ∀ inner, entry.2 = .mapping inner → ∃ before, v = .mapping before

namespace Narrows

variable {other entries : Mapping}

theorem nil (entries : Mapping) : Narrows [] entries := nofun

theorem tail (hnarrows : Narrows other entries) (entry : Yaml.Value × Yaml.Value) :
    Narrows other (entry :: entries) := by
  intro e he
  obtain ⟨v, hmem, hkind⟩ := hnarrows e he
  exact ⟨v, List.mem_cons_of_mem _ hmem, hkind⟩

theorem cons {k v w : Yaml.Value} (hnarrows : Narrows other entries)
    (hsequence : ∀ items, w = .sequence items → ∃ before, v = .sequence before)
    (hmapping : ∀ inner, w = .mapping inner → ∃ before, v = .mapping before) :
    Narrows ((k, w) :: other) ((k, v) :: entries) := by
  intro e he
  rcases List.mem_cons.mp he with rfl | he
  · exact ⟨v, List.mem_cons_self, hsequence, hmapping⟩
  · exact hnarrows.tail (k, v) e he

theorem cons_same (hnarrows : Narrows other entries) (entry : Yaml.Value × Yaml.Value) :
    Narrows (entry :: other) (entry :: entries) :=
  hnarrows.cons (fun items hitems => ⟨items, hitems⟩) fun inner hinner => ⟨inner, hinner⟩

theorem find?_eq_none (hnarrows : Narrows other entries) {key : String}
    (hnone : Mapping.find? key entries = none) : Mapping.find? key other = none := by
  rw [find?_eq_none_iff] at hnone ⊢
  intro entry hentry
  obtain ⟨v, hmem, -⟩ := hnarrows entry hentry
  exact hnone (entry.1, v) hmem

theorem sequenceUnder?_eq_none (hnarrows : Narrows other entries) {key : String}
    (hnone : sequenceUnder? key entries = none) : sequenceUnder? key other = none := by
  rw [sequenceUnder?_eq_none_iff] at hnone ⊢
  intro k items hentry
  obtain ⟨v, hmem, hsequence, -⟩ := hnarrows _ hentry
  obtain ⟨before, rfl⟩ := hsequence items rfl
  exact hnone k before hmem

theorem mappingUnder?_eq_none (hnarrows : Narrows other entries) {key : String}
    (hnone : mappingUnder? key entries = none) : mappingUnder? key other = none := by
  rw [mappingUnder?_eq_none_iff] at hnone ⊢
  intro k inner hentry
  obtain ⟨v, hmem, -, hmapping⟩ := hnarrows _ hentry
  obtain ⟨before, rfl⟩ := hmapping inner rfl
  exact hnone k before hmem

theorem collection?_eq_none (hnarrows : Narrows other entries)
    (hnone : collection? entries = none) : collection? other = none := by
  rw [collection?_eq_none_iff] at hnone ⊢
  intro shape hshape
  exact hnarrows.sequenceUnder?_eq_none (hnone shape hshape)

end Narrows

theorem cleaned_eq_sequence {v : Yaml.Value} {items : List Yaml.Value}
    (hcleaned : cleaned v = .sequence items) : ∃ before, v = .sequence before := by
  cases v with
  | sequence before => exact ⟨before, rfl⟩
  | _ => simp [cleaned] at hcleaned

theorem cleaned_eq_mapping {v : Yaml.Value} {inner : Mapping}
    (hcleaned : cleaned v = .mapping inner) : ∃ before, v = .mapping before := by
  cases v with
  | mapping before => exact ⟨before, rfl⟩
  | _ => simp [cleaned] at hcleaned

theorem narrows_cleanedEntries (entries : Mapping) : Narrows (cleanedEntries entries) entries := by
  induction entries with
  | nil =>
    rw [cleanedEntries]
    exact .nil []
  | cons entry entries ih =>
    obtain ⟨k, v⟩ := entry
    rw [cleanedEntries]
    split
    · exact ih.cons (fun _ => cleaned_eq_sequence) fun _ => cleaned_eq_mapping
    · exact ih.tail (k, v)

theorem narrows_cleanedUnder (key : String) (entries : Mapping) :
    Narrows (cleanedUnder key entries) entries := by
  induction entries with
  | nil =>
    rw [cleanedUnder]
    exact .nil []
  | cons entry entries ih =>
    obtain ⟨k, v⟩ := entry
    rw [cleanedUnder]
    split
    · exact ih.cons (fun _ => cleaned_eq_sequence) fun _ => cleaned_eq_mapping
    · exact ih.cons_same (k, v)

theorem narrows_cleanedSequence (key : String) (entries : Mapping) :
    Narrows (cleanedSequence key entries) entries := by
  induction entries with
  | nil =>
    rw [cleanedSequence]
    exact .nil []
  | cons entry entries ih =>
    obtain ⟨k, v⟩ := entry
    cases v with
    | sequence items =>
      rw [cleanedSequence]
      exact ih.cons (fun _ _ => ⟨items, rfl⟩) nofun
    | _ =>
      rw [cleanedSequence]
      · exact ih.cons_same _
      · exact nofun

theorem narrows_cleanedDictionary (entries : Mapping) :
    Narrows (cleanedDictionary entries) entries := by
  induction entries with
  | nil =>
    rw [cleanedDictionary]
    exact .nil []
  | cons entry entries ih =>
    obtain ⟨k, v⟩ := entry
    cases v with
    | mapping inner =>
      rw [cleanedDictionary]
      exact ih.cons nofun fun _ _ => ⟨inner, rfl⟩
    | _ =>
      rw [cleanedDictionary]
      · exact ih.cons_same _
      · exact nofun

theorem sequenceUnder?_cleanedSequence (key other : String) (entries : Mapping) :
    sequenceUnder? other (cleanedSequence key entries) =
      (sequenceUnder? other entries).map fun items =>
        if key = other then cleanedItems items else items := by
  induction entries with
  | nil => simp [cleanedSequence, sequenceUnder?]
  | cons entry entries ih =>
    obtain ⟨k, v⟩ := entry
    cases v with
    | sequence items =>
      rw [cleanedSequence, sequenceUnder?, sequenceUnder?, ih]
      by_cases hother : k.equals (.string other)
      · simp [hother, equals_string_of_equals hother]
      · simp [hother]
    | _ => simpa [cleanedSequence, sequenceUnder?] using ih

theorem collection?_cleanedSequence {entries : Mapping} {shape : Shape} {key : String}
    {items : List Yaml.Value} (hcollection : collection? entries = some (shape, key, items)) :
    collection? (cleanedSequence key entries) = some (shape, key, cleanedItems items) := by
  have hmap : collection? (cleanedSequence key entries) =
      (collection? entries).map fun found =>
        (found.1, found.2.1, if key = found.2.1 then cleanedItems found.2.2 else found.2.2) := by
    unfold collection?
    rw [List.map_findSome?]
    congr 1
    funext found
    rw [sequenceUnder?_cleanedSequence, Function.comp_apply]
    cases sequenceUnder? found.2 entries <;> rfl
  rw [hmap, hcollection]
  simp

theorem mappingUnder?_cleanedDictionary (entries : Mapping) :
    mappingUnder? "dict" (cleanedDictionary entries) =
      (mappingUnder? "dict" entries).map cleanedEntries := by
  induction entries with
  | nil => simp [cleanedDictionary, mappingUnder?]
  | cons entry entries ih =>
    obtain ⟨k, v⟩ := entry
    cases v with
    | mapping inner =>
      rw [cleanedDictionary, mappingUnder?, mappingUnder?, ih]
      by_cases hk : k.equals (.string "dict") <;> simp [hk]
    | _ => simpa [cleanedDictionary, mappingUnder?] using ih

theorem find?_cleanedUnder (key other : String) (entries : Mapping) :
    Mapping.find? other (cleanedUnder key entries) =
      (Mapping.find? other entries).map fun v => if key = other then cleaned v else v := by
  induction entries with
  | nil => simp [cleanedUnder, Mapping.find?]
  | cons entry entries ih =>
    obtain ⟨k, v⟩ := entry
    rw [cleanedUnder, find?_cons, find?_cons, ih]
    by_cases hother : k.equals (.string other)
    · simp [hother, equals_string_of_equals hother]
    · simp [hother]

theorem find?_cleanedParts {key : String} (harguments : key ≠ "constructor-args")
    (hproperties : key ≠ "properties") (a p : Bool) (entries : Mapping) :
    Mapping.find? key (cleanedParts a p entries) = Mapping.find? key entries := by
  induction entries with
  | nil => rw [cleanedParts]
  | cons entry entries ih =>
    obtain ⟨k, v⟩ := entry
    rw [cleanedParts, find?_cons]
    by_cases hargs : k.equals (.string "constructor-args")
    · cases a <;> simp [hargs, equals_string_inj hargs harguments.symm, find?_cons, ih]
    · by_cases hprops : k.equals (.string "properties")
      · cases p <;>
          simp [hargs, hprops, equals_string_inj hprops hproperties.symm, find?_cons, ih]
      · simp [hargs, hprops, find?_cons, ih]

theorem find?_cleanedParts_arguments (a p : Bool) (entries : Mapping) :
    Mapping.find? "constructor-args" (cleanedParts a p entries) =
      if a then (Mapping.find? "constructor-args" entries).map cleanedArguments else none := by
  induction entries with
  | nil => cases a <;> simp [cleanedParts, Mapping.find?]
  | cons entry entries ih =>
    obtain ⟨k, v⟩ := entry
    rw [cleanedParts, find?_cons]
    by_cases hargs : k.equals (.string "constructor-args")
    · cases a <;> simp [hargs, find?_cons, ih]
    · by_cases hprops : k.equals (.string "properties")
      · cases p <;> simp [hargs, hprops, find?_cons, ih]
      · simp [hargs, hprops, find?_cons, ih]

theorem find?_cleanedParts_properties (a p : Bool) (entries : Mapping) :
    Mapping.find? "properties" (cleanedParts a p entries) =
      if p then (Mapping.find? "properties" entries).map cleanedProperties else none := by
  induction entries with
  | nil => cases p <;> simp [cleanedParts, Mapping.find?]
  | cons entry entries ih =>
    obtain ⟨k, v⟩ := entry
    rw [cleanedParts, find?_cons]
    by_cases hargs : k.equals (.string "constructor-args")
    · have hprops := equals_string_inj hargs (by decide : "constructor-args" ≠ "properties")
      cases a <;> simp [hargs, hprops, find?_cons, ih]
    · by_cases hprops : k.equals (.string "properties")
      · cases p <;> simp [hargs, hprops, find?_cons, ih]
      · simp [hargs, hprops, find?_cons, ih]

/-! What is read from what is left. -/

/-- A value without what is skipped in it is read as before, but for that. -/
def ReadsStripped (v : Yaml.Value) : Prop := content (cleaned v) = (content v).stripped

section Lists

theorem isUsable_item (written : Content) : (item written).isUsable = written.isUsable := by
  cases written <;> rfl

theorem item_of_isUsable {written : Content} (husable : written.isUsable) :
    item written = written := by
  cases written with
  | unusable complaints => cases husable
  | _ => rfl

theorem ReadsStripped.isUsable {v : Yaml.Value} (hreads : ReadsStripped v) :
    (content (cleaned v)).isUsable = (content v).isUsable := by
  rw [hreads, Content.isUsable_stripped]

theorem contents_cleanedItems {items : List Yaml.Value} (hreads : ∀ v ∈ items, ReadsStripped v) :
    contents (cleanedItems items) = strippedItems (contents items) := by
  induction items with
  | nil => rw [cleanedItems, contents, strippedItems]
  | cons v items ih =>
    obtain ⟨hv, hitems⟩ := List.forall_mem_cons.mp hreads
    cases husable : (content v).isUsable with
    | true =>
      have hcleaned : (content (cleaned v)).isUsable := by rw [hv.isUsable, husable]
      rw [cleanedItems, if_pos husable, contents, contents, strippedItems, isUsable_item,
        if_pos husable, item_of_isUsable husable, item_of_isUsable hcleaned, hv, ih hitems]
    | false =>
      rw [cleanedItems, contents, strippedItems, isUsable_item, husable,
        if_neg Bool.false_ne_true, if_neg Bool.false_ne_true, ih hitems]

/-- Some entries are left of others: those with a text as their key and a usable value, and
each value is read without what is skipped in it. -/
inductive Leaves : Mapping → Mapping → Prop
  | nil : Leaves [] []
  | kept {k v w : Yaml.Value} {key : String} {entries rest : Mapping}
      (hkey : k.keyText? = some key) (husable : (content v).isUsable)
      (hreads : content w = (content v).stripped) (hrest : Leaves entries rest) :
      Leaves ((k, v) :: entries) ((k, w) :: rest)
  | unusable {k v : Yaml.Value} {key : String} {entries rest : Mapping}
      (hkey : k.keyText? = some key) (husable : (content v).isUsable = false)
      (hrest : Leaves entries rest) : Leaves ((k, v) :: entries) rest
  | keyless {k v : Yaml.Value} {entries rest : Mapping} (hkey : k.keyText? = none)
      (hrest : Leaves entries rest) : Leaves ((k, v) :: entries) rest

theorem leaves_cleanedEntries {entries : Mapping}
    (hreads : ∀ entry ∈ entries, ReadsStripped entry.2) :
    Leaves entries (cleanedEntries entries) := by
  induction entries with
  | nil =>
    rw [cleanedEntries]
    exact .nil
  | cons entry entries ih =>
    obtain ⟨k, v⟩ := entry
    obtain ⟨hv, hentries⟩ := List.forall_mem_cons.mp hreads
    rw [cleanedEntries]
    cases hkey : k.keyText? with
    | none => exact .keyless hkey (ih hentries)
    | some key =>
      cases husable : (content v).isUsable with
      | true => exact .kept hkey husable hv (ih hentries)
      | false => exact .unusable hkey husable (ih hentries)

namespace Leaves

variable {entries rest : Mapping} (hleaves : Leaves entries rest)
include hleaves

theorem writtenEntries_eq : writtenEntries rest = strippedEntries (writtenEntries entries) := by
  induction hleaves with
  | nil => simp [writtenEntries, strippedEntries]
  | kept hkey husable hreads _ ih =>
    simp [writtenEntries, strippedEntries, hkey, husable, hreads, ih]
  | unusable hkey husable _ ih => simp [writtenEntries, strippedEntries, hkey, husable, ih]
  | keyless hkey _ ih => simp [writtenEntries, strippedEntries, hkey, ih]

theorem named_eq : named rest = strippedArguments (named entries) := by
  induction hleaves with
  | nil => simp [named, strippedArguments]
  | kept hkey husable hreads _ ih =>
    simp [named, strippedArguments, hkey, husable, hreads, ih]
  | unusable hkey husable _ ih => simp [named, strippedArguments, hkey, husable, ih]
  | keyless hkey _ ih => simp [named, strippedArguments, hkey, ih]

theorem namedProperties_eq :
    namedProperties rest = strippedProperties (namedProperties entries) := by
  induction hleaves with
  | nil => simp [namedProperties, strippedProperties]
  | kept hkey husable hreads _ ih =>
    simp [namedProperties, strippedProperties, hkey, husable, hreads, ih]
  | unusable hkey husable _ ih => simp [namedProperties, strippedProperties, hkey, husable, ih]
  | keyless hkey _ ih => simp [namedProperties, strippedProperties, hkey, ih]

end Leaves

theorem positional_cleanedSlots {items : List Yaml.Value} (hreads : ∀ v ∈ items, ReadsStripped v) :
    positional (cleanedSlots items) = strippedArguments (positional items) := by
  induction items with
  | nil => rw [cleanedSlots, positional, strippedArguments]
  | cons v items ih =>
    obtain ⟨hv, hitems⟩ := List.forall_mem_cons.mp hreads
    by_cases hnull : v = .null
    · subst hnull
      simp [cleanedSlots, cleaned, positional, strippedArguments, Content.nothing,
        Content.stripped, ih hitems]
    · have hcleaned : cleaned v ≠ .null := by
        cases v with
        | null => exact absurd rfl hnull
        | _ => simp [cleaned]
      rw [cleanedSlots, positional_cons hcleaned, positional_cons hnull, strippedArguments, hv,
        ih hitems]

end Lists

section Declarations

/-- The keys of the attributes of a declaration. -/
def attributeKeys : List String := ["object", "class", "scope", "lazy-init", "abstract", "parent"]

theorem declarationOf_congr {entries other : Mapping}
    (hkeys : ∀ key ∈ attributeKeys, Mapping.find? key other = Mapping.find? key entries)
    (shorthand : Shorthand) (arguments : List WrittenArgument)
    (properties : List WrittenProperty) :
    declarationOf other shorthand arguments properties =
      declarationOf entries shorthand arguments properties := by
  simp only [declarationOf, hkeys "object" (by decide), hkeys "class" (by decide),
    hkeys "scope" (by decide), hkeys "lazy-init" (by decide), hkeys "abstract" (by decide),
    hkeys "parent" (by decide)]

theorem isShort_declaration (entries : Mapping) :
    Declaration.isShort (declaration entries).typeName (declaration entries).parent
      (declaration entries).shorthand = (shortType? entries).isSome := by
  rw [shorthand_declaration, shortType?]
  cases shorthandType? entries with
  | none => simp [Declaration.isShort]
  | some type =>
    change (!Declaration.isTyped (textAttribute (Mapping.find? "class" entries))
      (textAttribute (Mapping.find? "parent" entries))) = _
    cases Declaration.isTyped (textAttribute (Mapping.find? "class" entries))
      (textAttribute (Mapping.find? "parent" entries)) <;> rfl

theorem stripped_declaration (entries : Mapping) :
    (declaration entries).stripped =
      if (shortType? entries).isSome then
        declarationOf entries (declaration entries).shorthand.stripped (arguments entries)
          (properties entries)
      else
        declarationOf entries (declaration entries).shorthand
          (strippedArguments (arguments entries)) (strippedProperties (properties entries)) := by
  rw [← isShort_declaration]
  unfold declaration declarationOf
  rw [Declaration.stripped]

/-- The key of a type is none of an attribute or of a part of a declaration. -/
theorem name_not_mem (type : Builtin) :
    type.name ∉ "constructor-args" :: "properties" :: attributeKeys := by
  cases type <;> decide

variable {entries : Mapping}

theorem find?_cleanedUnder_of_ne (type : Builtin) {key : String}
    (hkey : key ∈ "constructor-args" :: "properties" :: attributeKeys) :
    Mapping.find? key (cleanedUnder type.name entries) = Mapping.find? key entries := by
  have hne : type.name ≠ key := by
    rintro rfl
    exact name_not_mem type hkey
  rw [find?_cleanedUnder]
  simp [hne]

theorem shorthandType?_cleanedUnder (key : String) :
    shorthandType? (cleanedUnder key entries) = shorthandType? entries := by
  unfold shorthandType?
  simp only [find?_cleanedUnder, Option.isSome_map]

/-- A shorthand is read from what is left as from the whole, but for what is skipped. -/
theorem declaration_cleanedUnder {type : Builtin} (htype : shortType? entries = some type)
    (hreads : ∀ entry ∈ entries, ReadsStripped entry.2) :
    declaration (cleanedUnder type.name entries) = (declaration entries).stripped := by
  have hshort : shorthandType? entries = some type := by
    unfold shortType? at htype
    split at htype
    · cases htype
    · exact htype
  obtain ⟨value, hvalue⟩ := exists_of_shorthandType? hshort
  obtain ⟨k, hmem⟩ := mem_of_find? hvalue
  have hreadsValue : content (cleaned value) = (content value).stripped := hreads _ hmem
  have hshorthand : (declaration (cleanedUnder type.name entries)).shorthand =
      (declaration entries).shorthand.stripped := by
    rw [shorthand_declaration, shorthand_declaration, shorthandType?_cleanedUnder, hshort]
    simp [find?_cleanedUnder, hvalue, hreadsValue, Shorthand.stripped]
  have harguments : arguments (cleanedUnder type.name entries) = arguments entries := by
    rw [arguments_eq, arguments_eq, find?_cleanedUnder_of_ne type (by decide)]
  have hproperties : properties (cleanedUnder type.name entries) = properties entries := by
    rw [properties_eq, properties_eq, find?_cleanedUnder_of_ne type (by decide)]
  rw [stripped_declaration, htype, Option.isSome_some, if_pos rfl, ← hshorthand, ← harguments,
    ← hproperties]
  symm
  apply declarationOf_congr
  intro key hkey
  have hmem : key ∈ "constructor-args" :: "properties" :: attributeKeys :=
    List.mem_cons_of_mem _ (List.mem_cons_of_mem _ hkey)
  exact (find?_cleanedUnder_of_ne type hmem).symm

/-- Arguments and properties are read from what is left as from the whole, but for what is
skipped. -/
theorem declaration_cleanedParts (htype : shortType? entries = none)
    (hreads : ∀ entry ∈ entries, ∀ w : Yaml.Value, w.Inside entry.2 → ReadsStripped w) :
    declaration (cleanedParts (hasArguments entries) (hasProperties entries) entries) =
      (declaration entries).stripped := by
  have hunder {key : String} {v : Yaml.Value} (hfind : Mapping.find? key entries = some v)
      {w : Yaml.Value} (hinside : w.Inside v) : ReadsStripped w := by
    obtain ⟨k, hmem⟩ := mem_of_find? hfind
    exact hreads (k, v) hmem w hinside
  have hsame {key : String} (hkey : key ≠ "constructor-args" ∧ key ≠ "properties") :=
    find?_cleanedParts hkey.1 hkey.2 (hasArguments entries) (hasProperties entries) entries
  have hshorthand : (declaration (cleanedParts (hasArguments entries) (hasProperties entries)
      entries)).shorthand = (declaration entries).shorthand := by
    have hname (type : Builtin) : type.name ≠ "constructor-args" ∧ type.name ≠ "properties" := by
      cases type <;> decide
    rw [shorthand_declaration, shorthand_declaration]
    simp only [shorthandType?, fun type => hsame (hname type)]
  have harguments : arguments (cleanedParts (hasArguments entries) (hasProperties entries)
      entries) = strippedArguments (arguments entries) := by
    rw [arguments_eq, arguments_eq, find?_cleanedParts_arguments, hasArguments]
    cases hfind : Mapping.find? "constructor-args" entries with
    | none => simp [strippedArguments]
    | some v =>
      cases v with
      | sequence items =>
        have hitems := positional_cleanedSlots fun w hw => hunder hfind (.item hw .self)
        simpa [cleanedArguments] using hitems
      | mapping inner =>
        have hleaves : Leaves inner (cleanedEntries inner) :=
          leaves_cleanedEntries fun entry hentry => hunder hfind (.entry hentry .self)
        simpa [cleanedArguments] using hleaves.named_eq
      | _ => simp [strippedArguments]
  have hproperties : properties (cleanedParts (hasArguments entries) (hasProperties entries)
      entries) = strippedProperties (properties entries) := by
    rw [properties_eq, properties_eq, find?_cleanedParts_properties, hasProperties]
    cases hfind : Mapping.find? "properties" entries with
    | none => simp [strippedProperties]
    | some v =>
      cases v with
      | mapping inner =>
        have hleaves : Leaves inner (cleanedEntries inner) :=
          leaves_cleanedEntries fun entry hentry => hunder hfind (.entry hentry .self)
        simpa [cleanedProperties] using hleaves.namedProperties_eq
      | _ => simp [strippedProperties]
  rw [stripped_declaration, htype, Option.isSome_none, if_neg Bool.false_ne_true, ← hshorthand,
    ← harguments, ← hproperties]
  symm
  apply declarationOf_congr
  intro key hkey
  have hne : key ≠ "constructor-args" ∧ key ≠ "properties" := by
    constructor <;> rintro rfl <;> exact absurd hkey (by decide)
  exact (hsame hne).symm

theorem declaration_cleanedDeclaration
    (hreads : ∀ entry ∈ entries, ∀ w : Yaml.Value, w.Inside entry.2 → ReadsStripped w) :
    declaration (cleanedDeclaration entries) = (declaration entries).stripped := by
  unfold cleanedDeclaration
  cases htype : shortType? entries with
  | some type =>
    exact declaration_cleanedUnder htype fun entry hentry => hreads entry hentry entry.2 .self
  | none => exact declaration_cleanedParts htype hreads

end Declarations

section Forms

variable {entries : Mapping}

theorem narrows_cleanedParts (a p : Bool) (entries : Mapping) :
    Narrows (cleanedParts a p entries) entries := by
  have harguments {v : Yaml.Value} : (∀ items, cleanedArguments v = .sequence items →
        ∃ before, v = .sequence before) ∧
      ∀ inner, cleanedArguments v = .mapping inner → ∃ before, v = .mapping before := by
    cases v <;> simp [cleanedArguments]
  have hproperties {v : Yaml.Value} : (∀ items, cleanedProperties v = .sequence items →
        ∃ before, v = .sequence before) ∧
      ∀ inner, cleanedProperties v = .mapping inner → ∃ before, v = .mapping before := by
    cases v <;> simp [cleanedProperties]
  induction entries with
  | nil =>
    rw [cleanedParts]
    exact .nil []
  | cons entry entries ih =>
    obtain ⟨k, v⟩ := entry
    rw [cleanedParts]
    split
    · split
      · exact ih.cons harguments.1 harguments.2
      · exact ih.tail (k, v)
    · split
      · split
        · exact ih.cons hproperties.1 hproperties.2
        · exact ih.tail (k, v)
      · exact ih.cons_same (k, v)

theorem narrows_cleanedDeclaration (entries : Mapping) :
    Narrows (cleanedDeclaration entries) entries := by
  unfold cleanedDeclaration
  split
  · exact narrows_cleanedUnder _ entries
  · exact narrows_cleanedParts _ _ entries

theorem find?_cleanedDeclaration {key : String} (hkey : key ∈ attributeKeys) :
    Mapping.find? key (cleanedDeclaration entries) = Mapping.find? key entries := by
  unfold cleanedDeclaration
  split
  · exact find?_cleanedUnder_of_ne _ (List.mem_cons_of_mem _ (List.mem_cons_of_mem _ hkey))
  · apply find?_cleanedParts
    · rintro rfl
      exact absurd hkey (by decide)
    · rintro rfl
      exact absurd hkey (by decide)

theorem form_cleanedSequence {shape : Shape} {key : String} {items : List Yaml.Value}
    (hform : form entries = .sequence shape key items) :
    form (cleanedSequence key entries) = .sequence shape key (cleanedItems items) := by
  have htells := tells_form entries
  rw [hform] at htells
  obtain ⟨href, hcollection⟩ := htells
  apply form_of_tells
  exact ⟨(narrows_cleanedSequence key entries).find?_eq_none href,
    collection?_cleanedSequence hcollection⟩

theorem form_cleanedDictionary {inner : Mapping} (hform : form entries = .dictionary inner) :
    form (cleanedDictionary entries) = .dictionary (cleanedEntries inner) := by
  have htells := tells_form entries
  rw [hform] at htells
  obtain ⟨href, hcollection, hdictionary⟩ := htells
  have hnarrows := narrows_cleanedDictionary entries
  apply form_of_tells
  refine ⟨hnarrows.find?_eq_none href, hnarrows.collection?_eq_none hcollection, ?_⟩
  rw [mappingUnder?_cleanedDictionary, hdictionary]
  rfl

theorem form_cleanedDeclaration (hform : form entries = .declaration) :
    form (cleanedDeclaration entries) = .declaration := by
  have htells := tells_form entries
  rw [hform] at htells
  obtain ⟨href, hcollection, hdictionary, hdeclaration⟩ := htells
  have hnarrows := narrows_cleanedDeclaration entries
  apply form_of_tells
  refine ⟨hnarrows.find?_eq_none href, hnarrows.collection?_eq_none hcollection,
    hnarrows.mappingUnder?_eq_none hdictionary, ?_⟩
  rw [isDeclaration, find?_cleanedDeclaration (by decide), find?_cleanedDeclaration (by decide)]
  exact hdeclaration

theorem form_cleanedEntries (hform : form entries = .plain) :
    form (cleanedEntries entries) = .plain := by
  have htells := tells_form entries
  rw [hform] at htells
  obtain ⟨href, hcollection, hdictionary, hdeclaration⟩ := htells
  have hnarrows := narrows_cleanedEntries entries
  apply form_of_tells
  refine ⟨hnarrows.find?_eq_none href, hnarrows.collection?_eq_none hcollection,
    hnarrows.mappingUnder?_eq_none hdictionary, ?_⟩
  have hkey {key : String} (hnone : (Mapping.find? key entries).isSome = false) :
      (Mapping.find? key (cleanedEntries entries)).isSome = false := by
    rw [hnarrows.find?_eq_none (by simpa using hnone)]
    rfl
  rw [isDeclaration, Bool.or_eq_false_iff] at hdeclaration ⊢
  exact ⟨hkey hdeclaration.1, hkey hdeclaration.2⟩

end Forms

/-- What is left of a value is read as the value is, without what is skipped in it. -/
theorem content_cleaned (v : Yaml.Value) : content (cleaned v) = (content v).stripped := by
  induction v using Yaml.Value.induction_inside with
  | sequence items ih =>
    rw [cleaned, content, content, Content.stripped]
    rw [contents_cleanedItems fun v hv => ih v hv v .self]
  | mapping entries ih =>
    have htells := tells_form entries
    rw [cleaned_mapping, content_mapping, content_mapping]
    cases hform : form entries with
    | reference target =>
      rw [Form.cleaned, hform, Form.content]
      unfold reference
      dsimp only
      split
      · rw [Content.stripped]
      · rw [Content.nothing, Content.stripped]
    | sequence shape key items =>
      rw [hform] at htells
      obtain ⟨k, hmem⟩ := mem_of_sequenceUnder? (sequenceUnder?_of_collection? htells.2)
      rw [Form.cleaned, form_cleanedSequence hform, Form.content, Form.content, Content.stripped]
      rw [contents_cleanedItems fun v hv => ih _ hmem v (.item hv .self)]
    | dictionary inner =>
      rw [hform] at htells
      obtain ⟨k, hmem⟩ := mem_of_mappingUnder? htells.2.2
      have hleaves : Leaves inner (cleanedEntries inner) :=
        leaves_cleanedEntries fun entry hentry => ih _ hmem entry.2 (.entry hentry .self)
      rw [Form.cleaned, form_cleanedDictionary hform, Form.content, Form.content,
        Content.stripped, hleaves.writtenEntries_eq]
    | declaration =>
      rw [Form.cleaned, form_cleanedDeclaration hform, Form.content, Form.content,
        Content.stripped, declaration_cleanedDeclaration ih]
    | plain =>
      have hleaves : Leaves entries (cleanedEntries entries) :=
        leaves_cleanedEntries fun entry hentry => ih entry hentry entry.2 .self
      rw [Form.cleaned, form_cleanedEntries hform, Form.content, Form.content, Content.stripped,
        hleaves.writtenEntries_eq]
  | plain v hsequence hmapping =>
    cases v with
    | sequence items => exact absurd rfl (hsequence items)
    | mapping entries => exact absurd rfl (hmapping entries)
    | _ => simp [cleaned, content, scalar?, Content.stripped]

/-- What is left of a declaration at the top level is read as the declaration is, without
what is skipped in it. -/
theorem topLevel_cleanedDeclaration (entries : Mapping) :
    some (topLevel (cleanedDeclaration entries)) = (topLevel entries).stripped? := by
  have hreads : ∀ entry ∈ entries, ∀ w : Yaml.Value, w.Inside entry.2 → ReadsStripped w :=
    fun _ _ w _ => content_cleaned w
  have hdeclaration := declaration_cleanedDeclaration hreads
  unfold topLevel
  rw [find?_cleanedDeclaration (by decide), hdeclaration]
  cases Mapping.find? "object" entries <;> rfl

/-- What is left of a document is read as the document is, without what is skipped in it. -/
theorem document_cleaned (mappings : List Mapping) :
    document (mappings.map cleanedDeclaration) =
      (document mappings).filterMap TopLevel.stripped? := by
  unfold document
  rw [List.map_map, List.filterMap_map, ← List.filterMap_eq_map]
  congr 1
  funext entries
  exact topLevel_cleanedDeclaration entries

end Wiring.StructuredText
