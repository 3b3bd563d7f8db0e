import Wiring.Proofs.Dialect.Scalars
import Wiring.Proofs.Expression.Entries
import Wiring.Proofs.Source.Places

/-!
The scalars in what is read. Wherever a scalar comes from, an attribute, the text of an
element, a plain value or a literal expression, it is in canonical form: a text that spells a
truth value has become one, and every float is a number. Definitions that are read are
therefore equal to themselves, and a source that is read again gives equal definitions.
-/

namespace Wiring

/-- A scalar that is no text for a truth value, and a number if it is a float. -/
structure Scalar.Canonical (s : Scalar) : Prop where
  notTrue : s ≠ .text "True"
  notFalse : s ≠ .text "False"
  notNaN : s.NotNaN

/-- The kinds of scalars that are read in a dialect. Only literal expressions, which component
markup has, give numbers. -/
def Dialect.Produces : Dialect → Scalar → Prop
  | .legacy, _ => True
  | .objects, s => (∃ t, s = .text t) ∨ ∃ b, s = .bool b
  | .springBeans, s => (∃ t, s = .text t) ∨ ∃ b, s = .bool b
  | .yaml, s => s = .null ∨ (∃ t, s = .text t) ∨ ∃ b, s = .bool b

namespace Scalar

theorem ofText_cases (text : String) :
    (∃ t, ofText text = .text t) ∨ ∃ b, ofText text = .bool b := by
  unfold ofText
  split
  · exact Or.inr ⟨true, rfl⟩
  · split
    · exact Or.inr ⟨false, rfl⟩
    · exact Or.inl ⟨text, rfl⟩

theorem canonical_ofText (text : String) : (ofText text).Canonical where
  notTrue := ofText_ne_true text
  notFalse := ofText_ne_false text
  notNaN := by
    intro x hx
    rcases ofText_cases text with ⟨t, ht⟩ | ⟨b, hb⟩
    · rw [ht] at hx
      cases hx
    · rw [hb] at hx
      cases hx

/-- A scalar that is no text is canonical unless it is a float that is not a number. -/
theorem canonical_of_not_text {s : Scalar} (htext : ∀ t, s ≠ .text t) (hs : s.NotNaN) :
    s.Canonical :=
  ⟨htext "True", htext "False", hs⟩

end Scalar

/-! Literal expressions. -/

namespace Expression

theorem NotNaN.item {grouping : Grouping} {items : List Expression}
    (hgroup : NotNaN (.group grouping items)) : ∀ item ∈ items, item.NotNaN :=
  fun _ hmem => ⟨fun value hin => hgroup.1 value (.item hmem hin),
    fun entries hin => hgroup.2 entries (.item hmem hin)⟩

theorem NotNaN.value {entries : List (Scalar × Expression)} (hdict : NotNaN (.dict entries)) :
    ∀ entry ∈ entries, entry.2.NotNaN :=
  fun _ hmem => ⟨fun value hin => hdict.1 value (.value hmem hin),
    fun inside hin => hdict.2 inside (.value hmem hin)⟩

mutual

theorem sound_toDefinition (name : String) :
    ∀ e : Expression, e.NotNaN → (e.toDefinition name).Sound Scalar.Canonical
  | .atom value, he => by
    cases value with
    | text s =>
      rw [toDefinition]
      exact .scalar (Scalar.canonical_ofText s)
    | _ =>
      rw [toDefinition]
      · exact .scalar (Scalar.canonical_of_not_text nofun (he.1 _ .self))
      · exact nofun
  | .group grouping items, he => by
    rw [toDefinition]
    exact .sequence (sound_itemDefinitions name grouping.shape 0 items he.item)
  | .dict entries, he => by
    rw [toDefinition]
    have hsound := sound_entryDefinitions name [] entries he.value ⟨List.nodup_nil, by simp⟩
    exact .mapping hsound.keys hsound.values
termination_by structural e => e

theorem sound_itemDefinitions (name : String) (shape : Shape) (index : Nat) :
    ∀ items : List Expression, (∀ item ∈ items, item.NotNaN) →
      ∀ v ∈ itemDefinitions name shape index items, v.Sound Scalar.Canonical
  | [], _ => by simp [itemDefinitions]
  | item :: items, hitems => by
    obtain ⟨hitem, hrest⟩ := List.forall_mem_cons.mp hitems
    rw [itemDefinitions]
    exact List.forall_mem_cons.mpr
      ⟨sound_toDefinition _ item hitem, sound_itemDefinitions name shape (index + 1) items hrest⟩
termination_by structural items => items

theorem sound_entryDefinitions (name : String) (done : Entries ValueDefinition) :
    ∀ entries : List (Scalar × Expression), (∀ entry ∈ entries, entry.2.NotNaN) →
      SoundEntries Scalar.Canonical done →
      SoundEntries Scalar.Canonical (entryDefinitions name done entries)
  | [], _, hdone => by
    rw [entryDefinitions]
    exact hdone
  | (key, value) :: entries, hentries, hdone => by
    obtain ⟨hvalue, hrest⟩ := List.forall_mem_cons.mp hentries
    rw [entryDefinitions]
    exact sound_entryDefinitions name _ entries hrest
      (hdone.put key.key (sound_toDefinition _ value hvalue))
termination_by structural entries => entries

end

end Expression

/-! Component markup. -/

namespace Components

theorem sound_referenceItems (name : String) (index : Nat) (targets : List String) :
    ∀ v ∈ referenceItems name index targets, v.Sound Scalar.Canonical := by
  induction targets generalizing index with
  | nil => simp [referenceItems]
  | cons target targets ih =>
    rw [referenceItems]
    exact List.forall_mem_cons.mpr ⟨.reference, ih (index + 1)⟩

theorem sound_propertyValue? {name : String} {property : Xml.Node} {v : ValueDefinition}
    (hvalue : propertyValue? name property = some v) : v.Sound Scalar.Canonical := by
  unfold propertyValue? at hvalue
  split at hvalue
  · cases hvalue
    exact .reference
  · split at hvalue
    · cases hvalue
      exact .reference
    · split at hvalue
      · cases hvalue
        exact .sequence (sound_referenceItems name 0 _)
      · split at hvalue
        · rename_i expression hparse
          cases hvalue
          exact expression.sound_toDefinition name (Expression.notNaN_of_parse hparse)
        · cases hvalue

theorem sound_definition {source : String} {component : Xml.Node} {d : ObjectDefinition}
    (hdefinition : (definition source component).answer = .ok d) :
    d.Sound Scalar.Canonical := by
  obtain ⟨hargs, hnamed, hproperties⟩ := exists_of_definition hdefinition
  refine ⟨?_, ?_⟩
  · rw [hnamed]
    exact List.nodup_nil
  · rintro v (hslot | ⟨key, hmem⟩ | hproperty)
    · have hslot : some v ∈ d.args := hslot
      rw [hargs] at hslot
      cases hslot
    · have hmem : (key, v) ∈ d.named := hmem
      rw [hnamed] at hmem
      cases hmem
    · obtain ⟨name, property, hvalue⟩ := hproperties v hproperty
      exact sound_propertyValue? hvalue

end Components

namespace Dialect

/-- What is known of each scalar that is read in a dialect. -/
def Good (dialect : Dialect) (s : Scalar) : Prop := s.Canonical ∧ dialect.Produces s

theorem sound_readMarkup {v : Vocabulary} {good : Scalar → Prop}
    (hgood : ∀ text, good (.ofText text)) {location text : String}
    {result : List ObjectDefinition} (hread : (readMarkup v location text).answer = .ok result) :
    ∀ d ∈ result, d.Sound good := by
  obtain ⟨document, ⟨root, uri, -, -, rfl⟩, hresult⟩ := readMarkup_ok hread
  exact sound_definitionsOf (Markup.eachScalar_document v uri hgood root) hresult

theorem good_of_scalar? {v : Yaml.Value} {s : Scalar} (hs : StructuredText.scalar? v = some s) :
    yaml.Good s := by
  have htext (text : String) : yaml.Good (.ofText text) :=
    ⟨Scalar.canonical_ofText text, Or.inr (Scalar.ofText_cases text)⟩
  cases v with
  | null =>
    cases hs
    exact ⟨Scalar.canonical_of_not_text nofun nofun, Or.inl rfl⟩
  | bool b =>
    cases hs
    exact ⟨Scalar.canonical_of_not_text nofun nofun, Or.inr (Or.inr ⟨b, rfl⟩)⟩
  | number n =>
    cases hs
    exact htext n.text
  | string text =>
    cases hs
    exact htext text
  | _ => cases hs

theorem sound_of_readText {dialect : Dialect} {location text : String}
    {result : List ObjectDefinition}
    (hread : (dialect.readText location text).answer = .ok result) :
    ∀ d ∈ result, d.Sound dialect.Good := by
  cases dialect with
  | legacy =>
    obtain ⟨root, -, hread⟩ := Traced.exists_of_bind hread
    obtain ⟨_, -, hread⟩ := Traced.exists_of_bind hread
    intro d hd
    obtain ⟨component, -, hdefinition⟩ := Components.exists_of_mem_definitions hread d hd
    exact (Components.sound_definition hdefinition).imp fun s hs => ⟨hs, trivial⟩
  | objects =>
    exact sound_readMarkup (fun text => ⟨Scalar.canonical_ofText text, Scalar.ofText_cases text⟩)
      hread
  | springBeans =>
    exact sound_readMarkup (fun text => ⟨Scalar.canonical_ofText text, Scalar.ofText_cases text⟩)
      hread
  | yaml =>
    obtain ⟨document, ⟨mappings, -, rfl⟩, hresult⟩ := readText_ok (by decide) hread
    exact sound_definitionsOf
      (StructuredText.eachScalar_document (fun _ _ => good_of_scalar?) mappings) hresult

theorem sound_of_readAll {files : Files} {dialect : Dialect} {sources : List Source}
    {result : List ObjectDefinition}
    (hread : (dialect.readAll files sources).answer = .ok result) :
    ∀ d ∈ result, d.Sound dialect.Good := by
  intro d hd
  obtain ⟨source, -, definitions, hdefinitions, hmem⟩ := exists_read_of_mem_readAll hread hd
  obtain ⟨_, -, hdefinitions⟩ := Traced.exists_of_bind hdefinitions
  obtain ⟨text, -, htext⟩ := Traced.exists_of_bind hdefinitions
  exact sound_of_readText htext d hmem

/-- Every scalar in what is read, inline definitions and inherited arguments included, is
canonical and of the kinds of its dialect. What is read is equal to itself, and reading the
same sources again gives equal definitions. -/
theorem readAll_canonical (files : Files) (dialect : Dialect) (sources : List Source)
    (result : List ObjectDefinition)
    (hread : (dialect.readAll files sources).answer = .ok result) :
    (∀ d ∈ result, ∀ s, d.HasScalar s → s.Canonical ∧ dialect.Produces s) ∧
      (∀ d ∈ result, d.equals d = true) ∧
      ∀ again, (dialect.readAll files sources).answer = .ok again →
        List.Forall₂ (fun d e => ObjectDefinition.equals d e = true) result again := by
  have hsound := sound_of_readAll hread
  have hself : ∀ d ∈ result, d.equals d = true := fun d hd =>
    (hsound d hd).equals_self fun s hs => hs.1.notNaN
  refine ⟨fun d hd s hs => (hsound d hd).good_of_hasScalar hs, hself, ?_⟩
  intro again hagain
  obtain rfl : result = again := Except.ok.inj (hread.symm.trans hagain)
  exact List.forall₂_same.mpr hself

/-- A flag in quotes and a number that is none, both in an inline definition. -/
def flagged : Source :=
  .inline "app.yaml" <|
    "objects:\n  - object: app\n    class: App\n    properties:\n" ++
    "      log: \x7bobject: log, class: Log, properties: \x7bon: 'True', rate: .nan\x7d\x7d\n"

theorem readAll_canonical_flagged :
    ∃ result, (Dialect.yaml.readAll (fun _ => .error .notFound) [flagged]).answer = .ok result ∧
      result.length = 2 ∧ (∀ d ∈ result, ∀ s, d.HasScalar s → s.Canonical ∧ Dialect.yaml.Produces s) ∧
      ∀ d ∈ result, d.equals d = true := by
  have hrun : (Dialect.yaml.readAll (fun _ => .error .notFound) [flagged]).answer.toOption.any
      (fun result => decide (result.length = 2)) := by
    decide +kernel
  obtain ⟨result, hread, hlength⟩ := exists_of_any hrun
  obtain ⟨hcanonical, hself, -⟩ := readAll_canonical _ .yaml [flagged] result hread
  exact ⟨result, hread, of_decide_eq_true hlength, hcanonical, hself⟩

end Dialect

end Wiring
