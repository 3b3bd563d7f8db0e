import Wiring.Proofs.Dialect.MarkupCleaning
import Wiring.Proofs.Dialect.StructuredCleaning
import Wiring.Source.Reading

/-!
What is skipped is as good as absent, whatever it is skipped for and however deep it is. A
document from which all of that is deleted is read by the same dialect as the same
definitions; only what is logged differs.
-/

namespace Wiring

/-- A document as it is parsed, in a dialect that declares objects. -/
inductive Parsed where
  | markup (v : Vocabulary) (root : Xml.Node)
  | structured (mappings : List Yaml.Mapping)

namespace Parsed

def read (location : String) : Parsed → Reading (List ObjectDefinition)
  | markup v root => Dialect.readRoot v location root
  | structured mappings => Dialect.readMappings location mappings

/-- What a document declares. Markup is in the namespace of its root element. -/
def document : Parsed → List TopLevel
  | markup v root => Markup.document v (root.name.uri.getD "") root
  | structured mappings => StructuredText.document mappings

/-- A document without everything that is skipped in it. -/
def cleaned : Parsed → Parsed
  | markup v root => markup v (Markup.cleanedRoot v (root.name.uri.getD "") root)
  | structured mappings => structured (mappings.map StructuredText.cleanedDeclaration)

theorem name_cleanedRoot (v : Vocabulary) (uri : String) (root : Xml.Node) :
    (Markup.cleanedRoot v uri root).name = root.name := by
  cases root <;> rfl

/-- Deleting what is skipped leaves all the other declarations, without what is skipped in
them. -/
theorem document_cleaned (parsed : Parsed) :
    parsed.cleaned.document = parsed.document.filterMap TopLevel.stripped? := by
  cases parsed with
  | markup v root =>
    rw [cleaned, document, document, name_cleanedRoot]
    exact Markup.document_cleanedRoot v _ root
  | structured mappings => exact StructuredText.document_cleaned mappings

/-- Whether markup can be read is told by the name of its root element, and then what it
declares is all that counts. -/
theorem readRoot_eq (v : Vocabulary) (location : String) (root : Xml.Node) :
    Dialect.readRoot v location root = (do
      let _ ← Traced.ofExcept
        (Markup.rootNamespace location v.root v.dialect.namespaces root)
      definitionsOf location (markup v root).document) := by
  rw [Dialect.readRoot, document, Markup.rootNamespace]
  cases root.name.uri with
  | none => rfl
  | some uri =>
    dsimp only
    split <;> rfl

/-- A document without what is skipped in it is read as the same definitions, or it fails
in the same way. -/
theorem answer_read_cleaned (parsed : Parsed) (location : String) :
    (parsed.cleaned.read location).answer = (parsed.read location).answer := by
  have hdocument := parsed.document_cleaned
  cases parsed with
  | markup v root =>
    have hname : Markup.rootNamespace location v.root v.dialect.namespaces
        (Markup.cleanedRoot v (root.name.uri.getD "") root) =
          Markup.rootNamespace location v.root v.dialect.namespaces root := by
      unfold Markup.rootNamespace
      rw [name_cleanedRoot]
    rw [cleaned] at hdocument ⊢
    rw [read, read, readRoot_eq, readRoot_eq, hname, hdocument, Traced.answer_bind,
      Traced.answer_bind, answer_definitionsOf_stripped]
  | structured mappings =>
    rw [cleaned] at hdocument ⊢
    change (definitionsOf location (structured _).document).answer =
      (definitionsOf location (structured mappings).document).answer
    rw [hdocument, answer_definitionsOf_stripped]

end Parsed

namespace Dialect

/-- What a text in a dialect is parsed to. Component markup declares no objects. -/
def Parses (dialect : Dialect) (location text : String) (parsed : Parsed) : Prop :=
  match dialect with
  | .legacy => False
  | .objects => ∃ root, Markup.parseRoot location text = .ok root ∧
      parsed = .markup .objects root
  | .springBeans => ∃ root, Markup.parseRoot location text = .ok root ∧
      parsed = .markup .beans root
  | .yaml => ∃ mappings, Yaml.parseObjects? text = some mappings ∧ parsed = .structured mappings

theorem exists_parses {dialect : Dialect} (hdialect : dialect ≠ .legacy)
    {location text : String} {result : List ObjectDefinition}
    (hread : (dialect.readText location text).answer = .ok result) :
    ∃ parsed, dialect.Parses location text parsed ∧
      (parsed.read location).answer = .ok result := by
  cases dialect with
  | legacy => exact absurd rfl hdialect
  | objects =>
    obtain ⟨root, hroot, hread⟩ := Traced.exists_of_bind hread
    exact ⟨_, ⟨root, hroot, rfl⟩, hread⟩
  | springBeans =>
    obtain ⟨root, hroot, hread⟩ := Traced.exists_of_bind hread
    exact ⟨_, ⟨root, hroot, rfl⟩, hread⟩
  | yaml =>
    cases hparse : Yaml.parseObjects? text with
    | none => simp [readText, readStructuredText, hparse, Traced.fail] at hread
    | some mappings =>
      simp only [readText, readStructuredText, hparse] at hread
      exact ⟨.structured mappings, ⟨mappings, hparse, rfl⟩, hread⟩

/-- Whatever is read from a source is also read from its document without everything that
is skipped in it, and that has all the declarations of the document, without the properties,
named arguments, items and entries that have no value. -/
theorem read_without_skipped (files : Files) (dialect : Dialect) (source : Source)
    (result : List ObjectDefinition) (hdialect : dialect ≠ .legacy)
    (hread : (dialect.read files source).answer = .ok result) :
    ∃ text parsed, source.load files = .ok text ∧
      dialect.Parses source.location text parsed ∧
      (parsed.read source.location).answer = .ok result ∧
      (parsed.cleaned.read source.location).answer = .ok result ∧
      parsed.cleaned.document = parsed.document.filterMap TopLevel.stripped? := by
  obtain ⟨_, -, hread⟩ := Traced.exists_of_bind hread
  obtain ⟨text, htext, hread⟩ := Traced.exists_of_bind hread
  obtain ⟨parsed, hparses, hresult⟩ := exists_parses hdialect hread
  refine ⟨text, parsed, htext, hparses, hresult, ?_, parsed.document_cleaned⟩
  rw [parsed.answer_read_cleaned, hresult]

/-- An object with an item that is tagged, a reference without a target in a dictionary and
an entry with a key that is no text. -/
def littered : Source :=
  .inline "app.yaml" <|
    "objects:\n  - object: app\n    class: App\n" ++
    "    properties: \x7bhosts: [a, !t b], sizes: \x7bk: \x7bref: 5\x7d, [z]: c\x7d\x7d\n"

theorem read_without_skipped_littered :
    Dialect.yaml ≠ .legacy ∧
      ∃ result, (Dialect.yaml.read (fun _ => .error .notFound) littered).answer = .ok result ∧
        ∃ text parsed, littered.load (fun _ => .error .notFound) = .ok text ∧
          Dialect.yaml.Parses littered.location text parsed ∧
          (parsed.read littered.location).answer = .ok result ∧
          (parsed.cleaned.read littered.location).answer = .ok result ∧
          parsed.cleaned.document = parsed.document.filterMap TopLevel.stripped? := by
  have hok : (Dialect.yaml.read (fun _ => .error .notFound) littered).answer.isOk := by
    decide +kernel
  obtain ⟨result, hread⟩ := Traced.exists_of_isOk hok
  exact ⟨by decide, result, hread,
    read_without_skipped _ .yaml littered result (by decide) hread⟩

end Dialect

end Wiring
