import Wiring.Proofs.Dialect.Condensing
import Wiring.Source.Reading

/-!
Comments do not matter. Comments and instructions may be added to a document in any
markup dialect, in any of its elements and in the middle of any text: the same definitions
are read from it, or it fails in the same way, and the same is logged on the way.
-/

namespace Wiring

namespace Xml

/-- Nodes after comments and instructions were added among them and in them, at any depth.
A text may be taken apart, and so make room for what is added in it. -/
inductive Annotated : List Node → List Node → Prop
  | nil : Annotated [] []
  | element (name : Name) (attributes : List Attribute) {children others nodes more : List Node}
      (hchildren : Annotated children others) (hnodes : Annotated nodes more) :
      Annotated (.element name attributes children :: nodes)
        (.element name attributes others :: more)
  | leaf {node : Node} {nodes more : List Node} (hleaf : node.isElement = false)
      (hnodes : Annotated nodes more) : Annotated (node :: nodes) (node :: more)
  | comment (content : String) {nodes more : List Node} (hnodes : Annotated nodes more) :
      Annotated nodes (.comment content :: more)
  | instruction (target content : String) {nodes more : List Node}
      (hnodes : Annotated nodes more) : Annotated nodes (.instruction target content :: more)
  | split (first second : String) {nodes more : List Node}
      (hnodes : Annotated (.text second :: nodes) more) :
      Annotated (.text (first ++ second) :: nodes) (.text first :: more)

namespace Annotated

variable {nodes others : List Node}

theorem ownText_eq (hannotated : Annotated nodes others) : ownText others = ownText nodes := by
  induction hannotated with
  | nil => rfl
  | element name attributes hchildren hnodes ihchildren ihnodes =>
    rw [ownText_cons, ownText_cons, ihnodes]
    rfl
  | leaf hleaf hnodes ih => rw [ownText_cons, ownText_cons, ih]
  | comment content hnodes ih => rw [ownText_cons, ih]; exact String.empty_append
  | instruction target content hnodes ih => rw [ownText_cons, ih]; exact String.empty_append
  | split first second hnodes ih =>
    rw [ownText_cons, ih, ownText_cons, ownText_cons, Node.content, Node.content, Node.content,
      String.append_assoc]

theorem condensedElements_eq (hannotated : Annotated nodes others) :
    condensedElements others = condensedElements nodes := by
  induction hannotated with
  | nil => rfl
  | element name attributes hchildren hnodes ihchildren ihnodes =>
    have hnode : condensedChildren _ = condensedChildren _ :=
      congrArg₂ (Node.text · :: ·) hchildren.ownText_eq ihchildren
    rw [condensedElements, condensedElements, condensed_element, condensed_element, hnode, ihnodes]
    rfl
  | leaf hleaf hnodes ih => simpa [condensedElements, hleaf] using ih
  | comment content hnodes ih => simpa [condensedElements, Node.isElement] using ih
  | instruction target content hnodes ih => simpa [condensedElements, Node.isElement] using ih
  | split first second hnodes ih => simpa [condensedElements, Node.isElement] using ih

theorem condensed_eq (hannotated : Annotated nodes others) (name : Name)
    (attributes : List Attribute) :
    condensed (.element name attributes others) = condensed (.element name attributes nodes) := by
  rw [condensed, condensed, hannotated.ownText_eq, hannotated.condensedElements_eq]

end Annotated

end Xml

namespace Dialect

/-- The definitions in a root element in component markup. -/
def readComponentsRoot (location : String) (root : Xml.Node) :
    Reading (List ObjectDefinition) := do
  let _ ← Traced.ofExcept (Markup.rootNamespace location "components" legacy.namespaces root)
  Components.document location root

theorem readRoot_condensed (v : Vocabulary) (location : String) (root : Xml.Node) :
    readRoot v location (Xml.condensed root) = readRoot v location root := by
  simp only [readRoot, Markup.rootNamespace, Xml.name_condensed, Markup.document_condensed]

theorem readComponentsRoot_condensed (location : String) (root : Xml.Node) :
    readComponentsRoot location (Xml.condensed root) = readComponentsRoot location root := by
  simp only [readComponentsRoot, Markup.rootNamespace, Xml.name_condensed,
    Components.document_condensed]

section Parsed

variable {text : String} {root : Xml.Node}

theorem readMarkup_of_parse (v : Vocabulary) (location : String)
    (hparse : Xml.parse? text = some root) :
    readMarkup v location text = readRoot v location root := by
  rw [readMarkup, Markup.parseRoot, hparse]
  rfl

theorem readComponents_of_parse (location : String) (hparse : Xml.parse? text = some root) :
    readComponents location text = readComponentsRoot location root := by
  rw [readComponents, Markup.parseRoot, hparse]
  rfl

end Parsed

section Annotated

variable {children others : List Xml.Node} (hannotated : Xml.Annotated children others)
  (name : Xml.Name) (attributes : List Xml.Attribute) (location : String)

include hannotated

theorem readRoot_annotated (v : Vocabulary) :
    readRoot v location (.element name attributes others) =
      readRoot v location (.element name attributes children) := by
  rw [← readRoot_condensed, hannotated.condensed_eq, readRoot_condensed]

theorem readComponentsRoot_annotated :
    readComponentsRoot location (.element name attributes others) =
      readComponentsRoot location (.element name attributes children) := by
  rw [← readComponentsRoot_condensed, hannotated.condensed_eq, readComponentsRoot_condensed]

theorem readText_annotated {dialect : Dialect} (hdialect : dialect ≠ .yaml)
    {text annotated : String} (htext : Xml.parse? text = some (.element name attributes children))
    (hparse : Xml.parse? annotated = some (.element name attributes others)) :
    dialect.readText location annotated = dialect.readText location text := by
  have hmarkup (v : Vocabulary) : readMarkup v location annotated = readMarkup v location text := by
    rw [readMarkup_of_parse v location hparse, readMarkup_of_parse v location htext]
    exact readRoot_annotated hannotated name attributes location v
  cases dialect with
  | legacy =>
    change readComponents location annotated = readComponents location text
    rw [readComponents_of_parse location hparse, readComponents_of_parse location htext]
    exact readComponentsRoot_annotated hannotated name attributes location
  | objects => exact hmarkup .objects
  | springBeans => exact hmarkup .beans
  | yaml => exact absurd rfl hdialect

/-- Comments and instructions in any elements of a root element change nothing of how it is
read in any markup dialect, nor of how a source that holds it is: the definitions or the
error are the same, and so is the log with all that it says is skipped. -/
theorem read_annotated :
    readComponentsRoot location (.element name attributes others) =
        readComponentsRoot location (.element name attributes children) ∧
      (∀ v : Vocabulary, readRoot v location (.element name attributes others) =
        readRoot v location (.element name attributes children)) ∧
      ∀ dialect : Dialect, dialect ≠ .yaml → ∀ text annotated : String,
        Xml.parse? text = some (.element name attributes children) →
        Xml.parse? annotated = some (.element name attributes others) →
        ∀ (files otherFiles : Files) (source other : Source),
          source.load files = .ok text → other.load otherFiles = .ok annotated →
          other.location = source.location →
          dialect.read otherFiles other = dialect.read files source := by
  refine ⟨readComponentsRoot_annotated hannotated name attributes location,
    readRoot_annotated hannotated name attributes location, ?_⟩
  intro dialect hdialect text annotated htext hparse files otherFiles source other hload hother
    hlocation
  have hread : dialect.readText source.location annotated =
      dialect.readText source.location text :=
    readText_annotated hannotated name attributes source.location hdialect htext hparse
  rw [read, read, hload, hother, hlocation]
  exact congrArg (Traced.record (.parsing dialect source.location) >>= fun _ => ·) hread

end Annotated

/-- A component with one property, and what stands before the component and in the
property. -/
def shop (before ports : List Xml.Node) : List Xml.Node :=
  before ++ [.element ⟨some legacyNamespace, "component"⟩
    [⟨⟨none, "id"⟩, "shop"⟩, ⟨⟨none, "class"⟩, "Shop"⟩]
    [.element ⟨some legacyNamespace, "property"⟩ [⟨⟨none, "name"⟩, "ports"⟩] ports]]

/-- A document with one bean and what is written before it. -/
def beanText (before : String) : String :=
  "<beans xmlns=\"http://www.springframework.org/schema/beans\">" ++ before ++
    "<bean id=\"a\"/></beans>"

theorem read_annotated_shop :
    let plain := shop [] [.text "[80, 'ac']"]
    let annotated := shop [.comment "shops"] [.instruction "from" "site", .text "[80, ",
      .comment "plain", .text "'a", .comment "b", .text "c']"]
    let root := Xml.Node.element ⟨some legacyNamespace, "components"⟩ []
    let noFiles : Files := fun _ => .error .notFound
    Xml.Annotated plain annotated ∧
      (readComponentsRoot "shop.xml" (root plain)).answer.isOk ∧
      readComponentsRoot "shop.xml" (root annotated) = readComponentsRoot "shop.xml" (root plain) ∧
      springBeans.read noFiles (.inline "a.xml" (beanText "<!--b-->")) =
        springBeans.read noFiles (.inline "a.xml" (beanText "")) := by
  intro plain annotated root noFiles
  have hports : Xml.Annotated [.text "[80, 'ac']"] [.instruction "from" "site", .text "[80, ",
      .comment "plain", .text "'a", .comment "b", .text "c']"] := by
    apply Xml.Annotated.instruction
    apply Xml.Annotated.split "[80, " "'ac']"
    apply Xml.Annotated.comment
    apply Xml.Annotated.split "'a" "c']"
    apply Xml.Annotated.comment
    exact .leaf rfl .nil
  have hannotated : Xml.Annotated plain annotated :=
    .comment "shops" (.element _ _ (.element _ _ hports .nil) .nil)
  have hbean : Xml.Annotated
      [.element ⟨some beansNamespace, "bean"⟩ [⟨⟨none, "id"⟩, "a"⟩] []]
      [.comment "b", .element ⟨some beansNamespace, "bean"⟩ [⟨⟨none, "id"⟩, "a"⟩] []] :=
    .comment "b" (.element _ _ .nil .nil)
  refine ⟨hannotated, by decide +kernel, (read_annotated hannotated _ _ _).1, ?_⟩
  have hbeans := (read_annotated hbean ⟨some beansNamespace, "beans"⟩ [] "a.xml").2.2
  exact hbeans .springBeans (by decide) _ _ rfl rfl _ _ _ _ rfl rfl rfl

end Dialect

end Wiring
