import Wiring.Proofs.Dialect.Inside
import Wiring.Dialect.Components

/-!
What markup is read for. Of an element, only its name, its attributes, the text that stands
directly in it and the elements in it count; where the text stands, in how many pieces and
among which comments and instructions, does not. A tree can therefore be condensed: the
text of every element is put in one piece before the elements in it, and nothing else is
kept. Object markup, bean markup and component markup are read from a condensed tree as
from the tree itself, to the last word of the log.
-/

namespace Wiring

namespace Xml

mutual

/-- A tree with the text of each element in one piece and without comments and
instructions. -/
def condensed : Node → Node
  | .element name attributes children =>
    .element name attributes (.text (ownText children) :: condensedElements children)
  | .text content => .text content
  | .comment content => .comment content
  | .instruction target content => .instruction target content
termination_by structural node => node

/-- The elements among some nodes, condensed. -/
def condensedElements : List Node → List Node
  | [] => []
  | node :: nodes =>
    if node.isElement then condensed node :: condensedElements nodes
    else condensedElements nodes
termination_by structural nodes => nodes

end

/-- What is in an element after condensing. -/
def condensedChildren (children : List Node) : List Node :=
  .text (ownText children) :: condensedElements children

section Parts

variable (uri localName : String) (node : Node) (nodes : List Node)

theorem condensed_element (name : Name) (attributes : List Attribute) (children : List Node) :
    condensed (.element name attributes children) =
      .element name attributes (condensedChildren children) := by
  rw [condensed, condensedChildren]

@[simp] theorem isElement_condensed : (condensed node).isElement = node.isElement := by
  cases node <;> simp [condensed, Node.isElement]

@[simp] theorem name_condensed : (condensed node).name = node.name := by
  cases node <;> simp [condensed, Node.name]

@[simp] theorem attributes_condensed : (condensed node).attributes = node.attributes := by
  cases node <;> simp [condensed, Node.attributes]

@[simp] theorem attribute?_condensed (key : String) :
    (condensed node).attribute? key = node.attribute? key := by
  rw [Node.attribute?, Node.attribute?, attributes_condensed]

@[simp] theorem isNamed_condensed :
    (condensed node).isNamed uri localName = node.isNamed uri localName := by
  cases node <;> simp [condensed, Node.isNamed]

theorem condensedElements_eq : condensedElements nodes = (elements nodes).map condensed := by
  induction nodes with
  | nil => rw [condensedElements, elements, List.filter_nil, List.map_nil]
  | cons node nodes ih =>
    unfold elements at ih ⊢
    rw [condensedElements, ih, List.filter_cons]
    split
    · rw [List.map_cons]
    · rfl

theorem isElement_of_mem_condensedElements :
    ∀ node ∈ condensedElements nodes, node.isElement := by
  intro node hnode
  rw [condensedElements_eq] at hnode
  obtain ⟨element, helement, rfl⟩ := List.mem_map.mp hnode
  rw [isElement_condensed]
  exact (List.mem_filter.mp helement).2

theorem ownText_elements (helements : ∀ node ∈ nodes, node.isElement) : ownText nodes = "" := by
  induction nodes with
  | nil => rfl
  | cons node nodes ih =>
    obtain ⟨hnode, hnodes⟩ := List.forall_mem_cons.mp helements
    rw [ownText_cons, ih hnodes, String.append_empty]
    cases node with
    | element name attributes children => rfl
    | _ => cases hnode

theorem ownText_condensedChildren : ownText (condensedChildren nodes) = ownText nodes := by
  have hnone : ownText (condensedElements nodes) = "" := by
    apply ownText_elements
    exact isElement_of_mem_condensedElements nodes
  rw [condensedChildren, ownText_cons, hnone, String.append_empty]
  rfl

theorem elements_condensedChildren :
    elements (condensedChildren nodes) = (elements nodes).map condensed := by
  rw [condensedChildren, ← condensedElements_eq]
  exact List.filter_eq_self.mpr (isElement_of_mem_condensedElements nodes)

/-- Only elements have a name by which nodes are picked. -/
theorem filter_isNamed_elements :
    (elements nodes).filter (Node.isNamed uri localName) =
      nodes.filter (Node.isNamed uri localName) := by
  rw [elements, List.filter_filter]
  congr 1
  funext node
  cases node <;> simp [Node.isNamed, Node.isElement]

theorem child?_eq_head?_filter :
    child? uri localName nodes = (nodes.filter (Node.isNamed uri localName)).head? := by
  rw [List.head?_filter]
  rfl

/-- Elements are picked by their name, which condensing keeps. -/
theorem filter_condensedChildren :
    (condensedChildren nodes).filter (Node.isNamed uri localName) =
      (nodes.filter (Node.isNamed uri localName)).map condensed := by
  rw [← filter_isNamed_elements, ← filter_isNamed_elements uri localName nodes,
    elements_condensedChildren, List.filter_map]
  congr 2
  funext node
  exact isNamed_condensed uri localName node

theorem child?_condensedChildren :
    child? uri localName (condensedChildren nodes) =
      (child? uri localName nodes).map condensed := by
  rw [child?_eq_head?_filter, child?_eq_head?_filter, filter_condensedChildren, List.head?_map]

/-! A node that is no element has no children, before and after. -/

@[simp] theorem ownText_children_condensed :
    ownText (condensed node).children = ownText node.children := by
  cases node with
  | element name attributes children =>
    rw [condensed_element]
    exact ownText_condensedChildren children
  | _ => rw [condensed]

theorem elements_children_condensed :
    elements (condensed node).children = (elements node.children).map condensed := by
  cases node with
  | element name attributes children =>
    rw [condensed_element]
    exact elements_condensedChildren children
  | _ => rw [condensed]; rfl

theorem filter_children_condensed :
    (condensed node).children.filter (Node.isNamed uri localName) =
      (node.children.filter (Node.isNamed uri localName)).map condensed := by
  cases node with
  | element name attributes children =>
    rw [condensed_element]
    exact filter_condensedChildren uri localName children
  | _ => rw [condensed]; rfl

theorem child?_children_condensed :
    child? uri localName (condensed node).children =
      (child? uri localName node.children).map condensed := by
  cases node with
  | element name attributes children =>
    rw [condensed_element]
    exact child?_condensedChildren uri localName children
  | _ => rw [condensed]; rfl

end Parts

end Xml

namespace Markup

open Xml (Node Attribute condensed condensedElements condensedChildren condensed_element
  ownText_condensedChildren)

section Texts

variable (v : Vocabulary) (uri : String) (attributes : List Attribute) (children : List Node)

theorem reference_condensedChildren :
    reference v attributes (condensedChildren children) = reference v attributes children := by
  rw [reference, reference, ownText_condensedChildren]

theorem props_condensedChildren :
    props uri (condensedChildren children) = props uri children := by
  have hprops : ∀ nodes : List Node, props uri nodes =
      (nodes.filter (Node.isNamed uri "prop")).map fun n =>
        .keyed ((n.attribute? "key").getD "") (Content.ofText (Xml.ownText n.children)) := by
    intro nodes
    rfl
  rw [hprops, hprops, Xml.filter_condensedChildren, List.map_map]
  congr 1
  funext node
  simp

theorem entryKey?_condensedChildren :
    entryKey? uri attributes (condensedChildren children) = entryKey? uri attributes children := by
  rw [entryKey?, entryKey?, Xml.child?_condensedChildren]
  cases Xml.child? uri "key" children with
  | none => rfl
  | some key =>
    simp only [Option.map_some, Option.bind_eq_bind, Option.bind_some,
      Xml.child?_children_condensed, Option.bind_map, Function.comp_def,
      Xml.ownText_children_condensed]

theorem shorthand_condensedChildren (name : String) :
    shorthand v name (condensedChildren children) = shorthand v name children := by
  rw [shorthand, shorthand, ownText_condensedChildren]

end Texts

/-- A node is read the same before and after condensing. -/
def ReadsCondensed (v : Vocabulary) (uri : String) (node : Node) : Prop :=
  content v uri (condensed node) = content v uri node

section Lists

variable {v : Vocabulary} {uri : String} {nodes : List Node}

theorem firstContent_condensed (hreads : ∀ n : Node, n.Among nodes → ReadsCondensed v uri n) :
    firstContent v uri (condensedElements nodes) = firstContent v uri nodes := by
  induction nodes with
  | nil => rw [condensedElements]
  | cons node nodes ih =>
    have hnode : content v uri (condensed node) = content v uri node :=
      hreads node (.of_mem List.mem_cons_self)
    have hrest := ih fun n hn => hreads n (hn.tail node)
    cases helement : node.isElement with
    | true => simp [condensedElements, firstContent, helement, hnode]
    | false => simpa [condensedElements, firstContent, helement] using hrest

theorem contents_condensed (hreads : ∀ n : Node, n.Among nodes → ReadsCondensed v uri n) :
    contents v uri (condensedElements nodes) = contents v uri nodes := by
  induction nodes with
  | nil => rw [condensedElements]
  | cons node nodes ih =>
    have hnode : content v uri (condensed node) = content v uri node :=
      hreads node (.of_mem List.mem_cons_self)
    have hrest := ih fun n hn => hreads n (hn.tail node)
    cases helement : node.isElement with
    | true => simp [condensedElements, contents, helement, hnode, hrest]
    | false => simpa [condensedElements, contents, helement] using hrest

theorem entryContent_condensed (hreads : ∀ n : Node, n.Among nodes → ReadsCondensed v uri n) :
    entryContent v uri (condensedElements nodes) = entryContent v uri nodes := by
  induction nodes with
  | nil => rw [condensedElements]
  | cons node nodes ih =>
    have hnode : content v uri (condensed node) = content v uri node :=
      hreads node (.of_mem List.mem_cons_self)
    have hrest := ih fun n hn => hreads n (hn.tail node)
    cases helement : node.isElement with
    | true => simp [condensedElements, entryContent, helement, hnode, hrest]
    | false => simpa [condensedElements, entryContent, helement] using hrest

/-- The text before the elements is no value. -/
theorem firstContent_condensedChildren
    (hreads : ∀ n : Node, n.Among nodes → ReadsCondensed v uri n) :
    firstContent v uri (condensedChildren nodes) = firstContent v uri nodes := by
  rw [condensedChildren, firstContent]
  exact firstContent_condensed hreads

theorem entries_condensed (hreads : ∀ n : Node, n.Among nodes → ReadsCondensed v uri n) :
    entries v uri (condensedElements nodes) = entries v uri nodes := by
  induction nodes with
  | nil => rw [condensedElements]
  | cons node nodes ih =>
    have hrest := ih fun n hn => hreads n (hn.tail node)
    cases node with
    | element name attributes children =>
      have hvalue : entryContent v uri (condensedChildren children) =
          entryContent v uri children := by
        rw [condensedChildren, entryContent]
        exact entryContent_condensed fun n hn => hreads n (hn.of_children List.mem_cons_self)
      simp only [condensedElements, Node.isElement, condensed_element, entries, hvalue,
        entryKey?_condensedChildren, hrest, if_true]
    | _ => simpa [condensedElements, Node.isElement, entries] using hrest

theorem arguments_condensed (hreads : ∀ n : Node, n.Among nodes → ReadsCondensed v uri n) :
    arguments v uri (condensedElements nodes) = arguments v uri nodes := by
  induction nodes with
  | nil => rw [condensedElements]
  | cons node nodes ih =>
    have hrest := ih fun n hn => hreads n (hn.tail node)
    cases node with
    | element name attributes children =>
      have hvalue := firstContent_condensedChildren
        fun n hn => hreads n (hn.of_children List.mem_cons_self)
      simp only [condensedElements, Node.isElement, condensed_element, arguments, hvalue, hrest,
        if_true]
    | _ => simpa [condensedElements, Node.isElement, arguments] using hrest

theorem properties_condensed (hreads : ∀ n : Node, n.Among nodes → ReadsCondensed v uri n) :
    properties v uri (condensedElements nodes) = properties v uri nodes := by
  induction nodes with
  | nil => rw [condensedElements]
  | cons node nodes ih =>
    have hrest := ih fun n hn => hreads n (hn.tail node)
    cases node with
    | element name attributes children =>
      have hvalue := firstContent_condensedChildren
        fun n hn => hreads n (hn.of_children List.mem_cons_self)
      simp only [condensedElements, Node.isElement, condensed_element, properties, hvalue, hrest,
        if_true]
    | _ => simpa [condensedElements, Node.isElement, properties] using hrest

/-- A declaration is read off its attributes, its text and the elements in it. -/
theorem declarationOf_condensedChildren (name : String) (attributes : List Attribute)
    (hreads : ∀ n : Node, n.Among nodes → ReadsCondensed v uri n) :
    declarationOf v name attributes (condensedChildren nodes)
        (arguments v uri (condensedChildren nodes)) (properties v uri (condensedChildren nodes)) =
      declarationOf v name attributes nodes (arguments v uri nodes) (properties v uri nodes) := by
  have harguments : arguments v uri (condensedChildren nodes) = arguments v uri nodes := by
    rw [condensedChildren, arguments]
    · exact arguments_condensed hreads
    · intro _ _ _ helement
      cases helement
  have hproperties : properties v uri (condensedChildren nodes) = properties v uri nodes := by
    rw [condensedChildren, properties]
    · exact properties_condensed hreads
    · intro _ _ _ helement
      cases helement
  rw [harguments, hproperties, declarationOf, shorthand_condensedChildren]
  rfl

end Lists

theorem content_condensed (v : Vocabulary) (uri : String) (node : Node) :
    content v uri (condensed node) = content v uri node := by
  induction node using Node.induction_inside with
  | element name attributes children ih =>
    rw [condensed_element, content, content]
    split
    · rfl
    · cases v.tag? name.localName with
      | none => rfl
      | some tag =>
        cases tag with
        | reference => exact reference_condensedChildren v attributes children
        | value =>
          dsimp only
          rw [ownText_condensedChildren, firstContent_condensedChildren ih]
        | props =>
          dsimp only
          rw [props_condensedChildren]
        | sequence shape =>
          have hcontents : contents v uri (condensedChildren children) =
              contents v uri children := by
            rw [condensedChildren, contents]
            exact contents_condensed ih
          dsimp only
          rw [hcontents]
        | mapping =>
          have hentries : entries v uri (condensedChildren children) = entries v uri children := by
            rw [condensedChildren, entries]
            · exact entries_condensed ih
            · intro _ _ _ helement
              cases helement
          dsimp only
          rw [hentries]
        | object =>
          dsimp only
          rw [declarationOf_condensedChildren name.localName attributes ih]
  | _ => rw [condensed]

theorem topLevel_condensed (v : Vocabulary) (uri : String) (node : Node) :
    topLevel v uri (condensed node) = topLevel v uri node := by
  cases node with
  | element name attributes children =>
    have hdeclaration := declarationOf_condensedChildren name.localName attributes
      fun n (_ : n.Among children) => content_condensed v uri n
    rw [condensed_element, topLevel, topLevel]
    simp only [Node.name, Node.attribute?, Node.attributes, Node.children, hdeclaration]
    rfl
  | _ => rw [condensed]

theorem document_condensed (v : Vocabulary) (uri : String) (root : Node) :
    document v uri (condensed root) = document v uri root := by
  rw [document, document, Xml.elements_children_condensed, List.map_map]
  congr 1
  funext node
  exact topLevel_condensed v uri node

end Markup

namespace Components

open Xml (Node condensed)

section Elements

variable (name : String) (node : Node) (nodes : List Node)

theorem child?_condensed : child? name (condensed node) = (child? name node).map condensed :=
  Xml.child?_children_condensed Dialect.legacyNamespace name node

theorem filter_condensed :
    (condensed node).children.filter (isComponentElement name) =
      (node.children.filter (isComponentElement name)).map condensed :=
  Xml.filter_children_condensed Dialect.legacyNamespace name node

@[simp] theorem trimmedText_condensed : trimmedText (condensed node) = trimmedText node := by
  rw [trimmedText, trimmedText, Xml.ownText_children_condensed]

theorem propertyValue?_condensed :
    propertyValue? name (condensed node) = propertyValue? name node := by
  rw [propertyValue?, propertyValue?, Xml.attribute?_condensed]
  cases node.attribute? "local" with
  | some target => rfl
  | none =>
    dsimp only
    rw [child?_condensed]
    cases child? "local" node with
    | some reference => simp
    | none =>
      rw [child?_condensed]
      cases child? "list" node with
      | some list => simp [filter_condensed, Function.comp_def]
      | none => simp

theorem properties_condensed (source object : String) :
    properties source object (nodes.map condensed) = properties source object nodes := by
  induction nodes with
  | nil => rfl
  | cons node nodes ih =>
    rw [List.map_cons, properties, properties, ih, propertyValue?_condensed,
      Xml.attribute?_condensed]

theorem definition_condensed (source : String) :
    definition source (condensed node) = definition source node := by
  rw [definition, definition, filter_condensed, properties_condensed]
  simp only [Xml.attribute?_condensed]

theorem definitions_condensed (source : String) :
    definitions source (nodes.map condensed) = definitions source nodes := by
  induction nodes with
  | nil => rfl
  | cons node nodes ih =>
    rw [List.map_cons, definitions, definitions, definition_condensed, ih]

theorem document_condensed (source : String) :
    document source (condensed node) = document source node := by
  rw [document, document, filter_condensed, definitions_condensed]

end Elements

end Components

end Wiring
