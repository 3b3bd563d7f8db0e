import Wiring.Proofs.Elaboration.Scopes
import Wiring.Proofs.Matching
import Wiring.Proofs.Parity.Exchange
import Wiring.Proofs.Source.Annotation
import Wiring.Proofs.Template.Order

/-!
Components and objects. A component whose properties only refer to other objects can be
written in component markup and in object markup, in more than one way in each. The two are
read by different means: a component becomes a definition at once, an object becomes a
declaration, a draft and then a definition. Both give the definition that the component
itself describes, or fail at the first component whose scope is unknown.
-/

namespace Wiring

open Xml (Node)

/-- What a property refers to: one object, or the objects of a list. -/
inductive Targets where
  | one (target : String)
  | list (targets : List String)

/-- A component with properties that refer to other objects. -/
structure ReferringComponent where
  id : String
  typeName : Option String
  scope : Option String
  properties : List (String × Targets)

namespace Targets

/-- The references under the name of a property. -/
def value (name : String) : Targets → ValueDefinition
  | .one target => .reference name target
  | .list targets => .sequence name .list (Components.referenceItems name 0 targets)

/-- The references as content of a declaration. -/
def content : Targets → Content
  | .one target => .reference target
  | .list targets => .sequence .list (targets.map .reference)

end Targets

/-- The definition that a component describes, if its scope is known. -/
def ReferringComponent.definition (location : String) (component : ReferringComponent) :
    Except ReadError ObjectDefinition :=
  (Scope.ofDeclared location component.id component.scope).map fun scope =>
    { ObjectDefinition.ofFactory component.id (Factory.ofClass component.typeName) with
      scope, properties := component.properties.map fun p => p.2.value p.1 }

/-! How components are written. White space, comments and instructions may stand between
the elements, and attributes that mean nothing may be given. -/

/-- An element of component markup whose text is a target, with blanks around it or not. -/
def IsLocal (target : String) (node : Node) : Prop :=
  node.isNamed Dialect.legacyNamespace "local" ∧ Components.trimmedText node = target

/-- An element of object markup that refers to a target by its attribute. -/
def IsRef (uri target : String) (node : Node) : Prop :=
  node.isNamed uri "ref" ∧ node.attribute? "object" = some target

/-- A property of component markup refers to its targets by its attribute, by an element
in it or by a list of such elements. -/
inductive Targets.InComponent : Targets → Node → Prop where
  | byAttribute {target : String} {property : Node}
      (hlocal : property.attribute? "local" = some target) : InComponent (.one target) property
  | byElement {target : String} {property reference : Node}
      (hlocal : property.attribute? "local" = none)
      (helements : Xml.elements property.children = [reference])
      (hreference : IsLocal target reference) : InComponent (.one target) property
  | byList {targets : List String} {property list : Node}
      (hlocal : property.attribute? "local" = none)
      (helements : Xml.elements property.children = [list])
      (hlist : list.isNamed Dialect.legacyNamespace "list")
      (hitems : List.Forall₂ IsLocal targets (Xml.elements list.children)) :
      InComponent (.list targets) property

/-- A property of object markup refers to its targets in the same three ways. -/
inductive Targets.InObject (uri : String) : Targets → Node → Prop where
  | byAttribute {target : String} {property : Node}
      (href : property.attribute? "ref" = some target) : InObject uri (.one target) property
  | byElement {target : String} {property reference : Node}
      (href : property.attribute? "ref" = none) (hvalue : property.attribute? "value" = none)
      (helements : Xml.elements property.children = [reference])
      (hreference : IsRef uri target reference) : InObject uri (.one target) property
  | byList {targets : List String} {property list : Node}
      (href : property.attribute? "ref" = none) (hvalue : property.attribute? "value" = none)
      (helements : Xml.elements property.children = [list])
      (hlist : list.isNamed uri "list")
      (hitems : List.Forall₂ (IsRef uri) targets (Xml.elements list.children)) :
      InObject uri (.list targets) property

/-- A property element has the name of a property and refers to its targets. -/
structure IsProperty (uri : String) (refers : Targets → Node → Prop) (p : String × Targets)
    (node : Node) : Prop where
  element : node.isNamed uri "property"
  name : node.attribute? "name" = some p.1
  refers : refers p.2 node

/-- An element has the attributes and the properties of a component, and no other elements
in it. -/
structure ReferringComponent.WrittenAs (uri localName : String)
    (refers : Targets → Node → Prop) (component : ReferringComponent) (node : Node) : Prop where
  element : node.isNamed uri localName
  id : node.attribute? "id" = some component.id
  typeName : node.attribute? "class" = component.typeName
  scope : node.attribute? "scope" = component.scope
  properties :
    List.Forall₂ (IsProperty uri refers) component.properties (Xml.elements node.children)

namespace ReferringComponent

def InComponents (component : ReferringComponent) (node : Node) : Prop :=
  component.WrittenAs Dialect.legacyNamespace "component" Targets.InComponent node

/-- An object element gives a component none of the attributes that components lack. -/
structure InObjects (uri : String) (component : ReferringComponent) (node : Node) : Prop
    extends component.WrittenAs uri "object" (Targets.InObject uri) node where
  lazyInit : node.attribute? "lazy-init" = none
  isAbstract : node.attribute? "abstract" = none
  parent : node.attribute? "parent" = none

/-- An element is the root of a document of component markup with some components. -/
def ComponentsRoot (components : List ReferringComponent) (root : Node) : Prop :=
  root.name = ⟨some Dialect.legacyNamespace, "components"⟩ ∧
    List.Forall₂ InComponents components (Xml.elements root.children)

/-- An element is the root of a document of object markup with some components. -/
def ObjectsRoot (components : List ReferringComponent) (root : Node) : Prop :=
  ∃ uri ∈ Dialect.objects.namespaces, root.name = ⟨some uri, "objects"⟩ ∧
    List.Forall₂ (InObjects uri) components (Xml.elements root.children)

end ReferringComponent

namespace Xml

variable {uri localName : String} {nodes : List Node}

theorem filter_isNamed_of_elements
    (hnamed : ∀ node ∈ elements nodes, node.isNamed uri localName) :
    nodes.filter (Node.isNamed uri localName) = elements nodes := by
  rw [← filter_isNamed_elements]
  exact List.filter_eq_self.mpr hnamed

/-- The only element among some nodes is found by its name, and by no other. -/
theorem child?_of_elements {node : Node} (helements : elements nodes = [node]) :
    child? uri localName nodes = if node.isNamed uri localName then some node else none := by
  rw [child?_eq_head?_filter, ← filter_isNamed_elements, helements, List.filter_singleton]
  cases node.isNamed uri localName <;> rfl

theorem isNamed_eq_false {uri other name different : String} {node : Node}
    (hnamed : node.isNamed uri name) (hname : different ≠ name) :
    node.isNamed other different = false := by
  cases node with
  | element =>
    rw [Node.isNamed, beq_iff_eq] at hnamed
    rw [Node.isNamed, hnamed, beq_eq_false_iff_ne]
    intro hsame
    cases hsame
    exact hname rfl
  | _ => cases hnamed

theorem exists_element_of_isNamed {node : Node} (hnamed : node.isNamed uri localName) :
    ∃ attributes children, node = .element ⟨some uri, localName⟩ attributes children := by
  cases node with
  | element name attributes children =>
    rw [Node.isNamed, beq_iff_eq] at hnamed
    exact ⟨attributes, children, by rw [hnamed]⟩
  | _ => cases hnamed

end Xml

/-! Component markup. -/

namespace Components

theorem trimmedText_of_forall₂ {targets : List String} {nodes : List Node}
    (hitems : List.Forall₂ IsLocal targets nodes) : nodes.map trimmedText = targets := by
  induction hitems with
  | nil => rfl
  | cons hitem _ ih => rw [List.map_cons, ih, hitem.2]

theorem propertyValue?_of_inComponent {targets : Targets} {property : Node} (name : String)
    (hrefers : targets.InComponent property) :
    propertyValue? name property = some (targets.value name) := by
  unfold propertyValue?
  cases hrefers with
  | byAttribute hlocal => rw [hlocal, Targets.value]
  | @byElement target _ reference hlocal helements hreference =>
    have hchild : child? "local" property = some reference := by
      rw [child?, Xml.child?_of_elements helements, if_pos hreference.1]
    rw [hlocal]
    dsimp only
    rw [hchild, Targets.value, ← hreference.2]
  | @byList targets _ list hlocal helements hlist hitems =>
    have hnone : child? "local" property = none := by
      rw [child?, Xml.child?_of_elements helements,
        Xml.isNamed_eq_false hlist (by decide)]
      rfl
    have hchild : child? "list" property = some list := by
      rw [child?, Xml.child?_of_elements helements, if_pos hlist]
    have hlocals : list.children.filter (isComponentElement "local") =
        Xml.elements list.children :=
      Xml.filter_isNamed_of_elements fun node hnode => by
        obtain ⟨target, -, hitem⟩ := exists_of_mem_forall₂ hitems hnode
        exact hitem.1
    rw [hlocal]
    dsimp only
    rw [hnone, hchild]
    dsimp only
    rw [hlocals, trimmedText_of_forall₂ hitems, Targets.value]

theorem answer_properties (source object : String) {written : List (String × Targets)}
    {nodes : List Node}
    (hwritten : List.Forall₂ (IsProperty Dialect.legacyNamespace Targets.InComponent)
      written nodes) :
    (properties source object nodes).answer = .ok (written.map fun p => p.2.value p.1) := by
  induction hwritten with
  | nil => rfl
  | cons hproperty _ ih =>
    rw [properties, hproperty.name, Option.getD_some,
      propertyValue?_of_inComponent _ hproperty.refers]
    dsimp only
    rw [Traced.answer_bind, ih]
    rfl

theorem answer_definition {component : ReferringComponent} {node : Node}
    (hwritten : component.InComponents node) (source : String) :
    (definition source node).answer = component.definition source := by
  have hproperties : node.children.filter (isComponentElement "property") =
      Xml.elements node.children :=
    Xml.filter_isNamed_of_elements fun child hchild => by
      obtain ⟨p, -, hproperty⟩ := exists_of_mem_forall₂ hwritten.properties hchild
      exact hproperty.element
  rw [definition, hwritten.id, hwritten.typeName, hwritten.scope, hproperties, Option.getD_some,
    ReferringComponent.definition, Traced.answer_bind, Traced.ofExcept]
  cases Scope.ofDeclared source component.id component.scope with
  | error e => rfl
  | ok scope =>
    change ((properties source component.id _ >>= _ : Reading ObjectDefinition)).answer = _
    rw [Traced.answer_bind, answer_properties source component.id hwritten.properties]
    rfl

theorem answer_definitions {components : List ReferringComponent} {nodes : List Node}
    (hwritten : List.Forall₂ ReferringComponent.InComponents components nodes)
    (source : String) :
    (definitions source nodes).answer =
      components.mapM (ReferringComponent.definition source) := by
  induction hwritten with
  | nil => rfl
  | cons hcomponent _ ih =>
    rw [definitions, Traced.answer_bind, answer_definition hcomponent source, List.mapM_cons]
    congr 1
    funext own
    rw [Traced.answer_bind]
    change (definitions source _ >>= _ : Reading (List ObjectDefinition)).answer = _
    rw [Traced.answer_bind, ih]
    rfl

end Components

namespace ReferringComponent

variable {components : List ReferringComponent} {root : Node}

/-- Reading component markup gives the definitions that the components describe. -/
theorem answer_readComponentsRoot (hwritten : ComponentsRoot components root) (location : String) :
    (Dialect.readComponentsRoot location root).answer =
      components.mapM (definition location) := by
  obtain ⟨hname, hcomponents⟩ := hwritten
  have hroot : Markup.rootNamespace location "components" Dialect.legacy.namespaces root =
      .ok Dialect.legacyNamespace :=
    Markup.rootNamespace_of_name hname (by decide)
  have hfilter : root.children.filter (Components.isComponentElement "component") =
      Xml.elements root.children :=
    Xml.filter_isNamed_of_elements fun node hnode => by
      obtain ⟨component, -, hcomponent⟩ := exists_of_mem_forall₂ hcomponents hnode
      exact hcomponent.element
  rw [Dialect.readComponentsRoot, hroot, Components.document, hfilter]
  exact Components.answer_definitions hcomponents location

end ReferringComponent

/-! Object markup. -/

namespace Markup

variable {v : Vocabulary} {uri : String}

theorem contents_eq_map_elements (nodes : List Node) :
    contents v uri nodes = (Xml.elements nodes).map (content v uri) := by
  induction nodes with
  | nil => rw [contents, Xml.elements, List.filter_nil, List.map_nil]
  | cons node nodes ih =>
    unfold Xml.elements at ih ⊢
    rw [contents, ih, List.filter_cons]
    split <;> rfl

theorem firstContent_eq_head?_elements (nodes : List Node) :
    firstContent v uri nodes = (Xml.elements nodes).head?.map (content v uri) := by
  induction nodes with
  | nil => rw [firstContent, Xml.elements, List.filter_nil, List.head?_nil, Option.map_none]
  | cons node nodes ih =>
    unfold Xml.elements at ih ⊢
    rw [firstContent, ih, List.filter_cons]
    split <;> rfl

theorem properties_elements (nodes : List Node) :
    properties v uri (Xml.elements nodes) = properties v uri nodes := by
  induction nodes with
  | nil => rfl
  | cons node nodes ih =>
    unfold Xml.elements at ih ⊢
    rw [List.filter_cons]
    cases node <;> simp [Xml.Node.isElement, properties, ih]

theorem arguments_elements (nodes : List Node) :
    arguments v uri (Xml.elements nodes) = arguments v uri nodes := by
  induction nodes with
  | nil => rfl
  | cons node nodes ih =>
    unfold Xml.elements at ih ⊢
    rw [List.filter_cons]
    cases node <;> simp [Xml.Node.isElement, arguments, ih]

theorem content_of_isRef {target : String} {node : Node} (href : IsRef uri target node) :
    content .objects uri node = .reference target := by
  obtain ⟨attributes, children, rfl⟩ := Xml.exists_element_of_isNamed href.1
  have htarget : Xml.attribute? "object" attributes = some target := href.2
  rw [content, if_neg (by simp)]
  simp [Vocabulary.tag?, reference, Vocabulary.objects, htarget]

theorem contents_of_forall₂ {targets : List String} {nodes : List Node}
    (hitems : List.Forall₂ (IsRef uri) targets nodes) :
    nodes.map (content .objects uri) = targets.map .reference := by
  induction hitems with
  | nil => rfl
  | cons hitem _ ih => rw [List.map_cons, List.map_cons, ih, content_of_isRef hitem]

theorem slot_of_inObject {targets : Targets} {property : Node}
    (hrefers : targets.InObject uri property) :
    slot property.attributes (firstContent .objects uri property.children) = targets.content := by
  cases hrefers with
  | @byAttribute target _ href =>
    have href : Xml.attribute? "ref" property.attributes = some target := href
    rw [slot, href, Targets.content]
  | @byElement target _ reference href hvalue helements hreference =>
    have href : Xml.attribute? "ref" property.attributes = none := href
    have hvalue : Xml.attribute? "value" property.attributes = none := hvalue
    rw [slot, href, hvalue, firstContent_eq_head?_elements, helements, Targets.content]
    exact content_of_isRef hreference
  | @byList targets _ list href hvalue helements hlist hitems =>
    have href : Xml.attribute? "ref" property.attributes = none := href
    have hvalue : Xml.attribute? "value" property.attributes = none := hvalue
    obtain ⟨attributes, children, rfl⟩ := Xml.exists_element_of_isNamed hlist
    have hcontents : contents .objects uri children = targets.map .reference := by
      rw [contents_eq_map_elements]
      exact contents_of_forall₂ hitems
    rw [slot, href, hvalue, firstContent_eq_head?_elements, helements, Targets.content,
      ← hcontents]
    change content .objects uri (.element ⟨some uri, "list"⟩ attributes children) = _
    rw [content, if_neg (by simp)]
    rfl

theorem properties_of_forall₂ {written : List (String × Targets)} {nodes : List Node}
    (hwritten : List.Forall₂ (IsProperty uri (Targets.InObject uri)) written nodes) :
    properties .objects uri nodes = written.map fun p => .named p.1 p.2.content := by
  induction hwritten with
  | nil => rfl
  | @cons p node _ _ hproperty _ ih =>
    obtain ⟨attributes, children, rfl⟩ := Xml.exists_element_of_isNamed hproperty.element
    have hname : Xml.attribute? "name" attributes = some p.1 := hproperty.name
    have hslot : slot attributes (firstContent .objects uri children) = p.2.content :=
      slot_of_inObject hproperty.refers
    rw [properties, if_pos rfl, hname, hslot, ih, List.map_cons]

theorem arguments_of_forall₂ {written : List (String × Targets)} {nodes : List Node}
    (hwritten : List.Forall₂ (IsProperty uri (Targets.InObject uri)) written nodes) :
    arguments .objects uri nodes = [] := by
  induction hwritten with
  | nil => rfl
  | @cons p node _ _ hproperty _ ih =>
    obtain ⟨attributes, children, rfl⟩ := Xml.exists_element_of_isNamed hproperty.element
    rw [arguments, if_neg (by simp), ih]

end Markup

/-- The declaration of a component in object markup. -/
def ReferringComponent.declaration (component : ReferringComponent) : Declaration where
  explicitId := some component.id
  typeName := .ofText? component.typeName
  scope := component.scope
  lazyInit := false
  isAbstract := false
  parent := .absent
  shorthand := .absent
  element := some "object"
  arguments := []
  properties := component.properties.map fun p => .named p.1 p.2.content

theorem Markup.topLevel_of_inObjects {uri : String} {component : ReferringComponent} {node : Node}
    (hwritten : component.InObjects uri node) :
    topLevel .objects uri node =
      .declared component.id component.id.isEmpty component.declaration := by
  have hproperties : properties .objects uri node.children =
      component.properties.map fun p => .named p.1 p.2.content := by
    rw [← properties_elements]
    exact properties_of_forall₂ hwritten.properties
  have harguments : arguments .objects uri node.children = [] := by
    rw [← arguments_elements]
    exact arguments_of_forall₂ hwritten.properties
  rw [topLevel, hproperties, harguments, hwritten.id]
  obtain ⟨attributes, children, rfl⟩ := Xml.exists_element_of_isNamed hwritten.element
  have hid : Xml.attribute? "id" attributes = some component.id := hwritten.id
  have htype : Xml.attribute? "class" attributes = component.typeName := hwritten.typeName
  have hscope : Xml.attribute? "scope" attributes = component.scope := hwritten.scope
  have hlazy : Xml.attribute? "lazy-init" attributes = none := hwritten.lazyInit
  have habstract : Xml.attribute? "abstract" attributes = none := hwritten.isAbstract
  have hparent : Xml.attribute? "parent" attributes = none := hwritten.parent
  rw [if_neg (by simp [Xml.Node.name])]
  simp only [Xml.Node.name, Xml.Node.attributes, Xml.Node.children, declarationOf, hid, htype,
    hscope, hlazy, habstract, hparent]
  rfl

/-! Elaboration. -/

namespace Targets

variable (source owner name : String)

theorem answer_elaborateItems (index : Nat) (targets : List String) :
    (elaborateItems source owner name .list index (targets.map .reference)).answer =
      .ok (Components.referenceItems name index targets) := by
  induction targets generalizing index with
  | nil => rfl
  | cons target targets ih =>
    rw [List.map_cons, elaborateItems, Content.elaborate, Traced.answer_bind]
    change (elaborateItems source owner name .list (index + 1) (targets.map .reference) >>= _ :
      Elaboration (List ValueDefinition)).answer = _
    rw [Traced.answer_bind, ih]
    rfl

theorem answer_elaborate (targets : Targets) :
    (targets.content.elaborate source owner name).answer = .ok (some (targets.value name)) := by
  cases targets with
  | one target => rfl
  | list targets =>
    rw [content, Content.elaborate, Traced.answer_bind, answer_elaborateItems]
    rfl

theorem answer_elaborateProperties (written : List (String × Targets)) :
    (elaborateProperties source owner (written.map fun p => .named p.1 p.2.content)).answer =
      .ok (written.map fun p => p.2.value p.1) := by
  induction written with
  | nil => rfl
  | cons p written ih =>
    rw [List.map_cons, elaborateProperties, Traced.answer_bind, answer_elaborate]
    change (elaborateProperties source owner _ >>= _ :
      Elaboration (List ValueDefinition)).answer = _
    rw [Traced.answer_bind, ih]
    rfl

theorem inlines_content (targets : Targets) : targets.content.inlines = [] := by
  cases targets with
  | one target => rfl
  | list targets =>
    rw [content, Content.inlines]
    induction targets with
    | nil => rfl
    | cons target targets ih => rw [List.map_cons, inlinesOfItems, ih]; rfl

end Targets

namespace ReferringComponent

/-- The draft of a component in object markup. -/
def draft (location : String) (component : ReferringComponent) : Except ReadError Draft :=
  (Scope.ofDeclared location component.id component.scope).map fun scope =>
    { Draft.ofFactory component.id (Factory.ofClass component.typeName) with
      scope
      args := { Arguments.empty with
        properties := component.properties.map fun p => p.2.value p.1 } }

theorem definition_eq (location : String) (component : ReferringComponent) :
    component.definition location = (component.draft location).map Draft.declared := by
  rw [definition, draft]
  cases Scope.ofDeclared location component.id component.scope <;> rfl

theorem inlines_declaration (component : ReferringComponent) :
    component.declaration.inlines = [] := by
  have hproperties : ∀ written : List (String × Targets),
      inlinesOfProperties (written.map fun p => .named p.1 p.2.content) = [] := by
    intro written
    induction written with
    | nil => rfl
    | cons p written ih => rw [List.map_cons, inlinesOfProperties, p.2.inlines_content, ih]; rfl
  rw [declaration, Declaration.inlines, inlinesOfArguments, hproperties]
  simp [Shorthand.inlines?]

theorem answer_elaborate (location : String) (component : ReferringComponent) :
    (component.declaration.elaborate location component.id).answer =
      component.draft location := by
  have hshort : ∀ typed : Bool, (if typed then pure none else
      Shorthand.elaborate location component.id .absent :
        Elaboration (Option (Builtin × Option ValueDefinition))) = pure none := by
    intro typed
    cases typed <;> rfl
  have houtline := answer_outline location component.id (.ofText? component.typeName)
    component.scope false false .absent
  rw [Markup.factory_ofText?] at houtline
  rw [declaration, Declaration.elaborate, draft]
  cases hscope : Scope.ofDeclared location component.id component.scope with
  | error e =>
    rw [hscope] at houtline
    rw [Traced.bind_of_error houtline]
    rfl
  | ok scope =>
    rw [hscope] at houtline
    rw [Traced.bind_of_ok houtline, hshort, pure_bind]
    dsimp only
    rw [Traced.bind_of_ok (Elaboration.answer_logIf _ _), elaborateArguments, pure_bind,
      Traced.bind_of_ok (Targets.answer_elaborateProperties location component.id _)]
    rfl

/-- No object is written inline in a component, so its draft holds none. -/
theorem definitions_elaborate {location : String} {component : ReferringComponent} {draft : Draft}
    (hdraft : component.draft location = .ok draft) :
    Elaboration.definitions (component.declaration.elaborate location component.id) = [] := by
  rw [← component.answer_elaborate location] at hdraft
  obtain ⟨-, hblock, -⟩ :=
    component.declaration.ensures_draft location component.id draft hdraft
  rw [component.inlines_declaration] at hblock
  exact List.forall₂_nil_left_iff.mp hblock.each

/-- The draft has no parent and holds no objects. -/
theorem parentless_of_draft {location : String} {component : ReferringComponent} {draft : Draft}
    (hdraft : component.draft location = .ok draft) : draft.parent = none ∧ draft.inner = [] := by
  obtain ⟨scope, -, rfl⟩ := (map_eq_ok_iff _ _ draft).mp hdraft
  exact ⟨rfl, rfl⟩

theorem answer_draft (location : String) (component : ReferringComponent) :
    (component.declaration.draft location component.id).answer = component.draft location := by
  have hanswer := component.answer_elaborate location
  rw [Declaration.draft, hanswer]
  cases hdraft : component.draft location with
  | error e => rfl
  | ok draft =>
    have hinner : (component.declaration.elaborate location component.id).trace.filterMap
        Emission.definition? = draft.inner := by
      rw [(parentless_of_draft hdraft).2]
      exact definitions_elaborate hdraft
    rw [hinner]
    rfl

theorem answer_draftsOf {uri : String} {components : List ReferringComponent} {nodes : List Node}
    (hwritten : List.Forall₂ (InObjects uri) components nodes) (location : String) :
    (draftsOf location (nodes.map (Markup.topLevel .objects uri))).answer =
      components.mapM (draft location) := by
  induction hwritten with
  | nil => rfl
  | @cons component node _ _ hcomponent _ ih =>
    rw [List.map_cons, Markup.topLevel_of_inObjects hcomponent, answer_draftsOf_declared,
      answer_draft, ih, List.mapM_cons]

/-- Drafts without a parent, and with no objects in them, are defined as they are declared. -/
theorem answer_resolveTemplates {drafts : List Draft}
    (hdrafts : ∀ draft ∈ drafts, draft.parent = none ∧ draft.inner = []) (location : String) :
    (resolveTemplates location drafts).answer = .ok (drafts.map Draft.declared) := by
  have hblocks : ∀ draft ∈ drafts,
      TemplateSet.block ⟨location, drafts⟩ draft = .ok [draft.declared] := by
    intro draft hdraft
    obtain ⟨hparent, hinner⟩ := hdrafts draft hdraft
    rw [TemplateSet.block, TemplateSet.resolve, TemplateSet.ancestry, hparent,
      TemplateSet.climb, hinner]
    rfl
  rw [TemplateSet.resolveTemplates_of_blocks hblocks, List.map_eq_flatMap]

theorem mapM_definition (location : String) (components : List ReferringComponent) :
    components.mapM (definition location) =
      (components.mapM (draft location)).map (List.map Draft.declared) := by
  induction components with
  | nil => rfl
  | cons component components ih =>
    rw [List.mapM_cons, List.mapM_cons, ih, definition_eq]
    cases component.draft location with
    | error e => rfl
    | ok draft => cases components.mapM (ReferringComponent.draft location) <;> rfl

theorem answer_definitionsOf {uri : String} {nodes : List Node}
    (hwritten : List.Forall₂ (InObjects uri) components nodes) (location : String) :
    (definitionsOf location (nodes.map (Markup.topLevel .objects uri))).answer =
      components.mapM (definition location) := by
  rw [Wiring.answer_definitionsOf, answer_draftsOf hwritten, mapM_definition]
  cases hdrafts : components.mapM (draft location) with
  | error e => rfl
  | ok drafts =>
    have hplain : ∀ draft ∈ drafts, draft.parent = none ∧ draft.inner = [] := by
      intro d hd
      obtain ⟨component, -, hdraft⟩ :=
        exists_of_mem_forall₂ ((mapM_eq_ok_iff _ _ _).mp hdrafts) hd
      exact parentless_of_draft hdraft
    exact answer_resolveTemplates hplain location

/-- Reading object markup gives the same definitions. -/
theorem answer_readRoot (hwritten : ObjectsRoot components root) (location : String) :
    (Dialect.readRoot .objects location root).answer = components.mapM (definition location) := by
  obtain ⟨uri, huri, hname, hcomponents⟩ := hwritten
  have hroot : Markup.rootNamespace location Vocabulary.objects.root
      Vocabulary.objects.dialect.namespaces root = .ok uri :=
    Markup.rootNamespace_of_name hname huri
  rw [Dialect.readRoot, hroot]
  exact answer_definitionsOf hcomponents location

/-- A component describes a definition unless its scope is unknown. -/
theorem definition_eq_error {location : String} {component : ReferringComponent} {e : ReadError}
    (herror : component.definition location = .error e) :
    ∃ token, component.scope = some token ∧ Scope.ofToken? token = none ∧
      e = .unknownScope location component.id token := by
  unfold definition at herror
  cases hscope : component.scope with
  | none =>
    rw [hscope] at herror
    cases herror
  | some token =>
    rw [hscope, Scope.ofDeclared] at herror
    cases htoken : Scope.ofToken? token with
    | some scope =>
      rw [htoken] at herror
      cases herror
    | none =>
      rw [htoken] at herror
      cases herror
      exact ⟨token, rfl, htoken, rfl⟩

/-- Component markup and object markup that write the same components are read the same,
whatever texts spell the two trees. There are definitions, or there is the error of a component
whose scope is unknown. -/
theorem answer_legacy_eq_objects {components : List ReferringComponent}
    {componentsRoot objectsRoot : Node} (hcomponents : ComponentsRoot components componentsRoot)
    (hobjects : ObjectsRoot components objectsRoot) (location : String) :
    (Dialect.readComponentsRoot location componentsRoot).answer =
        (Dialect.readRoot .objects location objectsRoot).answer ∧
      ((∃ definitions,
          (Dialect.readComponentsRoot location componentsRoot).answer = .ok definitions) ∨
        ∃ component ∈ components, ∃ token, component.scope = some token ∧
          Scope.ofToken? token = none ∧
          (Dialect.readComponentsRoot location componentsRoot).answer =
            .error (.unknownScope location component.id token)) ∧
      ∀ componentsText objectsText : String,
        Xml.parse? componentsText = some componentsRoot →
        Xml.parse? objectsText = some objectsRoot →
        (Dialect.legacy.readText location componentsText).answer =
          (Dialect.objects.readText location objectsText).answer := by
  have hsame : (Dialect.readComponentsRoot location componentsRoot).answer =
      (Dialect.readRoot .objects location objectsRoot).answer := by
    rw [answer_readComponentsRoot hcomponents, answer_readRoot hobjects]
  refine ⟨hsame, ?_, fun componentsText objectsText hcomponents hobjects => ?_⟩
  · rw [answer_readComponentsRoot hcomponents]
    cases hread : components.mapM (definition location) with
    | ok definitions => exact Or.inl ⟨definitions, rfl⟩
    | error e =>
      obtain ⟨before, component, after, rfl, -, herror⟩ := (mapM_eq_error_iff _ _ e).mp hread
      obtain ⟨token, hscope, hunknown, rfl⟩ := definition_eq_error herror
      exact Or.inr ⟨component, by simp, token, hscope, hunknown, rfl⟩
  · rw [Dialect.readText, Dialect.readText, Dialect.readComponents_of_parse _ hcomponents,
      Dialect.readMarkup_of_parse _ _ hobjects]
    exact hsame

/-- A prototype with one reference given by an attribute, one by an element, and a list. -/
def service : ReferringComponent where
  id := "service"
  typeName := some "shop.Service"
  scope := some "prototype"
  properties := [("db", .one "db"), ("cache", .one "memory"), ("peers", .list ["a", "b"])]

/-- The root element of a document with the service in it, given its three properties. -/
def serviceRoot (uri root localName : String) (db cache peers : Node) : Node :=
  Portable.element uri root [] [.comment "prototypes", Portable.element uri localName
    [("id", "service"), ("class", "shop.Service"), ("scope", "prototype")]
    [db, .text " ", cache, peers]]

def serviceComponents : Node :=
  let element := Portable.element Dialect.legacyNamespace
  serviceRoot Dialect.legacyNamespace "components" "component"
    (element "property" [("name", "db"), ("local", "db")] [])
    (element "property" [("name", "cache")] [element "local" [] [.text " memory "]])
    (element "property" [("name", "peers")]
      [element "list" [] [element "local" [] [.text "a"], element "local" [] [.text "b"]]])

def serviceObjects : Node :=
  let element := Portable.element Dialect.objectsNamespace
  serviceRoot Dialect.objectsNamespace "objects" "object"
    (element "property" [("name", "db"), ("ref", "db")] [])
    (element "property" [("name", "cache")] [element "ref" [("object", "memory")] []])
    (element "property" [("name", "peers")] [element "list" []
      [element "ref" [("object", "a")] [], element "ref" [("object", "b")] []]])

theorem answer_legacy_eq_objects_service :
    ComponentsRoot [service] serviceComponents ∧ ObjectsRoot [service] serviceObjects ∧
      (Dialect.readComponentsRoot "app.xml" serviceComponents).answer =
        (Dialect.readRoot .objects "app.xml" serviceObjects).answer := by
  have hcomponents : ComponentsRoot [service] serviceComponents := by
    refine ⟨rfl, .cons ⟨rfl, rfl, rfl, rfl, ?_⟩ .nil⟩
    refine .cons ⟨rfl, rfl, .byAttribute rfl⟩
      (.cons ⟨rfl, rfl, .byElement rfl rfl ⟨rfl, by decide⟩⟩
      (.cons ⟨rfl, rfl, .byList rfl rfl rfl ?_⟩ .nil))
    exact .cons ⟨rfl, by decide⟩ (.cons ⟨rfl, by decide⟩ .nil)
  have hobjects : ObjectsRoot [service] serviceObjects := by
    refine ⟨Dialect.objectsNamespace, by decide, rfl,
      .cons ⟨⟨rfl, rfl, rfl, rfl, ?_⟩, rfl, rfl, rfl⟩ .nil⟩
    refine .cons ⟨rfl, rfl, .byAttribute rfl⟩
      (.cons ⟨rfl, rfl, .byElement rfl rfl rfl ⟨rfl, rfl⟩⟩
      (.cons ⟨rfl, rfl, .byList rfl rfl rfl rfl ?_⟩ .nil))
    exact .cons ⟨rfl, rfl⟩ (.cons ⟨rfl, rfl⟩ .nil)
  exact ⟨hcomponents, hobjects, (answer_legacy_eq_objects hcomponents hobjects "app.xml").1⟩

end ReferringComponent

end Wiring
