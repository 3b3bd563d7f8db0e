import Wiring.Proofs.Elaboration.Pruning
import Wiring.Proofs.Number.Digits
import Wiring.Proofs.Parity.Attributes
import Wiring.Proofs.Parity.Spelling

/-!
Numbers in structured text against the same characters in markup. A number is read and
written again before it becomes a text, so in any place of a declaration it stands for the
text that it is written as. That is the text in the document only for numbers in the
spelling they are written in.
-/

namespace Wiring

/-- One collection around a value, with nothing else in it. -/
inductive Layer where
  /-- A sequence of a shape that is told. -/
  | item (shape : Shape)
  /-- A list, which in structured text need not be told. -/
  | listed
  /-- A mapping that is told to be one. -/
  | entry (key : String)
  /-- A mapping that can only be one, since its key means nothing else. -/
  | plainEntry (key : String) (hkey : key ∉ "object" :: "class" :: StructuredText.shapeKeys)

/-- Where a declaration has a value. -/
inductive Position where
  | positional
  | named (name : String)
  | property (name : String)

namespace Layer

open Portable (element shapeTag)

/-- The element of a layer around another element. -/
def node (uri : String) (inside : Xml.Node) : Layer → Xml.Node
  | item shape => element uri (shapeTag shape) [] [inside]
  | listed => element uri (shapeTag .list) [] [inside]
  | entry key => element uri "dict" [] [element uri "entry" [("key", some key)] [inside]]
  | plainEntry key _ => element uri "dict" [] [element uri "entry" [("key", some key)] [inside]]

/-- A layer around a value in structured text. -/
def value (inside : Yaml.Value) : Layer → Yaml.Value
  | item shape => .mapping [(.string (shapeTag shape), .sequence [inside])]
  | listed => .sequence [inside]
  | entry key => .mapping [(.string "dict", .mapping [(.string key, inside)])]
  | plainEntry key _ => .mapping [(.string key, inside)]

/-- What a layer around some content is read as. -/
def content (inside : Content) : Layer → Content
  | item shape => .sequence shape [inside]
  | listed => .sequence .list [inside]
  | entry key => .mapping [.keyed key inside]
  | plainEntry key _ => .mapping [.keyed key inside]

/-- The value of some layers around a scalar. -/
def definition (name : String) (scalar : Scalar) : List Layer → ValueDefinition
  | [] => .scalar name scalar
  | item shape :: layers =>
    .sequence name shape [definition (Naming.element name shape.label 0) scalar layers]
  | listed :: layers =>
    .sequence name .list [definition (Naming.element name Shape.list.label 0) scalar layers]
  | entry key :: layers => .mapping name [(key, definition (Naming.entry name key) scalar layers)]
  | plainEntry key _ :: layers =>
    .mapping name [(key, definition (Naming.entry name key) scalar layers)]

/-- Layers tell different scalars apart. -/
theorem definition_inj (layers : List Layer) (name : String) (scalar other : Scalar) :
    definition name scalar layers = definition name other layers ↔ scalar = other := by
  induction layers generalizing name with
  | nil => simp [definition]
  | cons layer layers ih => cases layer <;> simp [definition, ih]

/-- An element that can stand as the value in a mapping entry. -/
def IsValueNode (uri : String) (node : Xml.Node) : Prop :=
  node.isElement ∧ node.isNamed uri "key" = false

theorem isValueNode_node {uri : String} (inside : Xml.Node) (layer : Layer) :
    IsValueNode uri (layer.node uri inside) := by
  constructor
  · cases layer <;> rfl
  · cases layer with
    | item shape => cases shape <;> simp [node, element, Xml.Node.isNamed, shapeTag]
    | _ => simp [node, element, Xml.Node.isNamed, shapeTag]

theorem content_node {uri : String} {inside : Xml.Node} (hinside : IsValueNode uri inside)
    (layer : Layer) :
    Markup.content .objects uri (layer.node uri inside) =
      layer.content (Markup.content .objects uri inside) := by
  have hcontents : Markup.contents .objects uri [inside] =
      [Markup.content .objects uri inside] := by
    simp [Markup.contents, hinside.1]
  have hentries (key : String) :
      Markup.entries .objects uri [element uri "entry" [("key", some key)] [inside]] =
        [.keyed key (Markup.content .objects uri inside)] := by
    have hvalue : Markup.entryContent .objects uri [inside] =
        some (Markup.content .objects uri inside) := by
      simp [Markup.entryContent, hinside.1, hinside.2]
    simp [Markup.entries, element, hvalue, Markup.entryKey?]
  cases layer with
  | item shape =>
    cases shape <;>
      simp [node, element, content, shapeTag, Markup.content, Vocabulary.tag?, hcontents]
  | listed => simp [node, element, content, shapeTag, Markup.content, Vocabulary.tag?, hcontents]
  | entry key =>
    have hmapping : Vocabulary.objects.tag? "dict" = some .mapping := by decide
    have hnode := hentries key
    simp only [element] at hnode
    simp [node, element, content, Markup.content, hmapping, hnode]
  | plainEntry key hkey =>
    have hmapping : Vocabulary.objects.tag? "dict" = some .mapping := by decide
    have hnode := hentries key
    simp only [element] at hnode
    simp [node, element, content, Markup.content, hmapping, hnode]

theorem content_value {inside : Yaml.Value}
    (hinside : StructuredText.item (StructuredText.content inside) =
      StructuredText.content inside) (layer : Layer) :
    StructuredText.content (layer.value inside) =
      layer.content (StructuredText.content inside) := by
  have hcontents : StructuredText.contents [inside] = [StructuredText.content inside] := by
    simp [StructuredText.contents, hinside]
  have hentries (key : String) : StructuredText.writtenEntries [(.string key, inside)] =
      [.keyed key (StructuredText.content inside)] := by
    simp [StructuredText.writtenEntries, Yaml.Value.keyText?]
  cases layer with
  | item shape => rw [value, content, Portable.content_shape, hcontents]
  | listed => simp [value, content, StructuredText.content, hcontents]
  | entry key => rw [value, content, Portable.content_dict, hentries]
  | plainEntry key hkey =>
    have hfind (k : String) (hk : k ∈ "object" :: "class" :: StructuredText.shapeKeys) :
        Yaml.Mapping.find? k [(.string key, inside)] = none := by
      have hne : key ≠ k := fun hsame => hkey (hsame ▸ hk)
      simp [Yaml.Mapping.find?, hne]
    have hitems (k : String) (hk : k ∈ "object" :: "class" :: StructuredText.shapeKeys) :
        StructuredText.itemsUnder k [(.string key, inside)] = none :=
      StructuredText.itemsUnder_eq_none (hfind k hk)
    have hdict : StructuredText.entriesUnder "dict" [(.string key, inside)] = none :=
      StructuredText.entriesUnder_eq_none (hfind "dict" (by decide))
    rw [value, StructuredText.content, hfind "ref" (by decide)]
    simp [content, StructuredText.isDeclaration, hfind "object" (by decide),
      hfind "class" (by decide), hitems "tuple" (by decide), hitems "set" (by decide),
      hitems "frozenset" (by decide), hitems "list" (by decide), hdict, hentries]

/-- The value of a layer is made of the value in it and nothing else. -/
theorem elaborate_content (source : String) {inside : Content} {scalar : Scalar}
    {layers : List Layer} (hinside : ∀ owner name, inside.elaborate source owner name =
      pure (some (definition name scalar layers))) (layer : Layer) (owner name : String) :
    (layer.content inside).elaborate source owner name =
      pure (some (definition name scalar (layer :: layers))) := by
  cases layer <;>
    simp [content, Content.elaborate, elaborateItems, elaborateEntries, hinside, definition,
      Entries.put]

end Layer

/-! Layers around layers. -/

/-- The element of a value in layers, the first of which is the outermost. -/
def layeredNode (uri : String) (inside : Xml.Node) (layers : List Layer) : Xml.Node :=
  layers.foldr (fun layer node => layer.node uri node) inside

def layeredValue (inside : Yaml.Value) (layers : List Layer) : Yaml.Value :=
  layers.foldr (fun layer value => layer.value value) inside

def layeredContent (inside : Content) (layers : List Layer) : Content :=
  layers.foldr (fun layer content => layer.content content) inside

theorem isValueNode_layeredNode {uri : String} {inside : Xml.Node}
    (hinside : Layer.IsValueNode uri inside) (layers : List Layer) :
    Layer.IsValueNode uri (layeredNode uri inside layers) := by
  cases layers with
  | nil => exact hinside
  | cons layer layers => exact Layer.isValueNode_node _ layer

theorem content_layeredNode {uri : String} {inside : Xml.Node}
    (hinside : Layer.IsValueNode uri inside) (layers : List Layer) :
    Markup.content .objects uri (layeredNode uri inside layers) =
      layeredContent (Markup.content .objects uri inside) layers := by
  induction layers with
  | nil => rfl
  | cons layer layers ih =>
    have hlayer := Layer.content_node (isValueNode_layeredNode hinside layers) layer
    rw [ih] at hlayer
    exact hlayer

theorem content_layeredValue {inside : Yaml.Value} {scalar : Scalar}
    (hinside : StructuredText.content inside = .scalar scalar) (layers : List Layer) :
    StructuredText.content (layeredValue inside layers) =
      layeredContent (.scalar scalar) layers := by
  have hitem (layers : List Layer) : StructuredText.item (layeredContent (.scalar scalar) layers) =
      layeredContent (.scalar scalar) layers := by
    cases layers with
    | nil => simp [layeredContent, StructuredText.item]
    | cons layer layers => cases layer <;> simp [layeredContent, Layer.content, StructuredText.item]
  induction layers with
  | nil => exact hinside
  | cons layer layers ih =>
    have hnested : StructuredText.item (StructuredText.content (layeredValue inside layers)) =
        StructuredText.content (layeredValue inside layers) := by
      rw [ih, hitem]
    have hlayer := Layer.content_value hnested layer
    rw [ih] at hlayer
    exact hlayer

theorem elaborate_layeredContent (source : String) (scalar : Scalar) (layers : List Layer)
    (owner name : String) :
    (layeredContent (.scalar scalar) layers).elaborate source owner name =
      pure (some (Layer.definition name scalar layers)) := by
  induction layers generalizing owner name with
  | nil => simp [layeredContent, Content.elaborate, Layer.definition]
  | cons layer layers ih => exact Layer.elaborate_content source ih layer owner name

/-! Positions in a declaration. -/

namespace Position

open Portable (element)

/-- The name of the value in a position. -/
def label : Position → String
  | positional => Naming.positional 0
  | named name => name
  | property name => name

/-- The element of a declaration with nothing but the element of a value. -/
def node (uri id typeName : String) (inside : Xml.Node) (position : Position) : Xml.Node :=
  element uri "object" [("id", some id), ("class", some typeName)] [
    match position with
    | positional => element uri "constructor-arg" [] [inside]
    | named name => element uri "constructor-arg" [("name", some name)] [inside]
    | property name => element uri "property" [("name", some name)] [inside]]

/-- The mapping of a declaration with nothing but a value. -/
def mapping (id typeName : String) (inside : Yaml.Value) (position : Position) : Yaml.Mapping :=
  [(.string "object", .string id), (.string "class", .string typeName),
    match position with
    | positional => (.string "constructor-args", .sequence [inside])
    | named name => (.string "constructor-args", .mapping [(.string name, inside)])
    | property name => (.string "properties", .mapping [(.string name, inside)])]

def writtenArguments (content : Content) : Position → List WrittenArgument
  | positional => [.positional content]
  | named name => [.named name content]
  | property _ => []

def writtenProperties (content : Content) : Position → List WrittenProperty
  | property name => [.named name content]
  | _ => []

/-- The arguments of a declaration with one value. -/
def arguments (value : ValueDefinition) : Position → Arguments
  | positional => ⟨[some value], [], []⟩
  | named name => ⟨[], [(name, value)], []⟩
  | property _ => ⟨[], [], [value]⟩

/-- The draft of a declaration with one value. -/
def draft (id typeName : String) (value : ValueDefinition) (position : Position) : Draft where
  id := id
  factory := Factory.ofClass (some typeName)
  scope := .singleton
  lazyInit := false
  isAbstract := false
  parent := none
  args := position.arguments value
  inner := []

theorem draft_inj (id typeName : String) (value other : ValueDefinition) (position : Position) :
    position.draft id typeName value = position.draft id typeName other ↔ value = other := by
  cases position <;> simp [draft, arguments]

/-- A declaration that is read from a position with some content. -/
structure Reads (position : Position) (typeName : String) (content : Content)
    (declaration : Declaration) : Prop where
  typeName : declaration.typeName = .given typeName
  scope : declaration.scope = none
  lazyInit : declaration.lazyInit = false
  isAbstract : declaration.isAbstract = false
  parent : declaration.parent = .absent
  shorthand : declaration.shorthand = .absent
  arguments : declaration.arguments = position.writtenArguments content
  properties : declaration.properties = position.writtenProperties content

variable (source : String) {typeName id : String} {position : Position} {content : Content}
  {declaration : Declaration}

theorem Reads.answer_draftsOf (hreads : position.Reads typeName content declaration)
    {value : ValueDefinition}
    (hcontent : ∀ owner, content.elaborate source owner position.label = pure (some value))
    (idless : Bool) :
    (draftsOf source [.declared id idless declaration]).answer =
      .ok [position.draft id typeName value] := by
  obtain ⟨explicitId, type, scope, lazyInit, isAbstract, parent, shorthand, name, written,
    listed⟩ := declaration
  obtain ⟨htype, hscope, hlazy, habstract, hparent, hshorthand, hwritten, hlisted⟩ := hreads
  dsimp only at htype hscope hlazy habstract hparent hshorthand hwritten hlisted
  subst htype hscope hlazy habstract hparent hshorthand hwritten hlisted
  have hwritten : elaborateArguments source id Arguments.empty (position.writtenArguments content) =
      pure { position.arguments value with properties := [] } := by
    cases position with
    | positional =>
      have hvalue := hcontent id
      simp only [label] at hvalue
      simp [writtenArguments, elaborateArguments, Arguments.empty, hvalue, Position.arguments]
    | named key =>
      have hvalue := hcontent id
      simp only [label] at hvalue
      simp [writtenArguments, elaborateArguments, Arguments.empty, hvalue, Position.arguments,
        Entries.put]
    | property key =>
      simp [writtenArguments, elaborateArguments, Arguments.empty, Position.arguments]
  have hlisted : elaborateProperties source id (position.writtenProperties content) =
      pure (position.arguments value).properties := by
    cases position with
    | property key =>
      have hvalue := hcontent id
      simp only [label] at hvalue
      simp [writtenProperties, elaborateProperties, hvalue, Position.arguments]
    | _ => simp [writtenProperties, elaborateProperties, Position.arguments]
  have hagree : Elaboration.Agree
      (Declaration.elaborate source id ⟨explicitId, .given typeName, none, false, false, .absent,
        .absent, name, position.writtenArguments content, position.writtenProperties content⟩)
      (pure (position.draft id typeName value)) := by
    have houtline := answer_outline source id (.given typeName) none false false .absent
    have hsilent := ensures_outline source id (.given typeName) none false false .absent _ houtline
    rw [Declaration.elaborate]
    refine Elaboration.Agree.skip houtline hsilent.1 ?_
    refine Elaboration.Agree.skip (a := none) ?_ ?_ ?_
    · split <;> simp [Shorthand.elaborate, Traced.pure_def]
    · split <;> simp [Shorthand.elaborate, Traced.pure_def, Elaboration.definitions]
    refine Elaboration.Agree.skip (Elaboration.answer_logIf _ _) (Elaboration.definitions_logIf _ _)
      ?_
    rw [hwritten, hlisted]
    exact Elaboration.Agree.refl _
  have hinner : (Declaration.elaborate source id ⟨explicitId, .given typeName, none, false, false,
        .absent, .absent, name, position.writtenArguments content,
        position.writtenProperties content⟩).trace.filterMap Emission.definition? = [] :=
    hagree.definitions
  rw [answer_draftsOf_single, Declaration.draft, hagree.answer, hinner]
  rfl

/-- What is read from the element of a position. -/
theorem exists_topLevel_node {uri : String} {inside : Xml.Node}
    (hinside : Layer.IsValueNode uri inside) (id typeName : String) (position : Position) :
    ∃ idless declaration,
      Markup.topLevel .objects uri (position.node uri id typeName inside) =
        .declared id idless declaration ∧
      position.Reads typeName (Markup.content .objects uri inside) declaration := by
  have hfirst : Markup.firstContent .objects uri [inside] =
      some (Markup.content .objects uri inside) := by
    simp [Markup.firstContent, hinside.1]
  have hname : Builtin.ofName? Builtin.scalars "object" = none := by decide
  have htemplates : Vocabulary.objects.hasTemplates = true := rfl
  rw [Markup.topLevel, if_neg (by simp [node, element, Xml.Node.name])]
  refine ⟨_, _, rfl, ?_⟩
  cases position <;> constructor <;>
    simp [node, element, Markup.declarationOf, Xml.Node.attributes, Xml.Node.children,
      Xml.Node.name, TextAttribute.ofText?, Markup.isSet, htemplates, Markup.shorthand,
      hname, Markup.arguments, Markup.properties, Markup.slot, hfirst, writtenArguments,
      writtenProperties]

/-- What is read from the mapping of a position. Nothing in a place is no content. -/
theorem exists_topLevel_mapping {inside : Yaml.Value} (hinside : inside ≠ .null)
    (id typeName : String) (position : Position) :
    ∃ declaration, StructuredText.topLevel (position.mapping id typeName inside) =
        .declared id false declaration ∧
      position.Reads typeName (StructuredText.content inside) declaration := by
  have hid : Yaml.Mapping.find? "object" (position.mapping id typeName inside) =
      some (.string id) := by
    simp [mapping, Yaml.Mapping.find?]
  have hshorthand : StructuredText.firstShorthand (Builtin.all.map fun type =>
      (type, StructuredText.contentUnder type.name (position.mapping id typeName inside))) =
        .absent := by
    apply StructuredText.firstShorthand_eq_absent
    intro entry hentry
    obtain ⟨type, -, rfl⟩ := List.mem_map.mp hentry
    rw [StructuredText.contentUnder_eq, Option.map_eq_none_iff]
    cases position <;> cases type <;> simp [mapping, Yaml.Mapping.find?, Builtin.name]
  have hslot : StructuredText.positional [inside] =
      [.positional (StructuredText.content inside)] := by
    rw [StructuredText.positional_cons hinside, StructuredText.positional]
  refine ⟨_, by rw [StructuredText.topLevel, hid]; rfl, ?_⟩
  rw [StructuredText.declaration, hshorthand, StructuredText.arguments_eq,
    StructuredText.properties_eq]
  cases position <;> constructor <;>
    simp [mapping, StructuredText.declarationOf, Yaml.Mapping.find?,
      StructuredText.textAttribute, Yaml.Value.asText?, StructuredText.isSet, hslot,
      StructuredText.named, StructuredText.namedProperties, Yaml.Value.keyText?,
      writtenArguments, writtenProperties]

end Position

theorem Scalar.ofText_injective : Function.Injective Scalar.ofText := by
  intro text other hsame
  have hcases (t : String) : Scalar.ofText t = .bool true ∧ t = "True" ∨
      Scalar.ofText t = .bool false ∧ t = "False" ∨ Scalar.ofText t = .text t := by
    unfold Scalar.ofText
    split
    · simp [*]
    · split <;> simp [*]
  rcases hcases text with ⟨htext, rfl⟩ | ⟨htext, rfl⟩ | htext <;>
    rcases hcases other with ⟨hother, rfl⟩ | ⟨hother, rfl⟩ | hother <;>
    simp_all

section Numbers

variable (source uri id typeName : String) (position : Position) (layers : List Layer)

/-- The draft of a declaration in object markup with the element of a text in a place. -/
theorem answer_draftsOf_layeredNode (text : String) :
    (draftsOf source [Markup.topLevel .objects uri (position.node uri id typeName
      (layeredNode uri ((Portable.Value.text text).node uri) layers))]).answer =
        .ok [position.draft id typeName
          (Layer.definition position.label (Scalar.ofText text) layers)] := by
  have hinside : Layer.IsValueNode uri ((Portable.Value.text text).node uri) := by
    constructor
    · rfl
    · simp [Portable.Value.node, Portable.element, Xml.Node.isNamed]
  obtain ⟨idless, declaration, htop, hreads⟩ := Position.exists_topLevel_node
    (isValueNode_layeredNode hinside layers) id typeName position
  rw [content_layeredNode hinside, Portable.content_valueNode, Content.ofText] at hreads
  rw [htop]
  apply hreads.answer_draftsOf
  intro owner
  exact elaborate_layeredContent source (Scalar.ofText text) layers owner position.label

/-- The draft of a declaration in structured text with a plain value in a place. -/
theorem answer_draftsOf_layeredValue {inside : Yaml.Value} {scalar : Scalar}
    (hinside : StructuredText.content inside = .scalar scalar) (hne : inside ≠ .null) :
    (draftsOf source [StructuredText.topLevel (position.mapping id typeName
      (layeredValue inside layers))]).answer =
        .ok [position.draft id typeName (Layer.definition position.label scalar layers)] := by
  have hlayered : layeredValue inside layers ≠ .null := by
    cases layers with
    | nil => exact hne
    | cons layer layers => cases layer <;> simp [layeredValue, Layer.value]
  obtain ⟨declaration, htop, hreads⟩ :=
    Position.exists_topLevel_mapping hlayered id typeName position
  rw [content_layeredValue hinside] at hreads
  rw [htop]
  apply hreads.answer_draftsOf
  intro owner
  exact elaborate_layeredContent source scalar layers owner position.label

theorem content_number (n : Yaml.Numeral) :
    StructuredText.content (.number n) = .scalar (Scalar.ofText n.text) := by
  simp [StructuredText.content, StructuredText.scalar?]

/-- In any place a number is what the text it is written as is in markup, and so it is in
any document, among other values. It is what its own characters are in markup only if it is
spelled the way it is written, which for an integer means a plain decimal. -/
theorem number_reads_as_its_writing {t : String} {n : Yaml.Numeral}
    (hnumber : Yaml.plainValue? t = some (.number n)) :
    (∃ marked listed : Draft,
      (draftsOf source [Markup.topLevel .objects uri (position.node uri id typeName
        (layeredNode uri ((Portable.Value.text t).node uri) layers))]).answer = .ok [marked] ∧
      (draftsOf source [StructuredText.topLevel (position.mapping id typeName
        (layeredValue (.number n) layers))]).answer = .ok [listed] ∧
      (draftsOf source [Markup.topLevel .objects uri (position.node uri id typeName
        (layeredNode uri ((Portable.Value.text n.text).node uri) layers))]).answer =
          .ok [listed] ∧
      (marked = listed ↔ t = n.text) ∧
      ∀ k, n = .int k → (t = n.text ↔ Yaml.IsPlainDecimal t)) ∧
    ∀ (spelling : Portable.Spelling) (document : List Portable.Declaration),
      spelling.write t = .number n → uri ∈ Dialect.objects.namespaces →
        spelling.read t = n.text ∧
        (Dialect.readMappings source (Portable.spelledMappings spelling document)).answer =
          (Dialect.readRoot .objects source (Portable.root uri
            (document.map (Portable.Declaration.mapText spelling.read)))).answer ∧
        ((∀ text, spelling.read text = text) →
          (Dialect.readMappings source (Portable.spelledMappings spelling document)).answer =
            (Dialect.readRoot .objects source (Portable.root uri document)).answer) := by
  constructor
  · refine ⟨_, _, answer_draftsOf_layeredNode source uri id typeName position layers t,
      answer_draftsOf_layeredValue source id typeName position layers (content_number n) (by simp),
      answer_draftsOf_layeredNode source uri id typeName position layers n.text, ?_, ?_⟩
    · rw [Position.draft_inj, Layer.definition_inj]
      exact Scalar.ofText_injective.eq_iff
    · rintro k rfl
      have hinteger : Yaml.integer? t = some k := Yaml.integer?_of_plainValue? hnumber
      rw [Yaml.Numeral.text, eq_comm]
      exact Yaml.toString_integer_iff hinteger
  · intro spelling document hwrite huri
    refine ⟨?_, ?_, fun hread => ?_⟩
    · rw [Portable.Spelling.read, hwrite, Portable.textOf]
    · exact Portable.answer_readMappings_spelled spelling uri source huri document
    · exact Portable.answer_readMappings_of_read hread uri source huri document

end Numbers

/-- A property that is a dictionary with a list of one number. -/
theorem number_reads_as_its_writing_nested :
    let uri := Dialect.objectsNamespace
    let position := Position.property "sizes"
    let layers := [Layer.plainEntry "small" (by decide), Layer.listed]
    Yaml.plainValue? "+5" = some (.number (.int 5)) ∧
    (∃ marked listed : Draft,
      (draftsOf "app" [Markup.topLevel .objects uri (position.node uri "pool" "shop.Pool"
        (layeredNode uri ((Portable.Value.text "+5").node uri) layers))]).answer =
          .ok [marked] ∧
      (draftsOf "app" [StructuredText.topLevel (position.mapping "pool" "shop.Pool"
        (layeredValue (.number (.int 5)) layers))]).answer = .ok [listed] ∧
      (draftsOf "app" [Markup.topLevel .objects uri (position.node uri "pool" "shop.Pool"
        (layeredNode uri ((Portable.Value.text (Yaml.Numeral.int 5).text).node uri)
          layers))]).answer = .ok [listed] ∧
      (marked = listed ↔ "+5" = (Yaml.Numeral.int 5).text) ∧
      ∀ k, Yaml.Numeral.int 5 = .int k →
        ("+5" = (Yaml.Numeral.int 5).text ↔ Yaml.IsPlainDecimal "+5")) ∧
    ∃ spelling : Portable.Spelling, spelling.write "+5" = .number (.int 5) ∧
      ∀ document : List Portable.Declaration,
        spelling.read "+5" = (Yaml.Numeral.int 5).text ∧
        (Dialect.readMappings "app" (Portable.spelledMappings spelling document)).answer =
          (Dialect.readRoot .objects "app" (Portable.root uri
            (document.map (Portable.Declaration.mapText spelling.read)))).answer ∧
        ((∀ text, spelling.read text = text) →
          (Dialect.readMappings "app" (Portable.spelledMappings spelling document)).answer =
            (Dialect.readRoot .objects "app" (Portable.root uri document)).answer) := by
  intro uri position layers
  have hnumber : Yaml.plainValue? "+5" = some (.number (.int 5)) := rfl
  have hreads := number_reads_as_its_writing "app" uri "pool" "shop.Pool" position layers hnumber
  have hwrite : Portable.Spelling.unquoted.write "+5" = .number (.int 5) := rfl
  have huri : uri ∈ Dialect.objects.namespaces := by
    simp [Dialect.namespaces, uri]
  exact ⟨hnumber, hreads.1, .unquoted, hwrite, fun document => hreads.2 _ document hwrite huri⟩

/-- The last digit of a fraction is lost if it is a zero. -/
theorem numbers_differ_trailing_zero :
    ∃ n : Yaml.Numeral, Yaml.plainValue? "1.50" = some (.number n) ∧ n.text = "1.5" ∧
      (draftsOf "app" [Markup.topLevel .objects Dialect.objectsNamespace
        (Position.positional.node Dialect.objectsNamespace "app" "shop.App"
          ((Portable.Value.text "1.50").node Dialect.objectsNamespace))]).answer ≠
      (draftsOf "app" [StructuredText.topLevel
        (Position.positional.mapping "app" "shop.App" (.number n))]).answer := by
  refine ⟨.float ⟨0x3FF8000000000000⟩, rfl, rfl, ?_⟩
  have hmarked := answer_draftsOf_layeredNode "app" Dialect.objectsNamespace "app" "shop.App"
    Position.positional [] "1.50"
  have hlisted := answer_draftsOf_layeredValue "app" "app" "shop.App" Position.positional []
    (content_number (.float ⟨0x3FF8000000000000⟩)) (by simp)
  simp only [layeredNode, layeredValue, List.foldr_nil] at hmarked hlisted
  rw [hmarked, hlisted]
  have htext : (Yaml.Numeral.float ⟨0x3FF8000000000000⟩).text = "1.5" := rfl
  rw [htext]
  intro hsame
  have hdraft := List.singleton_inj.mp (Except.ok.inj hsame)
  rw [Position.draft_inj, Layer.definition_inj] at hdraft
  exact absurd (Scalar.ofText_injective hdraft) (by decide)

end Wiring
