import Wiring.Proofs.Parity.Reading
import Wiring.Source.Reading

/-!
Object markup and structured text agree on portable declarations: read under the same
name, the two ways to write them give the same definitions or fail with the same error.
-/

namespace Wiring

open Portable

/-- The declaration that an element is. -/
def Markup.declaration (v : Vocabulary) (uri : String) (node : Xml.Node) : Declaration :=
  declarationOf v node.name.localName node.attributes node.children
    (arguments v uri node.children) (properties v uri node.children)

namespace Portable

section Lookup

@[simp] theorem attribute?_nil (name : String) :
    Xml.attribute? name (attributes []) = none := rfl

@[simp] theorem attribute?_cons (name key : String) (text : Option String)
    (fields : List (String × Option String)) :
    Xml.attribute? name (attributes ((key, text) :: fields)) =
      if key = name then text.or (Xml.attribute? name (attributes fields))
      else Xml.attribute? name (attributes fields) := by
  cases text with
  | none => simp [attributes, Xml.attribute?]
  | some text => by_cases hkey : key = name <;> simp [attributes, Xml.attribute?, hkey]

@[simp] theorem find?_entries_nil (key : String) :
    Yaml.Mapping.find? key (entries []) = none := rfl

@[simp] theorem find?_entries_cons (key name : String) (value : Option Yaml.Value)
    (fields : List (String × Option Yaml.Value)) :
    Yaml.Mapping.find? key (entries ((name, value) :: fields)) =
      if name = key then value.or (Yaml.Mapping.find? key (entries fields))
      else Yaml.Mapping.find? key (entries fields) := by
  cases value with
  | none => simp [entries]
  | some value => by_cases hkey : name = key <;> simp [entries, Yaml.Mapping.find?, hkey]

end Lookup

theorem isSet_flagText (flag : Option Bool) :
    Markup.isSet (flag.map flagText) = StructuredText.isSet (flag.map .bool) := by
  rcases flag with _ | _ | _
  · rfl
  · decide
  · decide

theorem ofText?_eq_textAttribute (text : Option String) :
    TextAttribute.ofText? text = StructuredText.textAttribute (text.map .string) := by
  cases text <;> rfl

theorem keyText?_string (text : Option String) :
    (text.map Yaml.Value.string).bind Yaml.Value.keyText? = text := by
  cases text <;> rfl

theorem scopeToken_string (token : Option String) :
    (token.map Yaml.Value.string).map StructuredText.scopeToken = token := by
  cases token <;> rfl

variable (uri : String)

/-! What an element of each kind is read as. -/

theorem content_valueNode (content : String) :
    Markup.content .objects uri ((Value.text content).node uri) = Content.ofText content := by
  have htext : Xml.ownText (textNodes content) = content := by
    by_cases hempty : content = ""
    · simp [textNodes, hempty, Xml.ownText]
    · simp [textNodes, hempty, Xml.ownText, Xml.Node.content]
  have hfirst : Markup.firstContent .objects uri (textNodes content) = none := by
    by_cases hempty : content = ""
    · simp [textNodes, hempty, Markup.firstContent]
    · simp [textNodes, hempty, Markup.firstContent, Xml.Node.isElement]
  simp [Value.node, element, Markup.content, Vocabulary.tag?, htext, hfirst]

theorem content_referenceNode (target : String) :
    Markup.content .objects uri ((Value.reference target).node uri) = .reference target := by
  simp [Value.node, element, Markup.content, Vocabulary.tag?, Markup.reference,
    Vocabulary.objects]

theorem content_sequenceNode (shape : Shape) (items : List Value) :
    Markup.content .objects uri ((Value.sequence shape items).node uri) =
      .sequence shape (Markup.contents .objects uri (itemNodes uri items)) := by
  cases shape <;> simp [Value.node, element, Markup.content, Vocabulary.tag?, shapeTag]

theorem content_dictionaryNode (entries : List (String × Value)) :
    Markup.content .objects uri ((Value.dictionary entries).node uri) =
      .mapping (Markup.entries .objects uri (entryNodes uri entries)) := by
  simp [Value.node, element, Markup.content, Vocabulary.tag?, Vocabulary.objects]

theorem content_inlineNode (id : Option String) (typeName : String) (body : Body) :
    Markup.content .objects uri ((Value.inline id typeName body).node uri) =
      .inline (Markup.declaration .objects uri (body.node uri id (some typeName))) := by
  have htag : Vocabulary.objects.tag? "object" = some .object := by decide
  cases body
  simp [Value.node, Body.node, element, Markup.content, htag, Markup.declaration,
    Xml.Node.name, Xml.Node.attributes, Xml.Node.children]

/-! What a value of each kind is read as in structured text. -/

theorem attribute?_declarationFields (id typeName scope : Option String)
    (lazyInit isAbstract : Option Bool) (parent : Option String) :
    let given := attributes (declarationFields id typeName scope lazyInit isAbstract parent)
    Xml.attribute? "id" given = id ∧ Xml.attribute? "class" given = typeName ∧
      Xml.attribute? "scope" given = scope ∧
      Xml.attribute? "lazy-init" given = lazyInit.map flagText ∧
      Xml.attribute? "abstract" given = isAbstract.map flagText ∧
      Xml.attribute? "parent" given = parent := by
  simp [declarationFields]

theorem find?_structured (id typeName : Option String) (body : Body) :
    let given := body.structured id typeName
    Yaml.Mapping.find? "object" given = id.map .string ∧
      Yaml.Mapping.find? "class" given = typeName.map .string ∧
      Yaml.Mapping.find? "scope" given = body.scope.map .string ∧
      Yaml.Mapping.find? "lazy-init" given = body.lazyInit.map .bool ∧
      Yaml.Mapping.find? "abstract" given = body.isAbstract.map .bool ∧
      Yaml.Mapping.find? "parent" given = body.parent.map .string ∧
      Yaml.Mapping.find? "constructor-args" given = some body.arguments.structured ∧
      Yaml.Mapping.find? "properties" given =
        some (.mapping (structuredEntries body.properties)) := by
  cases body
  simp [Body.structured]

/-- The keys that the mapping of a declaration may have. -/
def declarationKeys : List String :=
  ["object", "class", "scope", "lazy-init", "abstract", "parent", "constructor-args",
    "properties"]

theorem find?_structured_eq_none (id typeName : Option String) (body : Body) {key : String}
    (hkey : key ∉ declarationKeys) :
    Yaml.Mapping.find? key (body.structured id typeName) = none := by
  simp only [declarationKeys, List.mem_cons, List.not_mem_nil, or_false, not_or] at hkey
  cases body
  simp [Body.structured, hkey, eq_comm]

theorem content_structuredSequence (shape : Shape) (items : List Value) :
    StructuredText.content (Value.sequence shape items).structured =
      .sequence shape (StructuredText.contents (structuredItems items)) := by
  cases shape <;>
    simp [Value.structured, shapeTag, StructuredText.content, Yaml.Mapping.find?,
      StructuredText.itemsUnder, StructuredText.entriesUnder, Yaml.Value.equals]

theorem content_structuredDictionary (entries : List (String × Value)) :
    StructuredText.content (Value.dictionary entries).structured =
      .mapping (StructuredText.writtenEntries (structuredEntries entries)) := by
  simp [Value.structured, StructuredText.content, Yaml.Mapping.find?,
    StructuredText.itemsUnder, StructuredText.entriesUnder, Yaml.Value.equals]

theorem content_structuredInline (id : Option String) (typeName : String) (body : Body) :
    StructuredText.content (Value.inline id typeName body).structured =
      .inline (StructuredText.declaration (body.structured id (some typeName))) := by
  rw [Value.structured]
  apply StructuredText.content_declaration
  · intro key hkey
    have hdistinct : ∀ key ∈ StructuredText.shapeKeys, key ∉ declarationKeys := by
      decide
    exact find?_structured_eq_none id (some typeName) body (hdistinct key hkey)
  · have hclass := (find?_structured id (some typeName) body).2.1
    simp [StructuredText.isDeclaration, hclass]

/-! Whole values and declarations, by recursion over what is written. -/

theorem item_content (v : Value) :
    StructuredText.item (StructuredText.content v.structured) =
      StructuredText.content v.structured := by
  cases v with
  | text content => simp [Value.structured, StructuredText.content, StructuredText.scalar?,
      StructuredText.item]
  | reference target => simp [Value.structured, StructuredText.content, Yaml.Mapping.find?,
      StructuredText.reference, Yaml.Value.asText?, StructuredText.item]
  | sequence shape items => rw [content_structuredSequence, StructuredText.item]; simp
  | dictionary entries => rw [content_structuredDictionary, StructuredText.item]; simp
  | inline id typeName body => rw [content_structuredInline, StructuredText.item]; simp

theorem positional_cons (v : Value) (values : List Yaml.Value) :
    StructuredText.positional (v.structured :: values) =
      .positional (StructuredText.content v.structured) :: StructuredText.positional values := by
  cases v <;> simp [Value.structured, StructuredText.positional]

theorem arguments_propertyNodes (properties : List (String × Value)) :
    Markup.arguments .objects uri (namedNodes uri "property" properties) = [] := by
  induction properties with
  | nil => simp [namedNodes, Markup.arguments]
  | cons entry properties ih =>
    obtain ⟨name, value⟩ := entry
    simp [namedNodes, element, Markup.arguments, ih]

theorem properties_argumentNodes (arguments : Arguments) :
    Markup.properties .objects uri (arguments.nodes uri) = [] := by
  cases arguments with
  | positional slots =>
    rw [Arguments.nodes]
    induction slots with
    | nil => simp [slotNodes, Markup.properties]
    | cons slot slots ih =>
      cases slot <;> simp [slotNodes, element, Markup.properties, ih]
  | named entries =>
    rw [Arguments.nodes]
    induction entries with
    | nil => simp [namedNodes, Markup.properties]
    | cons entry entries ih =>
      obtain ⟨name, value⟩ := entry
      simp [namedNodes, element, Markup.properties, ih]

theorem isElement_node (v : Value) : (v.node uri).isElement := by
  cases v with
  | inline id typeName body => cases body; rfl
  | _ => rfl

theorem isNamed_key_node (v : Value) : (v.node uri).isNamed uri "key" = false := by
  cases v with
  | inline id typeName body =>
    cases body
    simp [Value.node, Body.node, element, Xml.Node.isNamed]
  | sequence shape items =>
    cases shape <;> simp [Value.node, element, Xml.Node.isNamed, shapeTag]
  | _ => simp [Value.node, element, Xml.Node.isNamed]

theorem firstContent_node (v : Value) :
    Markup.firstContent .objects uri [v.node uri] =
      some (Markup.content .objects uri (v.node uri)) := by
  simp [Markup.firstContent, isElement_node]

theorem entryContent_node (v : Value) :
    Markup.entryContent .objects uri [v.node uri] =
      some (Markup.content .objects uri (v.node uri)) := by
  simp [Markup.entryContent, isElement_node, isNamed_key_node]

theorem shorthand_structured (id typeName : Option String) (body : Body) :
    StructuredText.firstShorthand (Builtin.all.map fun type =>
      (type, StructuredText.contentUnder type.name (body.structured id typeName))) = .absent := by
  apply StructuredText.firstShorthand_eq_absent
  intro entry hentry
  obtain ⟨type, _, rfl⟩ := List.mem_map.mp hentry
  have hkey : type.name ∉ declarationKeys := by
    cases type <;> decide
  simp [StructuredText.contentUnder_eq, find?_structured_eq_none id typeName body hkey]

theorem shorthand_object (children : List Xml.Node) :
    Markup.shorthand .objects "object" children = .absent := by
  have hname : Builtin.ofName? Builtin.scalars "object" = none := by decide
  simp [Markup.shorthand, hname]

mutual

/-- Both ways to write a value are read as the same content. -/
theorem content_node : ∀ v : Value,
    (Markup.content .objects uri (v.node uri)).bare = StructuredText.content v.structured
  | .text content => by
    rw [content_valueNode]
    simp [Content.ofText, Content.bare, Value.structured, StructuredText.content,
      StructuredText.scalar?]
  | .reference target => by
    rw [content_referenceNode]
    simp [Content.bare, Value.structured, StructuredText.content, Yaml.Mapping.find?,
      StructuredText.reference, Yaml.Value.asText?]
  | .sequence shape items => by
    rw [content_sequenceNode, content_structuredSequence, Content.bare, contents_itemNodes items]
  | .dictionary entries => by
    rw [content_dictionaryNode, content_structuredDictionary, Content.bare,
      entries_entryNodes entries]
  | .inline id typeName body => by
    rw [content_inlineNode, content_structuredInline, Content.bare,
      declaration_node id (some typeName) body]
termination_by structural v => v

/-- Both ways to write a declaration are read as the same one. -/
theorem declaration_node (id typeName : Option String) : ∀ body : Body,
    (Markup.declaration .objects uri (body.node uri id typeName)).bare =
      StructuredText.declaration (body.structured id typeName)
  | ⟨scope, lazyInit, isAbstract, parent, arguments, properties⟩ => by
    have hshorthand := shorthand_structured id typeName
      ⟨scope, lazyInit, isAbstract, parent, arguments, properties⟩
    obtain ⟨hid, hclass, hscope, hlazy, habstract, hparent⟩ :=
      attribute?_declarationFields id typeName scope lazyInit isAbstract parent
    obtain ⟨hid', hclass', hscope', hlazy', habstract', hparent', harguments', hproperties'⟩ :=
      find?_structured id typeName ⟨scope, lazyInit, isAbstract, parent, arguments, properties⟩
    rw [StructuredText.declaration, hshorthand, StructuredText.arguments_eq,
      StructuredText.properties_eq]
    simp only [Body.node, element, Markup.declaration, Xml.Node.name, Xml.Node.attributes,
      Xml.Node.children, Markup.declarationOf, Declaration.bare, StructuredText.declarationOf]
    rw [Markup.arguments_append, Markup.properties_append, arguments_propertyNodes,
      properties_argumentNodes, shorthand_object, List.append_nil, List.nil_append,
      arguments_nodes arguments, properties_namedNodes properties, hid, hclass, hscope, hlazy,
      habstract, hparent, hid', hclass', hscope', hlazy', habstract', hparent', harguments',
      hproperties']
    simp only [isSet_flagText, ofText?_eq_textAttribute, keyText?_string, scopeToken_string,
      Shorthand.bare]
    cases arguments.structured <;> rfl
termination_by structural body => body

theorem arguments_nodes : ∀ arguments : Portable.Arguments,
    bareArguments (Markup.arguments .objects uri (arguments.nodes uri)) =
      match arguments.structured with
      | .sequence items => StructuredText.positional items
      | .mapping inner => StructuredText.named inner
      | _ => [.ignored "constructor-args"]
  | .positional slots => by
    rw [Arguments.nodes, Arguments.structured]
    exact arguments_slotNodes slots
  | .named entries => by
    rw [Arguments.nodes, Arguments.structured]
    exact arguments_namedNodes entries
termination_by structural arguments => arguments

theorem contents_itemNodes : ∀ items : List Value,
    bareItems (Markup.contents .objects uri (itemNodes uri items)) =
      StructuredText.contents (structuredItems items)
  | [] => by simp [itemNodes, structuredItems, Markup.contents, StructuredText.contents, bareItems]
  | item :: items => by
    rw [itemNodes, structuredItems, Markup.contents, if_pos (isElement_node uri item), bareItems,
      StructuredText.contents, content_node item, contents_itemNodes items, item_content]
termination_by structural items => items

theorem entries_entryNodes : ∀ entries : List (String × Value),
    bareEntries (Markup.entries .objects uri (entryNodes uri entries)) =
      StructuredText.writtenEntries (structuredEntries entries)
  | [] => by
    simp [entryNodes, structuredEntries, Markup.entries, StructuredText.writtenEntries,
      bareEntries]
  | (key, value) :: entries => by
    rw [entryNodes, structuredEntries, element, Markup.entries]
    simp [Markup.entryKey?, entryContent_node, bareEntries, StructuredText.writtenEntries,
      Yaml.Value.keyText?, content_node value, entries_entryNodes entries]
termination_by structural entries => entries

theorem arguments_slotNodes : ∀ slots : List (Option Value),
    bareArguments (Markup.arguments .objects uri (slotNodes uri slots)) =
      StructuredText.positional (structuredSlots slots)
  | [] => by
    simp [slotNodes, structuredSlots, Markup.arguments, StructuredText.positional,
      bareArguments]
  | none :: slots => by
    rw [slotNodes, structuredSlots, element, Markup.arguments, StructuredText.positional]
    simp [Markup.slot, Markup.firstContent, bareArguments, Content.nothing, Content.bare,
      arguments_slotNodes slots]
  | some value :: slots => by
    rw [slotNodes, structuredSlots, element, Markup.arguments, positional_cons]
    simp [Markup.slot, firstContent_node, bareArguments, content_node value,
      arguments_slotNodes slots]
termination_by structural slots => slots

theorem arguments_namedNodes : ∀ entries : List (String × Value),
    bareArguments (Markup.arguments .objects uri (namedNodes uri "constructor-arg" entries)) =
      StructuredText.named (structuredEntries entries)
  | [] => by
    simp [namedNodes, structuredEntries, Markup.arguments, StructuredText.named, bareArguments]
  | (name, value) :: entries => by
    rw [namedNodes, structuredEntries, element, Markup.arguments]
    simp [Markup.slot, firstContent_node, bareArguments, StructuredText.named,
      Yaml.Value.keyText?, content_node value, arguments_namedNodes entries]
termination_by structural entries => entries

theorem properties_namedNodes : ∀ properties : List (String × Value),
    bareProperties (Markup.properties .objects uri (namedNodes uri "property" properties)) =
      StructuredText.namedProperties (structuredEntries properties)
  | [] => by
    simp [namedNodes, structuredEntries, Markup.properties, StructuredText.namedProperties,
      bareProperties]
  | (name, value) :: properties => by
    rw [namedNodes, structuredEntries, element, Markup.properties]
    simp [Markup.slot, firstContent_node, bareProperties, StructuredText.namedProperties,
      Yaml.Value.keyText?, content_node value, properties_namedNodes properties]
termination_by structural properties => properties

end

/-! Whole documents. -/

theorem topLevel_node (id : String) (typeName : Option String) (body : Body) :
    (Markup.topLevel .objects uri (body.node uri (some id) typeName)).bare =
      .declared id false
        (Markup.declaration .objects uri (body.node uri (some id) typeName)).bare := by
  cases body
  simp [Markup.topLevel, Body.node, element, Xml.Node.name, Xml.Node.attribute?,
    Xml.Node.attributes, declarationFields, TopLevel.bare, Markup.declaration]

theorem topLevel_structured (id : String) (typeName : Option String) (body : Body) :
    StructuredText.topLevel (body.structured (some id) typeName) =
      .declared id false
        (StructuredText.declaration (body.structured (some id) typeName)) := by
  have hid : Yaml.Mapping.find? "object" (body.structured (some id) typeName) =
      some (.string id) := (find?_structured (some id) typeName body).1
  rw [StructuredText.topLevel, hid]
  rfl

theorem document_root (declarations : List Portable.Declaration) :
    (Markup.document .objects uri (root uri declarations)).map TopLevel.bare =
      StructuredText.document (mappings declarations) := by
  have helements : Xml.elements (root uri declarations).children =
      declarations.map fun d => d.body.node uri (some d.id) d.typeName := by
    apply List.filter_eq_self.mpr
    intro node hnode
    obtain ⟨d, _, rfl⟩ := List.mem_map.mp hnode
    cases d.body
    rfl
  rw [Markup.document, StructuredText.document, helements, mappings, List.map_map,
    List.map_map, List.map_map]
  apply List.map_congr_left
  intro d _
  simp only [Function.comp_apply]
  rw [topLevel_node, topLevel_structured, declaration_node]

/-- The two ways to write portable declarations are read as the same definitions, inline
ones and template merging included, or fail with the same error. -/
theorem readRoot_eq_readMappings (location : String) (huri : uri ∈ Dialect.objects.namespaces)
    (declarations : List Portable.Declaration) :
    (Dialect.readRoot .objects location (root uri declarations)).answer =
      (Dialect.readMappings location (mappings declarations)).answer := by
  have hroot : Markup.rootNamespace location Vocabulary.objects.root
      Vocabulary.objects.dialect.namespaces (root uri declarations) = .ok uri := by
    simp [Markup.rootNamespace, root, element, Xml.Node.name, Vocabulary.objects, huri]
  rw [Dialect.readRoot, hroot, Dialect.readMappings, ← document_root uri declarations,
    answer_definitionsOf_bare]
  rfl

/-- A template with an open slot and a declaration that fills it, with a definition
written inline two collections deep. -/
def shopDeclarations : List Portable.Declaration :=
  [⟨"base", some "shop.Service", ⟨none, none, some true, none,
      .positional [none, some (.text "8080")], [("debug", .text "False")]⟩⟩,
    ⟨"app", none, ⟨some "prototype", some false, none, some "base",
      .positional [some (.reference "db")],
      [("pools", .dictionary [("main", .sequence .list [.text "",
        .inline (some "pool") "shop.Pool"
          ⟨none, none, none, none, .named [("size", .text "5")], []⟩])])]⟩⟩]

theorem readRoot_eq_readMappings_shop :
    Dialect.objectsNamespace ∈ Dialect.objects.namespaces ∧
      (Dialect.readMappings "shop" (mappings shopDeclarations)).answer.isOk ∧
      (Dialect.readRoot .objects "shop" (root Dialect.objectsNamespace shopDeclarations)).answer =
        (Dialect.readMappings "shop" (mappings shopDeclarations)).answer := by
  have huri : Dialect.objectsNamespace ∈ Dialect.objects.namespaces := by
    simp [Dialect.namespaces]
  have hok : (Dialect.readMappings "shop" (mappings shopDeclarations)).answer.isOk := by
    decide +kernel
  exact ⟨huri, hok, readRoot_eq_readMappings Dialect.objectsNamespace "shop" huri shopDeclarations⟩

end Portable

end Wiring
