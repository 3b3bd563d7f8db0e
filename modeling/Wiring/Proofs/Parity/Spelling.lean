import Wiring.Proofs.Dialect.Form
import Wiring.Proofs.Parity.Agreement

/-!
Portable documents whose texts are not all quoted. A text that spells a number may stand in
structured text without quotes, and is then a number. The document is read as object markup
in which the text that the number is written as stands in its place.
-/

namespace Wiring

namespace StructuredText

/-- The arguments that are written under the key of the arguments. -/
def argumentsIn : Yaml.Value → List WrittenArgument
  | .sequence items => positional items
  | .mapping inner => named inner
  | _ => [.ignored "constructor-args"]

end StructuredText

namespace Portable

/-- A text in structured text, in quotes or as the number that it spells. -/
def Spells (text : String) (written : Yaml.Value) : Prop :=
  written = .string text ∨ ∃ n, Yaml.plainValue? text = some (.number n) ∧ written = .number n

/-- The text that a scalar stands for. -/
def textOf : Yaml.Value → String
  | .string text => text
  | .number n => n.text
  | _ => ""

/-- A way to write texts in structured text. -/
structure Spelling where
  write : String → Yaml.Value
  spells : ∀ text, Spells text (write text)

/-- The text that a text stands for as it is written. -/
def Spelling.read (spelling : Spelling) (text : String) : String :=
  textOf (spelling.write text)

/-- No text that spells a number is quoted. -/
def Spelling.unquoted : Spelling where
  write text :=
    match Yaml.plainValue? text with
    | some (.number n) => .number n
    | _ => .string text
  spells text := by
    cases hvalue : Yaml.plainValue? text with
    | none => exact Or.inl rfl
    | some value =>
      cases value with
      | number n => exact Or.inr ⟨n, hvalue, rfl⟩
      | _ => exact Or.inl rfl

/-- The mapping of a declaration with some arguments and properties. -/
def bodyEntries (id typeName scope : Option String) (lazyInit isAbstract : Option Bool)
    (parent : Option String) (arguments : Yaml.Value) (properties : Yaml.Mapping) :
    Yaml.Mapping :=
  entries [("object", id.map .string), ("class", typeName.map .string),
    ("scope", scope.map .string), ("lazy-init", lazyInit.map .bool),
    ("abstract", isAbstract.map .bool), ("parent", parent.map .string),
    ("constructor-args", some arguments), ("properties", some (.mapping properties))]

section Written

variable (spelling : Spelling)

mutual

/-- A value in structured text, with its texts in a spelling. -/
def Value.spelled : Value → Yaml.Value
  | .text content => spelling.write content
  | .reference target => .mapping [(.string "ref", .string target)]
  | .sequence shape items => .mapping [(.string (shapeTag shape), .sequence (spelledItems items))]
  | .dictionary entries => .mapping [(.string "dict", .mapping (spelledEntries entries))]
  | .inline id typeName body => .mapping (body.spelled id (some typeName))
termination_by structural v => v

/-- The mapping of a declaration. -/
def Body.spelled (id typeName : Option String) : Body → Yaml.Mapping
  | ⟨scope, lazyInit, isAbstract, parent, arguments, properties⟩ =>
    bodyEntries id typeName scope lazyInit isAbstract parent arguments.spelled
      (spelledEntries properties)
termination_by structural body => body

def spelledItems : List Value → List Yaml.Value
  | [] => []
  | item :: items => item.spelled :: spelledItems items
termination_by structural items => items

def spelledEntries : List (String × Value) → Yaml.Mapping
  | [] => []
  | (key, value) :: entries => (.string key, value.spelled) :: spelledEntries entries
termination_by structural entries => entries

def Arguments.spelled : Arguments → Yaml.Value
  | .positional slots => .sequence (spelledSlots slots)
  | .named entries => .mapping (spelledEntries entries)
termination_by structural arguments => arguments

def spelledSlots : List (Option Value) → List Yaml.Value
  | [] => []
  | none :: slots => .null :: spelledSlots slots
  | some value :: slots => value.spelled :: spelledSlots slots
termination_by structural slots => slots

end

/-- The mappings of a document. -/
def spelledMappings (declarations : List Declaration) : List Yaml.Mapping :=
  declarations.map fun d => d.body.spelled spelling (some d.id) d.typeName

end Written

section Respelled

variable (f : String → String)

mutual

/-- The same value with other texts. -/
def Value.mapText : Value → Value
  | .text content => .text (f content)
  | .reference target => .reference target
  | .sequence shape items => .sequence shape (mapTextItems items)
  | .dictionary entries => .dictionary (mapTextEntries entries)
  | .inline id typeName body => .inline id typeName body.mapText
termination_by structural v => v

def Body.mapText : Body → Body
  | ⟨scope, lazyInit, isAbstract, parent, arguments, properties⟩ =>
    ⟨scope, lazyInit, isAbstract, parent, arguments.mapText, mapTextEntries properties⟩
termination_by structural body => body

def mapTextItems : List Value → List Value
  | [] => []
  | item :: items => item.mapText :: mapTextItems items
termination_by structural items => items

def mapTextEntries : List (String × Value) → List (String × Value)
  | [] => []
  | (key, value) :: entries => (key, value.mapText) :: mapTextEntries entries
termination_by structural entries => entries

def Arguments.mapText : Arguments → Arguments
  | .positional slots => .positional (mapTextSlots slots)
  | .named entries => .named (mapTextEntries entries)
termination_by structural arguments => arguments

def mapTextSlots : List (Option Value) → List (Option Value)
  | [] => []
  | none :: slots => none :: mapTextSlots slots
  | some value :: slots => some value.mapText :: mapTextSlots slots
termination_by structural slots => slots

end

def Declaration.mapText (declaration : Declaration) : Declaration :=
  { declaration with body := declaration.body.mapText f }

end Respelled

/-! What is read from the mapping of a declaration. -/

section Lookup

variable (id typeName scope : Option String) (lazyInit isAbstract : Option Bool)
  (parent : Option String) (arguments : Yaml.Value) (properties : Yaml.Mapping)

theorem find?_bodyEntries_eq_none {key : String} (hkey : key ∉ declarationKeys) :
    Yaml.Mapping.find? key (bodyEntries id typeName scope lazyInit isAbstract parent arguments
      properties) = none := by
  simp only [declarationKeys, List.mem_cons, List.not_mem_nil, or_false, not_or] at hkey
  simp [bodyEntries, hkey, eq_comm]

/-- The declaration of a mapping, by what its arguments and properties are read as. -/
theorem declaration_bodyEntries :
    StructuredText.declaration (bodyEntries id typeName scope lazyInit isAbstract parent arguments
      properties) =
      { explicitId := id
        typeName := StructuredText.textAttribute (typeName.map .string)
        scope := (scope.map Yaml.Value.string).map StructuredText.scopeToken
        lazyInit := StructuredText.isSet (lazyInit.map .bool)
        isAbstract := StructuredText.isSet (isAbstract.map .bool)
        parent := StructuredText.textAttribute (parent.map .string)
        shorthand := .absent
        element := none
        arguments := StructuredText.argumentsIn arguments
        properties := StructuredText.namedProperties properties } := by
  have hshorthand : StructuredText.firstShorthand (Builtin.all.map fun type =>
      (type, StructuredText.contentUnder type.name (bodyEntries id typeName scope lazyInit
        isAbstract parent arguments properties))) = .absent := by
    apply StructuredText.firstShorthand_eq_absent
    intro entry hentry
    obtain ⟨type, _, rfl⟩ := List.mem_map.mp hentry
    have hkey : type.name ∉ declarationKeys := by
      cases type <;> decide
    rw [StructuredText.contentUnder_eq, find?_bodyEntries_eq_none _ _ _ _ _ _ _ _ hkey]
    rfl
  have hlookup := keyText?_string id
  rw [StructuredText.declaration, hshorthand, StructuredText.arguments_eq,
    StructuredText.properties_eq]
  cases arguments <;>
    simp [StructuredText.declarationOf, bodyEntries, StructuredText.argumentsIn, hlookup]

theorem topLevel_bodyEntries (id : String) :
    StructuredText.topLevel (bodyEntries (some id) typeName scope lazyInit isAbstract parent
      arguments properties) =
      .declared id false (StructuredText.declaration (bodyEntries (some id) typeName scope
        lazyInit isAbstract parent arguments properties)) := by
  have hid : Yaml.Mapping.find? "object" (bodyEntries (some id) typeName scope lazyInit isAbstract
      parent arguments properties) = some (.string id) := by
    simp [bodyEntries]
  rw [StructuredText.topLevel, hid]
  rfl

theorem structured_eq_bodyEntries (body : Body) :
    body.structured id typeName =
      bodyEntries id typeName body.scope body.lazyInit body.isAbstract body.parent
        body.arguments.structured (structuredEntries body.properties) := by
  cases body
  rw [Body.structured]
  rfl

theorem content_bodyEntries (type : String) :
    StructuredText.content (.mapping (bodyEntries id (some type) scope lazyInit isAbstract parent
      arguments properties)) =
      .inline (StructuredText.declaration (bodyEntries id (some type) scope lazyInit isAbstract
        parent arguments properties)) := by
  apply StructuredText.content_declaration
  · intro key hkey
    have hdistinct : ∀ key ∈ StructuredText.shapeKeys, key ∉ declarationKeys := by
      decide
    exact find?_bodyEntries_eq_none _ _ _ _ _ _ _ _ (hdistinct key hkey)
  · simp [StructuredText.isDeclaration, bodyEntries]

end Lookup

/-! Texts in any spelling. -/

section Spelled

theorem content_of_spells {text : String} {written : Yaml.Value} (hspells : Spells text written) :
    StructuredText.content written = .scalar (Scalar.ofText (textOf written)) := by
  rcases hspells with rfl | ⟨n, -, rfl⟩ <;>
    simp [StructuredText.content, StructuredText.scalar?, textOf]

theorem ne_null_of_spells {text : String} {written : Yaml.Value}
    (hspells : Spells text written) : written ≠ .null := by
  rcases hspells with rfl | ⟨n, -, rfl⟩ <;> simp

theorem content_shape (shape : Shape) (items : List Yaml.Value) :
    StructuredText.content (.mapping [(.string (shapeTag shape), .sequence items)]) =
      .sequence shape (StructuredText.contents items) := by
  cases shape <;>
    simp [shapeTag, StructuredText.content, Yaml.Mapping.find?, StructuredText.itemsUnder,
      StructuredText.entriesUnder, Yaml.Value.equals]

theorem content_dict (inner : Yaml.Mapping) :
    StructuredText.content (.mapping [(.string "dict", .mapping inner)]) =
      .mapping (StructuredText.writtenEntries inner) := by
  simp [StructuredText.content, Yaml.Mapping.find?, StructuredText.itemsUnder,
    StructuredText.entriesUnder, Yaml.Value.equals]

variable (spelling : Spelling)

theorem spelled_ne_null (v : Value) : v.spelled spelling ≠ .null := by
  cases v with
  | text content =>
    rw [Value.spelled]
    exact ne_null_of_spells (spelling.spells content)
  | _ => simp [Value.spelled]

-- The induction is on the document. A text in any spelling is read as the text that the
-- spelling stands for, and nothing around it is read otherwise.
mutual

theorem content_spelled : ∀ v : Value, StructuredText.content (v.spelled spelling) =
    StructuredText.content (v.mapText spelling.read).structured
  | .text content => by
    have hquoted : Spells (spelling.read content) (.string (spelling.read content)) := Or.inl rfl
    rw [Value.spelled, Value.mapText, Value.structured,
      content_of_spells (spelling.spells content), content_of_spells hquoted]
    rfl
  | .reference _ => by rw [Value.spelled, Value.mapText, Value.structured]
  | .sequence shape items => by
    rw [Value.spelled, Value.mapText, Value.structured, content_shape, content_shape,
      contents_spelledItems items]
  | .dictionary entries => by
    rw [Value.spelled, Value.mapText, Value.structured, content_dict, content_dict,
      writtenEntries_spelledEntries entries]
  | .inline id typeName body => by
    have hbody := declaration_spelled id (some typeName) body
    obtain ⟨scope, lazyInit, isAbstract, parent, arguments, properties⟩ := body
    rw [structured_eq_bodyEntries, Body.spelled] at hbody
    rw [Value.spelled, Value.mapText, Value.structured, structured_eq_bodyEntries, Body.spelled,
      content_bodyEntries, content_bodyEntries, hbody]
termination_by structural v => v

theorem declaration_spelled (id typeName : Option String) : ∀ body : Body,
    StructuredText.declaration (body.spelled spelling id typeName) =
      StructuredText.declaration
        ((body.mapText spelling.read).structured id typeName)
  | ⟨scope, lazyInit, isAbstract, parent, arguments, properties⟩ => by
    rw [structured_eq_bodyEntries, Body.spelled, Body.mapText, declaration_bodyEntries,
      declaration_bodyEntries, argumentsIn_spelled arguments,
      namedProperties_spelledEntries properties]
termination_by structural body => body

theorem contents_spelledItems : ∀ items : List Value,
    StructuredText.contents (spelledItems spelling items) =
      StructuredText.contents (structuredItems (mapTextItems spelling.read items))
  | [] => by rw [spelledItems, mapTextItems, structuredItems]
  | item :: items => by
    rw [spelledItems, mapTextItems, structuredItems, StructuredText.contents,
      StructuredText.contents, content_spelled item, contents_spelledItems items]
termination_by structural items => items

theorem writtenEntries_spelledEntries : ∀ entries : List (String × Value),
    StructuredText.writtenEntries (spelledEntries spelling entries) =
      StructuredText.writtenEntries
        (structuredEntries (mapTextEntries spelling.read entries))
  | [] => by rw [spelledEntries, mapTextEntries, structuredEntries]
  | (key, value) :: entries => by
    rw [spelledEntries, mapTextEntries, structuredEntries, StructuredText.writtenEntries,
      StructuredText.writtenEntries, content_spelled value, writtenEntries_spelledEntries entries]
termination_by structural entries => entries

theorem argumentsIn_spelled : ∀ arguments : Arguments,
    StructuredText.argumentsIn (arguments.spelled spelling) =
      StructuredText.argumentsIn
        (arguments.mapText spelling.read).structured
  | .positional slots => by
    rw [Arguments.spelled, Arguments.mapText, Arguments.structured]
    exact positional_spelledSlots slots
  | .named entries => by
    rw [Arguments.spelled, Arguments.mapText, Arguments.structured]
    exact named_spelledEntries entries
termination_by structural arguments => arguments

theorem positional_spelledSlots : ∀ slots : List (Option Value),
    StructuredText.positional (spelledSlots spelling slots) =
      StructuredText.positional
        (structuredSlots (mapTextSlots spelling.read slots))
  | [] => by rw [spelledSlots, mapTextSlots, structuredSlots]
  | none :: slots => by
    rw [spelledSlots, mapTextSlots, structuredSlots, StructuredText.positional,
      StructuredText.positional, positional_spelledSlots slots]
  | some value :: slots => by
    rw [spelledSlots, mapTextSlots, structuredSlots,
      StructuredText.positional_cons (spelled_ne_null spelling value), positional_cons,
      content_spelled value, positional_spelledSlots slots]
termination_by structural slots => slots

theorem named_spelledEntries : ∀ entries : List (String × Value),
    StructuredText.named (spelledEntries spelling entries) =
      StructuredText.named
        (structuredEntries (mapTextEntries spelling.read entries))
  | [] => by rw [spelledEntries, mapTextEntries, structuredEntries]
  | (key, value) :: entries => by
    rw [spelledEntries, mapTextEntries, structuredEntries, StructuredText.named,
      StructuredText.named, content_spelled value, named_spelledEntries entries]
termination_by structural entries => entries

theorem namedProperties_spelledEntries : ∀ entries : List (String × Value),
    StructuredText.namedProperties (spelledEntries spelling entries) =
      StructuredText.namedProperties
        (structuredEntries (mapTextEntries spelling.read entries))
  | [] => by rw [spelledEntries, mapTextEntries, structuredEntries]
  | (key, value) :: entries => by
    rw [spelledEntries, mapTextEntries, structuredEntries, StructuredText.namedProperties,
      StructuredText.namedProperties, content_spelled value,
      namedProperties_spelledEntries entries]
termination_by structural entries => entries

end

/-- A document in any spelling declares what the document in quotes declares in which every
text is the one that it is read as. -/
theorem document_spelled (declarations : List Declaration) :
    StructuredText.document (spelledMappings spelling declarations) =
      StructuredText.document
        (mappings (declarations.map (Declaration.mapText spelling.read))) := by
  rw [StructuredText.document, StructuredText.document, spelledMappings, mappings, List.map_map,
    List.map_map, List.map_map]
  apply List.map_congr_left
  intro d _
  obtain ⟨id, typeName, body⟩ := d
  have hbody := declaration_spelled spelling (some id) typeName body
  obtain ⟨scope, lazyInit, isAbstract, parent, arguments, properties⟩ := body
  rw [structured_eq_bodyEntries, Body.spelled] at hbody
  simp only [Function.comp_apply, Declaration.mapText]
  rw [structured_eq_bodyEntries, Body.spelled, topLevel_bodyEntries, topLevel_bodyEntries, hbody]

/-- Structured text in any spelling is read as object markup in which every text is the one
that it is read as. -/
theorem answer_readMappings_spelled (uri location : String)
    (huri : uri ∈ Dialect.objects.namespaces) (declarations : List Declaration) :
    (Dialect.readMappings location (spelledMappings spelling declarations)).answer =
      (Dialect.readRoot .objects location
        (root uri (declarations.map (Declaration.mapText spelling.read)))).answer := by
  have hroot (document : List Declaration) : Markup.rootNamespace location Vocabulary.objects.root
      Vocabulary.objects.dialect.namespaces (root uri document) = .ok uri := by
    simp [Markup.rootNamespace, root, element, Xml.Node.name, Vocabulary.objects, huri]
  rw [Dialect.readMappings, document_spelled, Dialect.readRoot, hroot, ← document_root uri,
    answer_definitionsOf_bare]
  rfl

end Spelled

/-! Texts that stay as they are. -/

mutual

theorem Value.mapText_id : ∀ v : Value, v.mapText id = v
  | .text _ => by rw [Value.mapText, id_eq]
  | .reference _ => by rw [Value.mapText]
  | .sequence _ items => by rw [Value.mapText, mapTextItems_id items]
  | .dictionary entries => by rw [Value.mapText, mapTextEntries_id entries]
  | .inline _ _ body => by rw [Value.mapText, body.mapText_id]
termination_by structural v => v

theorem Body.mapText_id : ∀ body : Body, body.mapText id = body
  | ⟨_, _, _, _, arguments, properties⟩ => by
    rw [Body.mapText, arguments.mapText_id, mapTextEntries_id properties]
termination_by structural body => body

theorem mapTextItems_id : ∀ items : List Value, mapTextItems id items = items
  | [] => by rw [mapTextItems]
  | item :: items => by rw [mapTextItems, item.mapText_id, mapTextItems_id items]
termination_by structural items => items

theorem mapTextEntries_id : ∀ entries : List (String × Value), mapTextEntries id entries = entries
  | [] => by rw [mapTextEntries]
  | (_, value) :: entries => by rw [mapTextEntries, value.mapText_id, mapTextEntries_id entries]
termination_by structural entries => entries

theorem Arguments.mapText_id : ∀ arguments : Arguments, arguments.mapText id = arguments
  | .positional slots => by rw [Arguments.mapText, mapTextSlots_id slots]
  | .named entries => by rw [Arguments.mapText, mapTextEntries_id entries]
termination_by structural arguments => arguments

theorem mapTextSlots_id : ∀ slots : List (Option Value), mapTextSlots id slots = slots
  | [] => by rw [mapTextSlots]
  | none :: slots => by rw [mapTextSlots, mapTextSlots_id slots]
  | some value :: slots => by rw [mapTextSlots, value.mapText_id, mapTextSlots_id slots]
termination_by structural slots => slots

end

/-- A document in which every text is read as itself is read as the same object markup. -/
theorem answer_readMappings_of_read {spelling : Spelling}
    (hread : ∀ text, spelling.read text = text) (uri location : String)
    (huri : uri ∈ Dialect.objects.namespaces) (declarations : List Declaration) :
    (Dialect.readMappings location (spelledMappings spelling declarations)).answer =
      (Dialect.readRoot .objects location (root uri declarations)).answer := by
  have hsame : declarations.map (Declaration.mapText spelling.read) = declarations := by
    have hid : spelling.read = id := funext hread
    rw [hid]
    apply List.map_id''
    intro d
    rw [Declaration.mapText, d.body.mapText_id]
  rw [answer_readMappings_spelled spelling uri location huri, hsame]

end Portable

end Wiring
