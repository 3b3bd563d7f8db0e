import Wiring.Proofs.Elaboration.Scopes
import Wiring.Proofs.Parity.Reading
import Wiring.Proofs.Source.Places

/-!
The attributes of a declaration in both dialects with templates. The same texts give the
same type, scope and parent in object markup and in structured text. Of the flags only
markup ignores blanks and knows the digit one, so flags agree exactly if they are written
plainly.
-/

namespace Wiring

namespace Text

theorem toNat_toLower (c : Char) :
    c.toLower.toNat = if 65 ≤ c.toNat ∧ c.toNat ≤ 90 then c.toNat + 32 else c.toNat := by
  have hrange : ('A'.val ≤ c.val ∧ c.val ≤ 'Z'.val) ↔ 65 ≤ c.toNat ∧ c.toNat ≤ 90 := by
    simp only [UInt32.le_iff_toNat_le]
    rfl
  unfold Char.toLower
  by_cases hupper : 65 ≤ c.toNat ∧ c.toNat ≤ 90
  · have hsum : (c.val + ('a'.val - 'A'.val)).toNat = c.val.toNat + 32 := by
      rw [UInt32.toNat_add]
      have hsmall : c.val.toNat ≤ 90 := hupper.2
      have hdifference : ('a'.val - 'A'.val).toNat = 32 := by decide
      rw [hdifference]
      omega
    rw [if_pos hupper, dif_pos (hrange.mpr hupper)]
    exact hsum
  · rw [if_neg hupper, dif_neg (mt hrange.mp hupper)]

/-- The case of a letter does not tell whether it is blank. -/
theorem isBlank_toLower (c : Char) : isBlank c.toLower = isBlank c := by
  have hlower := toNat_toLower c
  rw [Bool.eq_iff_iff]
  simp only [isBlank, Bool.or_eq_true, Bool.and_eq_true, decide_eq_true_eq, beq_iff_eq]
  split at hlower <;> omega

theorem dropBlank_eq_self {cs : List Char} (hhead : ∀ c ∈ cs.head?, isBlank c = false) :
    dropBlank cs = cs := by
  cases cs with
  | nil => rfl
  | cons c cs =>
    have hc : isBlank c = false := hhead c rfl
    simp [dropBlank, hc]

theorem trim_eq_self {s : String} (hfirst : ∀ c ∈ s.toList.head?, isBlank c = false)
    (hlast : ∀ c ∈ s.toList.getLast?, isBlank c = false) : trim s = s := by
  have hstart : dropBlank s.toList = s.toList := dropBlank_eq_self hfirst
  have hend : dropBlank s.toList.reverse = s.toList.reverse := by
    apply dropBlank_eq_self
    rwa [List.head?_reverse]
  simp [trim, hstart, dropBlankEnd, hend]

/-- A text that spells a word in some case has no blanks around it if the word has none. -/
theorem trim_of_equalsIgnoringCase {s word : String} (hword : equalsIgnoringCase s word)
    (hfirst : ∀ c ∈ word.toList.head?, isBlank c.toLower = false)
    (hlast : ∀ c ∈ word.toList.getLast?, isBlank c.toLower = false) : trim s = s := by
  have hlower : s.toList.map Char.toLower = word.toList.map Char.toLower := by
    simpa [equalsIgnoringCase] using hword
  apply trim_eq_self
  · intro c hc
    have hhead := congrArg List.head? hlower
    rw [List.head?_map, List.head?_map, Option.mem_def.mp hc] at hhead
    obtain ⟨d, hd, hsame⟩ := Option.map_eq_some_iff.mp hhead.symm
    rw [← isBlank_toLower, ← hsame]
    exact hfirst d hd
  · intro c hc
    have hend := congrArg List.getLast? hlower
    rw [List.getLast?_map, List.getLast?_map, Option.mem_def.mp hc] at hend
    obtain ⟨d, hd, hsame⟩ := Option.map_eq_some_iff.mp hend.symm
    rw [← isBlank_toLower, ← hsame]
    exact hlast d hd

end Text

/-- A flag that is not the digit one, and has no blanks around it if it is true. -/
def IsPlainFlag (flag : String) : Prop :=
  Text.trim flag ≠ "1" ∧
    (Text.equalsIgnoringCase (Text.trim flag) "true" → Text.trim flag = flag)

/-- Markup and structured text take a flag for the same exactly if it is plain. -/
theorem isSet_eq_iff (flag : String) :
    Markup.isSet (some flag) = StructuredText.isSet (some (.string flag)) ↔
      IsPlainFlag flag := by
  have hspelled (h : Text.equalsIgnoringCase flag "true") : Text.trim flag = flag :=
    Text.trim_of_equalsIgnoringCase h (by rintro c ⟨⟩; rfl) (by rintro c ⟨⟩; rfl)
  have hone : Text.equalsIgnoringCase "1" "true" = false := by decide
  simp only [Markup.isSet, StructuredText.isSet, Option.any_some, IsPlainFlag]
  constructor
  · intro hsame
    constructor
    · intro htrim
      have htrue : Text.equalsIgnoringCase flag "true" := by
        rw [← hsame, htrim]
        decide
      rw [← hspelled htrue, htrim, hone] at htrue
      cases htrue
    · intro htrim
      apply hspelled
      rw [← hsame, htrim, Bool.true_or]
  · rintro ⟨hdigit, hblanks⟩
    have hno : (Text.trim flag == "1") = false := by simpa using hdigit
    rw [hno, Bool.or_false]
    cases htrim : Text.equalsIgnoringCase (Text.trim flag) "true" with
    | true =>
      rw [hblanks htrim] at htrim
      exact htrim.symm
    | false =>
      cases hflag : Text.equalsIgnoringCase flag "true" with
      | false => rfl
      | true =>
        rw [hspelled hflag, hflag] at htrim
        cases htrim

/-- The texts of the attributes of a declaration. -/
structure AttributeTexts where
  id : String
  typeName : String
  scope : String
  parent : String
  lazyInit : String
  isAbstract : String

namespace AttributeTexts

/-- The attributes of an object element have some texts. -/
structure InElement (given : AttributeTexts) (uri : String) (node : Xml.Node) : Prop where
  name : node.name = ⟨some uri, "object"⟩
  id : node.attribute? "id" = some given.id
  typeName : node.attribute? "class" = some given.typeName
  scope : node.attribute? "scope" = some given.scope
  parent : node.attribute? "parent" = some given.parent
  lazyInit : node.attribute? "lazy-init" = some given.lazyInit
  isAbstract : node.attribute? "abstract" = some given.isAbstract

/-- The keys of a mapping hold some texts, and it is no shorthand. -/
structure InMapping (given : AttributeTexts) (entries : Yaml.Mapping) : Prop where
  id : Yaml.Mapping.find? "object" entries = some (.string given.id)
  typeName : Yaml.Mapping.find? "class" entries = some (.string given.typeName)
  scope : Yaml.Mapping.find? "scope" entries = some (.string given.scope)
  parent : Yaml.Mapping.find? "parent" entries = some (.string given.parent)
  lazyInit : Yaml.Mapping.find? "lazy-init" entries = some (.string given.lazyInit)
  isAbstract : Yaml.Mapping.find? "abstract" entries = some (.string given.isAbstract)
  noShorthand : ∀ type ∈ Builtin.all, Yaml.Mapping.find? type.name entries = none

/-- A declaration is written with some texts, but for its flags. -/
structure Written (given : AttributeTexts) (declaration : Declaration) : Prop where
  typeName : declaration.typeName = .given given.typeName
  scope : declaration.scope = some given.scope
  parent : declaration.parent = .given given.parent
  shorthand : declaration.shorthand = .absent

/-- An object element with some texts. -/
def element (given : AttributeTexts) (uri : String) (children : List Xml.Node) : Xml.Node :=
  Portable.element uri "object" [("id", some given.id), ("class", some given.typeName),
    ("scope", some given.scope), ("parent", some given.parent),
    ("lazy-init", some given.lazyInit), ("abstract", some given.isAbstract)] children

/-- A mapping that holds some texts and a list of constructor arguments. -/
def mapping (given : AttributeTexts) (arguments : List Yaml.Value) : Yaml.Mapping :=
  [(.string "object", .string given.id), (.string "class", .string given.typeName),
    (.string "scope", .string given.scope), (.string "parent", .string given.parent),
    (.string "lazy-init", .string given.lazyInit),
    (.string "abstract", .string given.isAbstract),
    (.string "constructor-args", .sequence arguments)]

theorem inElement_element (given : AttributeTexts) (uri : String) (children : List Xml.Node) :
    given.InElement uri (given.element uri children) := by
  constructor <;> rfl

theorem inMapping_mapping (given : AttributeTexts) (arguments : List Yaml.Value) :
    given.InMapping (given.mapping arguments) where
  id := rfl
  typeName := rfl
  scope := rfl
  parent := rfl
  lazyInit := rfl
  isAbstract := rfl
  noShorthand := by
    intro type _
    cases type <;> rfl

variable {given : AttributeTexts}

theorem InElement.topLevel {uri : String} {node : Xml.Node} (hnode : given.InElement uri node) :
    ∃ idless declaration,
      Markup.topLevel .objects uri node = .declared given.id idless declaration ∧
        given.Written declaration ∧
        declaration.lazyInit = Markup.isSet (some given.lazyInit) ∧
        declaration.isAbstract = Markup.isSet (some given.isAbstract) := by
  have huri : ¬ node.name.uri ≠ some uri := by
    rw [hnode.name]
    exact fun hne => hne rfl
  have htype := hnode.typeName
  have hscope := hnode.scope
  have hparent := hnode.parent
  have hlazy := hnode.lazyInit
  have habstract := hnode.isAbstract
  have hname : Builtin.ofName? Builtin.scalars "object" = none := by decide
  simp only [Xml.Node.attribute?] at htype hscope hparent hlazy habstract
  rw [Markup.topLevel, if_neg huri, hnode.id]
  refine ⟨_, _, rfl, ⟨?_, ?_, ?_, ?_⟩, ?_, ?_⟩
  · simp [Markup.declarationOf, htype, TextAttribute.ofText?]
  · simp [Markup.declarationOf, hscope]
  · simp [Markup.declarationOf, hparent, TextAttribute.ofText?, Vocabulary.objects]
  · simp [Markup.declarationOf, Markup.shorthand, hnode.name, hname]
  · simp [Markup.declarationOf, hlazy]
  · simp [Markup.declarationOf, habstract]

theorem InMapping.topLevel {entries : Yaml.Mapping} (hentries : given.InMapping entries) :
    ∃ declaration, StructuredText.topLevel entries = .declared given.id false declaration ∧
      given.Written declaration ∧
      declaration.lazyInit = StructuredText.isSet (some (.string given.lazyInit)) ∧
      declaration.isAbstract = StructuredText.isSet (some (.string given.isAbstract)) := by
  have hshorthand : StructuredText.firstShorthand (Builtin.all.map fun type =>
      (type, StructuredText.contentUnder type.name entries)) = .absent := by
    apply StructuredText.firstShorthand_eq_absent
    intro entry hentry
    obtain ⟨type, htype, rfl⟩ := List.mem_map.mp hentry
    rw [StructuredText.contentUnder_eq, hentries.noShorthand type htype]
    rfl
  rw [StructuredText.topLevel, hentries.id]
  refine ⟨_, rfl, ⟨?_, ?_, ?_, ?_⟩, ?_, ?_⟩
  · simp [StructuredText.declaration, StructuredText.declarationOf, hentries.typeName,
      StructuredText.textAttribute, Yaml.Value.asText?]
  · simp [StructuredText.declaration, StructuredText.declarationOf, hentries.scope,
      StructuredText.scopeToken, Yaml.Value.keyText?]
  · simp [StructuredText.declaration, StructuredText.declarationOf, hentries.parent,
      StructuredText.textAttribute, Yaml.Value.asText?]
  · exact hshorthand
  · simp [StructuredText.declaration, StructuredText.declarationOf, hentries.lazyInit]
  · simp [StructuredText.declaration, StructuredText.declarationOf, hentries.isAbstract]

end AttributeTexts

section Drafts

variable (source : String)

theorem answer_draftsOf_single (id : String) (idless : Bool) (declaration : Declaration) :
    (draftsOf source [.declared id idless declaration]).answer =
      (declaration.draft source id).answer.map fun draft => [draft] := by
  rw [answer_draftsOf_declared]
  cases (declaration.draft source id).answer <;> rfl

theorem answer_draftsOf_of_unknown_scope {given : AttributeTexts} {declaration : Declaration}
    (hwritten : given.Written declaration) (idless : Bool)
    (hscope : Scope.ofToken? given.scope = none) :
    (draftsOf source [.declared given.id idless declaration]).answer =
      .error (.unknownScope source given.id given.scope) := by
  have herror : (declaration.elaborate source given.id).answer =
      .error (.unknownScope source given.id given.scope) :=
    answer_elaborate_of_unknown_scope source hwritten.scope hscope
  rw [answer_draftsOf_single, Declaration.draft]
  simp [herror, Except.map]

/-- The only draft of a declaration whose scope is known has its attributes. -/
theorem exists_draft_of_known_scope {given : AttributeTexts} {declaration : Declaration}
    (hwritten : given.Written declaration) (idless : Bool)
    (hscopes : ∀ d ∈ declaration.inlines, d.hasKnownScope) {scope : Scope}
    (hscope : Scope.ofToken? given.scope = some scope) :
    ∃ draft, (draftsOf source [.declared given.id idless declaration]).answer = .ok [draft] ∧
      draft.factory = Factory.ofClass (some given.typeName) ∧ draft.scope = scope ∧
      draft.parent = (TextAttribute.given given.parent).templateId ∧
      draft.lazyInit = declaration.lazyInit ∧ draft.isAbstract = declaration.isAbstract := by
  have hknown : declaration.hasKnownScope := by
    simp [Declaration.hasKnownScope, hwritten.scope, hscope]
  obtain ⟨draft, hdraft⟩ :=
    (declaration.elaborate_succeeds_iff source given.id).mpr ⟨hknown, hscopes⟩
  have hattributes := hasAttributes_of_elaborate source hdraft
  have hdeclared := hattributes.scope
  rw [hwritten.scope, Scope.ofDeclared, hscope] at hdeclared
  have hfactory := hattributes.factory hwritten.shorthand
  have hparent := hattributes.parent
  rw [hwritten.typeName] at hfactory
  rw [hwritten.parent] at hparent
  rw [answer_draftsOf_single, Declaration.draft, hdraft]
  exact ⟨_, rfl, hfactory, (Except.ok.inj hdeclared).symm, hparent, hattributes.lazyInit,
    hattributes.isAbstract⟩

/-- An object element and a mapping with the same attribute texts have drafts of the same
type, scope and parent, or fail with the same error for the scope. Their flags agree exactly
if they are written plainly. -/
theorem drafts_same_attributes (uri : String) (given : AttributeTexts) (node : Xml.Node)
    (entries : Yaml.Mapping) (hnode : given.InElement uri node)
    (hentries : given.InMapping entries)
    (hscopes : ∀ d ∈ inlinesOf [Markup.topLevel .objects uri node,
      StructuredText.topLevel entries], d.hasKnownScope) :
    ((draftsOf source [Markup.topLevel .objects uri node]).answer =
          .error (.unknownScope source given.id given.scope) ∧
        (draftsOf source [StructuredText.topLevel entries]).answer =
          .error (.unknownScope source given.id given.scope)) ∨
      ∃ m s, (draftsOf source [Markup.topLevel .objects uri node]).answer = .ok [m] ∧
        (draftsOf source [StructuredText.topLevel entries]).answer = .ok [s] ∧
        m.factory = s.factory ∧ m.scope = s.scope ∧ m.parent = s.parent ∧
        (m.lazyInit = s.lazyInit ↔ IsPlainFlag given.lazyInit) ∧
        (m.isAbstract = s.isAbstract ↔ IsPlainFlag given.isAbstract) := by
  obtain ⟨idless, marked, hmarked, hmarkedWritten, hmarkedLazy, hmarkedAbstract⟩ := hnode.topLevel
  obtain ⟨listed, hlisted, hlistedWritten, hlistedLazy, hlistedAbstract⟩ := hentries.topLevel
  rw [hmarked, hlisted] at hscopes
  have hinlines : inlinesOf [.declared given.id idless marked, .declared given.id false listed] =
      marked.inlines ++ listed.inlines := by
    simp [inlinesOf, TopLevel.declared?]
  rw [hinlines, List.forall_mem_append] at hscopes
  rw [hmarked, hlisted]
  cases hscope : Scope.ofToken? given.scope with
  | none =>
    exact Or.inl ⟨answer_draftsOf_of_unknown_scope source hmarkedWritten idless hscope,
      answer_draftsOf_of_unknown_scope source hlistedWritten false hscope⟩
  | some scope =>
    obtain ⟨m, hm, hmfactory, hmscope, hmparent, hmlazy, hmabstract⟩ :=
      exists_draft_of_known_scope source hmarkedWritten idless hscopes.1 hscope
    obtain ⟨s, hs, hsfactory, hsscope, hsparent, hslazy, hsabstract⟩ :=
      exists_draft_of_known_scope source hlistedWritten false hscopes.2 hscope
    refine Or.inr ⟨m, s, hm, hs, ?_, ?_, ?_, ?_, ?_⟩
    · rw [hmfactory, hsfactory]
    · rw [hmscope, hsscope]
    · rw [hmparent, hsparent]
    · rw [hmlazy, hslazy, hmarkedLazy, hlistedLazy, isSet_eq_iff]
    · rw [hmabstract, hsabstract, hmarkedAbstract, hlistedAbstract, isSet_eq_iff]

end Drafts

/-- The texts of a declaration with blanks around its scope and one flag in capitals. -/
def spacious : AttributeTexts where
  id := "app"
  typeName := "shop.App"
  scope := " Prototype "
  parent := " base "
  lazyInit := "TRUE"
  isAbstract := "no"

theorem drafts_same_attributes_spacious :
    let uri := Dialect.objectsNamespace
    let node := spacious.element uri [Portable.element uri "constructor-arg" [] [
      Portable.element uri "object" [("class", some "shop.Pool")] []]]
    let entries := spacious.mapping [.mapping [(.string "class", .string "shop.Pool")]]
    (∀ d ∈ inlinesOf [Markup.topLevel .objects uri node, StructuredText.topLevel entries],
        d.hasKnownScope) ∧
      (((draftsOf "app" [Markup.topLevel .objects uri node]).answer =
            .error (.unknownScope "app" spacious.id spacious.scope) ∧
          (draftsOf "app" [StructuredText.topLevel entries]).answer =
            .error (.unknownScope "app" spacious.id spacious.scope)) ∨
        ∃ m s, (draftsOf "app" [Markup.topLevel .objects uri node]).answer = .ok [m] ∧
          (draftsOf "app" [StructuredText.topLevel entries]).answer = .ok [s] ∧
          m.factory = s.factory ∧ m.scope = s.scope ∧ m.parent = s.parent ∧
          (m.lazyInit = s.lazyInit ↔ IsPlainFlag spacious.lazyInit) ∧
          (m.isAbstract = s.isAbstract ↔ IsPlainFlag spacious.isAbstract)) := by
  intro uri node entries
  have hscopes : ∀ d ∈ inlinesOf [Markup.topLevel .objects uri node,
      StructuredText.topLevel entries], d.hasKnownScope := by decide +kernel
  exact ⟨hscopes, drafts_same_attributes "app" uri spacious node entries
    (AttributeTexts.inElement_element _ _ _) (AttributeTexts.inMapping_mapping _ _) hscopes⟩

/-- The texts of a declaration whose flags are the digit one and a word among blanks. -/
def loosely : AttributeTexts where
  id := "app"
  typeName := "shop.App"
  scope := "singleton"
  parent := ""
  lazyInit := "1"
  isAbstract := " true "

/-- Neither spelling is a set flag in structured text, and both are in markup. -/
theorem flags_differ_loosely :
    loosely.InElement Dialect.objectsNamespace (loosely.element Dialect.objectsNamespace []) ∧
      loosely.InMapping (loosely.mapping []) ∧
      (draftsOf "app" [Markup.topLevel .objects Dialect.objectsNamespace
          (loosely.element Dialect.objectsNamespace [])]).answer.toOption.map
        (List.map fun draft => (draft.lazyInit, draft.isAbstract)) = some [(true, true)] ∧
      (draftsOf "app" [StructuredText.topLevel (loosely.mapping [])]).answer.toOption.map
        (List.map fun draft => (draft.lazyInit, draft.isAbstract)) = some [(false, false)] :=
  ⟨AttributeTexts.inElement_element _ _ _, AttributeTexts.inMapping_mapping _ _,
    by decide +kernel, by decide +kernel⟩

end Wiring
