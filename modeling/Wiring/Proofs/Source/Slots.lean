import Wiring.Proofs.Dialect.Slots
import Wiring.Proofs.Source.Places

/-!
What the log says about constructor slots. A slot that stays empty although it is given
something is reported once, under its name, unless that is a reference in structured text
whose target is no text. So a slot without a word about it was left open, or holds such a
reference.
-/

namespace Wiring

/-- The log entries of the elaboration of some content. -/
def Content.events (source owner name : String) (content : Content) : List Event :=
  (content.elaborate source owner name).trace.filterMap Emission.event?

/-- What is logged for a slot that stays empty: one warning if it is given something. -/
def Filling.IsTold (name : String) (events : List Event) : Filling → Prop
  | .given => ∃ complaint, events = [.complaint complaint name] ∧
      (Event.complaint complaint name).level = .warn
  | .vacant => events = []
  | .targetless => events = []

/-- A log accounts for the empty slots of a draft, given what is in the slots of its
declaration. -/
structure Draft.AccountedFor (draft : Draft) (source id : String) (declaration : Declaration)
    (fillings : List Filling) (log : List Event) : Prop where
  elaborated : (declaration.elaborate source id).answer = .ok draft
  length : draft.args.positional.length = fillings.length
  empty : ∀ i : Nat, draft.args.positional[i]? = some none → ∃ filling content,
    fillings[i]? = some filling ∧ declaration.slots[i]? = some content ∧
      content.events source id (Naming.positional i) <:+: log ∧
      filling.IsTold (Naming.positional i) (content.events source id (Naming.positional i))

/-- A declaration is written in a text in the markup of a vocabulary, with some fillings of
its constructor slots. -/
def Vocabulary.Writes (v : Vocabulary) (location text : String) (declaration : Declaration)
    (fillings : List Filling) : Prop :=
  ∃ (root : Xml.Node) (uri : String) (node : Xml.Node),
    Markup.parseRoot location text = .ok root ∧
    Markup.rootNamespace location v.root v.dialect.namespaces root = .ok uri ∧
    node.Inside root ∧ declaration = Markup.declaration v uri node ∧
    fillings = Markup.fillings v uri node

/-- A declaration is written in a text in a dialect, with some fillings of its constructor
slots. Component markup has no constructor slots. -/
def Dialect.Writes (dialect : Dialect) (location text : String) (declaration : Declaration)
    (fillings : List Filling) : Prop :=
  match dialect with
  | .legacy => False
  | .objects => Vocabulary.objects.Writes location text declaration fillings
  | .springBeans => Vocabulary.beans.Writes location text declaration fillings
  | .yaml => ∃ mappings top entries, Yaml.parseObjects? text = some mappings ∧ top ∈ mappings ∧
      (Yaml.Value.mapping entries).Inside (.mapping top) ∧
      declaration = StructuredText.declaration entries ∧
      fillings = StructuredText.fillings entries

section Written

variable {location text : String} {document : List TopLevel}

theorem Vocabulary.exists_writes {v : Vocabulary} (hdeclares : v.Declares location text document)
    {declaration : Declaration}
    (hmem : declaration ∈ (document.filterMap TopLevel.declared?).map Prod.snd ∨
      declaration ∈ inlinesOf document) :
    ∃ fillings, v.Writes location text declaration fillings := by
  obtain ⟨root, uri, hroot, huri, rfl⟩ := hdeclares
  have htop {id : String} {d : Declaration}
      (hd : (id, d) ∈ (Markup.document v uri root).filterMap TopLevel.declared?) :
      ∃ node : Xml.Node, node.Inside root ∧ d = Markup.declaration v uri node := by
    obtain ⟨top, hmem, hdeclared⟩ := List.mem_filterMap.mp hd
    obtain ⟨node, hnode, rfl⟩ := List.mem_map.mp hmem
    refine ⟨node, Xml.Node.inside_of_mem_elements hnode, ?_⟩
    unfold Markup.topLevel at hdeclared
    split at hdeclared
    · cases hdeclared
    · cases hdeclared
      rfl
  have hinside : ∃ node : Xml.Node, node.Inside root ∧
      declaration = Markup.declaration v uri node := by
    rcases hmem with hmem | hmem
    · obtain ⟨⟨id, d⟩, hd, rfl⟩ := List.mem_map.mp hmem
      exact htop hd
    · obtain ⟨⟨id, d⟩, hd, hinline⟩ := List.mem_flatMap.mp hmem
      obtain ⟨node, hnode, rfl⟩ := htop hd
      obtain ⟨inner, hinner, hsame⟩ :=
        Markup.declaration_inlines_inside v uri node declaration hinline
      exact ⟨inner, hinner.trans hnode, hsame⟩
  obtain ⟨node, hnode, rfl⟩ := hinside
  exact ⟨_, root, uri, node, hroot, huri, hnode, rfl, rfl⟩

theorem Dialect.exists_writes {dialect : Dialect}
    (hdeclares : dialect.Declares location text document) {declaration : Declaration}
    (hmem : declaration ∈ (document.filterMap TopLevel.declared?).map Prod.snd ∨
      declaration ∈ inlinesOf document) :
    ∃ fillings, dialect.Writes location text declaration fillings := by
  cases dialect with
  | legacy => exact hdeclares.elim
  | objects => exact Vocabulary.exists_writes hdeclares hmem
  | springBeans => exact Vocabulary.exists_writes hdeclares hmem
  | yaml =>
    obtain ⟨mappings, hparse, rfl⟩ := hdeclares
    have htop {id : String} {d : Declaration}
        (hd : (id, d) ∈ (StructuredText.document mappings).filterMap TopLevel.declared?) :
        ∃ top ∈ mappings, d = StructuredText.declaration top := by
      obtain ⟨level, hmem, hdeclared⟩ := List.mem_filterMap.mp hd
      obtain ⟨top, htop, rfl⟩ := List.mem_map.mp hmem
      refine ⟨top, htop, ?_⟩
      unfold StructuredText.topLevel at hdeclared
      split at hdeclared
      · cases hdeclared
        rfl
      · cases hdeclared
    rcases hmem with hmem | hmem
    · obtain ⟨⟨id, d⟩, hd, rfl⟩ := List.mem_map.mp hmem
      obtain ⟨top, htop, hsame⟩ := htop hd
      exact ⟨_, mappings, top, top, hparse, htop, .self, hsame, rfl⟩
    · obtain ⟨⟨id, d⟩, hd, hinline⟩ := List.mem_flatMap.mp hmem
      obtain ⟨top, htop, rfl⟩ := htop hd
      obtain ⟨entries, hinside, hsame⟩ :=
        StructuredText.declaration_inlines_inside top declaration hinline
      exact ⟨_, mappings, top, entries, hparse, htop, hinside, hsame, rfl⟩

/-- The fillings of a declaration tell what its slots contain. -/
theorem Dialect.fits_of_writes {dialect : Dialect} {declaration : Declaration}
    {fillings : List Filling} (hwrites : dialect.Writes location text declaration fillings) :
    List.Forall₂ Filling.Fits fillings declaration.slots := by
  cases dialect with
  | legacy => exact hwrites.elim
  | objects =>
    obtain ⟨root, uri, node, -, -, -, rfl, rfl⟩ := hwrites
    exact Markup.fits_slots _ uri node
  | springBeans =>
    obtain ⟨root, uri, node, -, -, -, rfl, rfl⟩ := hwrites
    exact Markup.fits_slots _ uri node
  | yaml =>
    obtain ⟨mappings, top, entries, -, -, -, rfl, rfl⟩ := hwrites
    exact StructuredText.fits_slots entries

end Written

section Log

variable {source : String}

/-- Whatever is made of a declaration, the log accounts for its empty slots. -/
theorem accountedFor_of_elaborate {id : String} {declaration : Declaration} {draft : Draft}
    (hdraft : (declaration.elaborate source id).answer = .ok draft) {fillings : List Filling}
    (hfits : List.Forall₂ Filling.Fits fillings declaration.slots) {log : List Event}
    (hlog : (declaration.elaborate source id).trace.filterMap Emission.event? <:+: log) :
    draft.AccountedFor source id declaration fillings log := by
  have hfills := fills_elaborate source hdraft
  refine ⟨hdraft, hfills.length_eq.trans hfits.length_eq.symm, fun i hempty => ?_⟩
  obtain ⟨content, hcontent, hnone, hrecorded⟩ := hfills.exists_content hempty
  rw [Nat.zero_add] at hnone hrecorded
  obtain ⟨complaints, rfl, htrace⟩ := content.unusable_of_elaborate_none source hnone
  obtain ⟨hlt, hslot⟩ := List.getElem?_eq_some_iff.mp hcontent
  have hlt' : i < fillings.length := by
    rw [hfits.length_eq]
    exact hlt
  have hexplains : fillings[i].Explains complaints := by
    have hfit := hfits.get hlt' hlt
    rw [List.get_eq_getElem, List.get_eq_getElem] at hfit
    exact hfit complaints hslot
  have hevents : (Content.unusable complaints).events source id (Naming.positional i) =
      complaints.map fun c => .complaint c (Naming.positional i) := by
    rw [Content.events, htrace]
    simp [List.filterMap_map, Function.comp_def, Emission.event?]
  refine ⟨fillings[i], _, List.getElem?_eq_getElem hlt', hcontent, ?_, ?_⟩
  · exact (hrecorded.filterMap _).trans hlog
  · rw [hevents]
    cases hfilling : fillings[i] with
    | given =>
      rw [hfilling] at hexplains
      obtain ⟨complaint, rfl⟩ := hexplains
      exact ⟨complaint, rfl, rfl⟩
    | vacant =>
      rw [hfilling] at hexplains
      obtain rfl : complaints = [] := hexplains
      rfl
    | targetless =>
      rw [hfilling] at hexplains
      obtain rfl : complaints = [] := hexplains
      rfl

theorem draftsOf_declared (id : String) (idless : Bool) (declaration : Declaration)
    (rest : List TopLevel) : draftsOf source (.declared id idless declaration :: rest) =
      ((if idless then Traced.record (.missingId source) else pure ()) >>= fun _ => do
        let draft ← declaration.draft source id
        let drafts ← draftsOf source rest
        return draft :: drafts) := by
  rw [draftsOf]
  cases idless with
  | true => rfl
  | false => rfl

/-- What is logged for a declaration at the top level is part of what is logged for the
document. -/
theorem isInfix_draftsOf {document : List TopLevel} {drafts : List Draft}
    (hdrafts : (draftsOf source document).answer = .ok drafts) :
    ∀ declared ∈ document.filterMap TopLevel.declared?, ∃ draft ∈ drafts,
      (declared.2.draft source declared.1).answer = .ok draft ∧
      (declared.2.draft source declared.1).trace <:+: (draftsOf source document).trace := by
  induction document generalizing drafts with
  | nil => exact nofun
  | cons top rest ih =>
    cases top with
    | unidentified => cases hdrafts
    | foreign element =>
      rw [draftsOf] at hdrafts ⊢
      obtain ⟨_, hrecord, hdrafts⟩ := Traced.exists_of_bind hdrafts
      intro declared hmem
      obtain ⟨draft, hdraft, hanswer, htrace⟩ := ih hdrafts declared hmem
      refine ⟨draft, hdraft, hanswer, ?_⟩
      rw [Traced.bind_of_ok hrecord]
      exact htrace.trans (List.suffix_append _ _).isInfix
    | declared id idless declaration =>
      rw [draftsOf_declared] at hdrafts ⊢
      obtain ⟨_, hrecord, hdrafts⟩ := Traced.exists_of_bind hdrafts
      obtain ⟨draft, hdraft, hdrafts⟩ := Traced.exists_of_bind hdrafts
      obtain ⟨more, hmore, hcons⟩ := Traced.exists_of_bind hdrafts
      cases hcons
      rw [Traced.bind_of_ok hrecord, Traced.bind_of_ok hdraft, Traced.bind_of_ok hmore]
      dsimp only
      intro declared hmem
      rw [List.filterMap_cons_some (f := TopLevel.declared?) rfl] at hmem
      rcases List.mem_cons.mp hmem with rfl | hmem
      · refine ⟨draft, List.mem_cons_self, hdraft, ?_⟩
        exact (List.prefix_append _ _).isInfix.trans (List.suffix_append _ _).isInfix
      · obtain ⟨other, hother, hanswer, htrace⟩ := ih hmore declared hmem
        refine ⟨other, List.mem_cons_of_mem _ hother, hanswer, htrace.trans ?_⟩
        apply (List.prefix_append _ _).isInfix.trans
        exact ((List.suffix_append _ _).trans (List.suffix_append _ _)).isInfix

/-- What is logged for an inline declaration is part of what is logged for the declaration
that it is written in, and its definition is one of those emitted there. -/
theorem exists_inline_of_draft {id : String} {declaration inline : Declaration} {draft : Draft}
    (hdraft : (declaration.draft source id).answer = .ok draft)
    (hinline : inline ∈ declaration.inlines) :
    ∃ innerId inner, (inline.elaborate source innerId).answer = .ok inner ∧
      (inline.elaborate source innerId).trace.filterMap Emission.event? <:+:
        (declaration.draft source id).trace ∧ inner.declared ∈ draft.inner := by
  obtain ⟨bare, helaborate, rfl⟩ := exists_of_draft hdraft
  obtain ⟨innerId, inner, hanswer, htrace⟩ :=
    declaration.records_inlines source id bare helaborate inline hinline
  refine ⟨innerId, inner, hanswer, ?_, ?_⟩
  · exact ((List.prefix_append _ _).isInfix.trans htrace).filterMap _
  · have hemitted : Emission.definition inner.declared ∈
        (declaration.elaborate source id).trace := by
      apply htrace.subset
      simp
    exact List.mem_filterMap.mpr ⟨_, hemitted, rfl⟩

end Log

namespace Dialect

/-- A log accounts for the empty slots of a declaration that is written in a text. -/
def AccountsFor (dialect : Dialect) (location text : String) (log : List Event)
    (id : String) (declaration : Declaration) (draft : Draft) : Prop :=
  ∃ fillings, dialect.Writes location text declaration fillings ∧
    draft.AccountedFor location id declaration fillings log

theorem readMarkup_record {v : Vocabulary} {location text : String}
    {result : List ObjectDefinition} (hread : (readMarkup v location text).answer = .ok result) :
    ∃ document, v.Declares location text document ∧
      (definitionsOf location document).answer = .ok result ∧
      (definitionsOf location document).trace <:+: (readMarkup v location text).trace := by
  obtain ⟨root, hroot, hread⟩ := Traced.exists_of_bind hread
  obtain ⟨uri, huri, hread⟩ := Traced.exists_of_bind hread
  refine ⟨Markup.document v uri root, ⟨root, uri, hroot, huri, rfl⟩, hread, ?_⟩
  rw [readMarkup, Traced.bind_of_ok hroot, readRoot, Traced.bind_of_ok huri]
  exact ((List.suffix_append _ _).trans (List.suffix_append _ _)).isInfix

/-- What is logged for a document is part of what is logged for the text of it. -/
theorem readText_record {dialect : Dialect} (hdialect : dialect ≠ .legacy)
    {location text : String} {result : List ObjectDefinition}
    (hread : (dialect.readText location text).answer = .ok result) :
    ∃ document, dialect.Declares location text document ∧
      (definitionsOf location document).answer = .ok result ∧
      (definitionsOf location document).trace <:+: (dialect.readText location text).trace := by
  cases dialect with
  | legacy => exact absurd rfl hdialect
  | objects => exact readMarkup_record hread
  | springBeans => exact readMarkup_record hread
  | yaml =>
    cases hparse : Yaml.parseObjects? text with
    | none => simp [readText, readStructuredText, hparse, Traced.fail] at hread
    | some mappings =>
      simp only [readText, readStructuredText, hparse] at hread ⊢
      exact ⟨StructuredText.document mappings, ⟨mappings, hparse, rfl⟩, hread, List.infix_rfl⟩

/-- Nothing that is given is dropped in silence, but for references in structured text that
have no target: in the log of a source that can be read there is exactly one warning for
each slot that is given something else and yet stays empty, and nothing for those that are
left open. -/
theorem read_accounts_for_slots (files : Files) (dialect : Dialect) (source : Source)
    (result : List ObjectDefinition) (hdialect : dialect ≠ .legacy)
    (hread : (dialect.read files source).answer = .ok result) :
    ∃ text document, source.load files = .ok text ∧
      dialect.Declares source.location text document ∧
      (∀ declared ∈ document.filterMap TopLevel.declared?, ∃ draft,
        dialect.AccountsFor source.location text (dialect.read files source).trace
          declared.1 declared.2 draft) ∧
      ∀ declaration ∈ inlinesOf document, ∃ id draft, draft.declared ∈ result ∧
        dialect.AccountsFor source.location text (dialect.read files source).trace
          id declaration draft := by
  obtain ⟨_, hparsing, hload⟩ := Traced.exists_of_bind hread
  obtain ⟨text, htext, htextRead⟩ := Traced.exists_of_bind hload
  obtain ⟨document, hdocument, hresult, hrecorded⟩ := readText_record hdialect htextRead
  obtain ⟨drafts, hdrafts, hresolved⟩ := Traced.exists_of_bind hresult
  change (TemplateSet.resolveAll ⟨source.location, drafts⟩ drafts).answer = .ok result at hresolved
  have hlog : (draftsOf source.location document).trace <:+: (dialect.read files source).trace := by
    rw [read, Traced.bind_of_ok hparsing, Traced.bind_of_ok htext]
    rw [definitionsOf, Traced.bind_of_ok hdrafts] at hrecorded
    apply (List.prefix_append _ _).isInfix.trans (hrecorded.trans _)
    exact ((List.suffix_append _ _).trans (List.suffix_append _ _)).isInfix
  refine ⟨text, document, htext, hdocument, ?_, ?_⟩
  · intro declared hmem
    obtain ⟨draft, -, hdraft, htrace⟩ := isInfix_draftsOf hdrafts declared hmem
    obtain ⟨fillings, hwrites⟩ :=
      exists_writes hdocument (Or.inl (List.mem_map_of_mem hmem))
    cases helaborate : (declared.2.elaborate source.location declared.1).answer with
    | error e => simp [Declaration.draft, helaborate, Except.map] at hdraft
    | ok bare =>
      refine ⟨bare, fillings, hwrites, ?_⟩
      exact accountedFor_of_elaborate helaborate (fits_of_writes hwrites) (htrace.trans hlog)
  · intro declaration hmem
    obtain ⟨fillings, hwrites⟩ := exists_writes hdocument (Or.inr hmem)
    obtain ⟨declared, hdeclared, hinline⟩ := List.mem_flatMap.mp hmem
    obtain ⟨draft, hdraftMem, hdraft, htrace⟩ := isInfix_draftsOf hdrafts declared hdeclared
    obtain ⟨id, inner, hanswer, hinner, hemitted⟩ := exists_inline_of_draft hdraft hinline
    refine ⟨id, inner, ?_, fillings, hwrites, ?_⟩
    · exact (TemplateSet.mem_resolveAll hresolved _).mpr ⟨draft, hdraftMem, Or.inl hemitted⟩
    · exact accountedFor_of_elaborate hanswer (fits_of_writes hwrites)
        (hinner.trans (htrace.trans hlog))

/-- An object with a tagged value in its first slot, the second left open and a reference
without a target in the third. -/
def slotted : Source :=
  .inline "app.yaml" <|
    "objects:\n  - object: app\n    class: App\n" ++
    "    constructor-args: [!x 1, ~, \x7bref: 5\x7d]\n"

theorem read_accounts_for_slots_slotted :
    Dialect.yaml ≠ .legacy ∧
      ∃ result, (Dialect.yaml.read (fun _ => .error .notFound) slotted).answer = .ok result ∧
        ∃ text document, slotted.load (fun _ => .error .notFound) = .ok text ∧
          Dialect.yaml.Declares slotted.location text document ∧
          (∀ declared ∈ document.filterMap TopLevel.declared?, ∃ draft,
            Dialect.yaml.AccountsFor slotted.location text
              (Dialect.yaml.read (fun _ => .error .notFound) slotted).trace
              declared.1 declared.2 draft) ∧
          ∀ declaration ∈ inlinesOf document, ∃ id draft, draft.declared ∈ result ∧
            Dialect.yaml.AccountsFor slotted.location text
              (Dialect.yaml.read (fun _ => .error .notFound) slotted).trace
              id declaration draft := by
  have hok : (Dialect.yaml.read (fun _ => .error .notFound) slotted).answer.isOk := by
    decide +kernel
  obtain ⟨result, hread⟩ := Traced.exists_of_isOk hok
  exact ⟨by decide, result, hread,
    read_accounts_for_slots _ .yaml slotted result (by decide) hread⟩

/-- An object with a reference in its only slot whose target is a number. -/
def numberTargeted : Source :=
  .inline "app.yaml" <|
    "objects:\n  - object: app\n    class: App\n    constructor-args: [\x7bref: 5\x7d]\n"

/-- The slot stays empty and nothing is logged but that the source is read. -/
theorem read_silent_numberTargeted :
    (Dialect.yaml.read (fun _ => .error .notFound) numberTargeted).answer.toOption.map
        (List.map fun d => d.args.map Option.isSome) = some [[false]] ∧
      (Dialect.yaml.read (fun _ => .error .notFound) numberTargeted).trace =
        [.parsing .yaml "app.yaml", .parsedObject "app"] ∧
      ∀ e ∈ (Dialect.yaml.read (fun _ => .error .notFound) numberTargeted).trace,
        e.level ≠ .warn := by
  have hlog : (Dialect.yaml.read (fun _ => .error .notFound) numberTargeted).trace =
      [.parsing .yaml "app.yaml", .parsedObject "app"] := by
    decide +kernel
  refine ⟨by decide +kernel, hlog, ?_⟩
  rw [hlog]
  decide

end Dialect

end Wiring
