import Mathlib.Algebra.GroupWithZero.Nat
import Wiring.Proofs.Elaboration.Inline
import Wiring.Proofs.Matching
import Wiring.Proofs.Template.Inheritance
import Wiring.Source.Reading

/-!
What a source that can be read defines. Each top-level declaration contributes one block
of definitions, that of what is written inline in it and then its own. Templates bring
values into a definition but add none to the collection: what those values hold is in
the blocks of the templates.
-/

namespace Wiring

/-- A declaration at the top level, under its id. -/
def TopLevel.declared? : TopLevel → Option (String × Declaration)
  | .declared id _ declaration => some (id, declaration)
  | .foreign _ => none
  | .unidentified => none

/-- What a text in the markup of a vocabulary declares. -/
def Vocabulary.Declares (v : Vocabulary) (location text : String) (document : List TopLevel) :
    Prop :=
  ∃ root uri, Markup.parseRoot location text = .ok root ∧
    Markup.rootNamespace location v.root v.dialect.namespaces root = .ok uri ∧
    document = Markup.document v uri root

/-- What a text in a dialect declares. Component markup has no declarations of objects. -/
def Dialect.Declares (dialect : Dialect) (location text : String)
    (document : List TopLevel) : Prop :=
  match dialect with
  | .legacy => False
  | .objects => Vocabulary.objects.Declares location text document
  | .springBeans => Vocabulary.beans.Declares location text document
  | .yaml => ∃ mappings, Yaml.parseObjects? text = some mappings ∧
      document = StructuredText.document mappings

/-- The draft of a declaration, with the definitions written inline in it. -/
structure DraftOf (source : String) (written : String × Declaration) (draft : Draft) :
    Prop where
  elaborated : (written.2.draft source written.1).answer = .ok draft
  id : draft.id = written.1
  inner : Block source written.2.inlines draft.inner
  held : ∀ v, draft.args.Gives v → v.HeldIn draft.inner

/-- The definitions of a declaration: those of what is written inline in it, nested ones
first, and then its own, with its templates beneath. -/
def BlockOf (set : TemplateSet) (written : String × Declaration)
    (block : List ObjectDefinition) : Prop :=
  ∃ draft own, (written.2.draft set.location written.1).answer = .ok draft ∧
    (set.resolve draft).answer = .ok own ∧ own.id = written.1 ∧
    Block set.location written.2.inlines draft.inner ∧ block = draft.inner ++ [own]

section Drafts

variable {source : String}

theorem draftOf_draft {id : String} {declaration : Declaration} {draft : Draft}
    (hdraft : (declaration.draft source id).answer = .ok draft) :
    DraftOf source (id, declaration) draft := by
  obtain ⟨bare, helaborate, rfl⟩ := exists_of_draft hdraft
  obtain ⟨hid, hinner, hheld⟩ := declaration.ensures_draft source id bare helaborate
  exact ⟨hdraft, hid, hinner, hheld⟩

theorem forall₂_draftsOf {document : List TopLevel} {drafts : List Draft}
    (hdrafts : (draftsOf source document).answer = .ok drafts) :
    List.Forall₂ (DraftOf source) (document.filterMap TopLevel.declared?) drafts := by
  induction document generalizing drafts with
  | nil =>
    cases hdrafts
    exact .nil
  | cons top rest ih =>
    cases top with
    | declared id idless declaration =>
      have hbound : (do
          let draft ← declaration.draft source id
          let more ← draftsOf source rest
          return draft :: more : Reading (List Draft)).answer = .ok drafts := by
        rw [draftsOf] at hdrafts
        cases idless with
        | true => exact hdrafts
        | false => exact hdrafts
      obtain ⟨draft, hdraft, hbound⟩ := Traced.exists_of_bind hbound
      obtain ⟨more, hmore, hcons⟩ := Traced.exists_of_bind hbound
      cases hcons
      exact .cons (draftOf_draft hdraft) (ih hmore)
    | foreign element =>
      rw [answer_draftsOf_foreign] at hdrafts
      exact ih hdrafts
    | unidentified => cases hdrafts

/-- Whatever a draft or an inline definition of it holds is an inline definition of it. -/
structure Draft.SelfContained (draft : Draft) : Prop where
  held : ∀ v, draft.args.Gives v → v.HeldIn draft.inner
  closed : ∀ d ∈ draft.inner, ∀ e, d.Holds e → e ∈ draft.inner

theorem selfContained_of_forall₂ {written : List (String × Declaration)} {drafts : List Draft}
    (hdrafts : List.Forall₂ (DraftOf source) written drafts) :
    ∀ draft ∈ drafts, draft.SelfContained := by
  intro draft hmem
  obtain ⟨declared, -, hdraft⟩ := exists_of_mem_forall₂ hdrafts hmem
  exact ⟨hdraft.held, fun d hd e he => hdraft.inner.closed hd he⟩

end Drafts

namespace TemplateSet

variable {set : TemplateSet}

theorem id_of_resolve {draft : Draft} {own : ObjectDefinition}
    (hresolve : (set.resolve draft).answer = .ok own) : own.id = draft.id := by
  obtain ⟨templates, -, rfl⟩ := resolve_ok_inherit hresolve
  rfl

theorem resolveAll_cons {draft : Draft} {drafts : List Draft} {result : List ObjectDefinition}
    (hresult : (set.resolveAll (draft :: drafts)).answer = .ok result) :
    ∃ own rest, (set.resolve draft).answer = .ok own ∧
      (set.resolveAll drafts).answer = .ok rest ∧ result = draft.inner ++ own :: rest := by
  rw [resolveAll] at hresult
  obtain ⟨own, hown, hresult⟩ := Traced.exists_of_bind hresult
  obtain ⟨_, -, hresult⟩ := Traced.exists_of_bind hresult
  obtain ⟨rest, hrest, hresult⟩ := Traced.exists_of_bind hresult
  cases hresult
  exact ⟨own, rest, hown, hrest, rfl⟩

/-- Declarations resolve in turn, each to one block. -/
theorem forall₂_resolveAll {written : List (String × Declaration)} {drafts : List Draft}
    (hdrafts : List.Forall₂ (DraftOf set.location) written drafts)
    {result : List ObjectDefinition} (hresult : (set.resolveAll drafts).answer = .ok result) :
    ∃ blocks, result = blocks.flatten ∧ List.Forall₂ (BlockOf set) written blocks := by
  induction hdrafts generalizing result with
  | nil =>
    cases hresult
    exact ⟨[], rfl, .nil⟩
  | @cons _ draft _ _ hdraft _ ih =>
    obtain ⟨own, rest, hown, hrest, rfl⟩ := resolveAll_cons hresult
    obtain ⟨blocks, rfl, hblocks⟩ := ih hrest
    have hid := (id_of_resolve hown).trans hdraft.id
    refine ⟨(draft.inner ++ [own]) :: blocks, by simp, .cons ?_ hblocks⟩
    exact ⟨draft, own, hdraft.elaborated, hown, hid, hdraft.inner, rfl⟩

theorem mem_resolveAll {drafts : List Draft} {result : List ObjectDefinition}
    (hresult : (set.resolveAll drafts).answer = .ok result) (d : ObjectDefinition) :
    d ∈ result ↔ ∃ draft ∈ drafts, d ∈ draft.inner ∨ (set.resolve draft).answer = .ok d := by
  induction drafts generalizing result with
  | nil =>
    cases hresult
    simp
  | cons draft drafts ih =>
    obtain ⟨own, rest, hown, hrest, rfl⟩ := resolveAll_cons hresult
    rw [List.mem_append, List.mem_cons, ih hrest, List.exists_mem_cons_iff, hown,
      Except.ok.injEq, eq_comm, or_assoc]

/-- What a definition holds is written inline in the declaration or in a template. -/
theorem mem_inner_of_holds {leaf : Draft} {own e : ObjectDefinition}
    (hcontained : ∀ draft ∈ set.drafts, draft.SelfContained) (hleaf : leaf ∈ set.drafts)
    (hresolve : (set.resolve leaf).answer = .ok own) (hholds : own.Holds e) :
    ∃ draft ∈ set.drafts, e ∈ draft.inner := by
  obtain ⟨templates, hwalk, rfl⟩ := resolve_ok_inherit hresolve
  obtain ⟨hgives, hin⟩ := hholds
  obtain ⟨args, hargs, hv⟩ := Arguments.gives_of_mergeAll hgives
  rw [← List.map_cons, List.mem_map] at hargs
  obtain ⟨draft, hdraft, rfl⟩ := hargs
  have hdeclared : draft ∈ set.drafts := by
    rcases List.mem_cons.mp hdraft with rfl | htemplate
    · exact hleaf
    · exact hwalk.climbs.mem_drafts draft htemplate
  exact ⟨draft, hdeclared, (hcontained draft hdeclared).held _ hv e hin⟩

theorem resolveAll_closed (hcontained : ∀ draft ∈ set.drafts, draft.SelfContained)
    {result : List ObjectDefinition}
    (hresult : (set.resolveAll set.drafts).answer = .ok result) :
    ∀ d ∈ result, ∀ e, d.Holds e → e ∈ result := by
  intro d hd e he
  obtain ⟨leaf, hleaf, hinner | hown⟩ := (mem_resolveAll hresult d).mp hd
  · have hmem := (hcontained leaf hleaf).closed d hinner e he
    exact (mem_resolveAll hresult e).mpr ⟨leaf, hleaf, Or.inl hmem⟩
  · obtain ⟨draft, hdraft, hmem⟩ := mem_inner_of_holds hcontained hleaf hown he
    exact (mem_resolveAll hresult e).mpr ⟨draft, hdraft, Or.inl hmem⟩

theorem length_flatten_blocks {written : List (String × Declaration)}
    {blocks : List (List ObjectDefinition)} (hblocks : List.Forall₂ (BlockOf set) written blocks) :
    blocks.flatten.length =
      written.length + (written.map fun declared => declared.2.inlines.length).sum := by
  induction hblocks with
  | nil => rfl
  | cons hblock _ ih =>
    obtain ⟨draft, own, -, -, -, hinner, rfl⟩ := hblock
    have hlength := hinner.each.length_eq
    simp only [List.flatten_cons, List.length_append, List.length_cons, List.length_nil, ih,
      List.map_cons, List.sum_cons, hlength]
    omega

end TemplateSet

/-- What a source defines, block after block. -/
structure Collects (set : TemplateSet) (written : List (String × Declaration))
    (result : List ObjectDefinition) : Prop where
  /-- Whatever a definition holds, own or inherited and at any depth, is defined. -/
  closed : ∀ d ∈ result, ∀ e, d.Holds e → e ∈ result
  blocks : ∃ blocks, result = blocks.flatten ∧ List.Forall₂ (BlockOf set) written blocks
  count : result.length =
    written.length + (written.map fun declared => declared.2.inlines.length).sum

theorem collects_of_definitionsOf {source : String} {document : List TopLevel}
    {result : List ObjectDefinition}
    (hresult : (definitionsOf source document).answer = .ok result) :
    ∃ drafts, (draftsOf source document).answer = .ok drafts ∧
      Collects ⟨source, drafts⟩ (document.filterMap TopLevel.declared?) result := by
  obtain ⟨drafts, hdrafts, hresolved⟩ := Traced.exists_of_bind hresult
  have hwritten := forall₂_draftsOf hdrafts
  have hcontained := selfContained_of_forall₂ hwritten
  change (TemplateSet.resolveAll ⟨source, drafts⟩ drafts).answer = .ok result at hresolved
  have hclosed := TemplateSet.resolveAll_closed hcontained hresolved
  obtain ⟨blocks, rfl, hblocks⟩ := TemplateSet.forall₂_resolveAll hwritten hresolved
  refine ⟨drafts, hdrafts, hclosed, ⟨blocks, rfl, hblocks⟩, ?_⟩
  exact TemplateSet.length_flatten_blocks hblocks

namespace Dialect

theorem readMarkup_ok {v : Vocabulary} {location text : String} {result : List ObjectDefinition}
    (hread : (readMarkup v location text).answer = .ok result) :
    ∃ document, v.Declares location text document ∧
      (definitionsOf location document).answer = .ok result := by
  obtain ⟨root, hroot, hread⟩ := Traced.exists_of_bind hread
  obtain ⟨uri, huri, hread⟩ := Traced.exists_of_bind hread
  exact ⟨Markup.document v uri root, ⟨root, uri, hroot, huri, rfl⟩, hread⟩

theorem readText_ok {dialect : Dialect} (hdialect : dialect ≠ .legacy)
    {location text : String} {result : List ObjectDefinition}
    (hread : (dialect.readText location text).answer = .ok result) :
    ∃ document, dialect.Declares location text document ∧
      (definitionsOf location document).answer = .ok result := by
  cases dialect with
  | legacy => exact absurd rfl hdialect
  | objects => exact readMarkup_ok hread
  | springBeans => exact readMarkup_ok hread
  | yaml =>
    cases hparse : Yaml.parseObjects? text with
    | none => simp [readText, readStructuredText, hparse, Traced.fail] at hread
    | some mappings =>
      simp only [readText, readStructuredText, hparse] at hread
      exact ⟨StructuredText.document mappings, ⟨mappings, hparse, rfl⟩, hread⟩

/-- No inline definition is lost: reading a source whose dialect declares objects gives
one block for each declaration, in which the inline definitions come before the one they
are written in, and nothing is held that is not also given. -/
theorem read_collects (files : Files) (dialect : Dialect) (source : Source)
    (result : List ObjectDefinition) (hdialect : dialect ≠ .legacy)
    (hread : (dialect.read files source).answer = .ok result) :
    ∃ text document drafts, source.load files = .ok text ∧
      dialect.Declares source.location text document ∧
      (draftsOf source.location document).answer = .ok drafts ∧
      Collects ⟨source.location, drafts⟩ (document.filterMap TopLevel.declared?) result := by
  obtain ⟨_, -, hread⟩ := Traced.exists_of_bind hread
  obtain ⟨text, htext, hread⟩ := Traced.exists_of_bind hread
  obtain ⟨document, hdocument, hresult⟩ := readText_ok hdialect hread
  obtain ⟨drafts, hdrafts, hcollects⟩ := collects_of_definitionsOf hresult
  exact ⟨text, document, drafts, htext, hdocument, hdrafts, hcollects⟩

/-- An object with another one written inline as its property. -/
def pooled : Source :=
  .inline "app.yaml" <|
    "objects:\n  - object: app\n    class: App\n" ++
    "    properties:\n      pool: \x7bobject: pool, class: Pool\x7d\n"

theorem read_collects_pooled :
    Dialect.yaml ≠ .legacy ∧
      ∃ result, (Dialect.yaml.read (fun _ => .error .notFound) pooled).answer = .ok result ∧
        ∃ text document drafts, pooled.load (fun _ => .error .notFound) = .ok text ∧
          Dialect.yaml.Declares pooled.location text document ∧
          (draftsOf pooled.location document).answer = .ok drafts ∧
          Collects ⟨pooled.location, drafts⟩ (document.filterMap TopLevel.declared?) result := by
  have hok : (Dialect.yaml.read (fun _ => .error .notFound) pooled).answer.isOk := by
    decide +kernel
  obtain ⟨result, hread⟩ := Traced.exists_of_isOk hok
  exact ⟨by decide, result, hread, read_collects _ .yaml pooled result (by decide) hread⟩

end Dialect

end Wiring
