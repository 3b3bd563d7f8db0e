import Wiring.Proofs.Elaboration.Places
import Wiring.Proofs.Source.Reading

/-!
What is read is in its places. Whatever dialect a definition is read from, each value in
it carries the name of its place, at any depth. A value that comes from a template is in
the same place there, and its parts are named as parts of the template.
-/

namespace Wiring

/-- The inline declarations in a document. -/
def inlinesOf (document : List TopLevel) : List Declaration :=
  (document.filterMap TopLevel.declared?).flatMap fun declared => declared.2.inlines

/-- A draft and the definitions written inline in it have their values in their places. -/
structure Draft.PlacedThroughout (inline : String → String → ObjectDefinition → Prop)
    (draft : Draft) : Prop where
  own : draft.Placed inline
  inner : ∀ d ∈ draft.inner, d.Placed inline

theorem placed_draft {source : String} {written : List Declaration} {id : String}
    {declaration : Declaration} (hwritten : declaration.inlines ⊆ written) {draft : Draft}
    (hdraft : (declaration.draft source id).answer = .ok draft) :
    draft.PlacedThroughout (InlineAs source written) := by
  obtain ⟨bare, helaborate, rfl⟩ := exists_of_draft hdraft
  obtain ⟨hinner, -, hown⟩ :=
    declaration.placed_elaborate source written id hwritten bare helaborate
  exact ⟨hown, hinner⟩

theorem placed_draftsOf {source : String} {document : List TopLevel} {drafts : List Draft}
    (hdrafts : (draftsOf source document).answer = .ok drafts) :
    ∀ draft ∈ drafts, draft.PlacedThroughout (InlineAs source (inlinesOf document)) := by
  have hsubset : ∀ declared ∈ document.filterMap TopLevel.declared?,
      declared.2.inlines ⊆ inlinesOf document := by
    intro declared hmem declaration hdeclaration
    exact List.mem_flatMap.mpr ⟨declared, hmem, hdeclaration⟩
  intro draft hdraft
  obtain ⟨declared, hmem, helaborated⟩ :=
    exists_of_mem_forall₂ (forall₂_draftsOf hdrafts) hdraft
  exact placed_draft (hsubset declared hmem) helaborated.elaborated

/-- How the values of a definition of some declarations are placed. -/
inductive TemplateSet.Places (set : TemplateSet)
    (inline : String → String → ObjectDefinition → Prop) (d : ObjectDefinition) : Prop where
  /-- A definition written inline gives the values that it is written with. -/
  | inline (hinner : ∃ leaf ∈ set.drafts, d ∈ leaf.inner) (hplaced : d.Placed inline)
  /-- A declared one gives each value in the place in which it or a template of it does,
  and there it is named for that one. -/
  | declared {leaf : Draft} {templates : List Draft} (hleaf : leaf ∈ set.drafts)
      (hclimb : set.Climbs leaf templates none) (hid : d.id = leaf.id)
      (hplaced : ∀ name v, d.arguments.GivesAs name v →
        ∃ draft ∈ leaf :: templates, draft.args.GivesAs name v ∧ v.Placed inline draft.id name)

theorem TemplateSet.places_of_resolveAll {set : TemplateSet}
    {inline : String → String → ObjectDefinition → Prop} {result : List ObjectDefinition}
    (hplaced : ∀ draft ∈ set.drafts, draft.PlacedThroughout inline)
    (hresult : (set.resolveAll set.drafts).answer = .ok result) :
    ∀ d ∈ result, set.Places inline d := by
  intro d hd
  obtain ⟨leaf, hleaf, hinner | hown⟩ := (mem_resolveAll hresult d).mp hd
  · exact .inline ⟨leaf, hleaf, hinner⟩ ((hplaced leaf hleaf).inner d hinner)
  · obtain ⟨templates, hwalk, rfl⟩ := resolve_ok_inherit hown
    refine .declared hleaf hwalk.climbs rfl fun name v hgives => ?_
    obtain ⟨args, hargs, hv⟩ := Arguments.givesAs_of_mergeAll hgives
    rw [← List.map_cons, List.mem_map] at hargs
    obtain ⟨draft, hdraft, rfl⟩ := hargs
    have hdeclared : draft ∈ set.drafts := by
      rcases List.mem_cons.mp hdraft with rfl | htemplate
      · exact hleaf
      · exact hwalk.climbs.mem_drafts draft htemplate
    exact ⟨draft, hdraft, hv, (hplaced draft hdeclared).own name v hv⟩

section Components

open Components

variable (inline : String → String → ObjectDefinition → Prop)

theorem placed_referenceItems (owner name : String) (index : Nat) (targets : List String)
    (i : Nat) (v : ValueDefinition) (hitem : (referenceItems name index targets)[i]? = some v) :
    v.Placed inline owner (Naming.element name Shape.list.label (index + i)) := by
  induction targets generalizing index i with
  | nil => simp [referenceItems] at hitem
  | cons target targets ih =>
    rw [referenceItems] at hitem
    cases i with
    | zero =>
      rw [List.getElem?_cons_zero, Option.some.injEq] at hitem
      subst hitem
      exact .reference
    | succ i =>
      rw [List.getElem?_cons_succ] at hitem
      have hplaced := ih (index + 1) i hitem
      rwa [show index + 1 + i = index + (i + 1) by omega] at hplaced

theorem placed_propertyValue? {name : String} {property : Xml.Node} {v : ValueDefinition}
    (hvalue : propertyValue? name property = some v) (owner : String) :
    v.Placed inline owner name := by
  unfold propertyValue? at hvalue
  split at hvalue
  · cases hvalue
    exact .reference
  · split at hvalue
    · cases hvalue
      exact .reference
    · split at hvalue
      · cases hvalue
        refine .sequence fun i v hitem => ?_
        simpa using placed_referenceItems inline owner name 0 _ i v hitem
      · split at hvalue
        · cases hvalue
          exact Expression.placed_toDefinition inline owner name _
        · cases hvalue

/-! Where the values of components are read from. -/

theorem Components.exists_of_mem_properties {source object : String} {written : List Xml.Node}
    {values : List ValueDefinition}
    (hvalues : (properties source object written).answer = .ok values) :
    ∀ v ∈ values, ∃ name, ∃ property ∈ written, propertyValue? name property = some v := by
  induction written generalizing values with
  | nil =>
    cases hvalues
    simp
  | cons property rest ih =>
    have hlater {values : List ValueDefinition}
        (hmore : (properties source object rest).answer = .ok values) :
        ∀ v ∈ values, ∃ name, ∃ p ∈ property :: rest, propertyValue? name p = some v := by
      intro v hv
      obtain ⟨name, p, hp, hvalue⟩ := ih hmore v hv
      exact ⟨name, p, List.mem_cons_of_mem property hp, hvalue⟩
    rw [properties] at hvalues
    split at hvalues
    · rename_i value hvalue
      obtain ⟨more, hmore, hcons⟩ := Traced.exists_of_bind hvalues
      cases hcons
      exact List.forall_mem_cons.mpr ⟨⟨_, property, List.mem_cons_self, hvalue⟩, hlater hmore⟩
    · obtain ⟨_, -, hmore⟩ := Traced.exists_of_bind hvalues
      exact hlater hmore

/-- The definition of a component has properties and no arguments. -/
theorem Components.exists_of_definition {source : String} {component : Xml.Node}
    {d : ObjectDefinition} (hdefinition : (definition source component).answer = .ok d) :
    d.args = [] ∧ d.named = [] ∧
      ∀ v ∈ d.properties, ∃ name property, propertyValue? name property = some v := by
  obtain ⟨scope, -, hdefinition⟩ := Traced.exists_of_bind hdefinition
  obtain ⟨values, hvalues, hdefinition⟩ := Traced.exists_of_bind hdefinition
  cases hdefinition
  refine ⟨rfl, rfl, fun v hv => ?_⟩
  obtain ⟨name, property, -, hvalue⟩ := exists_of_mem_properties hvalues v hv
  exact ⟨name, property, hvalue⟩

theorem Components.exists_of_mem_definitions {source : String} {components : List Xml.Node}
    {result : List ObjectDefinition}
    (hresult : (definitions source components).answer = .ok result) :
    ∀ d ∈ result, ∃ component ∈ components, (definition source component).answer = .ok d := by
  induction components generalizing result with
  | nil =>
    cases hresult
    simp
  | cons component components ih =>
    rw [definitions] at hresult
    obtain ⟨d, hd, hresult⟩ := Traced.exists_of_bind hresult
    obtain ⟨_, -, hresult⟩ := Traced.exists_of_bind hresult
    obtain ⟨rest, hrest, hcons⟩ := Traced.exists_of_bind hresult
    cases hcons
    refine List.forall_mem_cons.mpr ⟨⟨component, List.mem_cons_self, hd⟩, fun e he => ?_⟩
    obtain ⟨other, hother, he⟩ := ih hrest e he
    exact ⟨other, List.mem_cons_of_mem component hother, he⟩

theorem placed_definition {source : String} {component : Xml.Node} {d : ObjectDefinition}
    (hdefinition : (definition source component).answer = .ok d) : d.Placed inline := by
  obtain ⟨hargs, hnamed, hproperties⟩ := exists_of_definition hdefinition
  intro name v hgives
  cases hgives with
  | @slot i _ hslot =>
    have hslot : d.args[i]? = some (some v) := hslot
    rw [hargs] at hslot
    cases hslot
  | named hmem =>
    have hmem : (name, v) ∈ d.named := hmem
    rw [hnamed] at hmem
    cases hmem
  | property hmem =>
    obtain ⟨name, property, hvalue⟩ := hproperties v hmem
    have hplaced := placed_propertyValue? inline hvalue d.id
    rwa [hplaced.name_eq]

end Components

namespace Dialect

/-- How the values of a definition that a dialect reads from a source are placed.
Component markup has neither inline definitions nor templates. -/
def Places (files : Files) (dialect : Dialect) (source : Source) (d : ObjectDefinition) : Prop :=
  match dialect with
  | .legacy => d.Placed fun _ _ _ => False
  | _ => ∃ text document drafts, source.load files = .ok text ∧
      dialect.Declares source.location text document ∧
      (draftsOf source.location document).answer = .ok drafts ∧
      TemplateSet.Places ⟨source.location, drafts⟩
        (InlineAs source.location (inlinesOf document)) d

theorem places_of_read {files : Files} {dialect : Dialect} {source : Source}
    {result : List ObjectDefinition} (hread : (dialect.read files source).answer = .ok result) :
    ∀ d ∈ result, dialect.Places files source d := by
  obtain ⟨_, -, hread⟩ := Traced.exists_of_bind hread
  obtain ⟨text, htext, hread⟩ := Traced.exists_of_bind hread
  have hdeclared : dialect ≠ .legacy → ∀ d ∈ result, ∃ text document drafts,
      source.load files = .ok text ∧ dialect.Declares source.location text document ∧
        (draftsOf source.location document).answer = .ok drafts ∧
        TemplateSet.Places ⟨source.location, drafts⟩
          (InlineAs source.location (inlinesOf document)) d := by
    intro hdialect d hd
    obtain ⟨document, hdocument, hresult⟩ := readText_ok hdialect hread
    obtain ⟨drafts, hdrafts, hresolved⟩ := Traced.exists_of_bind hresult
    refine ⟨text, document, drafts, htext, hdocument, hdrafts, ?_⟩
    exact TemplateSet.places_of_resolveAll (placed_draftsOf hdrafts) hresolved d hd
  cases dialect with
  | legacy =>
    obtain ⟨root, -, hread⟩ := Traced.exists_of_bind hread
    obtain ⟨_, -, hread⟩ := Traced.exists_of_bind hread
    intro d hd
    obtain ⟨component, -, hdefinition⟩ := Components.exists_of_mem_definitions hread d hd
    exact placed_definition _ hdefinition
  | objects => exact hdeclared (by decide)
  | springBeans => exact hdeclared (by decide)
  | yaml => exact hdeclared (by decide)

theorem exists_read_of_mem_readAll {files : Files} {dialect : Dialect} {sources : List Source}
    {result : List ObjectDefinition}
    (hread : (dialect.readAll files sources).answer = .ok result) {d : ObjectDefinition}
    (hd : d ∈ result) :
    ∃ source ∈ sources, ∃ definitions,
      (dialect.read files source).answer = .ok definitions ∧ d ∈ definitions := by
  induction sources generalizing result with
  | nil =>
    cases hread
    cases hd
  | cons source sources ih =>
    rw [readAll] at hread
    obtain ⟨definitions, hdefinitions, hread⟩ := Traced.exists_of_bind hread
    obtain ⟨rest, hrest, happend⟩ := Traced.exists_of_bind hread
    cases happend
    rcases List.mem_append.mp hd with hfirst | hlater
    · exact ⟨source, List.mem_cons_self, definitions, hdefinitions, hfirst⟩
    · obtain ⟨source', hmem, hsource'⟩ := ih hrest hlater
      exact ⟨source', List.mem_cons_of_mem source hmem, hsource'⟩

/-- Every value of every definition that is read, in whatever dialect, is in the place
that its name tells, and so is everything in it; the same goes for the value that a
literal expression stands for under any name. -/
theorem readAll_places (files : Files) (dialect : Dialect) (sources : List Source)
    (result : List ObjectDefinition)
    (hread : (dialect.readAll files sources).answer = .ok result) :
    (∀ d ∈ result, ∃ source ∈ sources, dialect.Places files source d) ∧
      ∀ (e : Expression) (owner name : String),
        (e.toDefinition name).Placed (fun _ _ _ => False) owner name := by
  refine ⟨fun d hd => ?_, fun e owner name => Expression.placed_toDefinition _ owner name e⟩
  obtain ⟨source, hsource, definitions, hdefinitions, hmem⟩ :=
    exists_read_of_mem_readAll hread hd
  exact ⟨source, hsource, places_of_read hdefinitions d hmem⟩

theorem readAll_places_pooled :
    ∃ result, (Dialect.yaml.readAll (fun _ => .error .notFound) [pooled]).answer = .ok result ∧
      (∀ d ∈ result, ∃ source ∈ [pooled],
        Dialect.yaml.Places (fun _ => .error .notFound) source d) ∧
      ∀ (e : Expression) (owner name : String),
        (e.toDefinition name).Placed (fun _ _ _ => False) owner name := by
  have hok : (Dialect.yaml.readAll (fun _ => .error .notFound) [pooled]).answer.isOk := by
    decide +kernel
  obtain ⟨result, hread⟩ := Traced.exists_of_isOk hok
  exact ⟨result, hread, readAll_places _ .yaml [pooled] result hread⟩

end Dialect

end Wiring
