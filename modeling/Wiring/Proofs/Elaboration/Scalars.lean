import Wiring.Proofs.Definition.Scalars
import Wiring.Proofs.Template.EmptyChild

/-!
Scalars through elaboration and templates. Elaboration makes no scalars of its own: what is
good of all scalars written in a document is good of all scalars in its definitions, in those
that are written inline and in what a template passes on. The dictionaries of the definitions
have distinct keys, whatever is written.
-/

namespace Wiring

/-! All scalars written somewhere are good. -/

mutual

def Content.EachScalar (good : Scalar → Prop) : Content → Prop
  | .scalar value => good value
  | .reference _ => True
  | .sequence _ items => EachScalarOfItems good items
  | .mapping entries => EachScalarOfEntries good entries
  | .inline declaration => declaration.EachScalar good
  | .unusable _ => True
termination_by structural content => content

def EachScalarOfItems (good : Scalar → Prop) : List Content → Prop
  | [] => True
  | item :: items => item.EachScalar good ∧ EachScalarOfItems good items
termination_by structural items => items

def EachScalarOfEntries (good : Scalar → Prop) : List WrittenEntry → Prop
  | [] => True
  | .keyed _ content :: entries => content.EachScalar good ∧ EachScalarOfEntries good entries
  | .keyless _ :: entries => EachScalarOfEntries good entries
termination_by structural entries => entries

def EachScalarOfArguments (good : Scalar → Prop) : List WrittenArgument → Prop
  | [] => True
  | .positional content :: arguments =>
    content.EachScalar good ∧ EachScalarOfArguments good arguments
  | .named _ content :: arguments =>
    content.EachScalar good ∧ EachScalarOfArguments good arguments
  | .ignored _ :: arguments => EachScalarOfArguments good arguments
termination_by structural arguments => arguments

def EachScalarOfProperties (good : Scalar → Prop) : List WrittenProperty → Prop
  | [] => True
  | .named _ content :: properties =>
    content.EachScalar good ∧ EachScalarOfProperties good properties
  | .unnamed :: properties => EachScalarOfProperties good properties
  | .ignored _ :: properties => EachScalarOfProperties good properties
termination_by structural properties => properties

def Shorthand.EachScalar (good : Scalar → Prop) : Shorthand → Prop
  | .absent => True
  | .present _ content => content.EachScalar good
termination_by structural shorthand => shorthand

def Declaration.EachScalar (good : Scalar → Prop) : Declaration → Prop
  | ⟨_, _, _, _, _, _, shorthand, _, arguments, properties⟩ =>
    shorthand.EachScalar good ∧ EachScalarOfArguments good arguments ∧
      EachScalarOfProperties good properties
termination_by structural declaration => declaration

end

def TopLevel.EachScalar (good : Scalar → Prop) : TopLevel → Prop
  | .declared _ _ declaration => declaration.EachScalar good
  | .foreign _ => True
  | .unidentified => True

/-- All values among some arguments are sound. -/
def Arguments.Sound (good : Scalar → Prop) (args : Arguments) : Prop :=
  ∀ v, args.Gives v → v.Sound good

namespace Arguments.Sound

variable {good : Scalar → Prop} {args : Arguments}

theorem empty : Arguments.empty.Sound good := by
  intro v hgives
  obtain ⟨name, hname⟩ := (gives_iff _ v).mp hgives
  exact absurd hname not_givesAs_empty

theorem snoc (hargs : args.Sound good) {value : Option ValueDefinition}
    (hvalue : ∀ v, value = some v → v.Sound good) :
    Sound good { args with positional := args.positional ++ [value] } := by
  intro v hgives
  exact (gives_snoc hgives).elim (hargs v) (hvalue v)

theorem put (hargs : args.Sound good) (key : String) {value : ValueDefinition}
    (hvalue : value.Sound good) :
    Sound good { args with named := args.named.put key value } := by
  intro v hgives
  rcases gives_put hgives with hbefore | rfl
  · exact hargs v hbefore
  · exact hvalue

theorem withProperties (hargs : args.Sound good) {properties : List ValueDefinition}
    (hproperties : ∀ v ∈ properties, v.Sound good) :
    Sound good { args with properties := properties } := by
  rintro v (hslot | hnamed | hproperty)
  · exact hargs v (Or.inl hslot)
  · exact hargs v (Or.inr (Or.inl hnamed))
  · exact hproperties v hproperty

end Arguments.Sound

/-- Values under distinct keys that are all sound. -/
structure SoundEntries (good : Scalar → Prop) (entries : Entries ValueDefinition) : Prop where
  keys : entries.KeysDistinct
  values : ∀ entry ∈ entries, entry.2.Sound good

theorem SoundEntries.put {good : Scalar → Prop} {entries : Entries ValueDefinition}
    (hentries : SoundEntries good entries) (key : String) {value : ValueDefinition}
    (hvalue : value.Sound good) : SoundEntries good (entries.put key value) where
  keys := Entries.keysDistinct_put key value hentries.keys
  values := by
    intro entry hentry
    rcases Entries.mem_put hentry with hbefore | hnew
    · exact hentries.values entry hbefore
    · rw [hnew]
      exact hvalue

open Elaboration

section Elaborate

variable {good : Scalar → Prop} (source : String)

/-- What elaborating the arguments and properties of a declaration makes of its draft. -/
theorem sound_listed (draft : Draft) (note : Elaboration Unit) (hnote : definitions note = [])
    {args : Elaboration Arguments} {properties : Elaboration (List ValueDefinition)}
    (hargs : args.Emits (ObjectDefinition.Sound good) (Arguments.Sound good))
    (hproperties : properties.Emits (ObjectDefinition.Sound good) fun values =>
      ∀ v ∈ values, v.Sound good) :
    Emits (ObjectDefinition.Sound good) (do
      note
      let args ← args
      let values ← properties
      return { draft with args := { args with properties := values } }) fun made =>
        made.args.Sound good := by
  refine Emits.bind_silent hnote fun _ => ?_
  refine hargs.bind fun args hargs => ?_
  refine hproperties.bind fun values hvalues => ?_
  exact Emits.pure (hargs.withProperties hvalues)

-- The induction is on the syntax. Items, entries and arguments keep the values before them
-- sound, and an inline declaration is defined when the keys of its draft are known to differ.
mutual

theorem Content.sound_elaborate (owner name : String) :
    ∀ content : Content, content.EachScalar good →
      (content.elaborate source owner name).Emits (ObjectDefinition.Sound good) fun value =>
        ∀ v, value = some v → v.Sound good
  | .scalar value, hgood => by
    rw [Content.EachScalar] at hgood
    rw [Content.elaborate]
    refine Emits.pure ?_
    rintro v ⟨⟩
    exact .scalar hgood
  | .reference target, _ => by
    rw [Content.elaborate]
    refine Emits.pure ?_
    rintro v ⟨⟩
    exact .reference
  | .sequence shape items, hgood => by
    rw [Content.EachScalar] at hgood
    rw [Content.elaborate]
    refine (sound_elaborateItems owner name shape 0 items hgood).bind fun values hvalues => ?_
    refine Emits.pure ?_
    rintro v ⟨⟩
    exact .sequence hvalues
  | .mapping entries, hgood => by
    rw [Content.EachScalar] at hgood
    rw [Content.elaborate]
    refine (sound_elaborateEntries owner name [] entries hgood ⟨List.nodup_nil, by simp⟩).bind
      fun values hvalues => ?_
    refine Emits.pure ?_
    rintro v ⟨⟩
    exact .mapping hvalues.keys hvalues.values
  | .inline declaration, hgood => by
    rw [Content.EachScalar] at hgood
    rw [Content.elaborate]
    refine Ensures.bind (declaration.sound_elaborate _ hgood).answered
      fun block draft hdraft => ?_
    obtain ⟨hanswer, hblock, hgives⟩ := hdraft
    have hdeclared : draft.declared.Sound good :=
      ⟨ensures_keysDistinct source _ declaration draft hanswer, hgives⟩
    refine Ensures.bind_silent (definitions_log _) fun _ => ?_
    intro value hvalue
    cases hvalue
    refine ⟨?_, ?_⟩
    · refine List.forall_mem_append.mpr ⟨hblock, ?_⟩
      exact List.forall_mem_singleton.mpr hdeclared
    · rintro v ⟨⟩
      exact .inner hdeclared.named hdeclared.gives
  | .unusable complaints, _ => by
    rw [Content.elaborate]
    refine Emits.bind_silent (definitions_complain _ _) fun _ => ?_
    exact Emits.pure (by rintro v ⟨⟩)
termination_by structural content => content

theorem sound_elaborateItems (owner name : String) (shape : Shape) (index : Nat) :
    ∀ items : List Content, EachScalarOfItems good items →
      (elaborateItems source owner name shape index items).Emits (ObjectDefinition.Sound good)
        fun values => ∀ v ∈ values, v.Sound good
  | [], _ => by
    rw [elaborateItems]
    exact Emits.pure (by simp)
  | item :: items, hgood => by
    rw [EachScalarOfItems] at hgood
    rw [elaborateItems]
    refine (item.sound_elaborate owner _ hgood.1).bind fun value hvalue => ?_
    cases value with
    | none => exact sound_elaborateItems owner name shape index items hgood.2
    | some value =>
      refine (sound_elaborateItems owner name shape (index + 1) items hgood.2).bind
        fun values hvalues => ?_
      exact Emits.pure (List.forall_mem_cons.mpr ⟨hvalue value rfl, hvalues⟩)
termination_by structural items => items

theorem sound_elaborateEntries (owner name : String) (done : Entries ValueDefinition) :
    ∀ entries : List WrittenEntry, EachScalarOfEntries good entries → SoundEntries good done →
      (elaborateEntries source owner name done entries).Emits (ObjectDefinition.Sound good)
        (SoundEntries good)
  | [], _, hdone => by
    rw [elaborateEntries]
    exact Emits.pure hdone
  | .keyless complaint :: entries, hgood, hdone => by
    rw [EachScalarOfEntries] at hgood
    rw [elaborateEntries]
    refine Emits.bind_silent (definitions_complain _ _) fun _ => ?_
    exact sound_elaborateEntries owner name done entries hgood hdone
  | .keyed key content :: entries, hgood, hdone => by
    rw [EachScalarOfEntries] at hgood
    rw [elaborateEntries]
    refine (content.sound_elaborate owner _ hgood.1).bind fun value hvalue => ?_
    cases value with
    | none =>
      refine Emits.bind_silent (definitions_complain _ _) fun _ => ?_
      exact sound_elaborateEntries owner name done entries hgood.2 hdone
    | some value =>
      exact sound_elaborateEntries owner name _ entries hgood.2
        (hdone.put key (hvalue value rfl))
termination_by structural entries => entries

theorem sound_elaborateArguments (owner : String) (done : Arguments) :
    ∀ arguments : List WrittenArgument,
      EachScalarOfArguments good arguments → done.Sound good →
      (elaborateArguments source owner done arguments).Emits (ObjectDefinition.Sound good)
        (Arguments.Sound good)
  | [], _, hdone => by
    rw [elaborateArguments]
    exact Emits.pure hdone
  | .positional content :: arguments, hgood, hdone => by
    rw [EachScalarOfArguments] at hgood
    rw [elaborateArguments]
    refine (content.sound_elaborate owner _ hgood.1).bind fun value hvalue => ?_
    exact sound_elaborateArguments owner _ arguments hgood.2 (hdone.snoc hvalue)
  | .named name content :: arguments, hgood, hdone => by
    rw [EachScalarOfArguments] at hgood
    rw [elaborateArguments]
    refine (content.sound_elaborate owner name hgood.1).bind fun value hvalue => ?_
    cases value with
    | none =>
      refine Emits.bind_silent (definitions_log _) fun _ => ?_
      exact sound_elaborateArguments owner done arguments hgood.2 hdone
    | some value =>
      exact sound_elaborateArguments owner _ arguments hgood.2 (hdone.put name (hvalue value rfl))
  | .ignored label :: arguments, hgood, hdone => by
    rw [EachScalarOfArguments] at hgood
    rw [elaborateArguments]
    refine Emits.bind_silent (definitions_log _) fun _ => ?_
    exact sound_elaborateArguments owner done arguments hgood hdone
termination_by structural arguments => arguments

theorem sound_elaborateProperties (owner : String) :
    ∀ properties : List WrittenProperty, EachScalarOfProperties good properties →
      (elaborateProperties source owner properties).Emits (ObjectDefinition.Sound good)
        fun values => ∀ v ∈ values, v.Sound good
  | [], _ => by
    rw [elaborateProperties]
    exact Emits.pure (by simp)
  | .named name content :: properties, hgood => by
    rw [EachScalarOfProperties] at hgood
    rw [elaborateProperties]
    refine (content.sound_elaborate owner name hgood.1).bind fun value hvalue => ?_
    cases value with
    | none =>
      refine Emits.bind_silent (definitions_log _) fun _ => ?_
      exact sound_elaborateProperties owner properties hgood.2
    | some value =>
      refine (sound_elaborateProperties owner properties hgood.2).bind fun values hvalues => ?_
      exact Emits.pure (List.forall_mem_cons.mpr ⟨hvalue value rfl, hvalues⟩)
  | .unnamed :: properties, hgood => by
    rw [EachScalarOfProperties] at hgood
    rw [elaborateProperties]
    refine Emits.bind_silent (definitions_log _) fun _ => ?_
    exact sound_elaborateProperties owner properties hgood
  | .ignored label :: properties, hgood => by
    rw [EachScalarOfProperties] at hgood
    rw [elaborateProperties]
    refine Emits.bind_silent (definitions_log _) fun _ => ?_
    exact sound_elaborateProperties owner properties hgood
termination_by structural properties => properties

theorem Shorthand.sound_elaborate (owner : String) :
    ∀ shorthand : Shorthand, shorthand.EachScalar good →
      (shorthand.elaborate source owner).Emits (ObjectDefinition.Sound good) fun short =>
        ∀ type value v, short = some (type, value) → value = some v → v.Sound good
  | .absent, _ => by
    rw [Shorthand.elaborate]
    exact Emits.pure (by rintro type value v ⟨⟩)
  | .present type content, hgood => by
    rw [Shorthand.EachScalar] at hgood
    rw [Shorthand.elaborate]
    refine (content.sound_elaborate owner _ hgood).bind fun value hvalue => ?_
    refine Emits.pure ?_
    rintro type' value' v ⟨⟩ hv
    exact hvalue v hv
termination_by structural shorthand => shorthand

theorem Declaration.sound_elaborate (id : String) :
    ∀ declaration : Declaration, declaration.EachScalar good →
      (declaration.elaborate source id).Emits (ObjectDefinition.Sound good) fun draft =>
        draft.args.Sound good
  | ⟨_, typeName, scope, lazyInit, isAbstract, parent, shorthand, element, arguments,
      properties⟩, hgood => by
    rw [Declaration.EachScalar] at hgood
    obtain ⟨hshorthand, harguments, hproperties⟩ := hgood
    rw [Declaration.elaborate]
    refine Ensures.bind (ensures_outline source id typeName scope lazyInit isAbstract parent)
      fun block draft hdraft => ?_
    obtain ⟨rfl, -, -⟩ := hdraft
    have hlisted := sound_listed draft
      (logIf (!draft.isTyped) (.untyped source id element)) (definitions_logIf _ _)
      (sound_elaborateArguments id Arguments.empty arguments harguments .empty)
      (sound_elaborateProperties id properties hproperties)
    cases hcase : draft.isTyped with
    | true =>
      rw [hcase] at hlisted
      exact hlisted
    | false =>
      rw [hcase] at hlisted
      refine (shorthand.sound_elaborate id hshorthand).bind fun short hshort => ?_
      cases short with
      | none => exact hlisted
      | some short =>
        obtain ⟨type, value⟩ := short
        exact Emits.pure (Arguments.Sound.empty.snoc fun v hv => hshort type value v rfl hv)
termination_by structural declaration => declaration

end

end Elaborate

/-! Templates. -/

theorem Entries.keysDistinct_putNew {α : Type} (key : String) (value : α) {entries : Entries α}
    (hentries : entries.KeysDistinct) : (entries.putNew key value).KeysDistinct := by
  unfold putNew
  split
  · exact hentries
  · rename_i hkey
    have hnew : key ∉ keys entries := mt (hasKey_iff_mem_keys key entries).mpr hkey
    rw [← put_of_not_mem value hnew]
    exact keysDistinct_put key value hentries

namespace Arguments

theorem keysDistinct_addNamed {own : Entries ValueDefinition} (hown : own.KeysDistinct)
    (inherited : Entries ValueDefinition) : Entries.KeysDistinct (addNamed own inherited) := by
  induction inherited generalizing own with
  | nil => exact hown
  | cons entry inherited ih => exact ih (Entries.keysDistinct_putNew entry.1 entry.2 hown)

theorem keysDistinct_mergeAll {own : Arguments} (hown : own.named.KeysDistinct)
    (parents : List Arguments) : (own.mergeAll parents).named.KeysDistinct := by
  cases parents with
  | nil => exact hown
  | cons parent parents =>
    rw [mergeAll_cons]
    exact keysDistinct_addNamed hown (parent.mergeAll parents).named

end Arguments

/-- A draft is sound, and so is every definition written inline in it. -/
structure Draft.Sound (good : Scalar → Prop) (draft : Draft) : Prop where
  named : draft.args.named.KeysDistinct
  gives : draft.args.Sound good
  inner : ∀ d ∈ draft.inner, d.Sound good

section Definitions

variable {good : Scalar → Prop}

theorem sound_draft {source id : String} {declaration : Declaration}
    (hgood : declaration.EachScalar good) {draft : Draft}
    (hdraft : (declaration.draft source id).answer = .ok draft) : draft.Sound good := by
  obtain ⟨bare, helaborate, rfl⟩ := exists_of_draft hdraft
  obtain ⟨hinner, hgives⟩ := declaration.sound_elaborate source id hgood bare helaborate
  exact ⟨ensures_keysDistinct source id declaration bare helaborate, hgives, hinner⟩

theorem sound_draftsOf {source : String} {document : List TopLevel}
    (hgood : ∀ top ∈ document, top.EachScalar good) {drafts : List Draft}
    (hdrafts : (draftsOf source document).answer = .ok drafts) :
    ∀ draft ∈ drafts, draft.Sound good := by
  intro draft hmem
  obtain ⟨⟨id, declaration⟩, hwritten, hdraft⟩ :=
    exists_of_mem_forall₂ (forall₂_draftsOf hdrafts) hmem
  obtain ⟨top, htop, hdeclared⟩ := List.mem_filterMap.mp hwritten
  refine sound_draft ?_ hdraft.elaborated
  cases top with
  | declared =>
    cases hdeclared
    exact hgood _ htop
  | foreign | unidentified => cases hdeclared

/-- What a declaration inherits is sound if the templates are. -/
theorem TemplateSet.sound_of_resolve (set : TemplateSet)
    (hdrafts : ∀ draft ∈ set.drafts, draft.Sound good) {leaf : Draft}
    (hleaf : leaf ∈ set.drafts) {own : ObjectDefinition}
    (hresolve : (set.resolve leaf).answer = .ok own) :
    own.Sound good := by
  obtain ⟨templates, hwalk, rfl⟩ := resolve_ok_inherit hresolve
  refine ⟨Arguments.keysDistinct_mergeAll (hdrafts leaf hleaf).named _, fun v hgives => ?_⟩
  obtain ⟨args, hargs, hv⟩ := Arguments.gives_of_mergeAll hgives
  rw [← List.map_cons] at hargs
  obtain ⟨draft, hdraft, rfl⟩ := List.mem_map.mp hargs
  rcases List.mem_cons.mp hdraft with rfl | htemplate
  · exact (hdrafts draft hleaf).gives v hv
  · exact (hdrafts draft (hwalk.climbs.mem_drafts draft htemplate)).gives v hv

theorem sound_definitionsOf {source : String} {document : List TopLevel}
    (hgood : ∀ top ∈ document, top.EachScalar good) {result : List ObjectDefinition}
    (hresult : (definitionsOf source document).answer = .ok result) :
    ∀ d ∈ result, d.Sound good := by
  obtain ⟨drafts, hdrafts, hresolved⟩ := Traced.exists_of_bind hresult
  have hsound := sound_draftsOf hgood hdrafts
  intro d hd
  obtain ⟨leaf, hleaf, hinner | hown⟩ := (TemplateSet.mem_resolveAll hresolved d).mp hd
  · exact (hsound leaf hleaf).inner d hinner
  · exact TemplateSet.sound_of_resolve ⟨source, drafts⟩ hsound hleaf hown

end Definitions

end Wiring
