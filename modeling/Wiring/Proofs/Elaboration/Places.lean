import Wiring.Proofs.Definition.Places
import Wiring.Proofs.Elaboration.Inline

/-!
Elaboration puts values in places. Whatever is made of a declaration, and every
definition emitted for an inline declaration in it, carries the names of its places. The
index of an item is the number of those kept before it, so an item that is skipped
leaves no gap.
-/

namespace Wiring

/-- A definition is that of an inline declaration among some written ones, under the id
that its place in its owner gives it. -/
def InlineAs (source : String) (written : List Declaration) (owner name : String)
    (d : ObjectDefinition) : Prop :=
  ∃ declaration ∈ written, d.id = Naming.inner owner name declaration.explicitId ∧
    ∃ draft, (declaration.elaborate source d.id).answer = .ok draft ∧ d = draft.declared

open Elaboration

/-- All values that a draft gives are in the places that their names tell. -/
def Draft.Placed (inline : String → String → ObjectDefinition → Prop) (draft : Draft) : Prop :=
  ∀ name v, draft.args.GivesAs name v → v.Placed inline draft.id name

variable (source : String) (written : List Declaration)

/-- Where elaborating the arguments and properties of a declaration puts its values. -/
theorem placed_listed (draft : Draft) (note : Elaboration Unit) (hnote : definitions note = [])
    {args : Elaboration Arguments} {properties : Elaboration (List ValueDefinition)}
    (hargs : args.Emits (ObjectDefinition.Placed (InlineAs source written)) fun args =>
      ∀ name v, args.GivesAs name v →
        Arguments.empty.GivesAs name v ∨ v.Placed (InlineAs source written) draft.id name)
    (hproperties : properties.Emits (ObjectDefinition.Placed (InlineAs source written))
      fun values => ∀ v ∈ values, v.Placed (InlineAs source written) draft.id v.name) :
    Emits (ObjectDefinition.Placed (InlineAs source written)) (do
      note
      let args ← args
      let values ← properties
      return { draft with args := { args with properties := values } }) fun made =>
        made.id = draft.id ∧ made.Placed (InlineAs source written) := by
  refine Emits.bind_silent hnote fun _ => ?_
  refine hargs.bind fun args hargs => ?_
  refine hproperties.bind fun values hvalues => ?_
  refine Emits.pure ⟨rfl, ?_⟩
  have hown : ∀ name v, args.GivesAs name v →
      v.Placed (InlineAs source written) draft.id name := by
    intro name v hgives
    exact (hargs name v hgives).resolve_left Arguments.not_givesAs_empty
  intro name v hgives
  cases hgives with
  | slot hslot => exact hown _ v (.slot hslot)
  | named hmem => exact hown name v (.named hmem)
  | property hmem => exact hvalues v hmem

-- The induction is on the syntax. Entries and arguments are added to those done before,
-- so each of them was there already or is put in its place from here on.
mutual

theorem Content.placed_elaborate (owner name : String) :
    ∀ content : Content, content.inlines ⊆ written →
      (content.elaborate source owner name).Emits
        (ObjectDefinition.Placed (InlineAs source written)) fun value =>
          ∀ v, value = some v → v.Placed (InlineAs source written) owner name
  | .scalar value, _ => by
    rw [Content.elaborate]
    refine Emits.pure ?_
    rintro v ⟨⟩
    exact .scalar
  | .reference target, _ => by
    rw [Content.elaborate]
    refine Emits.pure ?_
    rintro v ⟨⟩
    exact .reference
  | .sequence shape items, hwritten => by
    rw [Content.inlines] at hwritten
    rw [Content.elaborate]
    refine (placed_elaborateItems owner name shape 0 items hwritten).bind
      fun values hvalues => ?_
    refine Emits.pure ?_
    rintro v ⟨⟩
    refine .sequence fun i v hitem => ?_
    simpa using hvalues i v hitem
  | .mapping entries, hwritten => by
    rw [Content.inlines] at hwritten
    rw [Content.elaborate]
    refine (placed_elaborateEntries owner name [] entries hwritten).bind
      fun values hvalues => ?_
    refine Emits.pure ?_
    rintro v ⟨⟩
    refine .mapping fun key v hmem => ?_
    exact (hvalues key v hmem).resolve_left List.not_mem_nil
  | .inline declaration, hwritten => by
    rw [Content.inlines] at hwritten
    obtain ⟨hnested, hself⟩ := List.append_subset.mp hwritten
    have hmem : declaration ∈ written := hself List.mem_cons_self
    rw [Content.elaborate]
    refine Ensures.bind (declaration.placed_elaborate _ hnested).answered
      fun block draft hdraft => ?_
    obtain ⟨hanswer, hblock, hid, hplaced⟩ := hdraft
    refine Ensures.bind_silent (definitions_log _) fun _ => ?_
    intro value hvalue
    cases hvalue
    have hinline : InlineAs source written owner name draft.declared :=
      ⟨declaration, hmem, hid, draft, by rwa [← hid] at hanswer, rfl⟩
    refine ⟨?_, ?_⟩
    · refine List.forall_mem_append.mpr ⟨hblock, ?_⟩
      exact List.forall_mem_singleton.mpr hplaced
    · rintro v ⟨⟩
      exact .inner hinline hplaced
  | .unusable complaints, _ => by
    rw [Content.elaborate]
    refine Emits.bind_silent (definitions_complain _ _) fun _ => ?_
    exact Emits.pure (by rintro v ⟨⟩)
termination_by structural content => content

theorem placed_elaborateItems (owner name : String) (shape : Shape) (index : Nat) :
    ∀ items : List Content, inlinesOfItems items ⊆ written →
      (elaborateItems source owner name shape index items).Emits
        (ObjectDefinition.Placed (InlineAs source written)) fun values =>
          ∀ (i : Nat) v, values[i]? = some v →
            v.Placed (InlineAs source written) owner (Naming.element name shape.label (index + i))
  | [], _ => by
    rw [elaborateItems]
    exact Emits.pure (by simp)
  | item :: items, hwritten => by
    rw [inlinesOfItems] at hwritten
    obtain ⟨hitem, hitems⟩ := List.append_subset.mp hwritten
    rw [elaborateItems]
    refine (item.placed_elaborate owner _ hitem).bind fun value hvalue => ?_
    cases value with
    | none => exact placed_elaborateItems owner name shape index items hitems
    | some value =>
      refine (placed_elaborateItems owner name shape (index + 1) items hitems).bind
        fun values hvalues => ?_
      refine Emits.pure ?_
      intro i v hv
      cases i with
      | zero =>
        obtain rfl : value = v := by simpa using hv
        exact hvalue value rfl
      | succ i =>
        have hplaced := hvalues i v (by simpa using hv)
        rwa [show index + 1 + i = index + (i + 1) by omega] at hplaced
termination_by structural items => items

theorem placed_elaborateEntries (owner name : String) (done : Entries ValueDefinition) :
    ∀ entries : List WrittenEntry, inlinesOfEntries entries ⊆ written →
      (elaborateEntries source owner name done entries).Emits
        (ObjectDefinition.Placed (InlineAs source written)) fun values =>
          ∀ key v, (key, v) ∈ values →
            (key, v) ∈ done ∨ v.Placed (InlineAs source written) owner (Naming.entry name key)
  | [], _ => by
    rw [elaborateEntries]
    exact Emits.pure fun key v hmem => Or.inl hmem
  | .keyless complaint :: entries, hwritten => by
    rw [inlinesOfEntries] at hwritten
    rw [elaborateEntries]
    refine Emits.bind_silent (definitions_complain _ _) fun _ => ?_
    exact placed_elaborateEntries owner name done entries hwritten
  | .keyed key content :: entries, hwritten => by
    rw [inlinesOfEntries] at hwritten
    obtain ⟨hcontent, hentries⟩ := List.append_subset.mp hwritten
    rw [elaborateEntries]
    refine (content.placed_elaborate owner _ hcontent).bind fun value hvalue => ?_
    cases value with
    | none =>
      refine Emits.bind_silent (definitions_complain _ _) fun _ => ?_
      exact placed_elaborateEntries owner name done entries hentries
    | some value =>
      refine (placed_elaborateEntries owner name _ entries hentries).imp fun values hvalues => ?_
      intro k v hmem
      rcases hvalues k v hmem with hput | hplaced
      · rcases Entries.eq_of_mem_put hput with hdone | hnew
        · exact Or.inl hdone
        · obtain ⟨rfl, rfl⟩ := Prod.mk.inj hnew
          exact Or.inr (hvalue v rfl)
      · exact Or.inr hplaced
termination_by structural entries => entries

theorem placed_elaborateArguments (owner : String) (done : Arguments) :
    ∀ arguments : List WrittenArgument, inlinesOfArguments arguments ⊆ written →
      (elaborateArguments source owner done arguments).Emits
        (ObjectDefinition.Placed (InlineAs source written)) fun args =>
          ∀ name v, args.GivesAs name v →
            done.GivesAs name v ∨ v.Placed (InlineAs source written) owner name
  | [], _ => by
    rw [elaborateArguments]
    exact Emits.pure fun name v hgives => Or.inl hgives
  | .positional content :: arguments, hwritten => by
    rw [inlinesOfArguments] at hwritten
    obtain ⟨hcontent, harguments⟩ := List.append_subset.mp hwritten
    rw [elaborateArguments]
    refine (content.placed_elaborate owner _ hcontent).bind fun value hvalue => ?_
    refine (placed_elaborateArguments owner _ arguments harguments).imp fun args hargs => ?_
    intro name v hgives
    rcases hargs name v hgives with hsnoc | hplaced
    · rcases Arguments.givesAs_snoc hsnoc with hdone | ⟨rfl, hnew⟩
      · exact Or.inl hdone
      · exact Or.inr (hvalue v hnew)
    · exact Or.inr hplaced
  | .named key content :: arguments, hwritten => by
    rw [inlinesOfArguments] at hwritten
    obtain ⟨hcontent, harguments⟩ := List.append_subset.mp hwritten
    rw [elaborateArguments]
    refine (content.placed_elaborate owner key hcontent).bind fun value hvalue => ?_
    cases value with
    | none =>
      refine Emits.bind_silent (definitions_log _) fun _ => ?_
      exact placed_elaborateArguments owner done arguments harguments
    | some value =>
      refine (placed_elaborateArguments owner _ arguments harguments).imp fun args hargs => ?_
      intro name v hgives
      rcases hargs name v hgives with hput | hplaced
      · rcases Arguments.givesAs_put hput with hdone | ⟨rfl, rfl⟩
        · exact Or.inl hdone
        · exact Or.inr (hvalue v rfl)
      · exact Or.inr hplaced
  | .ignored label :: arguments, hwritten => by
    rw [inlinesOfArguments] at hwritten
    rw [elaborateArguments]
    refine Emits.bind_silent (definitions_log _) fun _ => ?_
    exact placed_elaborateArguments owner done arguments hwritten
termination_by structural arguments => arguments

theorem placed_elaborateProperties (owner : String) :
    ∀ properties : List WrittenProperty, inlinesOfProperties properties ⊆ written →
      (elaborateProperties source owner properties).Emits
        (ObjectDefinition.Placed (InlineAs source written)) fun values =>
          ∀ v ∈ values, v.Placed (InlineAs source written) owner v.name
  | [], _ => by
    rw [elaborateProperties]
    exact Emits.pure (by simp)
  | .named name content :: properties, hwritten => by
    rw [inlinesOfProperties] at hwritten
    obtain ⟨hcontent, hproperties⟩ := List.append_subset.mp hwritten
    rw [elaborateProperties]
    refine (content.placed_elaborate owner name hcontent).bind fun value hvalue => ?_
    cases value with
    | none =>
      refine Emits.bind_silent (definitions_log _) fun _ => ?_
      exact placed_elaborateProperties owner properties hproperties
    | some value =>
      refine (placed_elaborateProperties owner properties hproperties).bind
        fun values hvalues => ?_
      refine Emits.pure (List.forall_mem_cons.mpr ⟨?_, hvalues⟩)
      have hplaced := hvalue value rfl
      rwa [hplaced.name_eq]
  | .unnamed :: properties, hwritten => by
    rw [inlinesOfProperties] at hwritten
    rw [elaborateProperties]
    refine Emits.bind_silent (definitions_log _) fun _ => ?_
    exact placed_elaborateProperties owner properties hwritten
  | .ignored label :: properties, hwritten => by
    rw [inlinesOfProperties] at hwritten
    rw [elaborateProperties]
    refine Emits.bind_silent (definitions_log _) fun _ => ?_
    exact placed_elaborateProperties owner properties hwritten
termination_by structural properties => properties

theorem Shorthand.placed_elaborate (owner : String) :
    ∀ shorthand : Shorthand, (∀ inlines, shorthand.inlines? = some inlines → inlines ⊆ written) →
      (shorthand.elaborate source owner).Emits
        (ObjectDefinition.Placed (InlineAs source written)) fun short =>
          (shorthand.inlines? = none ∧ short = none) ∨ ∃ type value, short = some (type, value) ∧
            ∀ v, value = some v → v.Placed (InlineAs source written) owner (Naming.positional 0)
  | .absent, _ => by
    rw [Shorthand.elaborate, Shorthand.inlines?]
    exact Emits.pure (Or.inl ⟨rfl, rfl⟩)
  | .present type content, hwritten => by
    rw [Shorthand.inlines?] at hwritten ⊢
    rw [Shorthand.elaborate]
    refine (content.placed_elaborate owner _ (hwritten _ rfl)).bind fun value hvalue => ?_
    exact Emits.pure (Or.inr ⟨type, value, rfl, hvalue⟩)
termination_by structural shorthand => shorthand

theorem Declaration.placed_elaborate (id : String) :
    ∀ declaration : Declaration, declaration.inlines ⊆ written →
      (declaration.elaborate source id).Emits
        (ObjectDefinition.Placed (InlineAs source written)) fun draft =>
          draft.id = id ∧ draft.Placed (InlineAs source written)
  | ⟨_, typeName, scope, lazyInit, isAbstract, parent, shorthand, element, arguments,
      properties⟩, hwritten => by
    rw [Declaration.inlines] at hwritten
    rw [Declaration.elaborate]
    refine Ensures.bind (ensures_outline source id typeName scope lazyInit isAbstract parent)
      fun block draft hdraft => ?_
    obtain ⟨rfl, rfl, htyped⟩ := hdraft
    rw [← htyped] at hwritten
    have hlisted (hsubset : inlinesOfArguments arguments ++ inlinesOfProperties properties ⊆
        written) :=
      placed_listed source written draft
        (logIf (!draft.isTyped) (.untyped source draft.id element)) (definitions_logIf _ _)
        (placed_elaborateArguments draft.id Arguments.empty arguments
          (List.append_subset.mp hsubset).1)
        (placed_elaborateProperties draft.id properties (List.append_subset.mp hsubset).2)
    cases hcase : draft.isTyped with
    | true =>
      rw [hcase] at hwritten hlisted
      exact hlisted hwritten
    | false =>
      rw [hcase] at hwritten hlisted
      have hshort := shorthand.placed_elaborate draft.id fun inlines hinlines => by
        simpa [hinlines] using hwritten
      refine hshort.bind fun short hshort => ?_
      rcases hshort with ⟨hnone, rfl⟩ | ⟨type, value, rfl, hvalue⟩
      · rw [hnone] at hwritten
        exact hlisted hwritten
      · refine Emits.pure ⟨rfl, ?_⟩
        intro name v hgives
        have hsnoc : Arguments.empty.GivesAs name v ∨
            name = Naming.positional 0 ∧ value = some v := Arguments.givesAs_snoc hgives
        rcases hsnoc with hempty | ⟨rfl, hnew⟩
        · exact absurd hempty Arguments.not_givesAs_empty
        · exact hvalue v hnew
termination_by structural declaration => declaration

end

end Wiring
