import Wiring.Proofs.Elaboration.Agreement
import Wiring.Proofs.Elaboration.Inline

/-!
What is skipped is as good as absent. Content that has no value contributes a log entry
and nothing else, so it can be taken out of a document at every depth without changing
what the document defines. Only a positional argument leaves its place behind, since its
empty slot counts.
-/

namespace Wiring

namespace Elaboration.Agree

variable {α β : Type}

theorem bind_of_ok {x : Elaboration α} {f g : α → Elaboration β}
    (hfg : ∀ a, x.answer = .ok a → Agree (f a) (g a)) : Agree (x >>= f) (x >>= g) := by
  cases hx : x.answer with
  | ok a =>
    constructor
    · rw [Traced.bind_of_ok hx, Traced.bind_of_ok hx]
      exact (hfg a hx).answer
    · rw [definitions_bind_of_ok hx, definitions_bind_of_ok hx, (hfg a hx).definitions]
  | error e =>
    rw [Traced.bind_of_error hx, Traced.bind_of_error hx]
    exact refl _

/-- A part that emits nothing and gives a known answer can be passed over. -/
theorem skip {x : Elaboration α} {a : α} (hanswer : x.answer = .ok a)
    (hsilent : Elaboration.definitions x = []) {f : α → Elaboration β} {y : Elaboration β}
    (hagree : Agree (f a) y) : Agree (x >>= f) y := by
  constructor
  · rw [Traced.bind_of_ok hanswer]
    exact hagree.answer
  · rw [definitions_bind_of_ok hanswer, hsilent, List.nil_append, hagree.definitions]

end Elaboration.Agree

/-- Whether some content has a value. -/
def Content.isUsable : Content → Bool
  | .unusable _ => false
  | _ => true

theorem Content.eq_unusable {content : Content} (husable : content.isUsable = false) :
    ∃ complaints, content = .unusable complaints := by
  cases content with
  | unusable complaints => exact ⟨complaints, rfl⟩
  | _ => cases husable

mutual

/-- The same content without anything that is skipped. -/
def Content.pruned : Content → Content
  | .scalar value => .scalar value
  | .reference target => .reference target
  | .sequence shape items => .sequence shape (prunedItems items)
  | .mapping entries => .mapping (prunedEntries entries)
  | .inline declaration => .inline declaration.pruned
  | .unusable _ => .nothing
termination_by structural content => content

def prunedItems : List Content → List Content
  | [] => []
  | item :: items =>
    if item.isUsable then item.pruned :: prunedItems items else prunedItems items
termination_by structural items => items

def prunedEntries : List WrittenEntry → List WrittenEntry
  | [] => []
  | .keyed key content :: entries =>
    if content.isUsable then .keyed key content.pruned :: prunedEntries entries
    else prunedEntries entries
  | .keyless _ :: entries => prunedEntries entries
termination_by structural entries => entries

def prunedArguments : List WrittenArgument → List WrittenArgument
  | [] => []
  | .positional content :: arguments => .positional content.pruned :: prunedArguments arguments
  | .named name content :: arguments =>
    if content.isUsable then .named name content.pruned :: prunedArguments arguments
    else prunedArguments arguments
  | .ignored _ :: arguments => prunedArguments arguments
termination_by structural arguments => arguments

def prunedProperties : List WrittenProperty → List WrittenProperty
  | [] => []
  | .named name content :: properties =>
    if content.isUsable then .named name content.pruned :: prunedProperties properties
    else prunedProperties properties
  | .unnamed :: properties => prunedProperties properties
  | .ignored _ :: properties => prunedProperties properties
termination_by structural properties => properties

def Shorthand.pruned : Shorthand → Shorthand
  | .absent => .absent
  | .present type content => .present type content.pruned
termination_by structural shorthand => shorthand

/-- The same declaration without anything that is skipped. A shorthand is skipped if the
declaration is typed. -/
def Declaration.pruned : Declaration → Declaration
  | ⟨explicitId, typeName, scope, lazyInit, isAbstract, parent, shorthand, _, arguments,
      properties⟩ =>
    ⟨explicitId, typeName, scope, lazyInit, isAbstract, parent,
      if Declaration.isTyped typeName parent then .absent else shorthand.pruned, none,
      prunedArguments arguments, prunedProperties properties⟩
termination_by structural declaration => declaration

end

theorem Content.isUsable_pruned (content : Content) :
    content.pruned.isUsable = content.isUsable := by
  cases content <;> rw [Content.pruned] <;> rfl

/-- Contents that are the same when pruned are skipped alike. -/
theorem Content.isUsable_eq {content other : Content} (hpruned : content.pruned = other.pruned) :
    content.isUsable = other.isUsable := by
  rw [← content.isUsable_pruned, hpruned, other.isUsable_pruned]

section Pruning

open Elaboration

variable (source : String)

/-- Content without a value is passed over. -/
theorem agree_unusable {β : Type} (owner name : String) (complaints : List Complaint)
    {f : Option ValueDefinition → Elaboration β} {y : Elaboration β} (hagree : Agree (f none) y) :
    Agree ((Content.unusable complaints).elaborate source owner name >>= f) y := by
  have hanswer : ((Content.unusable complaints).elaborate source owner name).answer =
      .ok none := by
    rw [Content.elaborate]
    rfl
  refine Agree.skip hanswer ?_ hagree
  rw [Content.elaborate, definitions_bind_of_ok (a := ()) rfl, definitions_complain]
  rfl

mutual

theorem Content.agree_pruned (owner name : String) : ∀ content : Content,
    Agree (content.elaborate source owner name) (content.pruned.elaborate source owner name)
  | .scalar _ => by
    rw [Content.pruned]
    exact Agree.refl _
  | .reference _ => by
    rw [Content.pruned]
    exact Agree.refl _
  | .sequence shape items => by
    rw [Content.pruned, Content.elaborate, Content.elaborate]
    exact (agree_prunedItems owner name shape 0 items).bind fun _ => Agree.refl _
  | .mapping entries => by
    rw [Content.pruned, Content.elaborate, Content.elaborate]
    exact (agree_prunedEntries owner name [] entries).bind fun _ => Agree.refl _
  | .inline declaration => by
    have hid : declaration.pruned.explicitId = declaration.explicitId := by
      cases declaration
      rw [Declaration.pruned]
    rw [Content.pruned, Content.elaborate, Content.elaborate, hid]
    exact (declaration.agree_pruned _).bind fun _ => Agree.refl _
  | .unusable complaints => by
    rw [Content.pruned, Content.nothing, Content.elaborate, Content.elaborate]
    exact Agree.skip rfl (definitions_complain _ _) (Agree.refl _)
termination_by structural content => content

theorem agree_prunedItems (owner name : String) (shape : Shape) (index : Nat) :
    ∀ items : List Content, Agree (elaborateItems source owner name shape index items)
      (elaborateItems source owner name shape index (prunedItems items))
  | [] => by
    rw [prunedItems]
    exact Agree.refl _
  | item :: items => by
    cases husable : item.isUsable with
    | true =>
      rw [prunedItems, if_pos husable, elaborateItems, elaborateItems]
      refine (item.agree_pruned owner _).bind fun value => ?_
      cases value with
      | some value =>
        exact (agree_prunedItems owner name shape (index + 1) items).bind fun _ => Agree.refl _
      | none => exact agree_prunedItems owner name shape index items
    | false =>
      rw [prunedItems, husable, if_neg Bool.false_ne_true, elaborateItems]
      obtain ⟨complaints, rfl⟩ := Content.eq_unusable husable
      exact agree_unusable source owner _ complaints
        (agree_prunedItems owner name shape index items)
termination_by structural items => items

theorem agree_prunedEntries (owner name : String) (done : Entries ValueDefinition) :
    ∀ entries : List WrittenEntry,
      Agree (elaborateEntries source owner name done entries)
        (elaborateEntries source owner name done (prunedEntries entries))
  | [] => by
    rw [prunedEntries]
    exact Agree.refl _
  | .keyless complaint :: entries => by
    rw [prunedEntries, elaborateEntries]
    exact Agree.skip rfl (definitions_complain _ _) (agree_prunedEntries owner name done entries)
  | .keyed key content :: entries => by
    cases husable : content.isUsable with
    | true =>
      rw [prunedEntries, if_pos husable, elaborateEntries, elaborateEntries]
      refine (content.agree_pruned owner _).bind fun value => ?_
      cases value with
      | some value => exact agree_prunedEntries owner name (done.put key value) entries
      | none => exact Agree.bind_right _ fun _ => agree_prunedEntries owner name done entries
    | false =>
      rw [prunedEntries, husable, if_neg Bool.false_ne_true, elaborateEntries]
      obtain ⟨complaints, rfl⟩ := Content.eq_unusable husable
      refine agree_unusable source owner _ complaints ?_
      exact Agree.skip rfl (definitions_complain _ _) (agree_prunedEntries owner name done entries)
termination_by structural entries => entries

theorem agree_prunedArguments (owner : String) (done : Arguments) :
    ∀ arguments : List WrittenArgument,
      Agree (elaborateArguments source owner done arguments)
        (elaborateArguments source owner done (prunedArguments arguments))
  | [] => by
    rw [prunedArguments]
    exact Agree.refl _
  | .positional content :: arguments => by
    rw [prunedArguments, elaborateArguments, elaborateArguments]
    refine (content.agree_pruned owner _).bind fun value => ?_
    exact agree_prunedArguments owner _ arguments
  | .named name content :: arguments => by
    cases husable : content.isUsable with
    | true =>
      rw [prunedArguments, if_pos husable, elaborateArguments, elaborateArguments]
      refine (content.agree_pruned owner name).bind fun value => ?_
      cases value with
      | some value => exact agree_prunedArguments owner _ arguments
      | none => exact Agree.bind_right _ fun _ => agree_prunedArguments owner done arguments
    | false =>
      rw [prunedArguments, husable, if_neg Bool.false_ne_true, elaborateArguments]
      obtain ⟨complaints, rfl⟩ := Content.eq_unusable husable
      refine agree_unusable source owner _ complaints ?_
      exact Agree.skip rfl (definitions_log _) (agree_prunedArguments owner done arguments)
  | .ignored label :: arguments => by
    rw [prunedArguments, elaborateArguments]
    exact Agree.skip rfl (definitions_log _) (agree_prunedArguments owner done arguments)
termination_by structural arguments => arguments

theorem agree_prunedProperties (owner : String) : ∀ properties : List WrittenProperty,
    Agree (elaborateProperties source owner properties)
      (elaborateProperties source owner (prunedProperties properties))
  | [] => by
    rw [prunedProperties]
    exact Agree.refl _
  | .named name content :: properties => by
    cases husable : content.isUsable with
    | true =>
      rw [prunedProperties, if_pos husable, elaborateProperties, elaborateProperties]
      refine (content.agree_pruned owner name).bind fun value => ?_
      cases value with
      | some value => exact (agree_prunedProperties owner properties).bind fun _ => Agree.refl _
      | none => exact Agree.bind_right _ fun _ => agree_prunedProperties owner properties
    | false =>
      rw [prunedProperties, husable, if_neg Bool.false_ne_true, elaborateProperties]
      obtain ⟨complaints, rfl⟩ := Content.eq_unusable husable
      refine agree_unusable source owner _ complaints ?_
      exact Agree.skip rfl (definitions_log _) (agree_prunedProperties owner properties)
  | .unnamed :: properties => by
    rw [prunedProperties, elaborateProperties]
    exact Agree.skip rfl (definitions_log _) (agree_prunedProperties owner properties)
  | .ignored label :: properties => by
    rw [prunedProperties, elaborateProperties]
    exact Agree.skip rfl (definitions_log _) (agree_prunedProperties owner properties)
termination_by structural properties => properties

theorem Shorthand.agree_pruned (owner : String) : ∀ shorthand : Shorthand,
    Agree (shorthand.elaborate source owner) (shorthand.pruned.elaborate source owner)
  | .absent => by
    rw [Shorthand.pruned]
    exact Agree.refl _
  | .present type content => by
    rw [Shorthand.pruned, Shorthand.elaborate, Shorthand.elaborate]
    exact (content.agree_pruned owner _).bind fun _ => Agree.refl _
termination_by structural shorthand => shorthand

theorem Declaration.agree_pruned (id : String) : ∀ declaration : Declaration,
    Agree (declaration.elaborate source id) (declaration.pruned.elaborate source id)
  | ⟨_, typeName, scope, lazyInit, isAbstract, parent, shorthand, element, arguments,
      properties⟩ => by
    rw [Declaration.pruned, Declaration.elaborate, Declaration.elaborate]
    refine Agree.bind_of_ok fun draft hdraft => ?_
    obtain ⟨-, -, htyped⟩ :=
      ensures_outline source id typeName scope lazyInit isAbstract parent draft hdraft
    rw [← htyped]
    refine Agree.bind ?_ fun short => ?_
    · split
      · exact Agree.refl _
      · exact shorthand.agree_pruned id
    · cases short with
      | some value => exact Agree.refl _
      | none =>
        refine (Agree.logIf _ _ _).bind fun _ => ?_
        refine (agree_prunedArguments id _ arguments).bind fun args => ?_
        exact (agree_prunedProperties id properties).bind fun _ => Agree.refl _
termination_by structural declaration => declaration

end

/-- The same at the top level, where foreign elements are skipped. -/
def TopLevel.pruned? : TopLevel → Option TopLevel
  | .declared id _ declaration => some (.declared id false declaration.pruned)
  | .foreign _ => none
  | .unidentified => some .unidentified

theorem answer_draft_pruned (id : String) (declaration : Declaration) :
    (declaration.pruned.draft source id).answer = (declaration.draft source id).answer := by
  have hagree := declaration.agree_pruned source id
  have hinner : (declaration.elaborate source id).trace.filterMap Emission.definition? =
      (declaration.pruned.elaborate source id).trace.filterMap Emission.definition? :=
    hagree.definitions
  simp only [Declaration.draft, hagree.answer, hinner]

theorem answer_draftsOf_pruned (document : List TopLevel) :
    (draftsOf source (document.filterMap TopLevel.pruned?)).answer =
      (draftsOf source document).answer := by
  induction document with
  | nil => rfl
  | cons top document ih =>
    cases top with
    | foreign element =>
      rw [List.filterMap_cons_none rfl, answer_draftsOf_foreign, ih]
    | unidentified =>
      rw [List.filterMap_cons_some (f := TopLevel.pruned?) rfl, draftsOf, draftsOf]
    | declared id idless declaration =>
      rw [List.filterMap_cons_some (f := TopLevel.pruned?) rfl, answer_draftsOf_declared,
        answer_draftsOf_declared, answer_draft_pruned, ih]

/-- Documents that are the same when pruned define the same. -/
theorem answer_definitionsOf_pruned (document : List TopLevel) :
    (definitionsOf source (document.filterMap TopLevel.pruned?)).answer =
      (definitionsOf source document).answer := by
  rw [answer_definitionsOf, answer_definitionsOf, answer_draftsOf_pruned]

end Pruning

end Wiring
