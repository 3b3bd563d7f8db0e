import Wiring.Declaration.Elaboration
import Wiring.Proofs.Steps

/-!
Elaborations seen through their results: the answer and the definitions emitted. Logging
touches neither, and a sequence emits what its parts emit, in order.
-/

namespace Wiring

namespace Elaboration

variable {α β : Type}

/-- The definitions emitted on the way, in order. -/
def definitions (x : Elaboration α) : List ObjectDefinition :=
  x.trace.filterMap Emission.definition?

@[simp] theorem definitions_log (e : Event) : definitions (log e) = [] := rfl

@[simp] theorem definitions_complain (complaints : List Complaint) (name : String) :
    definitions (complain complaints name) = [] := by
  simp [definitions, complain, Traced.recordAll, Emission.definition?, List.filterMap_map,
    Function.comp_def]

@[simp] theorem definitions_logIf (condition : Bool) (e : Event) :
    definitions (logIf condition e) = [] := by
  cases condition <;> rfl

@[simp] theorem answer_logIf (condition : Bool) (e : Event) :
    (logIf condition e).answer = .ok () := by
  cases condition <;> rfl

theorem definitions_bind_of_ok {x : Elaboration α} {a : α} (hx : x.answer = .ok a)
    (f : α → Elaboration β) : definitions (x >>= f) = definitions x ++ definitions (f a) := by
  rw [Traced.bind_of_ok hx]
  simp [definitions]

theorem definitions_bind_of_error {x : Elaboration α} {e : ReadError}
    (hx : x.answer = .error e) (f : α → Elaboration β) :
    definitions (x >>= f) = definitions x := by
  rw [Traced.bind_of_error hx]
  rfl

/-- If an elaboration succeeds, a condition holds of what it emits and answers. -/
def Ensures (x : Elaboration α) (post : List ObjectDefinition → α → Prop) : Prop :=
  ∀ a, x.answer = .ok a → post (definitions x) a

namespace Ensures

variable {post : List ObjectDefinition → β → Prop}

theorem pure {a : β} (ha : post [] a) : Ensures (Pure.pure a) post := by
  intro b hb
  cases hb
  exact ha

theorem imp {x : Elaboration β} {weaker : List ObjectDefinition → β → Prop}
    (hx : Ensures x post) (himp : ∀ block b, post block b → weaker block b) :
    Ensures x weaker :=
  fun b hb => himp _ b (hx b hb)

theorem answered {x : Elaboration β} (hx : Ensures x post) :
    Ensures x fun block b => x.answer = .ok b ∧ post block b :=
  fun b hb => ⟨hb, hx b hb⟩

/-- What a sequence emits is what its first part emits and then what the rest emits. -/
theorem bind {x : Elaboration α} {f : α → Elaboration β}
    {mid : List ObjectDefinition → α → Prop} (hx : Ensures x mid)
    (hf : ∀ block a, mid block a → Ensures (f a) fun more b => post (block ++ more) b) :
    Ensures (x >>= f) post := by
  intro b hb
  cases ha : x.answer with
  | error e =>
    rw [Traced.bind_of_error ha] at hb
    cases hb
  | ok a =>
    rw [Traced.bind_of_ok ha] at hb
    rw [definitions_bind_of_ok ha]
    exact hf (Elaboration.definitions x) a (hx a ha) b hb

/-- A part that emits nothing can be passed over. -/
theorem bind_silent {x : Elaboration α} {f : α → Elaboration β}
    (hx : Elaboration.definitions x = []) (hf : ∀ a, Ensures (f a) post) :
    Ensures (x >>= f) post := by
  have hsilent : Ensures x fun block _ => block = [] := fun _ _ => hx
  refine hsilent.bind fun block a hblock => ?_
  subst hblock
  exact hf a

end Ensures

/-- If an elaboration succeeds, all definitions that it emits are good, and a condition
holds of its answer. -/
def Emits (good : ObjectDefinition → Prop) (x : Elaboration α) (post : α → Prop) : Prop :=
  Ensures x fun block a => (∀ d ∈ block, good d) ∧ post a

namespace Emits

variable {good : ObjectDefinition → Prop} {post : β → Prop}

theorem pure {a : β} (ha : post a) : Emits good (Pure.pure a) post :=
  Ensures.pure ⟨by simp, ha⟩

theorem bind {x : Elaboration α} {f : α → Elaboration β} {mid : α → Prop}
    (hx : Emits good x mid) (hf : ∀ a, mid a → Emits good (f a) post) :
    Emits good (x >>= f) post := by
  refine Ensures.bind hx fun block a ha => ?_
  refine (hf a ha.2).imp fun more b hb => ⟨?_, hb.2⟩
  exact List.forall_mem_append.mpr ⟨ha.1, hb.1⟩

theorem bind_silent {x : Elaboration α} {f : α → Elaboration β}
    (hx : Elaboration.definitions x = []) (hf : ∀ a, Emits good (f a) post) :
    Emits good (x >>= f) post :=
  Ensures.bind_silent hx hf

theorem imp {x : Elaboration β} {weaker : β → Prop} (hx : Emits good x post)
    (himp : ∀ b, post b → weaker b) : Emits good x weaker :=
  Ensures.imp hx fun _ b hb => ⟨hb.1, himp b hb.2⟩

end Emits

end Elaboration

section TopLevel

variable (source : String)

/-- A draft is what its declaration elaborates to, with the definitions emitted on the
way. -/
theorem exists_of_draft {source id : String} {declaration : Declaration} {draft : Draft}
    (hdraft : (declaration.draft source id).answer = .ok draft) :
    ∃ bare, (declaration.elaborate source id).answer = .ok bare ∧
      draft = { bare with inner := Elaboration.definitions (declaration.elaborate source id) } :=
  (map_eq_ok_iff _ _ draft).mp hdraft

theorem answer_draftsOf_foreign (element : String) (rest : List TopLevel) :
    (draftsOf source (.foreign element :: rest)).answer = (draftsOf source rest).answer := by
  rw [draftsOf, Traced.answer_bind]
  rfl

theorem answer_draftsOf_declared (id : String) (idless : Bool) (declaration : Declaration)
    (rest : List TopLevel) :
    (draftsOf source (.declared id idless declaration :: rest)).answer = (do
      let draft ← (declaration.draft source id).answer
      let drafts ← (draftsOf source rest).answer
      return draft :: drafts) := by
  rw [draftsOf]
  cases idless with
  | true =>
    simp only [if_true, Traced.answer_bind]
    rfl
  | false =>
    simp only [Bool.false_eq_true, if_false, Traced.answer_bind]
    rfl

theorem answer_definitionsOf (document : List TopLevel) :
    (definitionsOf source document).answer = (do
      let drafts ← (draftsOf source document).answer
      (resolveTemplates source drafts).answer) := by
  rw [definitionsOf, Traced.answer_bind]

end TopLevel

end Wiring
