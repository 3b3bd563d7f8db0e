import Wiring.Live.Resolution

/-!
What resolution asks of a registry. A value definition lists its targets, and resolving it
asks for them one after the other, every occurrence again, until one is refused. Nothing is
looked up after a refusal, and the error is the registry's own.
-/

namespace Wiring

namespace Registry

/-- A registry hands out an object for an id. -/
def Answers (registry : Registry) (id : String) : Prop :=
  ∃ object, registry.object id = .ok object

/-- A computation asks for some ids in order: for all of them if all are answered, and
otherwise up to the first that is refused, with whose error it ends. -/
inductive Asks {α : Type} (registry : Registry) (ids : List String) : Lookups α → Prop where
  | answered (hall : ∀ id ∈ ids, registry.Answers id) (a : α) :
      Asks registry ids ⟨ids.map .object, .ok a⟩
  | refused {before after : List String} {id : String} {e : RegistryError}
      (hids : ids = before ++ id :: after) (hbefore : ∀ s ∈ before, registry.Answers s)
      (hid : registry.object id = .error e) :
      Asks registry ids ⟨(before ++ [id]).map .object, .error e⟩

namespace Asks

variable {α β : Type} {registry : Registry}

theorem pure (a : α) : registry.Asks [] (Pure.pure a : Lookups α) :=
  .answered (by simp) a

theorem fetch (id : String) : registry.Asks [id] (registry.fetch id) := by
  unfold Registry.fetch
  cases hid : registry.object id with
  | ok object =>
    have hall : ∀ s ∈ [id], registry.Answers s := by
      intro s hs
      obtain rfl := List.mem_singleton.mp hs
      exact ⟨object, hid⟩
    exact .answered hall object
  | error e =>
    have hfirst : [id] = [] ++ id :: [] := rfl
    exact .refused hfirst (by simp) hid

/-- The second part asks for its ids only after all those of the first are answered. -/
theorem bind {ids more : List String} {x : Lookups α} {f : α → Lookups β}
    (hx : registry.Asks ids x) (hf : ∀ a, registry.Asks more (f a)) :
    registry.Asks (ids ++ more) (x >>= f) := by
  cases hx with
  | refused hids hbefore hid =>
    rw [Traced.bind_of_error rfl]
    exact .refused (by rw [hids, List.append_assoc, List.cons_append]) hbefore hid
  | answered hall a =>
    rw [Traced.bind_of_ok rfl]
    have hrest := hf a
    generalize f a = y at hrest
    cases hrest with
    | answered hmore b =>
      rw [← List.map_append]
      exact .answered (List.forall_mem_append.mpr ⟨hall, hmore⟩) b
    | @refused before after id e hmore hbefore hid =>
      rw [← List.map_append, ← List.append_assoc]
      exact .refused (by rw [hmore, List.append_assoc])
        (List.forall_mem_append.mpr ⟨hall, hbefore⟩) hid

/-- What is done with the result asks for nothing. -/
theorem map {ids : List String} {x : Lookups α} (hx : registry.Asks ids x) (f : α → β) :
    registry.Asks ids (x >>= fun a => Pure.pure (f a)) := by
  simpa using hx.bind fun a => pure (f a)

end Asks

end Registry

namespace ValueDefinition

open Registry

variable (registry : Registry)

mutual

/-- Resolving a value asks for its targets. -/
theorem asks_resolve : ∀ d : ValueDefinition, registry.Asks d.targets (d.resolve registry)
  | .scalar _ value => by
    rw [targets, resolve]
    exact Asks.pure _
  | .reference _ target => by
    rw [targets, resolve]
    exact (Asks.fetch target).map _
  | .inner _ definition => by
    rw [targets, resolve]
    exact (Asks.fetch definition.id).map _
  | .mapping _ entries => by
    rw [targets, resolve]
    exact (asks_resolveEntries entries).map _
  | .sequence _ shape items => by
    rw [targets, resolve]
    exact (asks_resolveItems items).map _
termination_by structural d => d

theorem asks_resolveItems : ∀ items : List ValueDefinition,
    registry.Asks (targetsOfItems items) (resolveItems registry items)
  | [] => by
    rw [targetsOfItems, resolveItems]
    exact Asks.pure _
  | item :: items => by
    rw [targetsOfItems, resolveItems]
    exact (asks_resolve item).bind fun _ => (asks_resolveItems items).map _
termination_by structural items => items

theorem asks_resolveEntries : ∀ entries : List (String × ValueDefinition),
    registry.Asks (targetsOfEntries entries) (resolveEntries registry entries)
  | [] => by
    rw [targetsOfEntries, resolveEntries]
    exact Asks.pure _
  | (_, entry) :: entries => by
    rw [targetsOfEntries, resolveEntries]
    exact (asks_resolve entry).bind fun _ => (asks_resolveEntries entries).map _
termination_by structural entries => entries

end

/-- If a registry answers all targets of a value, resolution succeeds after looking up
exactly these in order. If not, resolution looks them up as far as the first that is
refused and fails with the error given for that one. Without targets nothing is looked
up. -/
theorem resolve_looks_up_targets (d : ValueDefinition) :
    ((∀ t ∈ d.targets, registry.Answers t) →
      ∃ value, d.resolve registry = ⟨d.targets.map .object, .ok value⟩) ∧
    ((¬ ∀ t ∈ d.targets, registry.Answers t) →
      ∃ before t after e, d.targets = before ++ t :: after ∧
        (∀ s ∈ before, registry.Answers s) ∧ registry.object t = .error e ∧
        d.resolve registry = ⟨(before ++ [t]).map .object, .error e⟩) ∧
    (d.targets = [] → ∃ value, d.resolve registry = ⟨[], .ok value⟩) := by
  have hasks := asks_resolve registry d
  generalize d.resolve registry = x at hasks
  cases hasks with
  | answered hall value =>
    refine ⟨fun _ => ⟨value, rfl⟩, fun hnot => absurd hall hnot, ?_⟩
    intro hnone
    exact ⟨value, by rw [hnone, List.map_nil]⟩
  | @refused before after t e htargets hbefore ht =>
    refine ⟨?_, fun _ => ⟨before, t, after, e, htargets, hbefore, ht, rfl⟩, ?_⟩
    · intro hall
      obtain ⟨object, hobject⟩ := hall t (by simp [htargets])
      rw [ht] at hobject
      cases hobject
    · intro hnone
      simp [htargets] at hnone

/-- A set with the same reference twice, and between the two an inner object below a
mapping. -/
def mirrored : ValueDefinition :=
  .sequence "nodes" .set [.reference "nodes.set[0]" "db",
    .mapping "nodes.set[1]" [("main", .inner "main" (.ofFactory "pool" .unspecified))],
    .reference "nodes.set[2]" "db"]

/-- A registry that has the database only. -/
def alone : StaticRegistry := StaticRegistry.empty.insert "db" ⟨"db"⟩

/-- A registry that has the pool as well. -/
def pooledRegistry : StaticRegistry := alone.insert "pool" ⟨"pool"⟩

/-- With both objects there are three lookups, although the set has two members in the
end. Without the pool, the second reference is not followed. -/
theorem resolve_looks_up_targets_mirrored :
    ((∀ t ∈ mirrored.targets, pooledRegistry.toRegistry.Answers t) ∧
      ∃ value, mirrored.resolve pooledRegistry.toRegistry =
        ⟨mirrored.targets.map .object, .ok value⟩) ∧
    ((¬ ∀ t ∈ mirrored.targets, alone.toRegistry.Answers t) ∧
      ∃ before t after e, mirrored.targets = before ++ t :: after ∧
        (∀ s ∈ before, alone.toRegistry.Answers s) ∧ alone.toRegistry.object t = .error e ∧
        mirrored.resolve alone.toRegistry = ⟨(before ++ [t]).map .object, .error e⟩) := by
  have hall : ∀ t ∈ mirrored.targets, pooledRegistry.toRegistry.Answers t := by
    intro t ht
    have hids : t ∈ ["db", "pool", "db"] := ht
    simp only [List.mem_cons, List.not_mem_nil, or_false] at hids
    rcases hids with rfl | rfl | rfl
    · exact ⟨⟨"db"⟩, rfl⟩
    · exact ⟨⟨"pool"⟩, rfl⟩
    · exact ⟨⟨"db"⟩, rfl⟩
  have hnot : ¬ ∀ t ∈ mirrored.targets, alone.toRegistry.Answers t := by
    intro hanswers
    obtain ⟨object, hobject⟩ := hanswers "pool" (by decide)
    have hrefused : alone.toRegistry.object "pool" = .error (.unknownReference "pool") := rfl
    rw [hrefused] at hobject
    cases hobject
  exact ⟨⟨hall, (resolve_looks_up_targets pooledRegistry.toRegistry mirrored).1 hall⟩,
    ⟨hnot, (resolve_looks_up_targets alone.toRegistry mirrored).2.1 hnot⟩⟩

end ValueDefinition

end Wiring
