import Mathlib.Data.List.Induction
import Wiring.Live.Registry

/-!
What a registry of ready-made instances answers after any calls that register some, the
same id perhaps many times. The instance of an id is that of its last call. Whether it is
handed out is told by a mark that is set and never taken off, so the last call decides
that too, except where a plain call comes after one for a template.
-/

namespace Wiring.StaticRegistry

/-- A call that registers an instance. -/
inductive Call where
  | insert (id : String) (object : Instance)
  | insertAbstract (id : String) (object : Instance)
deriving DecidableEq

namespace Call

def id : Call → String
  | .insert id _ => id
  | .insertAbstract id _ => id

def object : Call → Instance
  | .insert _ object => object
  | .insertAbstract _ object => object

def isAbstract : Call → Bool
  | .insert _ _ => false
  | .insertAbstract _ _ => true

end Call

/-- The registry after one more call. -/
def register (registry : StaticRegistry) : Call → StaticRegistry
  | .insert id object => registry.insert id object
  | .insertAbstract id object => registry.insertAbstract id object

/-- The registry after some calls, the first one coming first. -/
def after (calls : List Call) : StaticRegistry := calls.foldl register empty

/-- The last of some calls that registers an id. -/
def lastCall? (id : String) (calls : List Call) : Option Call :=
  calls.reverse.find? fun call => call.id == id

/-- What a template lookup answers if it goes by the last call for the id. -/
def templateByLast (id : String) : Option Call → Except RegistryError Instance
  | none => .error (.unknownReference id)
  | some call => .ok call.object

/-- What a lookup answers if it goes by the last call for the id. -/
def objectByLast (id : String) : Option Call → Except RegistryError Instance
  | none => .error (.unknownReference id)
  | some (.insert _ object) => .ok object
  | some (.insertAbstract _ _) => .error (.abstractInstantiation id)

/-- Some call registers an id as a template. -/
def Marked (id : String) (calls : List Call) : Prop :=
  ∃ call ∈ calls, call.id = id ∧ call.isAbstract

/-- The last call for an id is a plain one, but one before it registers the id as a
template. -/
def StillMarked (id : String) (calls : List Call) : Prop :=
  Marked id calls ∧ ∃ object, lastCall? id calls = some (.insert id object)

theorem find?_register (registry : StaticRegistry) (call : Call) (id : String) :
    Entries.find? id (registry.register call).objects =
      if id = call.id then some call.object else Entries.find? id registry.objects := by
  cases call with
  | insert key object => exact Entries.find?_put key id object registry.objects
  | insertAbstract key object => exact Entries.find?_put key id object registry.objects

theorem mem_templates_register (registry : StaticRegistry) (call : Call) (id : String) :
    id ∈ (registry.register call).templates ↔
      id ∈ registry.templates ∨ call.id = id ∧ call.isAbstract := by
  cases call with
  | insert key object => simp [register, insert, Call.isAbstract]
  | insertAbstract key object =>
    simp only [register, insertAbstract, Call.id, Call.isAbstract, and_true]
    split
    · rename_i hkey
      exact ⟨Or.inl, fun h => h.elim (fun hmem => hmem) fun hid => hid ▸ hkey⟩
    · rw [List.mem_cons, or_comm, eq_comm]

theorem lastCall?_concat (id : String) (calls : List Call) (call : Call) :
    lastCall? id (calls ++ [call]) = if id = call.id then some call else lastCall? id calls := by
  rw [lastCall?, List.reverse_concat, List.find?_cons]
  by_cases hid : id = call.id
  · simp [hid]
  · have hother : (call.id == id) = false := beq_false_of_ne (Ne.symm hid)
    rw [hother, if_neg hid]
    rfl

theorem eq_of_lastCall? {id : String} {calls : List Call} {call : Call}
    (hlast : lastCall? id calls = some call) : call ∈ calls ∧ call.id = id := by
  have hid := List.find?_some hlast
  exact ⟨List.mem_reverse.mp (List.mem_of_find?_eq_some hlast), eq_of_beq hid⟩

section Run

variable (calls : List Call) (id : String)

theorem after_concat (call : Call) : after (calls ++ [call]) = (after calls).register call := by
  simp [after]

theorem find?_after :
    Entries.find? id (after calls).objects = (lastCall? id calls).map Call.object := by
  induction calls using List.reverseRecOn with
  | nil => rfl
  | append_singleton calls call ih =>
    rw [after_concat, find?_register, lastCall?_concat, ih]
    split <;> rfl

theorem mem_templates_after : id ∈ (after calls).templates ↔ Marked id calls := by
  induction calls using List.reverseRecOn with
  | nil => simp [after, empty, Marked]
  | append_singleton calls call ih =>
    rw [after_concat, mem_templates_register, ih]
    simp [Marked, or_and_right, exists_or]

theorem getTemplate_after :
    (after calls).getTemplate id = templateByLast id (lastCall? id calls) := by
  rw [getTemplate, find?_after]
  cases lastCall? id calls <;> rfl

theorem contains_after : (after calls).contains id ↔ ∃ call ∈ calls, call.id = id := by
  rw [contains, Entries.hasKey_iff_mem_keys, ← Entries.find?_isSome_iff, find?_after]
  simp [lastCall?]

end Run

theorem getObject_of_marked {calls : List Call} {id : String} (hmarked : Marked id calls) :
    (after calls).getObject id = .error (.abstractInstantiation id) :=
  if_pos ((mem_templates_after calls id).mpr hmarked)

theorem getObject_of_not_marked {calls : List Call} {id : String} (hmarked : ¬ Marked id calls) :
    (after calls).getObject id = templateByLast id (lastCall? id calls) := by
  rw [getObject, if_neg (mt (mem_templates_after calls id).mp hmarked), getTemplate_after]

/-- Where no mark is left over, the last call decides whether an instance is handed out. -/
theorem getObject_of_not_stillMarked {calls : List Call} {id : String}
    (hmark : ¬ StillMarked id calls) :
    (after calls).getObject id = objectByLast id (lastCall? id calls) := by
  by_cases hmarked : Marked id calls
  · rw [getObject_of_marked hmarked]
    cases hlast : lastCall? id calls with
    | none =>
      obtain ⟨call, hmem, hid, -⟩ := hmarked
      simp only [lastCall?, List.find?_eq_none, List.mem_reverse, beq_iff_eq] at hlast
      exact absurd hid (hlast call hmem)
    | some call =>
      cases call with
      | insert key object =>
        obtain ⟨-, rfl⟩ := eq_of_lastCall? hlast
        exact absurd ⟨hmarked, object, hlast⟩ hmark
      | insertAbstract key object => rfl
  · rw [getObject_of_not_marked hmarked]
    cases hlast : lastCall? id calls with
    | none => rfl
    | some call =>
      cases call with
      | insert key object => rfl
      | insertAbstract key object =>
        obtain ⟨hmem, hid⟩ := eq_of_lastCall? hlast
        exact absurd ⟨_, hmem, hid, rfl⟩ hmarked

/-- After any calls, a template lookup answers with the instance of the last call for the
id, and an id is known if there was one. A lookup goes by the last call as well, unless a
mark is left over from a call before it; then the instance is withheld. -/
theorem answers_after_calls (calls : List Call) (id : String) :
    (after calls).getTemplate id = templateByLast id (lastCall? id calls) ∧
      ((after calls).contains id ↔ ∃ call ∈ calls, call.id = id) ∧
      (¬ StillMarked id calls →
        (after calls).getObject id = objectByLast id (lastCall? id calls)) ∧
      (StillMarked id calls →
        (after calls).getObject id = .error (.abstractInstantiation id)) :=
  ⟨getTemplate_after calls id, contains_after calls id, getObject_of_not_stillMarked,
    fun hmark => getObject_of_marked hmark.1⟩

/-- An instance that replaces a template by a plain call is withheld. -/
theorem getObject_after_replaced_template :
    ∃ calls object, lastCall? "pool" calls = some (.insert "pool" object) ∧
      objectByLast "pool" (lastCall? "pool" calls) = .ok object ∧
      (after calls).getObject "pool" = .error (.abstractInstantiation "pool") ∧
      (after calls).getObject "pool" ≠ objectByLast "pool" (lastCall? "pool" calls) :=
  ⟨[.insertAbstract "pool" ⟨"draft"⟩, .insert "pool" ⟨"final"⟩], ⟨"final"⟩,
    by decide, by decide, by decide, by decide⟩

end Wiring.StaticRegistry
