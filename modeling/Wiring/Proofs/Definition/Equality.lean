import Wiring.Definition.Equality
import Wiring.Proofs.Matching

/-!
Equality of value definitions, shape by shape. Equal sequences agree item by item. Equal
mappings have the same keys, and if keys are distinct, as they are in every mapping, the
entries of one are those of the other in some order, up to equality.
-/

namespace Wiring

theorem ObjectDefinition.id_eq_of_equals {d e : ObjectDefinition} (hequal : d.equals e = true) :
    d.id = e.id := by
  cases d
  simp only [ObjectDefinition.equals, Bool.and_eq_true, beq_iff_eq] at hequal
  grind

namespace ValueDefinition

/-- What holds of a collection if it holds of everything in it holds of all values. -/
theorem induction_parts {motive : ValueDefinition → Prop}
    (scalar : ∀ name value, motive (.scalar name value))
    (reference : ∀ name target, motive (.reference name target))
    (inner : ∀ name definition, motive (.inner name definition))
    (mapping : ∀ name (entries : Entries ValueDefinition), (∀ entry ∈ entries, motive entry.2) →
      motive (.mapping name entries))
    (sequence : ∀ name shape items, (∀ item ∈ items, motive item) →
      motive (.sequence name shape items)) : ∀ d, motive d := by
  intro d
  induction hsize : sizeOf d using Nat.strongRecOn generalizing d with
  | ind size ih =>
    cases d with
    | scalar name value => exact scalar name value
    | reference name target => exact reference name target
    | inner name definition => exact inner name definition
    | mapping name entries =>
      apply mapping
      intro entry hmem
      have hlt := List.sizeOf_lt_of_mem hmem
      obtain ⟨key, value⟩ := entry
      simp only [ValueDefinition.mapping.sizeOf_spec, Prod.mk.sizeOf_spec] at hsize hlt
      exact ih (sizeOf value) (by omega) value rfl
    | sequence name shape items =>
      apply sequence
      intro item hmem
      have hlt := List.sizeOf_lt_of_mem hmem
      simp only [ValueDefinition.sequence.sizeOf_spec] at hsize
      exact ih (sizeOf item) (by omega) item rfl

/-- Two value definitions are equal, as a proposition. -/
def Same (d e : ValueDefinition) : Prop := d.equals e = true

section Unfolding

variable {e : ValueDefinition} (name : String)

theorem same_scalar_iff (value : Scalar) :
    (scalar name value).Same e ↔ ∃ other, e = .scalar name other ∧ value.equals other := by
  unfold Same
  cases e with
  | scalar n other =>
    simp only [equals, Bool.and_eq_true, beq_iff_eq, scalar.injEq]
    grind
  | _ => simp [equals]

theorem same_reference_iff (target : String) :
    (reference name target).Same e ↔ e = .reference name target := by
  unfold Same
  cases e with
  | reference n other =>
    simp only [equals, Bool.and_eq_true, beq_iff_eq, reference.injEq]
    grind
  | _ => simp [equals]

theorem same_inner_iff (definition : ObjectDefinition) :
    (inner name definition).Same e ↔
      ∃ other, e = .inner name other ∧ definition.equals other = true := by
  unfold Same
  cases e with
  | inner n other =>
    simp only [equals, Bool.and_eq_true, beq_iff_eq, inner.injEq]
    grind
  | _ => simp [equals]

theorem equalEntries_iff (entries others : Entries ValueDefinition) :
    equalEntries entries others = true ↔
      ∀ entry ∈ entries, ∃ e, others.find? entry.1 = some e ∧ entry.2.Same e := by
  induction entries with
  | nil => simp [equalEntries]
  | cons entry entries ih =>
    obtain ⟨key, d⟩ := entry
    rw [equalEntries, Bool.and_eq_true, ih, List.forall_mem_cons]
    cases hfind : others.find? key with
    | none => simp
    | some e => simp [Same]

theorem same_mapping_iff (entries : Entries ValueDefinition) :
    (mapping name entries).Same e ↔ ∃ others : Entries ValueDefinition,
      e = .mapping name others ∧ entries.length = others.length ∧
        ∀ entry ∈ entries, ∃ e, others.find? entry.1 = some e ∧ entry.2.Same e := by
  unfold Same
  cases e with
  | mapping n others =>
    simp only [equals, Bool.and_eq_true, beq_iff_eq, mapping.injEq, equalEntries_iff, Same]
    grind
  | _ => simp [equals]

theorem equalItems_iff (items others : List ValueDefinition) :
    equalItems items others = true ↔ List.Forall₂ Same items others := by
  induction items generalizing others with
  | nil => cases others <;> simp [equalItems]
  | cons d items ih =>
    cases others with
    | nil => simp [equalItems]
    | cons e others => simp [equalItems, ih, Same]

theorem same_sequence_iff (shape : Shape) (items : List ValueDefinition) :
    (sequence name shape items).Same e ↔
      ∃ others, e = .sequence name shape others ∧ List.Forall₂ Same items others := by
  change (sequence name shape items).equals e = true ↔ _
  cases e with
  | sequence n other others =>
    simp only [equals, Bool.and_eq_true, beq_iff_eq, sequence.injEq, equalItems_iff]
    grind
  | _ => simp [equals]

end Unfolding

/-- Every mapping in a value has distinct keys, outside of inline definitions. -/
inductive WellKeyed : ValueDefinition → Prop where
  | scalar (name : String) (value : Scalar) : WellKeyed (.scalar name value)
  | reference (name target : String) : WellKeyed (.reference name target)
  | inner (name : String) (definition : ObjectDefinition) : WellKeyed (.inner name definition)
  | mapping {name : String} {entries : Entries ValueDefinition} (hkeys : entries.KeysDistinct)
      (hentries : ∀ entry ∈ entries, WellKeyed entry.2) : WellKeyed (.mapping name entries)
  | sequence {name : String} {shape : Shape} {items : List ValueDefinition}
      (hitems : ∀ item ∈ items, WellKeyed item) : WellKeyed (.sequence name shape items)

namespace WellKeyed

variable {name : String} {shape : Shape} {items : List ValueDefinition}
  {entries : Entries ValueDefinition}

theorem keys_of_mapping (h : WellKeyed (.mapping name entries)) : entries.KeysDistinct := by
  cases h with
  | mapping hkeys _ => exact hkeys

theorem values_of_mapping (h : WellKeyed (.mapping name entries)) :
    ∀ entry ∈ entries, WellKeyed entry.2 := by
  cases h with
  | mapping _ hentries => exact hentries

theorem items_of_sequence (h : WellKeyed (.sequence name shape items)) :
    ∀ item ∈ items, WellKeyed item := by
  cases h with
  | sequence hitems => exact hitems

end WellKeyed

mutual

/-- The numbers with a fraction in a value, outside of inline definitions. -/
def floats : ValueDefinition → List Binary64
  | .scalar _ (.float x) => [x]
  | .scalar _ _ => []
  | .reference _ _ => []
  | .inner _ _ => []
  | .mapping _ entries => floatsOfEntries entries
  | .sequence _ _ items => floatsOfItems items
termination_by structural d => d

def floatsOfItems : List ValueDefinition → List Binary64
  | [] => []
  | item :: items => item.floats ++ floatsOfItems items
termination_by structural items => items

def floatsOfEntries : List (String × ValueDefinition) → List Binary64
  | [] => []
  | (_, entry) :: entries => entry.floats ++ floatsOfEntries entries
termination_by structural entries => entries

end

theorem floatsOfItems_eq (items : List ValueDefinition) :
    floatsOfItems items = items.flatMap floats := by
  induction items with
  | nil => rw [floatsOfItems, List.flatMap_nil]
  | cons item items ih => rw [floatsOfItems, ih, List.flatMap_cons]

theorem floatsOfEntries_eq (entries : Entries ValueDefinition) :
    floatsOfEntries entries = entries.flatMap fun entry => entry.2.floats := by
  induction entries with
  | nil => rw [floatsOfEntries, List.flatMap_nil]
  | cons entry entries ih => rw [floatsOfEntries, ih, List.flatMap_cons]

end ValueDefinition

/-- Equal scalars are the same, but for zeros of either sign. -/
theorem Scalar.eq_of_equals {a b : Scalar} (hequal : a.equals b = true)
    (hzero : ∀ x, a = .float x → x.isZero = false) : a = b := by
  cases a with
  | float x =>
    cases b with
    | float y =>
      have hx := hzero x rfl
      simp [Scalar.equals, Binary64.numericEq, hx] at hequal
      rw [hequal.2]
    | _ => simp [Scalar.equals] at hequal
  | _ => cases b <;> simp_all [Scalar.equals]

end Wiring
