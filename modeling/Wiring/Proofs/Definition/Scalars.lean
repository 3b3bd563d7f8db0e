import Wiring.Proofs.Definition.Equality
import Wiring.Proofs.Definition.Holding
import Wiring.Proofs.Definition.Keys

/-!
The scalars in definitions, at any depth and inside of the definitions that are written
inline. Equality of definitions is reflexive where no float in them is the one that is not a
number and every dictionary in them has distinct keys.
-/

namespace Wiring

/-- A scalar is in a value: in an element of a collection, in what an inline definition gives,
or as the value itself. -/
inductive ValueDefinition.HasScalar (s : Scalar) : ValueDefinition → Prop where
  | scalar {name : String} : HasScalar s (.scalar name s)
  | inner {name : String} {d : ObjectDefinition} {v : ValueDefinition}
      (hgives : d.arguments.Gives v) (hin : HasScalar s v) : HasScalar s (.inner name d)
  | entry {name key : String} {entries : List (String × ValueDefinition)} {v : ValueDefinition}
      (hmem : (key, v) ∈ entries) (hin : HasScalar s v) : HasScalar s (.mapping name entries)
  | item {name : String} {shape : Shape} {items : List ValueDefinition} {v : ValueDefinition}
      (hmem : v ∈ items) (hin : HasScalar s v) : HasScalar s (.sequence name shape items)

/-- A scalar is in an argument or a property of a definition. -/
def ObjectDefinition.HasScalar (s : Scalar) (d : ObjectDefinition) : Prop :=
  ∃ v, d.arguments.Gives v ∧ v.HasScalar s

/-- All scalars in a value are good, and all dictionaries in it have distinct keys. -/
inductive ValueDefinition.Sound (good : Scalar → Prop) : ValueDefinition → Prop where
  | scalar {name : String} {value : Scalar} (hvalue : good value) :
      Sound good (.scalar name value)
  | reference {name target : String} : Sound good (.reference name target)
  | inner {name : String} {d : ObjectDefinition} (hnamed : Entries.KeysDistinct d.named)
      (hgives : ∀ v, d.arguments.Gives v → Sound good v) : Sound good (.inner name d)
  | mapping {name : String} {entries : Entries ValueDefinition} (hkeys : entries.KeysDistinct)
      (hentries : ∀ entry ∈ entries, Sound good entry.2) : Sound good (.mapping name entries)
  | sequence {name : String} {shape : Shape} {items : List ValueDefinition}
      (hitems : ∀ item ∈ items, Sound good item) : Sound good (.sequence name shape items)

/-- The arguments and properties of a definition are sound. -/
structure ObjectDefinition.Sound (good : Scalar → Prop) (d : ObjectDefinition) : Prop where
  named : Entries.KeysDistinct d.named
  gives : ∀ v, d.arguments.Gives v → v.Sound good

theorem Scalar.equals_self {s : Scalar} (hs : s.NotNaN) : s.equals s = true := by
  cases s with
  | float x =>
    have hx : x.isNaN = false := hs x rfl
    simp [Scalar.equals, Binary64.numericEq, hx]
  | _ => simp [Scalar.equals]

theorem Factory.equals_self (factory : Factory) : factory.equals factory = true := by
  cases factory <;> simp [Factory.equals, RegisteredFactory.equals]

namespace ValueDefinition

theorem equalSlots_self {slots : List (Option ValueDefinition)}
    (hslots : ∀ v, some v ∈ slots → v.Same v) : equalSlots slots slots = true := by
  induction slots with
  | nil => rfl
  | cons slot slots ih =>
    have hrest : equalSlots slots slots = true :=
      ih fun v hv => hslots v (List.mem_cons_of_mem _ hv)
    cases slot with
    | none => exact hrest
    | some v =>
      have hv : v.equals v = true := hslots v List.mem_cons_self
      rw [equalSlots, hv, hrest]
      rfl

theorem equalEntries_self {entries : Entries ValueDefinition} (hkeys : entries.KeysDistinct)
    (hentries : ∀ entry ∈ entries, entry.2.Same entry.2) :
    ∀ entry ∈ entries, ∃ e, entries.find? entry.1 = some e ∧ entry.2.Same e :=
  fun entry hentry => ⟨entry.2, Entries.find?_of_mem hkeys hentry, hentries entry hentry⟩

end ValueDefinition

theorem ObjectDefinition.equals_self {d : ObjectDefinition}
    (hnamed : Entries.KeysDistinct d.named) (hgives : ∀ v, d.arguments.Gives v → v.Same v) :
    d.equals d = true := by
  obtain ⟨id, factory, scope, lazyInit, isAbstract, parent, args, named, properties⟩ := d
  have hslots : equalSlots args args = true :=
    ValueDefinition.equalSlots_self fun v hv => hgives v (Or.inl hv)
  have hentries : equalEntries named named = true :=
    (ValueDefinition.equalEntries_iff named named).mpr
      (ValueDefinition.equalEntries_self hnamed fun entry hentry =>
        hgives entry.2 (Or.inr (Or.inl ⟨entry.1, hentry⟩)))
  have hproperties : equalItems properties properties = true :=
    (ValueDefinition.equalItems_iff properties properties).mpr
      (List.forall₂_same.mpr fun v hv => hgives v (Or.inr (Or.inr hv)))
  simp [ObjectDefinition.equals, Factory.equals_self, hslots, hentries, hproperties]

namespace ValueDefinition.Sound

variable {good : Scalar → Prop} {v : ValueDefinition}

theorem good_of_hasScalar (hv : v.Sound good) {s : Scalar} (hs : v.HasScalar s) : good s := by
  induction hs with
  | scalar =>
    cases hv with
    | scalar hvalue => exact hvalue
  | inner hgives _ ih =>
    cases hv with
    | inner _ hinner => exact ih (hinner _ hgives)
  | entry hmem _ ih =>
    cases hv with
    | mapping _ hentries => exact ih (hentries _ hmem)
  | item hmem _ ih =>
    cases hv with
    | sequence hitems => exact ih (hitems _ hmem)

theorem imp {weaker : Scalar → Prop} (himp : ∀ s, good s → weaker s) (hv : v.Sound good) :
    v.Sound weaker := by
  induction hv with
  | scalar hvalue => exact .scalar (himp _ hvalue)
  | reference => exact .reference
  | inner hnamed _ ih => exact .inner hnamed ih
  | mapping hkeys _ ih => exact .mapping hkeys ih
  | sequence _ ih => exact .sequence ih

/-- A value is equal to itself if no float in it is the one that is not a number. -/
theorem same_self (hgood : ∀ s, good s → s.NotNaN) (hv : v.Sound good) : v.Same v := by
  induction hv with
  | scalar hvalue =>
    exact (same_scalar_iff _ _).mpr ⟨_, rfl, Scalar.equals_self (hgood _ hvalue)⟩
  | reference => exact (same_reference_iff _ _).mpr rfl
  | inner hnamed _ ih =>
    exact (same_inner_iff _ _).mpr ⟨_, rfl, ObjectDefinition.equals_self hnamed ih⟩
  | mapping hkeys _ ih =>
    exact (same_mapping_iff _ _).mpr ⟨_, rfl, rfl, equalEntries_self hkeys ih⟩
  | sequence _ ih =>
    exact (same_sequence_iff _ _ _).mpr ⟨_, rfl, List.forall₂_same.mpr ih⟩

end ValueDefinition.Sound

namespace ObjectDefinition.Sound

variable {good : Scalar → Prop} {d : ObjectDefinition}

theorem good_of_hasScalar (hd : d.Sound good) {s : Scalar} (hs : d.HasScalar s) : good s := by
  obtain ⟨v, hgives, hin⟩ := hs
  exact (hd.gives v hgives).good_of_hasScalar hin

theorem imp {weaker : Scalar → Prop} (himp : ∀ s, good s → weaker s) (hd : d.Sound good) :
    d.Sound weaker :=
  ⟨hd.named, fun v hv => (hd.gives v hv).imp himp⟩

theorem equals_self (hgood : ∀ s, good s → s.NotNaN) (hd : d.Sound good) : d.equals d = true :=
  ObjectDefinition.equals_self hd.named fun v hv => (hd.gives v hv).same_self hgood

end ObjectDefinition.Sound

end Wiring
