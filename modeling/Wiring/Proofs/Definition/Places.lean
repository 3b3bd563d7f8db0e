import Wiring.Expression.Basic
import Wiring.Proofs.Definition.Holding

/-!
Values and their places. Every place in a definition has a name: a positional slot its
index, a named argument its key, and a place inside a value the path that leads to it.
A value is well placed if it and everything in it carry the names of their places.
-/

namespace Wiring

namespace ValueDefinition

/-- A value in the place `name` of the definition `owner` carries that name, and so does
everything in it the name of its place there: an item that of its index, an entry that
of its key. `inline` tells which definitions may be written inline in a place of an
owner; a value in one of them has that one as its owner. -/
inductive Placed (inline : String → String → ObjectDefinition → Prop) :
    String → String → ValueDefinition → Prop where
  | scalar {owner name : String} {value : Scalar} : Placed inline owner name (.scalar name value)
  | reference {owner name target : String} : Placed inline owner name (.reference name target)
  | sequence {owner name : String} {shape : Shape} {items : List ValueDefinition}
      (hitems : ∀ (i : Nat) v, items[i]? = some v →
        Placed inline owner (Naming.element name shape.label i) v) :
      Placed inline owner name (.sequence name shape items)
  | mapping {owner name : String} {entries : List (String × ValueDefinition)}
      (hentries : ∀ key v, (key, v) ∈ entries → Placed inline owner (Naming.entry name key) v) :
      Placed inline owner name (.mapping name entries)
  | inner {owner name : String} {d : ObjectDefinition} (hinline : inline owner name d)
      (hgiven : ∀ place v, d.arguments.GivesAs place v → Placed inline d.id place v) :
      Placed inline owner name (.inner name d)

variable {inline : String → String → ObjectDefinition → Prop} {owner name : String}

theorem Placed.name_eq {v : ValueDefinition} (hplaced : v.Placed inline owner name) :
    v.name = name := by
  cases hplaced <;> rfl

end ValueDefinition

/-- All values in a definition are in the places that their names tell. -/
def ObjectDefinition.Placed (inline : String → String → ObjectDefinition → Prop)
    (d : ObjectDefinition) : Prop :=
  ∀ name v, d.arguments.GivesAs name v → v.Placed inline d.id name

namespace Expression

variable (inline : String → String → ObjectDefinition → Prop) (owner : String)

mutual

/-- The parts of what an expression stands for are named after their places, whoever
the owner is: there is nothing inline in it. -/
theorem placed_toDefinition (name : String) :
    ∀ e : Expression, (e.toDefinition name).Placed inline owner name
  | .atom value => by
    cases value <;> exact .scalar
  | .group grouping items => by
    rw [toDefinition]
    refine .sequence fun i v hitem => ?_
    simpa using placed_itemDefinitions name grouping.shape 0 items i v hitem
  | .dict entries => by
    rw [toDefinition]
    refine .mapping fun key v hmem => ?_
    rcases placed_entryDefinitions name [] entries key v hmem with hnone | hplaced
    · cases hnone
    · exact hplaced
termination_by structural e => e

theorem placed_itemDefinitions (name : String) (shape : Shape) (index : Nat) :
    ∀ (items : List Expression) (i : Nat) (v : ValueDefinition),
      (itemDefinitions name shape index items)[i]? = some v →
        v.Placed inline owner (Naming.element name shape.label (index + i))
  | [], i, v, hitem => by
    simp [itemDefinitions] at hitem
  | item :: items, 0, v, hitem => by
    rw [itemDefinitions, List.getElem?_cons_zero, Option.some.injEq] at hitem
    subst hitem
    exact placed_toDefinition _ item
  | item :: items, i + 1, v, hitem => by
    rw [itemDefinitions, List.getElem?_cons_succ] at hitem
    have hplaced := placed_itemDefinitions name shape (index + 1) items i v hitem
    rwa [show index + 1 + i = index + (i + 1) by omega] at hplaced
termination_by structural items => items

theorem placed_entryDefinitions (name : String) (done : Entries ValueDefinition) :
    ∀ (entries : List (Scalar × Expression)) (key : String) (v : ValueDefinition),
      (key, v) ∈ entryDefinitions name done entries →
        (key, v) ∈ done ∨ v.Placed inline owner (Naming.entry name key)
  | [], key, v, hmem => by
    rw [entryDefinitions] at hmem
    exact Or.inl hmem
  | (scalar, value) :: entries, key, v, hmem => by
    rw [entryDefinitions] at hmem
    rcases placed_entryDefinitions name _ entries key v hmem with hput | hplaced
    · rcases Entries.eq_of_mem_put hput with hdone | hnew
      · exact Or.inl hdone
      · obtain ⟨rfl, rfl⟩ := Prod.mk.inj hnew
        exact Or.inr (placed_toDefinition _ value)
    · exact Or.inr hplaced
termination_by structural entries => entries

end

end Expression

end Wiring
