import Wiring.Definition.Naming
import Wiring.Proofs.Template.Merge
import Wiring.Template.Draft

/-!
What a definition holds: the definitions written inline in it, at any depth. A
definition gives values as arguments and properties, each in a place of its own that a
merge does not change. A value holds a definition if it carries it, or if an element of
it or the definition it carries does.
-/

namespace Wiring

namespace Arguments

/-- A value is given as a positional argument, a named one or a property. -/
def Gives (args : Arguments) (v : ValueDefinition) : Prop :=
  some v ∈ args.positional ∨ (∃ key, (key, v) ∈ args.named) ∨ v ∈ args.properties

/-- A value is given in the place of a name: that of a slot, the key of a named argument,
or its own if it is a property. -/
inductive GivesAs (args : Arguments) : String → ValueDefinition → Prop where
  | slot {i : Nat} {v : ValueDefinition} (hslot : args.positional[i]? = some (some v)) :
      GivesAs args (Naming.positional i) v
  | named {key : String} {v : ValueDefinition} (hmem : (key, v) ∈ args.named) :
      GivesAs args key v
  | property {v : ValueDefinition} (hmem : v ∈ args.properties) : GivesAs args v.name v

variable {name : String} {v : ValueDefinition}

theorem not_givesAs_empty : ¬ empty.GivesAs name v := by
  intro hgives
  cases hgives with
  | slot hslot => cases hslot
  | named hmem => cases hmem
  | property hmem => cases hmem

theorem givesAs_snoc {args : Arguments} {value : Option ValueDefinition}
    (hgives : { args with positional := args.positional ++ [value] }.GivesAs name v) :
    args.GivesAs name v ∨
      name = Naming.positional args.positional.length ∧ value = some v := by
  cases hgives with
  | @slot i _ hslot =>
    have hslot : (args.positional ++ [value])[i]? = some (some v) := hslot
    by_cases hi : i < args.positional.length
    · rw [List.getElem?_append_left hi] at hslot
      exact Or.inl (.slot hslot)
    · rw [List.getElem?_append_right (by omega), List.getElem?_singleton] at hslot
      split at hslot
      · have hlast : i = args.positional.length := by omega
        exact Or.inr ⟨congrArg Naming.positional hlast, Option.some.inj hslot⟩
      · cases hslot
  | named hmem => exact Or.inl (.named hmem)
  | property hmem => exact Or.inl (.property hmem)

theorem givesAs_put {args : Arguments} {key : String} {value : ValueDefinition}
    (hgives : { args with named := args.named.put key value }.GivesAs name v) :
    args.GivesAs name v ∨ name = key ∧ v = value := by
  cases hgives with
  | slot hslot => exact Or.inl (.slot hslot)
  | named hmem =>
    rcases Entries.eq_of_mem_put hmem with hbefore | hnew
    · exact Or.inl (.named hbefore)
    · exact Or.inr (Prod.mk.inj hnew)
  | property hmem => exact Or.inl (.property hmem)

/-- A merge leaves every value in the place that one of its sides gives it. -/
theorem givesAs_of_mergeParent {own parent : Arguments}
    (hgives : (own.mergeParent parent).GivesAs name v) :
    own.GivesAs name v ∨ parent.GivesAs name v := by
  cases hgives with
  | @slot i _ hslot =>
    have hmerged := slot?_mergeParent own parent i
    rw [slot?, hslot, Option.join_some] at hmerged
    rcases Option.or_eq_some_iff.mp hmerged.symm with hown | ⟨-, hparent⟩
    · exact Or.inl (.slot (Option.join_eq_some_iff.mp hown))
    · exact Or.inr (.slot (Option.join_eq_some_iff.mp hparent))
  | named hmem =>
    change (name, v) ∈ addNamed own.named parent.named at hmem
    rw [addNamed_eq, List.mem_append] at hmem
    rcases hmem with hown | hfresh
    · exact Or.inl (.named hown)
    · exact Or.inr (.named (mem_of_mem_fresh Prod.fst hfresh))
  | property hmem =>
    change v ∈ addProperties own.properties parent.properties at hmem
    rw [addProperties_eq, List.mem_append] at hmem
    rcases hmem with hown | hfresh
    · exact Or.inl (.property hown)
    · exact Or.inr (.property (mem_of_mem_fresh ValueDefinition.name hfresh))

theorem givesAs_of_mergeAll {own : Arguments} {parents : List Arguments}
    (hgives : (own.mergeAll parents).GivesAs name v) :
    ∃ args ∈ own :: parents, args.GivesAs name v := by
  induction parents generalizing own with
  | nil => exact ⟨own, List.mem_cons_self, hgives⟩
  | cons parent parents ih =>
    obtain ⟨args, hargs, hv⟩ := ih hgives
    rcases List.mem_cons.mp hargs with rfl | hrest
    · rcases givesAs_of_mergeParent hv with hown | hparent
      · exact ⟨own, by simp, hown⟩
      · exact ⟨parent, by simp, hparent⟩
    · exact ⟨args, by simp [hrest], hv⟩

/-- What a declaration gives itself, a merge leaves in its place. -/
theorem givesAs_mergeParent {own : Arguments} (parent : Arguments) (hgives : own.GivesAs name v) :
    (own.mergeParent parent).GivesAs name v := by
  cases hgives with
  | @slot i _ hslot =>
    have hmerged := slot?_mergeParent own parent i
    rw [slot?, slot?, hslot, Option.join_some, Option.some_or] at hmerged
    exact .slot (Option.join_eq_some_iff.mp hmerged)
  | named hmem =>
    refine .named ?_
    change _ ∈ addNamed own.named parent.named
    rw [addNamed_eq]
    exact List.mem_append_left _ hmem
  | property hmem =>
    refine .property ?_
    change _ ∈ addProperties own.properties parent.properties
    rw [addProperties_eq]
    exact List.mem_append_left _ hmem

/-- A value is given if it is given somewhere. -/
theorem gives_iff (args : Arguments) (v : ValueDefinition) :
    args.Gives v ↔ ∃ name, args.GivesAs name v := by
  constructor
  · rintro (hslot | ⟨key, hnamed⟩ | hproperty)
    · obtain ⟨i, hi⟩ := List.mem_iff_getElem?.mp hslot
      exact ⟨_, .slot hi⟩
    · exact ⟨key, .named hnamed⟩
    · exact ⟨v.name, .property hproperty⟩
  · rintro ⟨name, hgives⟩
    cases hgives with
    | slot hslot => exact Or.inl (List.mem_of_getElem? hslot)
    | named hmem => exact Or.inr (Or.inl ⟨name, hmem⟩)
    | property hmem => exact Or.inr (Or.inr hmem)

theorem gives_snoc {args : Arguments} {value : Option ValueDefinition}
    (hgives : { args with positional := args.positional ++ [value] }.Gives v) :
    args.Gives v ∨ value = some v := by
  obtain ⟨name, hname⟩ := (gives_iff _ v).mp hgives
  rcases givesAs_snoc hname with hbefore | ⟨-, hnew⟩
  · exact Or.inl ((gives_iff args v).mpr ⟨name, hbefore⟩)
  · exact Or.inr hnew

theorem gives_put {args : Arguments} {key : String} {value : ValueDefinition}
    (hgives : { args with named := args.named.put key value }.Gives v) :
    args.Gives v ∨ v = value := by
  obtain ⟨name, hname⟩ := (gives_iff _ v).mp hgives
  rcases givesAs_put hname with hbefore | ⟨-, hnew⟩
  · exact Or.inl ((gives_iff args v).mpr ⟨name, hbefore⟩)
  · exact Or.inr hnew

theorem gives_of_mergeAll {own : Arguments} {parents : List Arguments}
    (hgives : (own.mergeAll parents).Gives v) : ∃ args ∈ own :: parents, args.Gives v := by
  obtain ⟨name, hname⟩ := (gives_iff _ v).mp hgives
  obtain ⟨args, hargs, hv⟩ := givesAs_of_mergeAll hname
  exact ⟨args, hargs, (gives_iff args v).mpr ⟨name, hv⟩⟩

theorem gives_mergeAll {own : Arguments} (parents : List Arguments) (hgives : own.Gives v) :
    (own.mergeAll parents).Gives v := by
  induction parents generalizing own with
  | nil => exact hgives
  | cons parent parents ih =>
    obtain ⟨name, hname⟩ := (gives_iff own v).mp hgives
    exact ih ((gives_iff _ v).mpr ⟨name, givesAs_mergeParent parent hname⟩)

end Arguments

/-- The arguments and properties of a definition. -/
def ObjectDefinition.arguments (d : ObjectDefinition) : Arguments :=
  ⟨d.args, d.named, d.properties⟩

mutual

/-- A value holds a definition. -/
inductive ValueDefinition.Holds : ValueDefinition → ObjectDefinition → Prop where
  | inner {name : String} {d : ObjectDefinition} : ValueDefinition.Holds (.inner name d) d
  | inside {name : String} {d e : ObjectDefinition} (hin : ObjectDefinition.Holds d e) :
      ValueDefinition.Holds (.inner name d) e
  | entry {name key : String} {entries : List (String × ValueDefinition)}
      {v : ValueDefinition} {e : ObjectDefinition} (hmem : (key, v) ∈ entries)
      (hin : ValueDefinition.Holds v e) : ValueDefinition.Holds (.mapping name entries) e
  | item {name : String} {shape : Shape} {items : List ValueDefinition}
      {v : ValueDefinition} {e : ObjectDefinition} (hmem : v ∈ items)
      (hin : ValueDefinition.Holds v e) : ValueDefinition.Holds (.sequence name shape items) e

/-- A definition holds another one. -/
inductive ObjectDefinition.Holds : ObjectDefinition → ObjectDefinition → Prop where
  | given {d e : ObjectDefinition} {v : ValueDefinition} (hgives : d.arguments.Gives v)
      (hin : ValueDefinition.Holds v e) : ObjectDefinition.Holds d e

end

end Wiring
