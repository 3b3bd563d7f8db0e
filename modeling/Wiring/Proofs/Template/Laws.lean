import Wiring.Proofs.Template.Merge

/-!
The algebra of merging. Laying the arguments of one declaration beneath those of another
is associative, so a chain of templates can be merged from either end, and arguments that
were laid beneath before, or are those on top, add nothing a second time. The slots obey
these laws because what each of them holds does. Named arguments and properties obey them
for one common reason: both put what is fresh behind what is there.
-/

namespace Wiring

section WithFresh

variable {α : Type} (key : α → String)

/-- Some items, and behind them those of others that are fresh. -/
def withFresh (own items : List α) : List α := own ++ fresh key (own.map key) items

theorem fresh_eq_nil {known : List String} {items : List α}
    (hknown : ∀ x ∈ items, key x ∈ known) : fresh key known items = [] := by
  induction items with
  | nil => rfl
  | cons x xs ih =>
    obtain ⟨hx, hxs⟩ := List.forall_mem_cons.mp hknown
    rw [fresh_cons_of_mem key hx, ih hxs]

theorem withFresh_of_known {own items : List α} (hknown : ∀ x ∈ items, key x ∈ own.map key) :
    withFresh key own items = own := by
  rw [withFresh, fresh_eq_nil key hknown, List.append_nil]

theorem mem_keys_withFresh {own items : List α} {x : α} (hx : x ∈ own ∨ x ∈ items) :
    key x ∈ (withFresh key own items).map key := by
  rw [withFresh, List.map_append]
  rcases hx with hown | hitems
  · exact List.mem_append_left _ (List.mem_map_of_mem hown)
  · exact mem_keys_fresh key _ hitems

theorem withFresh_assoc (own items more : List α) :
    withFresh key (withFresh key own items) more =
      withFresh key own (withFresh key items more) := by
  -- What is fresh behind `items` alone need not be fresh behind `own` as well, but every key
  -- of `items` is known once they are behind `own`.
  have hknown : ∀ k ∈ items.map key,
      k ∈ own.map key ++ (fresh key (own.map key) items).map key := by
    intro k hk
    obtain ⟨x, hx, rfl⟩ := List.mem_map.mp hk
    exact mem_keys_fresh key _ hx
  simp only [withFresh]
  rw [fresh_append, fresh_fresh key hknown, List.map_append, List.append_assoc]

theorem withFresh_absorb_right (own items : List α) :
    withFresh key (withFresh key own items) items = withFresh key own items :=
  withFresh_of_known key fun _ hx => mem_keys_withFresh key (.inr hx)

theorem withFresh_absorb_left (own items : List α) :
    withFresh key (withFresh key own items) own = withFresh key own items :=
  withFresh_of_known key fun _ hx => mem_keys_withFresh key (.inl hx)

end WithFresh

namespace Arguments

/-- Slots are told apart by how many they are and by what each of them holds. -/
theorem slots_ext {xs ys : List (Option ValueDefinition)} (hlength : xs.length = ys.length)
    (hslot : ∀ i : Nat, xs[i]?.join = ys[i]?.join) : xs = ys := by
  apply List.ext_getElem hlength
  intro i hx hy
  have hi := hslot i
  rw [List.getElem?_eq_getElem hx, List.getElem?_eq_getElem hy] at hi
  exact hi

theorem fillSlots_assoc (own inherited above : List (Option ValueDefinition)) :
    fillSlots (fillSlots own inherited) above = fillSlots own (fillSlots inherited above) := by
  apply slots_ext
  · simp only [length_fillSlots, Nat.max_assoc]
  · intro i
    simp only [getElem?_fillSlots, Option.or_assoc]

theorem fillSlots_absorb_right (own inherited : List (Option ValueDefinition)) :
    fillSlots (fillSlots own inherited) inherited = fillSlots own inherited := by
  apply slots_ext
  · simp only [length_fillSlots]
    omega
  · intro i
    simp only [getElem?_fillSlots, Option.or_assoc, Option.or_self]

theorem fillSlots_absorb_left (own inherited : List (Option ValueDefinition)) :
    fillSlots (fillSlots own inherited) own = fillSlots own inherited := by
  apply slots_ext
  · simp only [length_fillSlots]
    omega
  · intro i
    simp only [getElem?_fillSlots]
    cases own[i]?.join <;> simp

theorem mergeParent_eq (own parent : Arguments) :
    own.mergeParent parent =
      ⟨fillSlots own.positional parent.positional, withFresh Prod.fst own.named parent.named,
        withFresh ValueDefinition.name own.properties parent.properties⟩ := by
  rw [mergeParent, addNamed_eq, addProperties_eq]
  rfl

theorem mergeParent_assoc (a b c : Arguments) :
    (a.mergeParent b).mergeParent c = a.mergeParent (b.mergeParent c) := by
  simp only [mergeParent_eq, fillSlots_assoc, withFresh_assoc]

instance : Std.Associative mergeParent := ⟨mergeParent_assoc⟩

theorem mergeParent_absorb_right (a b : Arguments) :
    (a.mergeParent b).mergeParent b = a.mergeParent b := by
  simp only [mergeParent_eq, fillSlots_absorb_right, withFresh_absorb_right]

theorem mergeParent_absorb_left (a b : Arguments) :
    (a.mergeParent b).mergeParent a = a.mergeParent b := by
  simp only [mergeParent_eq, fillSlots_absorb_left, withFresh_absorb_left]

/-- With nothing on top, all slots come through, and of each name the first. -/
theorem empty_mergeParent (parent : Arguments) :
    empty.mergeParent parent =
      ⟨parent.positional, fresh Prod.fst [] parent.named,
        fresh ValueDefinition.name [] parent.properties⟩ := by
  rw [mergeParent_eq]
  rfl

/-- A declaration takes from several templates what it takes from the nearest one that has
taken from those above it. -/
theorem mergeAll_cons (own parent : Arguments) (parents : List Arguments) :
    own.mergeAll (parent :: parents) = own.mergeParent (parent.mergeAll parents) :=
  List.foldl_assoc

/-- Merging is associative and absorbs on both sides: what is beneath already, or on top,
adds nothing when it is laid beneath again. With nothing on top, all of the template comes
through, of each name the first. -/
theorem mergeParent_assoc_and_absorbs (a b c : Arguments) :
    (a.mergeParent b).mergeParent c = a.mergeParent (b.mergeParent c) ∧
      (a.mergeParent b).mergeParent b = a.mergeParent b ∧
      (a.mergeParent b).mergeParent a = a.mergeParent b ∧
      empty.mergeParent b =
        ⟨b.positional, fresh Prod.fst [] b.named,
          fresh ValueDefinition.name [] b.properties⟩ :=
  ⟨mergeParent_assoc a b c, mergeParent_absorb_right a b, mergeParent_absorb_left a b,
    empty_mergeParent b⟩

/-- A property given twice stays so on top, and comes through once from beneath. -/
example :
    mergeParent
        ⟨[none, some (.ofText "constr[1]" "b")], [],
          [.ofText "host" "a", .ofText "host" "b"]⟩
        ⟨[some (.ofText "constr[0]" "c")], [],
          [.ofText "host" "c", .ofText "port" "80", .ofText "port" "81"]⟩ =
      ⟨[some (.ofText "constr[0]" "c"), some (.ofText "constr[1]" "b")], [],
        [.ofText "host" "a", .ofText "host" "b", .ofText "port" "80"]⟩ := rfl

end Arguments

end Wiring
