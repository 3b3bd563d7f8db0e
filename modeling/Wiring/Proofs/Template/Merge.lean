import Wiring.Template.Arguments

/-!
Merging, in closed form. A slot takes the nearest value, a named argument the nearest
value of its key, and whatever is inherited beyond that goes behind what is there, the
first of each name. Folding several templates into a declaration has the same form, with
the inherited items of all templates in a row.
-/

namespace Wiring

/-- The items whose keys are not among `known`, and of each key only the first. -/
def fresh {α : Type} (key : α → String) (known : List String) (items : List α) : List α :=
  (items.filter fun x => key x ∉ known).eraseDupsBy fun a b => key a == key b

section Fresh

variable {α : Type} (key : α → String)

@[simp] theorem fresh_nil (known : List String) : fresh key known [] = [] := rfl

theorem fresh_cons_of_mem {known : List String} {x : α} (hx : key x ∈ known) (xs : List α) :
    fresh key known (x :: xs) = fresh key known xs := by
  simp [fresh, hx]

theorem fresh_cons_of_not_mem {known : List String} {x : α} (hx : key x ∉ known)
    (xs : List α) : fresh key known (x :: xs) = x :: fresh key (known ++ [key x]) xs := by
  unfold fresh
  rw [List.filter_cons_of_pos (by simpa using hx), List.eraseDupsBy_cons, List.filter_filter]
  congr 2
  apply List.filter_congr
  intro y _
  simp [and_comm]

theorem fresh_append (known : List String) (xs ys : List α) :
    fresh key known (xs ++ ys) =
      fresh key known xs ++ fresh key (known ++ (fresh key known xs).map key) ys := by
  induction xs generalizing known with
  | nil => simp
  | cons x xs ih =>
    by_cases hx : key x ∈ known
    · simp [fresh_cons_of_mem key hx, ih]
    · simp [fresh_cons_of_not_mem key hx, ih]

theorem mem_of_mem_fresh {known : List String} {items : List α} {x : α}
    (hx : x ∈ fresh key known items) : x ∈ items := by
  induction items generalizing known with
  | nil => exact hx
  | cons y ys ih =>
    by_cases hy : key y ∈ known
    · rw [fresh_cons_of_mem key hy] at hx
      exact List.mem_cons_of_mem y (ih hx)
    · rw [fresh_cons_of_not_mem key hy] at hx
      rcases List.mem_cons.mp hx with rfl | hrest
      · exact List.mem_cons_self
      · exact List.mem_cons_of_mem y (ih hrest)

/-- Items with distinct keys that are all unknown are fresh as they stand. -/
theorem fresh_eq_self {known : List String} {items : List α} (hdistinct : (items.map key).Nodup)
    (hunknown : ∀ x ∈ items, key x ∉ known) : fresh key known items = items := by
  induction items generalizing known with
  | nil => rfl
  | cons x xs ih =>
    obtain ⟨hx, hxs⟩ := List.nodup_cons.mp hdistinct
    rw [fresh_cons_of_not_mem key (hunknown x List.mem_cons_self), ih hxs]
    intro y hy hmem
    rcases List.mem_append.mp hmem with hknown | hsame
    · exact hunknown y (List.mem_cons_of_mem x hy) hknown
    · exact hx (List.mem_singleton.mp hsame ▸ List.mem_map_of_mem hy)

/-- Every key is known or that of a fresh item. -/
theorem mem_keys_fresh (known : List String) {items : List α} {x : α} (hx : x ∈ items) :
    key x ∈ known ++ (fresh key known items).map key := by
  induction items generalizing known with
  | nil => cases hx
  | cons y ys ih =>
    by_cases hy : key y ∈ known
    · rw [fresh_cons_of_mem key hy]
      rcases List.mem_cons.mp hx with rfl | hrest
      · exact List.mem_append_left _ hy
      · exact ih known hrest
    · rw [fresh_cons_of_not_mem key hy, List.map_cons]
      rcases List.mem_cons.mp hx with rfl | hrest
      · exact List.mem_append_right _ List.mem_cons_self
      · simpa using ih (known ++ [key y]) hrest

/-- Taking the fresh items before changes nothing, if less was known then. -/
theorem fresh_fresh {known before : List String} (hbefore : ∀ k ∈ before, k ∈ known)
    (items : List α) : fresh key known (fresh key before items) = fresh key known items := by
  induction items generalizing known before with
  | nil => rfl
  | cons x xs ih =>
    by_cases hx : key x ∈ before
    · rw [fresh_cons_of_mem key hx, fresh_cons_of_mem key (hbefore _ hx), ih hbefore]
    · rw [fresh_cons_of_not_mem key hx]
      have hsnoc : ∀ {more : List String}, key x ∈ more → (∀ k ∈ before, k ∈ more) →
          ∀ k ∈ before ++ [key x], k ∈ more := by
        intro more hmore hall k hk
        rcases List.mem_append.mp hk with hold | hnew
        · exact hall k hold
        · exact List.mem_singleton.mp hnew ▸ hmore
      by_cases hknown : key x ∈ known
      · rw [fresh_cons_of_mem key hknown, fresh_cons_of_mem key hknown,
          ih (hsnoc hknown hbefore)]
      · rw [fresh_cons_of_not_mem key hknown, fresh_cons_of_not_mem key hknown, ih]
        exact hsnoc (List.mem_append_right _ List.mem_cons_self)
          fun k hk => List.mem_append_left _ (hbefore k hk)

/-- Adding items one by one, each unless its key is there, adds the fresh ones. -/
theorem foldl_eq_append_fresh (add : List α → α → List α)
    (hadd : ∀ own x, add own x = if key x ∈ own.map key then own else own ++ [x])
    (own items : List α) :
    items.foldl add own = own ++ fresh key (own.map key) items := by
  induction items generalizing own with
  | nil => simp
  | cons x xs ih =>
    rw [List.foldl_cons, ih, hadd]
    by_cases hx : key x ∈ own.map key
    · rw [if_pos hx, fresh_cons_of_mem key hx]
    · rw [if_neg hx, fresh_cons_of_not_mem key hx]
      simp

end Fresh

namespace Arguments

/-- The value in a positional slot, if there is one. -/
def slot? (args : Arguments) (i : Nat) : Option ValueDefinition := args.positional[i]?.join

theorem length_fillSlots (own inherited : List (Option ValueDefinition)) :
    (fillSlots own inherited).length = max own.length inherited.length := by
  fun_induction fillSlots own inherited with
  | case1 => simp
  | case2 => simp
  | case3 value own slot inherited ih => simp [ih]
  | case4 own slot inherited ih => simp [ih]

theorem getElem?_fillSlots (own inherited : List (Option ValueDefinition)) (i : Nat) :
    (fillSlots own inherited)[i]?.join = own[i]?.join.or inherited[i]?.join := by
  fun_induction fillSlots own inherited generalizing i with
  | case1 => simp
  | case2 => simp
  | case3 value own slot inherited ih => cases i <;> simp [ih]
  | case4 own slot inherited ih => cases i <;> simp [ih]

theorem slot?_mergeParent (own parent : Arguments) (i : Nat) :
    (own.mergeParent parent).slot? i = (own.slot? i).or (parent.slot? i) :=
  getElem?_fillSlots own.positional parent.positional i

theorem addNamed_eq (own inherited : Entries ValueDefinition) :
    addNamed own inherited = own ++ fresh Prod.fst (Entries.keys own) inherited := by
  apply foldl_eq_append_fresh Prod.fst
  intro own entry
  rw [Entries.putNew]
  simp only [Entries.hasKey_iff_mem_keys, Entries.keys]

theorem addProperties_eq (own inherited : List ValueDefinition) :
    addProperties own inherited =
      own ++ fresh ValueDefinition.name (own.map ValueDefinition.name) inherited := by
  apply foldl_eq_append_fresh ValueDefinition.name
  intro own p
  simp [addProperty, hasProperty]

theorem find?_addNamed (own inherited : Entries ValueDefinition) (key : String) :
    Entries.find? key (addNamed own inherited) =
      (Entries.find? key own).or (Entries.find? key inherited) := by
  unfold addNamed
  induction inherited generalizing own with
  | nil => simp [Entries.find?]
  | cons entry inherited ih =>
    rw [List.foldl_cons, ih, Entries.find?_putNew]
    by_cases hkey : entry.1 = key
    · subst hkey
      cases Entries.find? entry.1 own <;> simp [Entries.find?]
    · simp [Entries.find?, hkey, Ne.symm hkey]

/-! Merging a list of arguments, nearest first. -/

/-- The arguments with those of several templates beneath them, nearest first. -/
def mergeAll (own : Arguments) (parents : List Arguments) : Arguments :=
  parents.foldl mergeParent own

theorem length_positional_mergeAll (own : Arguments) (parents : List Arguments) :
    (own.mergeAll parents).positional.length =
      ((own :: parents).map fun args => args.positional.length).foldr max 0 := by
  induction parents generalizing own with
  | nil => simp [mergeAll]
  | cons parent parents ih =>
    have hstep := ih (own.mergeParent parent)
    simp only [mergeAll, List.map_cons, List.foldr_cons, List.foldl_cons] at hstep ⊢
    rw [hstep]
    simp [mergeParent, length_fillSlots, Nat.max_assoc]

/-- What a merge takes from the nearer of two, a merge of several takes from the nearest. -/
theorem view_mergeAll {γ : Type} (view : Arguments → Option γ)
    (hview : ∀ own parent, view (own.mergeParent parent) = (view own).or (view parent))
    (own : Arguments) (parents : List Arguments) :
    view (own.mergeAll parents) = (own :: parents).findSome? view := by
  induction parents generalizing own with
  | nil => cases h : view own <;> simp [mergeAll, h]
  | cons parent parents ih =>
    calc view (own.mergeAll (parent :: parents))
      _ = (own.mergeParent parent :: parents).findSome? view := ih (own.mergeParent parent)
      _ = (own :: parent :: parents).findSome? view := by
        simp only [List.findSome?_cons, hview]
        cases view own <;> rfl

theorem slot?_mergeAll (own : Arguments) (parents : List Arguments) (i : Nat) :
    (own.mergeAll parents).slot? i =
      (own :: parents).findSome? fun args => args.slot? i :=
  view_mergeAll (fun args => args.slot? i)
    (fun own parent => slot?_mergeParent own parent i) own parents

theorem named_mergeAll (own : Arguments) (parents : List Arguments) :
    (own.mergeAll parents).named =
      own.named ++ fresh Prod.fst (Entries.keys own.named) (parents.flatMap named) := by
  induction parents generalizing own with
  | nil => simp [mergeAll]
  | cons parent parents ih =>
    have hstep := ih (own.mergeParent parent)
    simp only [mergeAll, List.foldl_cons, List.flatMap_cons] at hstep ⊢
    rw [hstep, fresh_append]
    simp [mergeParent, addNamed_eq, Entries.keys]

theorem properties_mergeAll (own : Arguments) (parents : List Arguments) :
    (own.mergeAll parents).properties =
      own.properties ++ fresh ValueDefinition.name
        (own.properties.map ValueDefinition.name) (parents.flatMap properties) := by
  induction parents generalizing own with
  | nil => simp [mergeAll]
  | cons parent parents ih =>
    have hstep := ih (own.mergeParent parent)
    simp only [mergeAll, List.foldl_cons, List.flatMap_cons] at hstep ⊢
    rw [hstep, fresh_append]
    simp [mergeParent, addProperties_eq]

theorem find?_mergeAll_named (own : Arguments) (parents : List Arguments) (key : String) :
    Entries.find? key (own.mergeAll parents).named =
      (own :: parents).findSome? fun args => Entries.find? key args.named :=
  view_mergeAll (fun args => Entries.find? key args.named)
    (fun own parent => find?_addNamed own.named parent.named key) own parents

end Arguments

end Wiring
