import Mathlib.Data.List.Find
import Wiring.Proofs.Live.Likeness

/-!
Sets of live values. Of each class of equal items a set holds exactly one, the first, and the
classes stand in the order in which they first occur. So two sets are equal if their items are
the same up to order and repetition, and references to one object collapse whatever ids they
go through.
-/

namespace Wiring

/-- If no two items meet a condition together and one does, then exactly one does. -/
theorem countP_eq_one {α : Type} {p : α → Bool} {xs : List α}
    (hapart : xs.Pairwise fun x y => ¬ (p x ∧ p y)) (hsome : ∃ x ∈ xs, p x) :
    xs.countP p = 1 := by
  induction xs with
  | nil => simp at hsome
  | cons x xs ih =>
    obtain ⟨hx, hxs⟩ := List.pairwise_cons.mp hapart
    by_cases hp : p x
    · have hnone : xs.countP p = 0 := List.countP_eq_zero.mpr fun y hy hpy => hx y hy ⟨hp, hpy⟩
      rw [List.countP_cons_of_pos hp, hnone]
    · obtain ⟨y, hy, hpy⟩ := hsome
      rcases List.mem_cons.mp hy with rfl | hrest
      · exact absurd hpy hp
      · rw [List.countP_cons_of_neg hp, ih hxs ⟨y, hrest, hpy⟩]

namespace Value

/-- The values `ms` stand for the classes of equal values among `vs`, one for each. -/
structure OnePerClass (vs ms : List Value) : Prop where
  /-- There is nothing but the first value of each class. -/
  first : ∀ m ∈ ms, vs.find? m.equals = some m
  /-- The classes are in the order in which they first occur. -/
  ordered : ms.Pairwise fun m n => vs.findIdx m.equals < vs.findIdx n.equals
  one : ∀ v ∈ vs, ms.countP v.equals = 1

section Members

variable {vs ws : List Value}

theorem distinct_members (hvs : ∀ v ∈ vs, v.Built) :
    (members vs).Pairwise fun v w => ¬ v.Same w :=
  have hset : (Shape.set).isUnique = true := rfl
  (built_members hset hvs).wellFormed.distinct_of_sequence hset

/-- A value that equals no member equals none of the values that the set is made of. -/
theorem not_same_of_not_isMember (hvs : ∀ v ∈ vs, v.WellFormed) {v : Value}
    (hnew : ¬ v.isMember (members vs) = true) : ∀ w ∈ vs, ¬ v.Same w := by
  intro w hw hvw
  obtain ⟨m, hm, hwm⟩ := eachMatched_members hvs w hw
  exact hnew ((isMember_iff v _).mpr ⟨m, hm, hvw.trans hwm⟩)

theorem find?_members (hvs : ∀ v ∈ vs, v.WellFormed) :
    ∀ m ∈ members vs, vs.find? m.equals = some m := by
  induction vs using List.reverseRecOn with
  | nil => nofun
  | append_singleton vs v ih =>
    rw [List.forall_mem_append, List.forall_mem_singleton] at hvs
    intro m hm
    rw [members_concat, addMember] at hm
    rw [List.find?_append]
    split at hm
    · rw [ih hvs.1 m hm, Option.some_or]
    · rename_i hnew
      rcases List.mem_append.mp hm with hold | hlast
      · rw [ih hvs.1 m hold, Option.some_or]
      · obtain rfl := List.mem_singleton.mp hlast
        have hnone : vs.find? m.equals = none :=
          List.find?_eq_none.mpr (not_same_of_not_isMember hvs.1 hnew)
        have hself : m.equals m = true := Same.refl hvs.2
        rw [hnone, Option.none_or, List.find?_cons_of_pos hself]

theorem ordered_members (hvs : ∀ v ∈ vs, v.WellFormed) :
    (members vs).Pairwise fun m n => vs.findIdx m.equals < vs.findIdx n.equals := by
  induction vs using List.reverseRecOn with
  | nil => exact .nil
  | append_singleton vs v ih =>
    rw [List.forall_mem_append, List.forall_mem_singleton] at hvs
    -- What is found among the first values is found in the same place when one is added.
    have hplace : ∀ m ∈ members vs, vs.findIdx m.equals < vs.length ∧
        (vs ++ [v]).findIdx m.equals = vs.findIdx m.equals := by
      intro m hm
      have hlt : vs.findIdx m.equals < vs.length :=
        List.findIdx_lt_length_of_exists
          ⟨m, members_subset vs hm, Same.refl (hvs.1 m (members_subset vs hm))⟩
      rw [List.findIdx_append, if_pos hlt]
      exact ⟨hlt, rfl⟩
    have hold : (members vs).Pairwise fun m n =>
        (vs ++ [v]).findIdx m.equals < (vs ++ [v]).findIdx n.equals := by
      apply List.Pairwise.imp_of_mem _ (ih hvs.1)
      intro m n hm hn hlt
      rw [(hplace m hm).2, (hplace n hn).2]
      exact hlt
    rw [members_concat, addMember]
    split
    · exact hold
    · rename_i hnew
      rw [List.pairwise_append]
      refine ⟨hold, List.pairwise_singleton _ v, ?_⟩
      intro m hm n hn
      obtain rfl := List.mem_singleton.mp hn
      have hnone : vs.findIdx n.equals = vs.length :=
        List.findIdx_eq_length_of_false fun w hw =>
          eq_false_of_ne_true (not_same_of_not_isMember hvs.1 hnew w hw)
      have hbehind : vs.length ≤ (vs ++ [n]).findIdx n.equals := by
        rw [List.findIdx_append, hnone, if_neg (Nat.lt_irrefl _)]
        exact Nat.le_add_left _ _
      have hbefore := hplace m hm
      omega

theorem onePerClass_members (hvs : ∀ v ∈ vs, v.Built) : OnePerClass vs (members vs) := by
  have hformed : ∀ v ∈ vs, v.WellFormed := fun v hv => (hvs v hv).wellFormed
  refine ⟨find?_members hformed, ordered_members hformed, ?_⟩
  intro v hv
  obtain ⟨m, hm, hvm⟩ := eachMatched_members hformed v hv
  apply countP_eq_one _ ⟨m, hm, hvm⟩
  apply List.Pairwise.imp_of_mem _ (distinct_members hvs)
  rintro n n' hn - hne ⟨hvn, hvn'⟩
  have hback : n.Same v := Same.symm (hformed v hv) (hformed n (members_subset vs hn)) hvn
  exact hne (hback.trans hvn')

theorem OnePerClass.mem_values {ms : List Value} (hone : OnePerClass vs ms) :
    ∀ m ∈ ms, m ∈ vs :=
  fun m hm => List.mem_of_find?_eq_some (hone.first m hm)

/-- What stands for a class is told by the class. -/
theorem OnePerClass.subset {ms ns : List Value} (hvs : ∀ v ∈ vs, v.WellFormed)
    (hms : OnePerClass vs ms) (hns : OnePerClass vs ns) : ms ⊆ ns := by
  intro m hm
  have hcount : 0 < ns.countP m.equals := by
    rw [hns.one m (hms.mem_values m hm)]
    exact Nat.one_pos
  obtain ⟨n, hn, hmn⟩ := List.countP_pos_iff.mp hcount
  have hmn : m.Same n := hmn
  have hm' := hvs m (hms.mem_values m hm)
  have hn' := hvs n (hns.mem_values n hn)
  have hclass : ∀ v ∈ vs, m.equals v = n.equals v := by
    intro v _
    exact Bool.eq_iff_iff.mpr ⟨(hmn.symm hm' hn').trans, hmn.trans⟩
  have hsome : some m = some n := by
    rw [← hms.first m hm, ← hns.first n hn]
    exact List.find?_congr hclass
  rw [Option.some.inj hsome]
  exact hn

/-- One value for each class, in the order of the classes: there is one way only. -/
theorem OnePerClass.unique {ms ns : List Value} (hvs : ∀ v ∈ vs, v.WellFormed)
    (hms : OnePerClass vs ms) (hns : OnePerClass vs ns) : ms = ns := by
  have hnodup : ∀ {xs : List Value}, OnePerClass vs xs → xs.Nodup := by
    intro xs hxs
    apply hxs.ordered.imp
    rintro m n hlt rfl
    exact Nat.lt_irrefl _ hlt
  have hperm : ms.Perm ns := by
    rw [List.perm_ext_iff_of_nodup (hnodup hms) (hnodup hns)]
    intro m
    exact ⟨fun hm => hms.subset hvs hns hm, fun hm => hns.subset hvs hms hm⟩
  apply List.Perm.eq_of_pairwise _ hms.ordered hns.ordered hperm
  intro m n _ _ hlt hlt'
  exact absurd hlt' (Nat.lt_asymm hlt)

/-- Sets made of some values are equal if each of these has an equal one among the others. -/
theorem same_members {shape : Shape} (hshape : shape.isUnique) (hvs : ∀ v ∈ vs, v.Built)
    (hws : ∀ w ∈ ws, w.Built) (hforth : EachMatched Same vs ws) (hback : EachMatched Same ws vs) :
    (sequence shape (members vs)).Same (.sequence shape (members ws)) := by
  rw [same_set_iff hshape (built_members hshape hvs).wellFormed
    (built_members hshape hws).wellFormed]
  exact ⟨eachMatched_members_of_eachMatched (fun w hw => (hws w hw).wellFormed) hforth,
    eachMatched_members_of_eachMatched (fun v hv => (hvs v hv).wellFormed) hback⟩

end Members

end Value

namespace ValueDefinition

variable (registry : Registry)

/-- A value is the image of a definition: its parts are those of the parts, and of the images
of the items of a set it holds one for each class. -/
inductive Image : ValueDefinition → Value → Prop where
  | scalar {name : String} {value : Scalar} : Image (.scalar name value) (.ofScalar value)
  | reference {name target : String} {object : Instance}
      (hobject : registry.object target = .ok object) :
      Image (.reference name target) (.object object)
  | inner {name : String} {definition : ObjectDefinition} {object : Instance}
      (hobject : registry.object definition.id = .ok object) :
      Image (.inner name definition) (.object object)
  | mapping {name : String} {entries : List (String × ValueDefinition)}
      {values : List (String × Value)} (hkeys : values.map Prod.fst = entries.map Prod.fst)
      (hvalues : List.Forall₂ Image (entries.map Prod.snd) (values.map Prod.snd)) :
      Image (.mapping name entries) (.map values)
  | items {name : String} {shape : Shape} {items : List ValueDefinition} {values : List Value}
      (hshape : shape.isUnique = false) (hitems : List.Forall₂ Image items values) :
      Image (.sequence name shape items) (.sequence shape values)
  | set {name : String} {shape : Shape} {items : List ValueDefinition}
      {values members : List Value} (hshape : shape.isUnique)
      (hitems : List.Forall₂ Image items values) (hmembers : Value.OnePerClass values members) :
      Image (.sequence name shape items) (.sequence shape members)

/-- Two definitions resolve to equal values. -/
def Agree (d e : ValueDefinition) : Prop :=
  ∃ v w, d.ResolvesTo registry v ∧ e.ResolvesTo registry w ∧ v.Same w

variable {registry}

theorem built_of_items {items : List ValueDefinition} {values : List Value}
    (hitems : ∀ item ∈ items, item.WellKeyed)
    (hvalues : List.Forall₂ (ResolvesTo registry) items values) : ∀ v ∈ values, v.Built := by
  intro v hv
  obtain ⟨item, hitem, hresolves⟩ := exists_of_mem_forall₂ hvalues hv
  exact built_of_resolvesTo (hitems item hitem) hresolves

/-- Entries are alike one by one if the keys are the same and the values are related. -/
theorem forall₂_alike_iff {r : ValueDefinition → Value → Prop} {entries : Entries ValueDefinition}
    {values : Entries Value} :
    List.Forall₂ (Entries.Alike r) entries values ↔ values.map Prod.fst = entries.map Prod.fst ∧
      List.Forall₂ r (entries.map Prod.snd) (values.map Prod.snd) := by
  induction entries generalizing values with
  | nil => cases values <;> simp
  | cons entry entries ih =>
    cases values with
    | nil => simp
    | cons value values =>
      simp only [List.forall₂_cons, List.map_cons, List.cons.injEq, ih, Entries.Alike,
        eq_comm (a := value.1)]
      grind

theorem image_of_resolvesTo {d : ValueDefinition} (hd : d.WellKeyed) {v : Value}
    (hv : d.ResolvesTo registry v) : Image registry d v := by
  induction d using induction_parts generalizing v with
  | scalar name value =>
    cases hv
    exact .scalar
  | reference name target =>
    obtain ⟨object, rfl, hobject⟩ := resolvesTo_reference hv
    exact .reference hobject
  | inner name definition =>
    obtain ⟨object, rfl, hobject⟩ := resolvesTo_inner hv
    exact .inner hobject
  | mapping name entries ih =>
    obtain ⟨values, rfl, halike⟩ := resolvesTo_mapping hv
    obtain ⟨hkeys, hvalues⟩ := forall₂_alike_iff.mp halike
    refine .mapping hkeys (forall₂_imp_of_mem hvalues fun item hitem value _ hvalue => ?_)
    obtain ⟨entry, hmem, rfl⟩ := List.mem_map.mp hitem
    exact ih entry hmem (hd.values_of_mapping entry hmem) hvalue
  | sequence name shape items ih =>
    obtain ⟨values, rfl, hvalues⟩ := resolvesTo_sequence hv
    have himages : List.Forall₂ (Image registry) items values :=
      forall₂_imp_of_mem hvalues fun item hitem value _ hvalue =>
        ih item hitem (hd.items_of_sequence item hitem) hvalue
    unfold Value.ofItems
    split
    · rename_i hshape
      have hbuilt := built_of_items hd.items_of_sequence hvalues
      exact .set hshape himages (Value.onePerClass_members hbuilt)
    · rename_i hshape
      exact .items (eq_false_of_ne_true hshape) himages

theorem resolveItems_of_forall₂ {items : List ValueDefinition} {values : List Value}
    (hvalues : List.Forall₂ (ResolvesTo registry) items values) :
    (resolveItems registry items).answer = .ok values := by
  induction hvalues with
  | nil => rfl
  | cons hitem _ ih =>
    rw [ResolvesTo] at hitem
    rw [resolveItems, Traced.answer_bind, hitem]
    change (_ >>= _ : Lookups (List Value)).answer = _
    rw [Traced.answer_bind, ih]
    rfl

theorem resolveEntries_of_forall₂ {entries : Entries ValueDefinition} {values : Entries Value}
    (hvalues : List.Forall₂ (Entries.Alike (ResolvesTo registry)) entries values) :
    (resolveEntries registry entries).answer = .ok values := by
  induction hvalues with
  | nil => rfl
  | @cons entry value _ _ hentry _ ih =>
    obtain ⟨key, d⟩ := entry
    obtain ⟨key', v⟩ := value
    obtain ⟨rfl, hd⟩ := hentry
    rw [ResolvesTo] at hd
    rw [resolveEntries, Traced.answer_bind, hd]
    change (_ >>= _ : Lookups (Entries Value)).answer = _
    rw [Traced.answer_bind, ih]
    rfl

theorem resolvesTo_of_image {d : ValueDefinition} (hd : d.WellKeyed) {v : Value}
    (hv : Image registry d v) : d.ResolvesTo registry v := by
  induction d using induction_parts generalizing v with
  | scalar name value =>
    cases hv
    rfl
  | reference name target =>
    cases hv with
    | reference hobject =>
      rw [ResolvesTo, resolve, Traced.answer_bind, Registry.fetch, hobject]
      rfl
  | inner name definition =>
    cases hv with
    | inner hobject =>
      rw [ResolvesTo, resolve, Traced.answer_bind, Registry.fetch, hobject]
      rfl
  | mapping name entries ih =>
    cases hv with
    | @mapping _ _ values hkeys hvalues =>
      have halike : List.Forall₂ (Entries.Alike (ResolvesTo registry)) entries values := by
        apply forall₂_alike_iff.mpr ⟨hkeys, _⟩
        apply forall₂_imp_of_mem hvalues
        intro entry hentry value _ hvalue
        obtain ⟨entry, hmem, rfl⟩ := List.mem_map.mp hentry
        exact ih entry hmem (hd.values_of_mapping entry hmem) hvalue
      rw [ResolvesTo, resolve, Traced.answer_bind, resolveEntries_of_forall₂ halike]
      rfl
  | sequence name shape items ih =>
    have hresolves : ∀ {values : List Value}, List.Forall₂ (Image registry) items values →
        List.Forall₂ (ResolvesTo registry) items values := by
      intro values himages
      exact forall₂_imp_of_mem himages fun item hitem value _ hvalue =>
        ih item hitem (hd.items_of_sequence item hitem) hvalue
    rw [ResolvesTo, resolve, Traced.answer_bind]
    cases hv with
    | items hshape hitems =>
      rw [resolveItems_of_forall₂ (hresolves hitems)]
      change Except.ok (Value.ofItems shape _) = _
      rw [Value.ofItems, hshape]
      rfl
    | set hshape hitems hmembers =>
      have hbuilt := built_of_items hd.items_of_sequence (hresolves hitems)
      rw [resolveItems_of_forall₂ (hresolves hitems)]
      change Except.ok (Value.ofItems shape _) = _
      rw [Value.ofItems, if_pos hshape,
        hmembers.unique (fun v hv => (hbuilt v hv).wellFormed) (Value.onePerClass_members hbuilt)]

/-- A sequence resolves if each of its items does. -/
theorem exists_resolvesTo_sequence_iff (name : String) (shape : Shape)
    (items : List ValueDefinition) :
    (∃ v, (sequence name shape items).ResolvesTo registry v) ↔
      ∀ item ∈ items, ∃ v, item.ResolvesTo registry v := by
  simp only [ResolvesTo, exists_resolve_iff, targets, targetsOfItems_eq, List.mem_flatMap]
  grind

section Sets

variable {name : String} {shape : Shape} {items others : List ValueDefinition} {v : Value}

/-- Sets whose items agree with each other resolve to equal values. -/
theorem exists_same_of_agree (hshape : shape.isUnique) (hitems : ∀ item ∈ items, item.WellKeyed)
    (hothers : ∀ other ∈ others, other.WellKeyed)
    (hforth : EachMatched (Agree registry) items others)
    (hback : EachMatched (Agree registry) others items)
    (hv : (sequence name shape items).ResolvesTo registry v) (otherName : String) :
    ∃ w, (sequence otherName shape others).ResolvesTo registry w ∧ v.Same w := by
  have hresolves : ∃ w, (sequence otherName shape others).ResolvesTo registry w := by
    rw [exists_resolvesTo_sequence_iff]
    intro other hother
    obtain ⟨_, _, w, _, hw, _⟩ := hback other hother
    exact ⟨w, hw⟩
  -- Items that agree have equal values, since an item resolves to one value alone.
  have hmatched : ∀ {ds es : List ValueDefinition} {vs ws : List Value},
      List.Forall₂ (ResolvesTo registry) ds vs → List.Forall₂ (ResolvesTo registry) es ws →
      EachMatched (Agree registry) ds es → EachMatched Value.Same vs ws := by
    intro ds es vs ws hvs hws hagree v hv
    obtain ⟨d, hd, hdv⟩ := exists_of_mem_forall₂ hvs hv
    obtain ⟨e, he, v', w', hdv', hew', hsame⟩ := hagree d hd
    obtain ⟨w, hw, hew⟩ := exists_of_mem_forall₂ hws.flip he
    obtain rfl : v = v' := Except.ok.inj (hdv.symm.trans hdv')
    obtain rfl : w = w' := Except.ok.inj (hew.symm.trans hew')
    exact ⟨w, hw, hsame⟩
  obtain ⟨w, hw⟩ := hresolves
  obtain ⟨values, rfl, hvalues⟩ := resolvesTo_sequence hv
  obtain ⟨values', rfl, hvalues'⟩ := resolvesTo_sequence hw
  refine ⟨_, hw, ?_⟩
  rw [Value.ofItems, Value.ofItems, if_pos hshape, if_pos hshape]
  exact Value.same_members hshape (built_of_items hitems hvalues)
    (built_of_items hothers hvalues') (hmatched hvalues hvalues' hforth)
    (hmatched hvalues' hvalues hback)

/-- References to one object are one member, whatever they go through. -/
theorem eq_singleton_of_resolvesTo {object : Instance} (hshape : shape.isUnique)
    (hne : items ≠ []) (hitems : ∀ item ∈ items, item.ResolvesTo registry (.object object))
    (hv : (sequence name shape items).ResolvesTo registry v) :
    v = .sequence shape [.object object] := by
  obtain ⟨values, rfl, hvalues⟩ := resolvesTo_sequence hv
  have hobjects : ∀ value ∈ values, value = .object object := by
    intro value hvalue
    obtain ⟨item, hitem, hresolves⟩ := exists_of_mem_forall₂ hvalues hvalue
    exact Except.ok.inj (hresolves.symm.trans (hitems item hitem))
  have hbuilt : ∀ value ∈ values, value.Built := by
    intro value hvalue
    rw [hobjects value hvalue]
    exact .plain rfl
  have hone := Value.onePerClass_members hbuilt
  -- All members are the object, so as many equal it as there are.
  have hmembers : ∀ m ∈ Value.members values, m = .object object := fun m hm =>
    hobjects m (Value.members_subset values hm)
  have hcount : (Value.members values).countP (Value.object object).equals =
      (Value.members values).length := by
    rw [List.countP_eq_length]
    intro m hm
    rw [hmembers m hm]
    exact Value.Same.refl (.plain rfl)
  have hlength : (Value.members values).length = 1 := by
    obtain ⟨item, rest, rfl⟩ := List.exists_cons_of_ne_nil hne
    obtain ⟨value, _, hvalue, -, rfl⟩ := List.forall₂_cons_left_iff.mp hvalues
    rw [← hcount, ← hobjects value List.mem_cons_self]
    exact hone.one value List.mem_cons_self
  obtain ⟨m, hm⟩ := List.length_eq_one_iff.mp hlength
  rw [Value.ofItems, if_pos hshape, hm, hmembers m (by simp [hm])]

/-- What the same items make in another order, or repeated, is equal. -/
theorem exists_same_of_mem_iff (hshape : shape.isUnique)
    (hitems : ∀ item ∈ items, item.WellKeyed) (hsame : ∀ item, item ∈ others ↔ item ∈ items)
    (hv : (sequence name shape items).ResolvesTo registry v) (otherName : String) :
    ∃ w, (sequence otherName shape others).ResolvesTo registry w ∧ v.Same w := by
  have hagree : ∀ item ∈ items, Agree registry item item := by
    intro item hitem
    obtain ⟨u, hu⟩ := (exists_resolvesTo_sequence_iff name shape items).mp ⟨v, hv⟩ item hitem
    exact ⟨u, u, hu, hu, Value.Same.refl (built_of_resolvesTo (hitems item hitem) hu).wellFormed⟩
  apply exists_same_of_agree hshape hitems _ _ _ hv otherName
  · exact fun other hother => hitems other ((hsame other).mp hother)
  · exact fun item hitem => ⟨item, (hsame item).mpr hitem, hagree item hitem⟩
  · intro other hother
    have hitem := (hsame other).mp hother
    exact ⟨other, hitem, hagree other hitem⟩

end Sets

/-- A definition resolves to its images, in which every set, at any depth, holds one value for
each class of equal items, the first, in the order of the classes. Sets whose items are the
same up to order and repetition, or agree one by one, resolve to equal values. Items that all
resolve to one object make a set of one member. -/
theorem resolve_true_sets (registry : Registry) :
    (∀ d v, d.WellKeyed → ((d.resolve registry).answer = .ok v ↔ Image registry d v)) ∧
    ∀ name shape items v, shape.isUnique → (∀ item ∈ items, item.WellKeyed) →
      ((sequence name shape items).resolve registry).answer = .ok v →
      (∀ otherName others, (∀ item, item ∈ others ↔ item ∈ items) →
        ∃ w, ((sequence otherName shape others).resolve registry).answer = .ok w ∧ v.equals w) ∧
      (∀ otherName others, (∀ other ∈ others, other.WellKeyed) →
        EachMatched (Agree registry) items others → EachMatched (Agree registry) others items →
        ∃ w, ((sequence otherName shape others).resolve registry).answer = .ok w ∧ v.equals w) ∧
      ∀ object, items ≠ [] →
        (∀ item ∈ items, (item.resolve registry).answer = .ok (.object object)) →
        v = .sequence shape [.object object] := by
  constructor
  · intro d v hd
    exact ⟨image_of_resolvesTo hd, resolvesTo_of_image hd⟩
  · intro name shape items v hshape hitems hv
    refine ⟨?_, ?_, ?_⟩
    · intro otherName others hsame
      exact exists_same_of_mem_iff hshape hitems hsame hv otherName
    · intro otherName others hothers hforth hback
      exact exists_same_of_agree hshape hitems hothers hforth hback hv otherName
    · intro object hne hobjects
      exact eq_singleton_of_resolvesTo hshape hne hobjects hv

/-- A registry that has one object under two ids. -/
def aliased : StaticRegistry := alone.insert "main" ⟨"db"⟩

/-- A reference below a frozen set. -/
def frozenReference (target : String) : ValueDefinition :=
  .sequence "frozen" .frozenSet [.reference "r" target, .scalar "n" .null, .reference "r" target]

/-- A set of two references to one object, each also in a frozen set of its own. -/
def aliases : List ValueDefinition :=
  [.reference "a" "db", frozenReference "db", .reference "b" "main", frozenReference "main"]

theorem wellKeyed_aliases : ∀ item ∈ aliases, item.WellKeyed := by
  simp [aliases, frozenReference, WellKeyed.reference, WellKeyed.scalar, WellKeyed.sequence]

/-- The frozen sets collapse, and then so do the references and the frozen sets in the set.
In another order, with a repetition, they make an equal set. -/
theorem resolve_true_sets_aliases :
    let members : List Value :=
      [.object ⟨"db"⟩, .sequence .frozenSet [.object ⟨"db"⟩, .null]]
    Image aliased.toRegistry (.sequence "s" .set aliases) (.sequence .set members) ∧
      (∃ w, ((sequence "t" .set (aliases.reverse ++ aliases)).resolve aliased.toRegistry).answer =
        .ok w ∧ (Value.sequence .set members).equals w) ∧
      ∃ v, ((sequence "u" .set [.reference "a" "db", .reference "b" "main"]).resolve
        aliased.toRegistry).answer = .ok v ∧ v = .sequence .set [.object ⟨"db"⟩] := by
  intro members
  obtain ⟨himage, hsets⟩ := resolve_true_sets aliased.toRegistry
  have hresolve : ((sequence "s" .set aliases).resolve aliased.toRegistry).answer =
      .ok (.sequence .set members) := by
    rfl
  refine ⟨(himage _ _ (.sequence wellKeyed_aliases)).mp hresolve, ?_, ?_⟩
  · apply (hsets "s" .set aliases _ rfl wellKeyed_aliases hresolve).1
    simp
  · have hpair : ∃ v, ((sequence "u" .set [.reference "a" "db", .reference "b" "main"]).resolve
        aliased.toRegistry).answer = .ok v := ⟨_, rfl⟩
    obtain ⟨v, hv⟩ := hpair
    refine ⟨v, hv, (hsets "u" .set _ v rfl ?_ hv).2.2 ⟨"db"⟩ (by simp) ?_⟩
    · simp [WellKeyed.reference]
    · rw [List.forall_mem_cons, List.forall_mem_singleton]
      exact ⟨rfl, rfl⟩

end ValueDefinition

end Wiring
