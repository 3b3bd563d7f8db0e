import Mathlib.Data.List.Induction
import Wiring.Proofs.Definition.Equality
import Wiring.Proofs.Live.Building
import Wiring.Proofs.Live.Lookup

/-!
Equal definitions resolve alike. They refer to the same objects the same number of times,
if in another order, so a registry that answers all that one of them asks for answers all
that the other does, and then the values they resolve to are equal. Floats are compared as
numbers in a definition and by their bits in a value, so this is not so for a zero.
-/

namespace Wiring

namespace Value

/-! Sets made of values that are equal in turn. -/

section Members

theorem members_concat (vs : List Value) (v : Value) :
    members (vs ++ [v]) = addMember (members vs) v := by
  rw [members, List.foldl_append]
  rfl

theorem subset_addMember (ms : List Value) (v : Value) : ms ⊆ addMember ms v := by
  unfold addMember
  split
  · exact List.Subset.refl ms
  · exact List.subset_append_left ms [v]

theorem mem_addMember {ms : List Value} {v w : Value} (hw : w ∈ addMember ms v) :
    w ∈ ms ∨ w = v := by
  unfold addMember at hw
  split at hw
  · exact Or.inl hw
  · exact (List.mem_append.mp hw).imp_right List.mem_singleton.mp

/-- The set of some values has nothing but these. -/
theorem members_subset (vs : List Value) : members vs ⊆ vs := by
  induction vs using List.reverseRecOn with
  | nil => exact List.Subset.refl []
  | append_singleton vs v ih =>
    intro w hw
    rw [members_concat] at hw
    rcases mem_addMember hw with hold | rfl
    · exact List.mem_append_left _ (ih hold)
    · exact List.mem_append_right _ (List.mem_singleton_self w)

/-- It has each of them, or an equal one. -/
theorem eachMatched_members {vs : List Value} (hvs : ∀ v ∈ vs, v.WellFormed) :
    EachMatched Same vs (members vs) := by
  induction vs using List.reverseRecOn with
  | nil => simp [EachMatched]
  | append_singleton vs v ih =>
    rw [List.forall_mem_append] at hvs
    rw [members_concat]
    intro w hw
    rcases List.mem_append.mp hw with hold | hlast
    · obtain ⟨m, hm, hsame⟩ := ih hvs.1 w hold
      exact ⟨m, subset_addMember _ v hm, hsame⟩
    · obtain rfl := List.mem_singleton.mp hlast
      unfold addMember
      split
      · rename_i hfound
        exact (isMember_iff w _).mp hfound
      · exact ⟨w, List.mem_append_right _ (List.mem_singleton_self w),
          Same.refl (hvs.2 w (List.mem_singleton_self w))⟩

/-- Whatever has an equal one among some values has one in the set of them. -/
theorem eachMatched_members_of_eachMatched {vs ws : List Value} (hws : ∀ w ∈ ws, w.WellFormed)
    (hmatched : EachMatched Same vs ws) : EachMatched Same (members vs) (members ws) := by
  intro v hv
  obtain ⟨w, hw, hvw⟩ := hmatched v (members_subset vs hv)
  obtain ⟨m, hm, hwm⟩ := eachMatched_members hws w hw
  exact ⟨m, hm, hvw.trans hwm⟩

/-- Sequences of a shape are equal if they are made of items that are equal in turn. -/
theorem same_ofItems (shape : Shape) {vs ws : List Value} (hvs : ∀ v ∈ vs, v.Built)
    (hws : ∀ w ∈ ws, w.Built) (hsame : List.Forall₂ Same vs ws) :
    (ofItems shape vs).Same (ofItems shape ws) := by
  have hvs' : ∀ v ∈ vs, v.WellFormed := fun v hv => (hvs v hv).wellFormed
  have hws' : ∀ w ∈ ws, w.WellFormed := fun w hw => (hws w hw).wellFormed
  unfold ofItems
  split
  · rename_i hunique
    have hforth : EachMatched Same vs ws := by
      intro v hv
      exact exists_of_mem_forall₂ hsame.flip hv
    have hback : EachMatched Same ws vs := by
      intro w hw
      obtain ⟨v, hv, hvw⟩ := exists_of_mem_forall₂ hsame hw
      exact ⟨v, hv, hvw.symm (hvs' v hv) (hws' w hw)⟩
    rw [same_set_iff hunique (built_members hunique hvs).wellFormed
      (built_members hunique hws).wellFormed]
    exact ⟨eachMatched_members_of_eachMatched hws' hforth,
      eachMatched_members_of_eachMatched hvs' hback⟩
  · rename_i hunique
    rw [same_sequence_iff]
    refine ⟨ws, rfl, ?_⟩
    rw [if_neg hunique]
    exact hsame

end Members

/-- A map is built by putting its entries in one after the other. -/
theorem built_map {entries : Entries Value} (hkeys : entries.KeysDistinct)
    (hvalues : ∀ entry ∈ entries, entry.2.Built) : (map entries).Built := by
  induction entries using List.reverseRecOn with
  | nil => exact .noEntries
  | append_singleton entries entry ih =>
    obtain ⟨key, v⟩ := entry
    rw [Entries.KeysDistinct, Entries.keys, List.map_append, List.nodup_append] at hkeys
    rw [List.forall_mem_append] at hvalues
    have hnew : key ∉ Entries.keys entries := by
      intro hmem
      exact hkeys.2.2 key hmem key (by simp) rfl
    rw [← Entries.put_of_not_mem v hnew]
    exact (ih hkeys.1 hvalues.1).put (hvalues.2 _ (List.mem_singleton_self _))

end Value

namespace ValueDefinition

/-! What resolution asks for, and whether it is answered. -/

section Targets

theorem targetsOfItems_eq (items : List ValueDefinition) :
    targetsOfItems items = items.flatMap targets := by
  induction items with
  | nil => rw [targetsOfItems, List.flatMap_nil]
  | cons item items ih => rw [targetsOfItems, ih, List.flatMap_cons]

theorem targetsOfEntries_eq (entries : Entries ValueDefinition) :
    targetsOfEntries entries = entries.flatMap fun entry => entry.2.targets := by
  induction entries with
  | nil => rw [targetsOfEntries, List.flatMap_nil]
  | cons entry entries ih => rw [targetsOfEntries, ih, List.flatMap_cons]

theorem flatMap_perm_of_forall₂ {α β γ : Type} {f : α → List γ} {g : β → List γ} {xs : List α}
    {ys : List β} (hperm : List.Forall₂ (fun x y => (f x).Perm (g y)) xs ys) :
    (xs.flatMap f).Perm (ys.flatMap g) := by
  induction hperm with
  | nil => exact List.Perm.refl []
  | cons hx _ ih =>
    rw [List.flatMap_cons, List.flatMap_cons]
    exact hx.append ih

/-- Equal definitions have the same targets, each as often. -/
theorem targets_perm_of_same {d e : ValueDefinition} (hd : d.WellKeyed) (hsame : d.Same e) :
    d.targets.Perm e.targets := by
  induction d using induction_parts generalizing e with
  | scalar name value =>
    obtain ⟨other, rfl, -⟩ := (same_scalar_iff name value).mp hsame
    rw [targets, targets]
  | reference name target => rw [(same_reference_iff name target).mp hsame]
  | inner name definition =>
    obtain ⟨other, rfl, hequal⟩ := (same_inner_iff name definition).mp hsame
    rw [targets, targets, ObjectDefinition.id_eq_of_equals hequal]
  | mapping name entries ih =>
    obtain ⟨others, rfl, hlength, hfound⟩ := (same_mapping_iff name entries).mp hsame
    have hapart := Entries.matchedApart_alike (r := Same) hd.keys_of_mapping others
    obtain ⟨partners, hpartners, hperm⟩ := exists_perm_partners hapart
      (Entries.eachMatched_of_find? hfound) (Nat.le_of_eq hlength.symm)
    rw [targets, targets, targetsOfEntries_eq, targetsOfEntries_eq]
    refine List.Perm.trans (flatMap_perm_of_forall₂ ?_) (hperm.flatMap_right _)
    apply forall₂_imp_of_mem hpartners
    intro entry hmem other _ halike
    exact ih entry hmem (hd.values_of_mapping entry hmem) halike.2
  | sequence name shape items ih =>
    obtain ⟨others, rfl, hitems⟩ := (same_sequence_iff name shape items).mp hsame
    rw [targets, targets, targetsOfItems_eq, targetsOfItems_eq]
    apply flatMap_perm_of_forall₂
    apply forall₂_imp_of_mem hitems
    intro item hmem other _ halike
    exact ih item hmem (hd.items_of_sequence item hmem) halike

variable (registry : Registry)

/-- Resolution succeeds if the registry answers all that is asked for. -/
theorem exists_resolve_iff (d : ValueDefinition) :
    (∃ v, (d.resolve registry).answer = .ok v) ↔ ∀ t ∈ d.targets, registry.Answers t := by
  have hasks := asks_resolve registry d
  generalize d.resolve registry = x at hasks
  cases hasks with
  | answered hall value => exact ⟨fun _ => hall, fun _ => ⟨value, rfl⟩⟩
  | @refused before after id e htargets _ hid =>
    refine ⟨nofun, fun hall => ?_⟩
    obtain ⟨object, hobject⟩ := hall id (by simp [htargets])
    rw [hid] at hobject
    cases hobject

theorem trace_of_resolve {d : ValueDefinition} {v : Value}
    (hv : (d.resolve registry).answer = .ok v) :
    (d.resolve registry).trace = d.targets.map .object := by
  have hasks := asks_resolve registry d
  generalize d.resolve registry = x at hasks hv
  cases hasks with
  | answered _ value => rfl
  | refused _ _ _ => cases hv

end Targets

/-! What collections resolve to. -/

section Results

variable {registry : Registry}

/-- A value that a definition resolves to. -/
def ResolvesTo (registry : Registry) (d : ValueDefinition) (v : Value) : Prop :=
  (d.resolve registry).answer = .ok v

theorem forall₂_resolveItems {items : List ValueDefinition} {values : List Value}
    (hvalues : (resolveItems registry items).answer = .ok values) :
    List.Forall₂ (ResolvesTo registry) items values := by
  induction items generalizing values with
  | nil =>
    rw [resolveItems] at hvalues
    cases hvalues
    exact .nil
  | cons item items ih =>
    rw [resolveItems] at hvalues
    obtain ⟨value, hvalue, hvalues⟩ := Traced.exists_of_bind hvalues
    obtain ⟨rest, hrest, hvalues⟩ := Traced.exists_of_bind hvalues
    cases hvalues
    exact .cons hvalue (ih hrest)

theorem forall₂_resolveEntries {entries : Entries ValueDefinition} {values : Entries Value}
    (hvalues : (resolveEntries registry entries).answer = .ok values) :
    List.Forall₂ (Entries.Alike (ResolvesTo registry)) entries values := by
  induction entries generalizing values with
  | nil =>
    rw [resolveEntries] at hvalues
    cases hvalues
    exact .nil
  | cons entry entries ih =>
    obtain ⟨key, d⟩ := entry
    rw [resolveEntries] at hvalues
    obtain ⟨value, hvalue, hvalues⟩ := Traced.exists_of_bind hvalues
    obtain ⟨rest, hrest, hvalues⟩ := Traced.exists_of_bind hvalues
    cases hvalues
    exact .cons ⟨rfl, hvalue⟩ (ih hrest)

variable {name : String} {v : Value}

theorem resolvesTo_mapping {entries : Entries ValueDefinition}
    (hv : (mapping name entries).ResolvesTo registry v) :
    ∃ values, v = .map values ∧
      List.Forall₂ (Entries.Alike (ResolvesTo registry)) entries values := by
  rw [ResolvesTo, resolve] at hv
  obtain ⟨values, hvalues, hv⟩ := Traced.exists_of_bind hv
  cases hv
  exact ⟨values, rfl, forall₂_resolveEntries hvalues⟩

theorem resolvesTo_sequence {shape : Shape} {items : List ValueDefinition}
    (hv : (sequence name shape items).ResolvesTo registry v) :
    ∃ values, v = .ofItems shape values ∧ List.Forall₂ (ResolvesTo registry) items values := by
  rw [ResolvesTo, resolve] at hv
  obtain ⟨values, hvalues, hv⟩ := Traced.exists_of_bind hv
  cases hv
  exact ⟨values, rfl, forall₂_resolveItems hvalues⟩

theorem resolvesTo_reference {target : String}
    (hv : (reference name target).ResolvesTo registry v) :
    ∃ object, v = .object object ∧ registry.object target = .ok object := by
  rw [ResolvesTo, resolve] at hv
  obtain ⟨object, hobject, hv⟩ := Traced.exists_of_bind hv
  cases hv
  exact ⟨object, rfl, hobject⟩

theorem resolvesTo_inner {definition : ObjectDefinition}
    (hv : (inner name definition).ResolvesTo registry v) :
    ∃ object, v = .object object ∧ registry.object definition.id = .ok object := by
  rw [ResolvesTo, resolve] at hv
  obtain ⟨object, hobject, hv⟩ := Traced.exists_of_bind hv
  cases hv
  exact ⟨object, rfl, hobject⟩

theorem keys_eq_of_forall₂ {entries : Entries ValueDefinition} {values : Entries Value}
    {r : ValueDefinition → Value → Prop}
    (halike : List.Forall₂ (Entries.Alike r) entries values) : values.keys = entries.keys := by
  induction halike with
  | nil => rfl
  | cons hentry _ ih =>
    unfold Entries.keys at ih ⊢
    rw [List.map_cons, List.map_cons, ih, hentry.1]

/-- What definitions resolve to can be built. -/
theorem built_of_resolvesTo {d : ValueDefinition} (hd : d.WellKeyed)
    (hv : d.ResolvesTo registry v) : v.Built := by
  induction d using induction_parts generalizing v with
  | scalar name value =>
    cases hv
    exact .plain (by cases value <;> rfl)
  | reference name target =>
    obtain ⟨object, rfl, -⟩ := resolvesTo_reference hv
    exact .plain rfl
  | inner name definition =>
    obtain ⟨object, rfl, -⟩ := resolvesTo_inner hv
    exact .plain rfl
  | mapping name entries ih =>
    obtain ⟨values, rfl, halike⟩ := resolvesTo_mapping hv
    apply Value.built_map
    · rw [Entries.KeysDistinct, keys_eq_of_forall₂ halike]
      exact hd.keys_of_mapping
    · intro value hmem
      obtain ⟨entry, hentry, -, hvalue⟩ := exists_of_mem_forall₂ halike hmem
      exact ih entry hentry (hd.values_of_mapping entry hentry) hvalue
  | sequence name shape items ih =>
    obtain ⟨values, rfl, hitems⟩ := resolvesTo_sequence hv
    apply Value.built_ofItems
    intro value hmem
    obtain ⟨item, hitem, hvalue⟩ := exists_of_mem_forall₂ hitems hmem
    exact ih item hitem (hd.items_of_sequence item hitem) hvalue

theorem exists_find?_of_forall₂ {entries : Entries ValueDefinition} {values : Entries Value}
    {r : ValueDefinition → Value → Prop} (halike : List.Forall₂ (Entries.Alike r) entries values)
    {key : String} {d : ValueDefinition} (hfind : entries.find? key = some d) :
    ∃ v, values.find? key = some v ∧ r d v := by
  induction halike with
  | nil => cases hfind
  | @cons entry value _ _ hentry _ ih =>
    obtain ⟨k, e⟩ := entry
    obtain ⟨k', w⟩ := value
    obtain ⟨hkey, hr⟩ := hentry
    obtain rfl : k = k' := hkey
    rw [Entries.find?] at hfind ⊢
    split at hfind
    · rename_i hkey
      obtain rfl := Option.some.inj hfind
      exact ⟨w, if_pos hkey, hr⟩
    · rename_i hkey
      rw [if_neg hkey]
      exact ih hfind

theorem forall₂_same_of_resolvesTo {items others : List ValueDefinition}
    {values values' : List Value} (hsame : List.Forall₂ Same items others)
    (hvalues : List.Forall₂ (ResolvesTo registry) items values)
    (hvalues' : List.Forall₂ (ResolvesTo registry) others values')
    (heach : ∀ item ∈ items, ∀ other ∈ others, item.Same other →
      ∀ v w, item.ResolvesTo registry v → other.ResolvesTo registry w → v.Same w) :
    List.Forall₂ Value.Same values values' := by
  induction hsame generalizing values values' with
  | nil =>
    cases hvalues
    cases hvalues'
    exact .nil
  | @cons item other items others hfirst _ ih =>
    obtain ⟨v, rest, hv, hrest, rfl⟩ := List.forall₂_cons_left_iff.mp hvalues
    obtain ⟨w, rest', hw, hrest', rfl⟩ := List.forall₂_cons_left_iff.mp hvalues'
    refine .cons (heach item List.mem_cons_self other List.mem_cons_self hfirst v w hv hw) ?_
    apply ih hrest hrest'
    intro item' hitem' other' hother'
    exact heach item' (List.mem_cons_of_mem _ hitem') other' (List.mem_cons_of_mem _ hother')

/-- Equal definitions that resolve at all resolve to equal values. -/
theorem same_of_resolvesTo {d e : ValueDefinition} (hd : d.WellKeyed) (he : e.WellKeyed)
    (hsame : d.Same e) (hfloats : ∀ x ∈ d.floats, x.isZero = false) {v w : Value}
    (hv : d.ResolvesTo registry v) (hw : e.ResolvesTo registry w) : v.Same w := by
  induction d using induction_parts generalizing e v w with
  | scalar name value =>
    obtain ⟨other, rfl, hequal⟩ := (same_scalar_iff name value).mp hsame
    have hvalue : value = other := by
      apply Scalar.eq_of_equals hequal
      rintro x rfl
      exact hfloats x (by simp [floats])
    subst hvalue
    have hbuilt := built_of_resolvesTo hd hv
    cases hv
    cases hw
    exact Value.Same.refl hbuilt.wellFormed
  | reference name target =>
    rw [(same_reference_iff name target).mp hsame] at hw
    obtain ⟨object, rfl, hobject⟩ := resolvesTo_reference hv
    obtain ⟨object', rfl, hobject'⟩ := resolvesTo_reference hw
    rw [hobject] at hobject'
    cases hobject'
    exact (Value.same_iff_eq rfl).mpr rfl
  | inner name definition =>
    obtain ⟨other, rfl, hequal⟩ := (same_inner_iff name definition).mp hsame
    obtain ⟨object, rfl, hobject⟩ := resolvesTo_inner hv
    obtain ⟨object', rfl, hobject'⟩ := resolvesTo_inner hw
    rw [← ObjectDefinition.id_eq_of_equals hequal, hobject] at hobject'
    cases hobject'
    exact (Value.same_iff_eq rfl).mpr rfl
  | mapping name entries ih =>
    obtain ⟨others, rfl, hlength, hfound⟩ := (same_mapping_iff name entries).mp hsame
    obtain ⟨values, rfl, hvalues⟩ := resolvesTo_mapping hv
    obtain ⟨values', rfl, hvalues'⟩ := resolvesTo_mapping hw
    rw [floats, floatsOfEntries_eq] at hfloats
    rw [Value.same_map_iff]
    refine ⟨values', rfl, ?_, ?_⟩
    · rw [← hvalues.length_eq, ← hvalues'.length_eq, hlength]
    · intro value hmem
      obtain ⟨entry, hentry, hkey, hvalue⟩ := exists_of_mem_forall₂ hvalues hmem
      obtain ⟨other, hother, hequal⟩ := hfound entry hentry
      obtain ⟨w, hw, hresolves⟩ := exists_find?_of_forall₂ hvalues' hother
      have hmem' := Entries.mem_of_find? hother
      rw [hkey] at hw
      refine ⟨w, hw, ih entry hentry (hd.values_of_mapping entry hentry)
        (he.values_of_mapping _ hmem') hequal ?_ hvalue hresolves⟩
      intro x hx
      exact hfloats x (List.mem_flatMap.mpr ⟨entry, hentry, hx⟩)
  | sequence name shape items ih =>
    obtain ⟨others, rfl, hitems⟩ := (same_sequence_iff name shape items).mp hsame
    obtain ⟨values, rfl, hvalues⟩ := resolvesTo_sequence hv
    obtain ⟨values', rfl, hvalues'⟩ := resolvesTo_sequence hw
    rw [floats, floatsOfItems_eq] at hfloats
    apply Value.same_ofItems
    · intro value hmem
      obtain ⟨item, hitem, hvalue⟩ := exists_of_mem_forall₂ hvalues hmem
      exact built_of_resolvesTo (hd.items_of_sequence item hitem) hvalue
    · intro value hmem
      obtain ⟨other, hother, hvalue⟩ := exists_of_mem_forall₂ hvalues' hmem
      exact built_of_resolvesTo (he.items_of_sequence other hother) hvalue
    · apply forall₂_same_of_resolvesTo hitems hvalues hvalues'
      intro item hitem other hother hequal v w hv hw
      apply ih item hitem (hd.items_of_sequence item hitem) (he.items_of_sequence other hother)
        hequal _ hv hw
      intro x hx
      exact hfloats x (List.mem_flatMap.mpr ⟨item, hitem, hx⟩)

end Results

/-- Two equal definitions, without a zero for a float, resolve under the same registries. The
values are equal then, and the same objects are looked up as often, in some order. -/
theorem resolve_alike (registry : Registry) {d e : ValueDefinition} (hequal : d.equals e)
    (hd : d.WellKeyed) (he : e.WellKeyed) (hfloats : ∀ x ∈ d.floats, x.isZero = false) :
    ((∃ v, (d.resolve registry).answer = .ok v) ↔ ∃ w, (e.resolve registry).answer = .ok w) ∧
      ∀ v w, (d.resolve registry).answer = .ok v → (e.resolve registry).answer = .ok w →
        v.equals w ∧ (d.resolve registry).trace.Perm (e.resolve registry).trace := by
  have htargets := targets_perm_of_same hd hequal
  refine ⟨?_, fun v w hv hw => ⟨?_, ?_⟩⟩
  · rw [exists_resolve_iff, exists_resolve_iff]
    exact forall_congr' fun t => imp_congr_left htargets.mem_iff
  · exact same_of_resolvesTo hd he hequal hfloats hv hw
  · rw [trace_of_resolve registry hv, trace_of_resolve registry hw]
    exact htargets.map _

/-- A set of an object and a float. -/
def spare : ValueDefinition :=
  .sequence "spare" .set [.reference "first" "pool",
    .scalar "second" (.float ⟨4609434218613702656⟩)]

/-- A mapping that refers to two objects. -/
def linked : ValueDefinition :=
  .mapping "links" [("main", .reference "main" "db"), ("spare", spare)]

/-- The same mapping with its entries in the other order. -/
def relinked : ValueDefinition :=
  .mapping "links" [("spare", spare), ("main", .reference "main" "db")]

theorem wellKeyed_linked : linked.WellKeyed ∧ relinked.WellKeyed := by
  have hspare : spare.WellKeyed := .sequence (by simp [WellKeyed.reference, WellKeyed.scalar])
  have hmain : (reference "main" "db").WellKeyed := .reference _ _
  constructor
  · apply WellKeyed.mapping
    · simp [Entries.KeysDistinct, Entries.keys]
    · simp [hmain, hspare]
  · apply WellKeyed.mapping
    · simp [Entries.KeysDistinct, Entries.keys]
    · simp [hmain, hspare]

/-- With both objects the values are equal, although they are looked up in another order.
Without any, the errors differ. -/
theorem resolve_alike_linked :
    (linked.equals relinked ∧ linked.WellKeyed ∧ relinked.WellKeyed ∧
      ∀ x ∈ linked.floats, x.isZero = false) ∧
    (∃ v w, (linked.resolve pooledRegistry.toRegistry).answer = .ok v ∧
      (relinked.resolve pooledRegistry.toRegistry).answer = .ok w ∧ v.equals w ∧
      (linked.resolve pooledRegistry.toRegistry).trace ≠
        (relinked.resolve pooledRegistry.toRegistry).trace) ∧
    (linked.resolve StaticRegistry.empty.toRegistry).answer =
        .error (.unknownReference "db") ∧
      (relinked.resolve StaticRegistry.empty.toRegistry).answer =
        .error (.unknownReference "pool") := by
  have hequal : linked.equals relinked := by decide
  have hfloats : ∀ x ∈ linked.floats, x.isZero = false := by decide
  obtain ⟨hd, he⟩ := wellKeyed_linked
  have halike := resolve_alike pooledRegistry.toRegistry hequal hd he hfloats
  refine ⟨⟨hequal, hd, he, hfloats⟩, ?_, ?_, ?_⟩
  · have hv : ∃ v, (linked.resolve pooledRegistry.toRegistry).answer = .ok v := ⟨_, rfl⟩
    obtain ⟨v, hv⟩ := hv
    obtain ⟨w, hw⟩ := halike.1.mp ⟨v, hv⟩
    refine ⟨v, w, hv, hw, (halike.2 v w hv hw).1, ?_⟩
    rw [trace_of_resolve _ hv, trace_of_resolve _ hw]
    decide
  · rfl
  · rfl

end ValueDefinition

end Wiring
