import Wiring.Proofs.Live.Equality

/-!
Live values as they can be built: scalars and objects, lists and tuples of what is built,
and sets and maps into which it is put, from which some of it may be taken out again and
which may be put in another order. A set takes in only what it does not have yet, so no
set ever has two equal members, and all laws of equality hold.
-/

namespace Wiring.Value

/-- A value that can be built. -/
inductive Built : Value → Prop where
  | plain {v : Value} (hplain : v.isPlain) : Built v
  | items {shape : Shape} {items : List Value} (hshape : shape.isUnique = false)
      (hitems : ∀ v ∈ items, Built v) : Built (.sequence shape items)
  | noMembers {shape : Shape} (hshape : shape.isUnique) : Built (.sequence shape [])
  | addMember {shape : Shape} {items : List Value} {v : Value}
      (hset : Built (.sequence shape items)) (hshape : shape.isUnique) (hv : Built v) :
      Built (.sequence shape (Value.addMember items v))
  /-- Members are taken out, or put in another order. -/
  | someMembers {shape : Shape} {items others : List Value}
      (hset : Built (.sequence shape items)) (hshape : shape.isUnique)
      (hothers : others.Subperm items) : Built (.sequence shape others)
  | frozen {items : List Value} (hset : Built (.sequence .set items)) :
      Built (.sequence .frozenSet items)
  | noEntries : Built (.map [])
  | put {entries : Entries Value} {key : String} {v : Value} (hmap : Built (.map entries))
      (hv : Built v) : Built (.map (entries.put key v))
  /-- Entries are taken out, or put in another order. -/
  | someEntries {entries others : Entries Value} (hmap : Built (.map entries))
      (hothers : List.Subperm others entries) : Built (.map others)

namespace WellFormed

variable {shape : Shape} {items : List Value} {entries : Entries Value} {v : Value}

/-- A set that takes in a value has no two equal members if it had none before. -/
theorem addMember (hset : WellFormed (.sequence shape items)) (hshape : shape.isUnique)
    (hv : WellFormed v) : WellFormed (.sequence shape (Value.addMember items v)) := by
  unfold Value.addMember
  split
  · exact hset
  · rename_i hnew
    have hnone : ∀ w ∈ items, ¬ v.Same w := by
      intro w hw hsame
      exact hnew ((isMember_iff v items).mpr ⟨w, hw, hsame⟩)
    refine .sequence ?_ fun _ => ?_
    · intro w hw
      rcases List.mem_append.mp hw with hold | hlast
      · exact hset.items_of_sequence w hold
      · obtain rfl := List.mem_singleton.mp hlast
        exact hv
    · rw [List.pairwise_append]
      refine ⟨hset.distinct_of_sequence hshape, List.pairwise_singleton _ v, ?_⟩
      intro w hw v' hv' hsame
      obtain rfl := List.mem_singleton.mp hv'
      exact hnone w hw (hsame.symm (hset.items_of_sequence w hw) hv)

/-- Neither taking members out nor putting them in another order makes two of them equal. -/
theorem someMembers {others : List Value} (hset : WellFormed (.sequence shape items))
    (hshape : shape.isUnique) (hothers : others.Subperm items) :
    WellFormed (.sequence shape others) := by
  obtain ⟨kept, hperm, hsub⟩ := hothers
  have hkept : ∀ v ∈ kept, WellFormed v := by
    intro v hv
    exact hset.items_of_sequence v (hsub.subset hv)
  have hapart : kept.Pairwise fun v w => ¬ v.Same w ∧ ¬ w.Same v := by
    apply List.Pairwise.imp_of_mem _ ((hset.distinct_of_sequence hshape).sublist hsub)
    intro v w hv hw hne
    exact ⟨hne, fun hback => hne (hback.symm (hkept w hw) (hkept v hv))⟩
  have hothers : others.Pairwise fun v w => ¬ v.Same w ∧ ¬ w.Same v :=
    (hperm.pairwise_iff And.symm).mp hapart
  refine .sequence ?_ fun _ => hothers.imp And.left
  intro v hv
  exact hkept v (hperm.mem_iff.mpr hv)

theorem put (hmap : WellFormed (.map entries)) (key : String) (hv : WellFormed v) :
    WellFormed (.map (entries.put key v)) := by
  refine .map (Entries.keysDistinct_put key v hmap.keys_of_map) ?_
  intro entry hmem
  rcases Entries.mem_put hmem with hold | hnew
  · exact hmap.values_of_map entry hold
  · rw [hnew]
    exact hv

theorem someEntries {others : Entries Value} (hmap : WellFormed (.map entries))
    (hothers : List.Subperm others entries) : WellFormed (.map others) := by
  obtain ⟨kept, hperm, hsub⟩ := hothers
  have hkept : (kept.map Prod.fst).Nodup := hmap.keys_of_map.sublist (hsub.map Prod.fst)
  refine .map ((hperm.map Prod.fst).nodup_iff.mp hkept) ?_
  intro entry hmem
  exact hmap.values_of_map entry (hsub.subset (hperm.mem_iff.mpr hmem))

end WellFormed

/-- However a value is built, no set in it has two equal members, and no map a key twice. -/
theorem Built.wellFormed {v : Value} (hv : v.Built) : v.WellFormed := by
  induction hv with
  | plain hplain => exact .plain hplain
  | items hshape _ ih => exact .sequence ih fun hunique => by simp [hshape] at hunique
  | noMembers hshape => exact .sequence (by simp) fun _ => .nil
  | addMember _ hshape _ ihset ihv => exact ihset.addMember hshape ihv
  | someMembers _ hshape hothers ih => exact ih.someMembers hshape hothers
  | frozen _ ih => exact .sequence ih.items_of_sequence fun _ => ih.distinct_of_sequence rfl
  | noEntries => exact .map List.nodup_nil (by simp)
  | put _ _ ihmap ihv => exact ihmap.put _ ihv
  | someEntries _ hothers ih => exact ih.someEntries hothers

/-- The set of some values, each added in turn. -/
theorem built_members {shape : Shape} (hshape : shape.isUnique) {vs : List Value}
    (hvs : ∀ v ∈ vs, v.Built) : Built (.sequence shape (members vs)) := by
  unfold members
  have hstart : Built (.sequence shape []) := .noMembers hshape
  generalize ([] : List Value) = start at hstart ⊢
  induction vs generalizing start with
  | nil => exact hstart
  | cons v vs ih =>
    apply ih
    · intro w hw
      exact hvs w (List.mem_cons_of_mem v hw)
    · exact hstart.addMember hshape (hvs v List.mem_cons_self)

theorem built_ofItems (shape : Shape) {vs : List Value} (hvs : ∀ v ∈ vs, v.Built) :
    (ofItems shape vs).Built := by
  unfold ofItems
  split
  · rename_i hunique
    exact built_members hunique hvs
  · rename_i hunique
    exact .items (eq_false_of_ne_true hunique) hvs

/-- What equality promises of the values of a class. -/
structure LawfulEquality (good : Value → Prop) : Prop where
  equivalence : Equivalence fun v w : {v : Value // good v} => v.1.equals w.1
  /-- Equal values give the same data to a hasher. -/
  digests : ∀ v w, good v → good w → v.equals w → v.digest = w.digest
  /-- A lookup in a set finds a value if some member equals it. -/
  lookups : ∀ (set : FrozenSet) (v : Value), good (.sequence .frozenSet set.members) → good v →
    (set.contains v ↔ ∃ member ∈ set.members, member.equals v)
  /-- No set has two equal members. -/
  members : ∀ shape items, shape.isUnique → good (.sequence shape items) →
    items.Pairwise fun v w => ¬ v.equals w
  /-- Sets are equal if each member of one has an equal one in the other. -/
  sets : ∀ shape items others, shape.isUnique → good (.sequence shape items) →
    good (.sequence shape others) →
    ((sequence shape items).equals (.sequence shape others) ↔
      (∀ v ∈ items, ∃ w ∈ others, v.equals w) ∧ ∀ w ∈ others, ∃ v ∈ items, w.equals v)
  /-- Maps are equal if each entry of one has an equal one under its key in the other. -/
  maps : ∀ entries others, good (.map entries) → good (.map others) →
    ((map entries).equals (.map others) ↔
      (∀ key v, (key, v) ∈ entries → ∃ w, (key, w) ∈ others ∧ v.equals w) ∧
        ∀ key w, (key, w) ∈ others → ∃ v, (key, v) ∈ entries ∧ w.equals v)

theorem eachMatched_alike_iff (entries others : Entries Value) :
    EachMatched (Entries.Alike Same) entries others ↔
      ∀ key v, (key, v) ∈ entries → ∃ w, (key, w) ∈ others ∧ v.equals w := by
  constructor
  · intro hmatched key v hmem
    obtain ⟨⟨_, w⟩, hw, rfl, hsame⟩ := hmatched (key, v) hmem
    exact ⟨w, hw, hsame⟩
  · rintro hfound ⟨key, v⟩ hmem
    obtain ⟨w, hw, hsame⟩ := hfound key v hmem
    exact ⟨(key, w), hw, rfl, hsame⟩

/-- Equality is lawful on all values that can be built. -/
theorem lawfulEquality_built : LawfulEquality Built where
  equivalence := by
    refine ⟨?_, ?_, ?_⟩
    · intro v
      exact Same.refl v.2.wellFormed
    · intro v w hsame
      exact Same.symm v.2.wellFormed w.2.wellFormed hsame
    · intro u v w huv hvw
      exact Same.trans huv hvw
  digests := by
    intro v w _ _ hsame
    exact digest_eq_of_same hsame
  lookups := by
    intro set v hset hv
    have hmember : ∀ w ∈ set.members, v.Same w ↔ w.Same v := by
      intro w hw
      have hw : w.WellFormed := hset.wellFormed.items_of_sequence w hw
      exact ⟨Same.symm hv.wellFormed hw, Same.symm hw hv.wellFormed⟩
    rw [FrozenSet.contains, isMember_iff]
    exact exists_congr fun w => and_congr_right (hmember w)
  members := by
    intro shape items hshape hset
    exact hset.wellFormed.distinct_of_sequence hshape
  sets := by
    intro shape items others hshape hitems hothers
    exact same_set_iff hshape hitems.wellFormed hothers.wellFormed
  maps := by
    intro entries others hentries hothers
    rw [← eachMatched_alike_iff, ← eachMatched_alike_iff]
    exact same_map_iff_both hentries.wellFormed hothers.wellFormed

/-- The frozen set of two values. -/
def frozenPair (v w : Value) : Value := ofItems .frozenSet [v, w]

/-- The set of a NaN, a negative zero and a frozen set that has the other zero. -/
def mixed : Value :=
  ofItems .set [.float .nan, .float (.zero true), frozenPair (.float (.zero false)) .null]

/-- The same in another order, with a repetition. -/
def remixed : Value :=
  ofItems .set [frozenPair .null (.float (.zero false)), .float .nan, .float (.zero true),
    .float .nan]

theorem built_frozenPair {v w : Value} (hv : v.Built) (hw : w.Built) :
    (frozenPair v w).Built := by
  apply built_ofItems
  simp [hv, hw]

/-- A NaN equals itself, so the two sets are equal both ways and have the same digest. -/
theorem lawfulEquality_built_mixed :
    mixed.Built ∧ remixed.Built ∧ mixed.equals remixed ∧ remixed.equals mixed ∧
      mixed.digest = remixed.digest := by
  have hnull : Value.null.Built := .plain rfl
  have hfloat (x : Binary64) : (Value.float x).Built := .plain rfl
  have hmixed : mixed.Built := by
    apply built_ofItems
    simp [hfloat, built_frozenPair (hfloat _) hnull]
  have hremixed : remixed.Built := by
    apply built_ofItems
    simp [hfloat, built_frozenPair hnull (hfloat _)]
  have hsame : mixed.equals remixed := by decide
  have hback := lawfulEquality_built.equivalence.symm
    (show (⟨mixed, hmixed⟩ : {v : Value // v.Built}).1.equals
      (⟨remixed, hremixed⟩ : {v : Value // v.Built}).1 from hsame)
  exact ⟨hmixed, hremixed, hsame, hback,
    lawfulEquality_built.digests mixed remixed hmixed hremixed hsame⟩

end Wiring.Value
