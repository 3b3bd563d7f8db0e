import Wiring.Live.Value
import Wiring.Proofs.Matching

/-!
Equality of live values. Equal values have the same digest, so searching a set by digests
finds what a search through all members finds. On values whose sets hold no two equal
members and whose maps have distinct keys, equality is an equivalence relation, and two
sets or maps are equal if each has what the other has.
-/

namespace Wiring

namespace Value

/-- A value without parts. -/
def isPlain : Value → Bool
  | .sequence _ _ => false
  | .map _ => false
  | _ => true

/-- What holds of a sequence or a map if it holds of all values in it holds of all values. -/
theorem induction_parts {motive : Value → Prop}
    (plain : ∀ v : Value, v.isPlain → motive v)
    (sequence : ∀ shape items, (∀ v ∈ items, motive v) → motive (.sequence shape items))
    (map : ∀ entries : Entries Value, (∀ entry ∈ entries, motive entry.2) →
      motive (.map entries)) : ∀ v, motive v := by
  intro v
  induction hsize : sizeOf v using Nat.strongRecOn generalizing v with
  | ind size ih =>
    cases v with
    | sequence shape items =>
      apply sequence
      intro v hmem
      have hlt := List.sizeOf_lt_of_mem hmem
      simp only [Value.sequence.sizeOf_spec] at hsize
      exact ih (sizeOf v) (by omega) v rfl
    | map entries =>
      apply map
      intro entry hmem
      have hlt := List.sizeOf_lt_of_mem hmem
      obtain ⟨key, v⟩ := entry
      simp only [Value.map.sizeOf_spec, Prod.mk.sizeOf_spec] at hsize hlt
      exact ih (sizeOf v) (by omega) v rfl
    | _ => exact plain _ rfl

/-- Two values are equal, as a proposition. -/
def Same (v w : Value) : Prop := v.equals w = true

/-! What equality and digests are, constructor by constructor. -/

section Unfolding

variable {v w : Value}

theorem same_iff_eq (hplain : v.isPlain) : v.Same w ↔ v = w := by
  unfold Same
  cases v with
  | sequence shape items => cases hplain
  | map entries => cases hplain
  | float x =>
    cases w with
    | float y =>
      obtain ⟨bits⟩ := x
      obtain ⟨others⟩ := y
      simp [equals]
    | _ => simp [equals]
  | _ => cases w <;> simp [equals]

theorem allMembers_iff (items members : List Value) :
    allMembers items members = true ↔
      ∀ v ∈ items, ∃ w ∈ members, v.digest = w.digest ∧ v.Same w := by
  induction items with
  | nil => simp [allMembers]
  | cons v items ih => simp [allMembers, ih, Same]

theorem equalItems_iff (items others : List Value) :
    equalItems items others = true ↔ List.Forall₂ Same items others := by
  induction items generalizing others with
  | nil => cases others <;> simp [equalItems]
  | cons v items ih =>
    cases others with
    | nil => simp [equalItems]
    | cons w others => simp [equalItems, ih, Same]

theorem equalEntries_iff (entries others : Entries Value) :
    equalEntries entries others = true ↔
      ∀ entry ∈ entries, ∃ w, others.find? entry.1 = some w ∧ entry.2.Same w := by
  induction entries with
  | nil => simp [equalEntries]
  | cons entry entries ih =>
    obtain ⟨key, v⟩ := entry
    rw [equalEntries, Bool.and_eq_true, ih, List.forall_mem_cons]
    cases hfind : others.find? key with
    | none => simp
    | some w => simp [Same]

theorem same_map_iff (entries : Entries Value) :
    (map entries).Same w ↔ ∃ others : Entries Value, w = .map others ∧
      entries.length = others.length ∧
      ∀ entry ∈ entries, ∃ w, others.find? entry.1 = some w ∧ entry.2.Same w := by
  unfold Same
  cases w with
  | map others => simp [equals, equalEntries_iff, Same]
  | _ => simp [equals]

/-- A sequence equals another one of its shape that has the same items, or if they are
sets, as many and such that a search finds each. -/
theorem same_sequence_iff_search (shape : Shape) (items : List Value) :
    (sequence shape items).Same w ↔ ∃ others, w = .sequence shape others ∧
      if shape.isUnique then items.length = others.length ∧
        ∀ v ∈ items, ∃ w ∈ others, v.digest = w.digest ∧ v.Same w
      else List.Forall₂ Same items others := by
  unfold Same
  cases w with
  | sequence other others =>
    simp only [equals, Bool.and_eq_true, beq_iff_eq, sequence.injEq]
    cases hunique : shape.isUnique with
    | true =>
      simp only [if_true, Bool.and_eq_true, beq_iff_eq, allMembers_iff, Same]
      grind
    | false =>
      simp only [Bool.false_eq_true, if_false, equalItems_iff]
      constructor
      · rintro ⟨rfl, hitems⟩
        exact ⟨others, ⟨rfl, rfl⟩, hitems⟩
      · rintro ⟨_, ⟨rfl, rfl⟩, hitems⟩
        exact ⟨rfl, hitems⟩
  | _ => simp [equals]

end Unfolding

/-! Equal values have equal digests. -/

theorem digestItems_eq (items : List Value) : digestItems items = items.flatMap digest := by
  induction items with
  | nil => rw [digestItems, List.flatMap_nil]
  | cons v items ih => rw [digestItems, ih, List.flatMap_cons]

theorem digest_eq_of_same {v w : Value} (hsame : v.Same w) : v.digest = w.digest := by
  induction v using induction_parts generalizing w with
  | plain v hplain => rw [(same_iff_eq hplain).mp hsame]
  | sequence shape items ih =>
    obtain ⟨others, rfl, hitems⟩ := (same_sequence_iff_search shape items).mp hsame
    rw [digest, digest]
    split at hitems
    · rename_i hunique
      rw [hitems.1, if_pos hunique, if_pos hunique]
    · rename_i hunique
      rw [hitems.length_eq, if_neg hunique, if_neg hunique, digestItems_eq, digestItems_eq]
      congr 2
      clear hsame
      induction hitems with
      | nil => rfl
      | @cons v w items others hvw _ ihrest =>
        have hfirst := ih v List.mem_cons_self hvw
        have hrest := ihrest fun u hu => ih u (List.mem_cons_of_mem v hu)
        rw [List.flatMap_cons, List.flatMap_cons, hfirst, hrest]
  | map entries ih =>
    obtain ⟨others, rfl, hlength, -⟩ := (same_map_iff entries).mp hsame
    rw [digest, digest, hlength]

/-- Sets are equal if they have as many members and each of one has an equal one in the
other; other sequences are equal item by item. -/
theorem same_sequence_iff {w : Value} (shape : Shape) (items : List Value) :
    (sequence shape items).Same w ↔ ∃ others, w = .sequence shape others ∧
      if shape.isUnique then items.length = others.length ∧ EachMatched Same items others
      else List.Forall₂ Same items others := by
  have hsearch : ∀ others : List Value,
      (∀ v ∈ items, ∃ w ∈ others, v.digest = w.digest ∧ v.Same w) ↔
        EachMatched Same items others := by
    intro others
    constructor
    · intro hfound v hv
      obtain ⟨w, hw, -, hsame⟩ := hfound v hv
      exact ⟨w, hw, hsame⟩
    · intro hmatched v hv
      obtain ⟨w, hw, hsame⟩ := hmatched v hv
      exact ⟨w, hw, digest_eq_of_same hsame, hsame⟩
  simp only [same_sequence_iff_search, hsearch]

/-- Searching a set by digests finds what a search through all members finds. -/
theorem isMember_iff (v : Value) (members : List Value) :
    v.isMember members = true ↔ ∃ w ∈ members, v.Same w := by
  simp only [isMember, List.any_eq_true, Bool.and_eq_true, beq_iff_eq]
  constructor
  · rintro ⟨w, hw, -, hsame⟩
    exact ⟨w, hw, hsame⟩
  · rintro ⟨w, hw, hsame⟩
    exact ⟨w, hw, digest_eq_of_same hsame, hsame⟩

/-! Equality as a relation. -/

/-- No two members of a set are equal, and the keys of a map are distinct, at any depth. -/
inductive WellFormed : Value → Prop where
  | plain {v : Value} (hplain : v.isPlain) : WellFormed v
  | sequence {shape : Shape} {items : List Value} (hitems : ∀ v ∈ items, WellFormed v)
      (hdistinct : shape.isUnique → items.Pairwise fun v w => ¬ v.Same w) :
      WellFormed (.sequence shape items)
  | map {entries : Entries Value} (hkeys : entries.KeysDistinct)
      (hvalues : ∀ entry ∈ entries, WellFormed entry.2) : WellFormed (.map entries)

namespace WellFormed

variable {shape : Shape} {items : List Value} {entries : Entries Value}

theorem items_of_sequence (h : WellFormed (.sequence shape items)) :
    ∀ v ∈ items, WellFormed v := by
  cases h with
  | plain hplain => cases hplain
  | sequence hitems _ => exact hitems

theorem distinct_of_sequence (h : WellFormed (.sequence shape items)) (hshape : shape.isUnique) :
    items.Pairwise fun v w => ¬ v.Same w := by
  cases h with
  | plain hplain => cases hplain
  | sequence _ hdistinct => exact hdistinct hshape

theorem keys_of_map (h : WellFormed (.map entries)) : entries.KeysDistinct := by
  cases h with
  | plain hplain => cases hplain
  | map hkeys _ => exact hkeys

theorem values_of_map (h : WellFormed (.map entries)) : ∀ entry ∈ entries, WellFormed entry.2 := by
  cases h with
  | plain hplain => cases hplain
  | map _ hvalues => exact hvalues

end WellFormed

theorem Same.refl {v : Value} (hv : v.WellFormed) : v.Same v := by
  induction v using induction_parts with
  | plain v hplain => exact (same_iff_eq hplain).mpr rfl
  | sequence shape items ih =>
    have hself : ∀ v ∈ items, v.Same v := by
      intro v hmem
      exact ih v hmem (hv.items_of_sequence v hmem)
    rw [same_sequence_iff]
    refine ⟨items, rfl, ?_⟩
    split
    · exact ⟨rfl, fun v hmem => ⟨v, hmem, hself v hmem⟩⟩
    · exact List.forall₂_same.mpr hself
  | map entries ih =>
    rw [same_map_iff]
    refine ⟨entries, rfl, rfl, ?_⟩
    intro entry hmem
    exact ⟨entry.2, Entries.find?_of_mem hv.keys_of_map hmem,
      ih entry hmem (hv.values_of_map entry hmem)⟩

theorem Same.trans {u v w : Value} (huv : u.Same v) (hvw : v.Same w) : u.Same w := by
  induction u using induction_parts generalizing v w with
  | plain u hplain =>
    obtain rfl := (same_iff_eq hplain).mp huv
    exact hvw
  | sequence shape items ih =>
    obtain ⟨others, rfl, hitems⟩ := (same_sequence_iff shape items).mp huv
    obtain ⟨third, rfl, hothers⟩ := (same_sequence_iff shape others).mp hvw
    rw [same_sequence_iff]
    refine ⟨third, rfl, ?_⟩
    split at hitems
    · rename_i hunique
      rw [if_pos hunique] at hothers ⊢
      refine ⟨hitems.1.trans hothers.1, ?_⟩
      intro x hx
      obtain ⟨y, hy, hxy⟩ := hitems.2 x hx
      obtain ⟨z, hz, hyz⟩ := hothers.2 y hy
      exact ⟨z, hz, ih x hx hxy hyz⟩
    · rename_i hunique
      rw [if_neg hunique] at hothers ⊢
      clear huv hvw
      induction hitems generalizing third with
      | nil => exact hothers
      | @cons x y items others hxy _ ihrest =>
        obtain ⟨z, rest, hyz, hrest, rfl⟩ := List.forall₂_cons_left_iff.mp hothers
        have hxz := ih x List.mem_cons_self hxy hyz
        exact .cons hxz (ihrest (fun x' hx' => ih x' (List.mem_cons_of_mem x hx')) rest hrest)
  | map entries ih =>
    obtain ⟨others, rfl, hlength, hothers⟩ := (same_map_iff entries).mp huv
    obtain ⟨third, rfl, hlength', hthird⟩ := (same_map_iff others).mp hvw
    rw [same_map_iff]
    refine ⟨third, rfl, hlength.trans hlength', ?_⟩
    intro entry hmem
    obtain ⟨y, hy, hxy⟩ := hothers entry hmem
    obtain ⟨z, hz, hyz⟩ := hthird (entry.1, y) (Entries.mem_of_find? hy)
    exact ⟨z, hz, ih entry hmem hxy hyz⟩

/-- Maps are equal if they have as many entries and each of one has the like in the other. -/
theorem same_map_iff_matched {entries others : Entries Value} (hkeys : others.KeysDistinct) :
    (map entries).Same (.map others) ↔
      entries.length = others.length ∧ EachMatched (Entries.Alike Same) entries others := by
  rw [same_map_iff]
  constructor
  · rintro ⟨_, hothers, hlength, hfound⟩
    obtain rfl := Value.map.inj hothers
    exact ⟨hlength, Entries.eachMatched_of_find? hfound⟩
  · rintro ⟨hlength, hmatched⟩
    exact ⟨others, rfl, hlength, Entries.find?_of_eachMatched hkeys hmatched⟩

/-- The members of a set share no match with another set, provided that a match is a match
both ways. -/
theorem matchedApart_same {items others : List Value}
    (hdistinct : items.Pairwise fun v w => ¬ v.Same w)
    (hsymm : ∀ v ∈ items, ∀ w ∈ others, v.Same w → w.Same v) :
    MatchedApart Same items others := by
  apply List.Pairwise.imp_of_mem _ hdistinct
  intro v v' _ hv' hne w hw hvw hvw'
  exact hne (hvw.trans (hsymm v' hv' w hw hvw'))

theorem Same.symm {v w : Value} (hv : v.WellFormed) (hw : w.WellFormed) (hsame : v.Same w) :
    w.Same v := by
  induction v using induction_parts generalizing w with
  | plain v hplain =>
    obtain rfl := (same_iff_eq hplain).mp hsame
    exact hsame
  | sequence shape items ih =>
    obtain ⟨others, rfl, hitems⟩ := (same_sequence_iff shape items).mp hsame
    have hback : ∀ x ∈ items, ∀ y ∈ others, x.Same y → y.Same x := by
      intro x hx y hy hxy
      exact ih x hx (hv.items_of_sequence x hx) (hw.items_of_sequence y hy) hxy
    rw [same_sequence_iff]
    refine ⟨items, rfl, ?_⟩
    split at hitems
    · rename_i hunique
      obtain ⟨hlength, hmatched⟩ := hitems
      have hapart := matchedApart_same (hv.distinct_of_sequence hunique) hback
      rw [if_pos hunique]
      exact ⟨hlength.symm, eachMatched_back hapart hmatched (Nat.le_of_eq hlength.symm) hback⟩
    · rename_i hunique
      rw [if_neg hunique]
      exact (forall₂_imp_of_mem hitems hback).flip
  | map entries ih =>
    obtain ⟨others, rfl, -⟩ := (same_map_iff entries).mp hsame
    obtain ⟨hlength, hmatched⟩ := (same_map_iff_matched hw.keys_of_map).mp hsame
    have hapart := Entries.matchedApart_alike (r := Same) hv.keys_of_map others
    rw [same_map_iff_matched hv.keys_of_map]
    refine ⟨hlength.symm, eachMatched_back hapart hmatched (Nat.le_of_eq hlength.symm) ?_⟩
    intro entry hentry other hother hsame
    exact ⟨hsame.1.symm,
      ih entry hentry (hv.values_of_map entry hentry) (hw.values_of_map other hother) hsame.2⟩

/-- Two sets are equal if each member of one has an equal one in the other. -/
theorem same_set_iff {shape : Shape} {items others : List Value} (hshape : shape.isUnique)
    (hitems : WellFormed (.sequence shape items)) (hothers : WellFormed (.sequence shape others)) :
    (sequence shape items).Same (.sequence shape others) ↔
      EachMatched Same items others ∧ EachMatched Same others items := by
  have hunfold (xs ys : List Value) : (sequence shape xs).Same (.sequence shape ys) ↔
      xs.length = ys.length ∧ EachMatched Same xs ys := by
    simp [same_sequence_iff, hshape]
  constructor
  · intro hsame
    have hback := hsame.symm hitems hothers
    exact ⟨((hunfold items others).mp hsame).2, ((hunfold others items).mp hback).2⟩
  · rintro ⟨hmatched, hmatched'⟩
    have hapart : MatchedApart Same items others := by
      apply matchedApart_same (hitems.distinct_of_sequence hshape)
      intro x hx y hy
      exact Same.symm (hitems.items_of_sequence x hx) (hothers.items_of_sequence y hy)
    have hapart' : MatchedApart Same others items := by
      apply matchedApart_same (hothers.distinct_of_sequence hshape)
      intro y hy x hx
      exact Same.symm (hothers.items_of_sequence y hy) (hitems.items_of_sequence x hx)
    have hle := length_le_of_matched hapart hmatched
    have hge := length_le_of_matched hapart' hmatched'
    exact (hunfold items others).mpr ⟨by omega, hmatched⟩

/-- Two maps are equal if each entry of one has the like in the other. -/
theorem same_map_iff_both {entries others : Entries Value} (hentries : WellFormed (.map entries))
    (hothers : WellFormed (.map others)) :
    (map entries).Same (.map others) ↔
      EachMatched (Entries.Alike Same) entries others ∧
        EachMatched (Entries.Alike Same) others entries := by
  constructor
  · intro hsame
    have hback := hsame.symm hentries hothers
    exact ⟨((same_map_iff_matched hothers.keys_of_map).mp hsame).2,
      ((same_map_iff_matched hentries.keys_of_map).mp hback).2⟩
  · rintro ⟨hmatched, hmatched'⟩
    have hapart := Entries.matchedApart_alike (r := Same) hentries.keys_of_map others
    have hapart' := Entries.matchedApart_alike (r := Same) hothers.keys_of_map entries
    have hle := length_le_of_matched hapart hmatched
    have hge := length_le_of_matched hapart' hmatched'
    exact (same_map_iff_matched hothers.keys_of_map).mpr ⟨by omega, hmatched⟩

end Value

end Wiring
