import Mathlib.Data.List.Forall2
import Mathlib.Data.List.Perm.Subperm
import Wiring.Entries

/-!
Items of one list that are matched by items of another. If no two items have a match in
common, each has one of its own, so the matches are as many as the items: a list that is
not longer is used up, and the items correspond one to one, in some order.
-/

namespace Wiring

variable {α β : Type} {r : α → β → Prop} {xs : List α} {ys : List β}

/-- Every item of a list has a match among those of another. -/
def EachMatched (r : α → β → Prop) (xs : List α) (ys : List β) : Prop :=
  ∀ x ∈ xs, ∃ y ∈ ys, r x y

/-- No two items of a list, in different places, have a match in common. -/
def MatchedApart (r : α → β → Prop) (xs : List α) (ys : List β) : Prop :=
  xs.Pairwise fun x x' => ∀ y ∈ ys, r x y → ¬ r x' y

theorem exists_of_mem_forall₂ (hrelated : List.Forall₂ r xs ys) {y : β} (hy : y ∈ ys) :
    ∃ x ∈ xs, r x y := by
  induction hrelated with
  | nil => cases hy
  | @cons x _ _ _ hx _ ih =>
    rcases List.mem_cons.mp hy with rfl | hrest
    · exact ⟨x, List.mem_cons_self, hx⟩
    · obtain ⟨x', hmem, hx'⟩ := ih hrest
      exact ⟨x', List.mem_cons_of_mem _ hmem, hx'⟩

/-- What relates two lists item by item may be weakened for the items in them. -/
theorem forall₂_imp_of_mem {s : α → β → Prop} (hrelated : List.Forall₂ r xs ys)
    (himp : ∀ x ∈ xs, ∀ y ∈ ys, r x y → s x y) : List.Forall₂ s xs ys := by
  induction hrelated with
  | nil => exact .nil
  | cons hx _ ih =>
    refine .cons (himp _ List.mem_cons_self _ List.mem_cons_self hx) (ih ?_)
    intro x hmem y hy
    exact himp x (List.mem_cons_of_mem _ hmem) y (List.mem_cons_of_mem _ hy)

/-- Items that share no match have matches of their own. -/
theorem exists_partners (hapart : MatchedApart r xs ys) (hmatched : EachMatched r xs ys) :
    ∃ partners, List.Forall₂ r xs partners ∧ partners.Subperm ys := by
  induction xs generalizing ys with
  | nil => exact ⟨[], .nil, List.nil_subperm⟩
  | cons x xs ih =>
    obtain ⟨hx, hxs⟩ := List.pairwise_cons.mp hapart
    obtain ⟨y, hy, hxy⟩ := hmatched x List.mem_cons_self
    obtain ⟨before, after, rfl⟩ := List.append_of_mem hy
    -- The match of the first item is none of the others'.
    have hrest : EachMatched r xs (before ++ after) := by
      intro x' hmem
      obtain ⟨y', hy', hxy'⟩ := hmatched x' (List.mem_cons_of_mem x hmem)
      rcases List.mem_cons.mp (List.perm_middle.mem_iff.mp hy') with rfl | hother
      · exact absurd hxy' (hx x' hmem _ hy hxy)
      · exact ⟨y', hother, hxy'⟩
    have hapartRest : MatchedApart r xs (before ++ after) := by
      apply List.Pairwise.imp _ hxs
      intro x x' hne y' hy'
      exact hne y' (List.perm_middle.mem_iff.mpr (List.mem_cons_of_mem y hy'))
    obtain ⟨partners, hpartners, hsub⟩ := ih hapartRest hrest
    refine ⟨y :: partners, .cons hxy hpartners, ?_⟩
    exact List.Subperm.trans ((List.subperm_cons y).mpr hsub) List.perm_middle.symm.subperm

theorem length_le_of_matched (hapart : MatchedApart r xs ys) (hmatched : EachMatched r xs ys) :
    xs.length ≤ ys.length := by
  obtain ⟨partners, hpartners, hsub⟩ := exists_partners hapart hmatched
  have hlength := hpartners.length_eq
  have hle := hsub.length_le
  omega

/-- In a list that is not longer than that of the items, all are partners. -/
theorem exists_perm_partners (hapart : MatchedApart r xs ys) (hmatched : EachMatched r xs ys)
    (hle : ys.length ≤ xs.length) :
    ∃ partners, List.Forall₂ r xs partners ∧ partners.Perm ys := by
  obtain ⟨partners, hpartners, hsub⟩ := exists_partners hapart hmatched
  have hlength := hpartners.length_eq
  exact ⟨partners, hpartners, hsub.perm_of_length_le (by omega)⟩

/-- Then every item there is the match of one, and so is matched if matches are mutual. -/
theorem eachMatched_back {s : β → α → Prop} (hapart : MatchedApart r xs ys)
    (hmatched : EachMatched r xs ys) (hle : ys.length ≤ xs.length)
    (hback : ∀ x ∈ xs, ∀ y ∈ ys, r x y → s y x) : EachMatched s ys xs := by
  obtain ⟨partners, hpartners, hperm⟩ := exists_perm_partners hapart hmatched hle
  intro y hy
  obtain ⟨x, hx, hxy⟩ := exists_of_mem_forall₂ hpartners (hperm.mem_iff.mpr hy)
  exact ⟨x, hx, hback x hx y hy hxy⟩

namespace Entries

/-- Two entries have the same key and related values. -/
def Alike (r : α → β → Prop) (entry : String × α) (other : String × β) : Prop :=
  entry.1 = other.1 ∧ r entry.2 other.2

variable {entries : Entries α} {others : Entries β}

/-- Entries with distinct keys have nothing in common that is like two of them. -/
theorem matchedApart_alike (hkeys : entries.KeysDistinct) (others : Entries β) :
    MatchedApart (Alike r) entries others := by
  have hpairs := List.pairwise_map.mp hkeys
  apply List.Pairwise.imp _ hpairs
  intro entry entry' hne other _ hentry hentry'
  exact hne (hentry.1.trans hentry'.1.symm)

theorem eachMatched_of_find?
    (hfound : ∀ entry ∈ entries, ∃ w, others.find? entry.1 = some w ∧ r entry.2 w) :
    EachMatched (Alike r) entries others := by
  intro entry hmem
  obtain ⟨w, hw, hr⟩ := hfound entry hmem
  exact ⟨(entry.1, w), mem_of_find? hw, rfl, hr⟩

/-- If keys are distinct, an entry that is alike is the one found under the key. -/
theorem find?_of_eachMatched (hkeys : others.KeysDistinct)
    (hmatched : EachMatched (Alike r) entries others) :
    ∀ entry ∈ entries, ∃ w, others.find? entry.1 = some w ∧ r entry.2 w := by
  intro entry hmem
  obtain ⟨⟨key, w⟩, hw, hkey, hr⟩ := hmatched entry hmem
  obtain rfl : entry.1 = key := hkey
  exact ⟨w, find?_of_mem hkeys hw, hr⟩

end Entries

end Wiring
