import Wiring.Proofs.Template.Climb

/-!
The outcome of resolving a declaration. There are three of them, and which one it is,
and what an error names, can be read off the walk along the parent ids alone. No
template is merged twice, so there are at most as many merges as declared ids.
-/

namespace Wiring.TemplateSet

theorem answer_resolve (set : TemplateSet) (leaf : Draft) :
    (set.resolve leaf).answer = set.conclude leaf (set.ancestry leaf) := rfl

/-- A declaration resolves exactly if the walk reaches a declaration without a parent
before an id comes back. -/
theorem resolve_ok_iff (set : TemplateSet) (leaf : Draft) :
    (∃ definition, (set.resolve leaf).answer = .ok definition) ↔
      ∃ templates, set.WalksTo leaf templates none := by
  rw [answer_resolve]
  constructor
  · rintro ⟨definition, hanswer⟩
    cases hancestry : set.ancestry leaf with
    | mk templates ending =>
      cases ending with
      | rooted => exact ⟨templates, (set.ancestry_rooted_iff leaf templates).mp hancestry⟩
      | circular id => simp [hancestry, conclude] at hanswer
      | undeclared id => simp [hancestry, conclude] at hanswer
  · rintro ⟨templates, hwalk⟩
    rw [(set.ancestry_rooted_iff leaf templates).mpr hwalk]
    exact ⟨_, rfl⟩

/-- The error of a circular chain tells the whole walk up to the id that came back. -/
theorem resolve_circular_iff (set : TemplateSet) (leaf : Draft) (location : String)
    (chain : List String) :
    (set.resolve leaf).answer = .error (.circularTemplate location chain) ↔
      location = set.location ∧ ∃ templates id,
        set.WalksTo leaf templates (some id) ∧ id ∈ walk leaf templates ∧
          chain = walk leaf templates ++ [id] := by
  rw [answer_resolve]
  constructor
  · intro hanswer
    cases hancestry : set.ancestry leaf with
    | mk templates ending =>
      cases ending with
      | rooted => simp [hancestry, conclude] at hanswer
      | undeclared id => simp [hancestry, conclude] at hanswer
      | circular id =>
        have hwalk := (set.ancestry_circular_iff leaf templates id).mp hancestry
        rw [hancestry] at hanswer
        cases hanswer
        exact ⟨rfl, templates, id, hwalk.1, hwalk.2, rfl⟩
  · rintro ⟨rfl, templates, id, hwalk, hid, rfl⟩
    rw [(set.ancestry_circular_iff leaf templates id).mpr ⟨hwalk, hid⟩]
    rfl

/-- The error of an unknown template tells the declaration and the id that is missing. -/
theorem resolve_unknown_iff (set : TemplateSet) (leaf : Draft)
    (location object parent : String) :
    (set.resolve leaf).answer = .error (.unknownTemplate location object parent) ↔
      location = set.location ∧ object = leaf.id ∧ ∃ templates,
        set.WalksTo leaf templates (some parent) ∧ parent ∉ walk leaf templates ∧
          parent ∉ set.declaredIds := by
  rw [answer_resolve]
  constructor
  · intro hanswer
    cases hancestry : set.ancestry leaf with
    | mk templates ending =>
      cases ending with
      | rooted => simp [hancestry, conclude] at hanswer
      | circular id => simp [hancestry, conclude] at hanswer
      | undeclared id =>
        have hwalk := (set.ancestry_undeclared_iff leaf templates id).mp hancestry
        rw [hancestry] at hanswer
        cases hanswer
        exact ⟨rfl, rfl, templates, hwalk⟩
  · rintro ⟨rfl, rfl, templates, hwalk⟩
    rw [(set.ancestry_undeclared_iff leaf templates parent).mpr hwalk]
    rfl

/-- There is no other outcome. -/
theorem resolve_cases (set : TemplateSet) (leaf : Draft) :
    (∃ definition, (set.resolve leaf).answer = .ok definition) ∨
      (∃ chain, (set.resolve leaf).answer = .error (.circularTemplate set.location chain)) ∨
      ∃ parent, (set.resolve leaf).answer =
        .error (.unknownTemplate set.location leaf.id parent) := by
  rw [answer_resolve]
  cases hancestry : set.ancestry leaf with
  | mk templates ending =>
    cases ending with
    | rooted => exact Or.inl ⟨_, rfl⟩
    | circular id => exact Or.inr (Or.inl ⟨_, rfl⟩)
    | undeclared id => exact Or.inr (Or.inr ⟨_, rfl⟩)

/-- The ids of the templates of an ancestry are declared and do not repeat. -/
theorem ancestry_ids (set : TemplateSet) (leaf : Draft) :
    ((set.ancestry leaf).templates.map Draft.id).Nodup ∧
      ∀ id ∈ (set.ancestry leaf).templates.map Draft.id, id ∈ set.declaredIds := by
  have hwalk := set.walksTo_ancestry leaf
  exact ⟨(List.nodup_cons.mp hwalk.distinct).2, hwalk.climbs.ids_declared⟩

/-- Resolution of any declaration among any declarations ends in one of three ways. It
succeeds exactly if the walk along the parent ids reaches a declaration without a parent
before an id comes back; it reports a circular chain exactly if the walk comes first to
an id it has met, and then tells the walk; and it reports an unknown template exactly if
the walk comes first to an id that is neither met nor declared. Every merge on the way
is of another declared id. -/
theorem resolve_decided_by_walk (set : TemplateSet) (leaf : Draft) :
    ((∃ definition, (set.resolve leaf).answer = .ok definition) ↔
      ∃ templates, set.WalksTo leaf templates none) ∧
    (∀ location chain,
      (set.resolve leaf).answer = .error (.circularTemplate location chain) ↔
        location = set.location ∧ ∃ templates id,
          set.WalksTo leaf templates (some id) ∧ id ∈ walk leaf templates ∧
            chain = walk leaf templates ++ [id]) ∧
    (∀ location object parent,
      (set.resolve leaf).answer = .error (.unknownTemplate location object parent) ↔
        location = set.location ∧ object = leaf.id ∧ ∃ templates,
          set.WalksTo leaf templates (some parent) ∧ parent ∉ walk leaf templates ∧
            parent ∉ set.declaredIds) ∧
    ((∃ definition, (set.resolve leaf).answer = .ok definition) ∨
      (∃ chain, (set.resolve leaf).answer = .error (.circularTemplate set.location chain)) ∨
      ∃ parent, (set.resolve leaf).answer =
        .error (.unknownTemplate set.location leaf.id parent)) ∧
    (∃ merged : List String,
      (set.resolve leaf).trace = merged.map (Event.mergingTemplate leaf.id) ∧
        merged.Nodup ∧ ∀ id ∈ merged, id ∈ set.declaredIds) ∧
    (set.resolve leaf).trace.length ≤ set.declaredIds.dedup.length := by
  obtain ⟨hnodup, hdeclared⟩ := set.ancestry_ids leaf
  refine ⟨set.resolve_ok_iff leaf, set.resolve_circular_iff leaf,
    set.resolve_unknown_iff leaf, set.resolve_cases leaf,
    ⟨(set.ancestry leaf).templates.map Draft.id, ?_, hnodup, hdeclared⟩, ?_⟩
  · simp [resolve]
  · have hsubset : (set.ancestry leaf).templates.map Draft.id ⊆ set.declaredIds.dedup :=
      fun id hid => List.mem_dedup.mpr (hdeclared id hid)
    have hlength := hnodup.length_le_of_subset hsubset
    simpa [resolve] using hlength

end Wiring.TemplateSet
