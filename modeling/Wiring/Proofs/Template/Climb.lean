import Mathlib.Data.List.Dedup
import Wiring.Template.Ancestry

/-!
Climbing from a declaration to its templates, said without any record of the ids met:
each template is the declaration found under the parent id of the one below it. The
climb of `TemplateSet.climb` follows this relation for as long as no id comes back, and
this module proves that its three endings are exactly the three ways in which such a
climb can come to a stop.
-/

namespace Wiring

/-- The id that an ending stops at, if it stops at one. -/
def Ending.next : Ending → Option String
  | .rooted => none
  | .circular id => some id
  | .undeclared id => some id

namespace TemplateSet

/-- Climbing from a declaration through some templates, nearest first, comes to `next`:
the parent id of the last of them, or nothing if that one has no parent. -/
inductive Climbs (set : TemplateSet) : Draft → List Draft → Option String → Prop where
  | stay {d : Draft} {next : Option String} (hnext : d.parent = next) : Climbs set d [] next
  | up {d p : Draft} {id : String} {templates : List Draft} {next : Option String}
      (hparent : d.parent = some id) (hget : set.get? id = some p)
      (hrest : Climbs set p templates next) : Climbs set d (p :: templates) next

/-- The ids of a declaration and of the templates climbed through. -/
def walk (leaf : Draft) (templates : List Draft) : List String :=
  (leaf :: templates).map Draft.id

/-- The ids that are declared. -/
def declaredIds (set : TemplateSet) : List String := set.drafts.map Draft.id

theorem id_of_get? {set : TemplateSet} {id : String} {d : Draft}
    (hget : set.get? id = some d) : d.id = id := by
  have hfound := List.find?_some hget
  simpa using hfound

theorem get?_eq_none_iff (set : TemplateSet) (id : String) :
    set.get? id = none ↔ id ∉ set.declaredIds := by
  simp [get?, declaredIds]

namespace Climbs

variable {set : TemplateSet} {d : Draft} {templates : List Draft} {next : Option String}

theorem mem_drafts (hclimb : set.Climbs d templates next) : ∀ t ∈ templates, t ∈ set.drafts := by
  induction hclimb with
  | stay => simp
  | up hparent hget hrest ih =>
    intro t ht
    rcases List.mem_cons.mp ht with rfl | ht
    · exact List.mem_of_find?_eq_some hget
    · exact ih t ht

theorem ids_declared (hclimb : set.Climbs d templates next) :
    ∀ id ∈ templates.map Draft.id, id ∈ set.declaredIds := by
  intro id hid
  obtain ⟨t, ht, rfl⟩ := List.mem_map.mp hid
  exact List.mem_map_of_mem (hclimb.mem_drafts t ht)

/-- There is only one way up to a declaration without a parent. -/
theorem rooted_unique (hclimb : set.Climbs d templates none) {other : List Draft}
    (hother : set.Climbs d other none) : other = templates := by
  induction templates generalizing d other with
  | nil =>
    cases hclimb with
    | stay hroot =>
      cases hother with
      | stay => rfl
      | up hparent => simp [hroot] at hparent
  | cons p templates ih =>
    cases hclimb with
    | up hparent hget hrest =>
      cases hother with
      | stay hroot => simp [hroot] at hparent
      | up hparent' hget' hrest' =>
        obtain rfl := Option.some.inj (hparent.symm.trans hparent')
        obtain rfl := Option.some.inj (hget.symm.trans hget')
        rw [ih hrest hrest']

end Climbs

/-! The climb of the library, step by step. -/

@[simp] theorem climb_none (set : TemplateSet) (seen : List String) :
    set.climb seen none = ⟨[], .rooted⟩ := by
  rw [climb]

theorem climb_of_mem (set : TemplateSet) {seen : List String} {id : String}
    (hid : id ∈ seen) : set.climb seen (some id) = ⟨[], .circular id⟩ := by
  rw [climb, dif_pos hid]

theorem climb_of_undeclared (set : TemplateSet) {seen : List String} {id : String}
    (hid : id ∉ seen) (hget : set.get? id = none) :
    set.climb seen (some id) = ⟨[], .undeclared id⟩ := by
  rw [climb, dif_neg hid]
  split
  · rfl
  · simp_all

theorem climb_of_get? (set : TemplateSet) {seen : List String} {id : String} {p : Draft}
    (hid : id ∉ seen) (hget : set.get? id = some p) :
    set.climb seen (some id) =
      ⟨p :: (set.climb (seen ++ [id]) p.parent).templates,
        (set.climb (seen ++ [id]) p.parent).ending⟩ := by
  rw [climb, dif_neg hid]
  split
  · simp_all
  · simp_all

/-- The climb of the library follows parent ids. -/
theorem climbs_climb (set : TemplateSet) (seen : List String) (d : Draft) :
    set.Climbs d (set.climb seen d.parent).templates (set.climb seen d.parent).ending.next := by
  generalize hnext : d.parent = next
  induction seen, next using climb.induct set generalizing d with
  | case1 seen =>
    rw [climb_none]
    exact .stay hnext
  | case2 seen id hid =>
    rw [climb_of_mem set hid]
    exact .stay hnext
  | case3 seen id hid hget =>
    rw [climb_of_undeclared set hid hget]
    exact .stay hnext
  | case4 seen id hid p hget _ ih =>
    rw [climb_of_get? set hid hget]
    exact .up hnext hget (ih p rfl)

/-- Climbing meets no id twice, and none of those met before. -/
theorem nodup_climb (set : TemplateSet) (seen : List String) (next : Option String)
    (hseen : seen.Nodup) : (seen ++ (set.climb seen next).templates.map Draft.id).Nodup := by
  induction seen, next using climb.induct set with
  | case1 seen => simpa using hseen
  | case2 seen id hid => simpa [climb_of_mem set hid] using hseen
  | case3 seen id hid hget => simpa [climb_of_undeclared set hid hget] using hseen
  | case4 seen id hid p hget _ ih =>
    have hsnoc : (seen ++ [id]).Nodup := by
      rw [List.nodup_append]
      refine ⟨hseen, List.nodup_singleton id, ?_⟩
      rintro a ha b hb rfl
      rw [List.mem_singleton] at hb
      exact hid (hb ▸ ha)
    rw [climb_of_get? set hid hget, List.map_cons, id_of_get? hget]
    simpa using ih hsnoc

/-- A climb that ends as circular stops at an id met before. -/
theorem mem_of_climb_circular (set : TemplateSet) (seen : List String) (next : Option String)
    (last : String) (hending : (set.climb seen next).ending = .circular last) :
    last ∈ seen ++ (set.climb seen next).templates.map Draft.id := by
  induction seen, next using climb.induct set with
  | case1 seen => simp at hending
  | case2 seen id hid =>
    rw [climb_of_mem set hid] at hending ⊢
    cases hending
    simpa using hid
  | case3 seen id hid hget => simp [climb_of_undeclared set hid hget] at hending
  | case4 seen id hid p hget _ ih =>
    rw [climb_of_get? set hid hget] at hending ⊢
    rw [List.map_cons, id_of_get? hget]
    simpa using ih hending

/-- A climb that ends as undeclared stops at an id that was not met and is not declared. -/
theorem not_mem_of_climb_undeclared (set : TemplateSet) (seen : List String)
    (next : Option String) (last : String)
    (hending : (set.climb seen next).ending = .undeclared last) :
    last ∉ seen ++ (set.climb seen next).templates.map Draft.id ∧
      last ∉ set.declaredIds := by
  induction seen, next using climb.induct set with
  | case1 seen => simp at hending
  | case2 seen id hid => simp [climb_of_mem set hid] at hending
  | case3 seen id hid hget =>
    rw [climb_of_undeclared set hid hget] at hending ⊢
    cases hending
    exact ⟨by simpa using hid, (get?_eq_none_iff set last).mp hget⟩
  | case4 seen id hid p hget _ ih =>
    rw [climb_of_get? set hid hget] at hending ⊢
    rw [List.map_cons, id_of_get? hget]
    simpa using ih hending

/-- Where ids may be climbed through, the climb of the library goes through them and
goes on from there. -/
theorem climb_of_climbs {set : TemplateSet} {d : Draft} {templates : List Draft}
    {next : Option String} (hclimb : set.Climbs d templates next) {seen : List String}
    (hnodup : (seen ++ templates.map Draft.id).Nodup) :
    set.climb seen d.parent =
      ⟨templates ++ (set.climb (seen ++ templates.map Draft.id) next).templates,
        (set.climb (seen ++ templates.map Draft.id) next).ending⟩ := by
  induction hclimb generalizing seen with
  | stay hnext => simp [hnext]
  | @up d p id templates next hparent hget hrest ih =>
    rw [List.map_cons, id_of_get? hget] at hnodup ⊢
    have hid : id ∉ seen := by
      intro hmem
      exact (List.nodup_append.mp hnodup).2.2 id hmem id List.mem_cons_self rfl
    have hsnoc : (seen ++ [id] ++ templates.map Draft.id).Nodup := by
      simpa using hnodup
    rw [hparent, climb_of_get? set hid hget, ih hsnoc]
    simp

/-! What follows for the ancestry of a declaration. -/

/-- Climbing from a declaration comes to `next` before any id comes back. -/
structure WalksTo (set : TemplateSet) (leaf : Draft) (templates : List Draft)
    (next : Option String) : Prop where
  climbs : set.Climbs leaf templates next
  distinct : (walk leaf templates).Nodup

theorem walksTo_ancestry (set : TemplateSet) (leaf : Draft) :
    set.WalksTo leaf (set.ancestry leaf).templates (set.ancestry leaf).ending.next where
  climbs := set.climbs_climb [leaf.id] leaf
  distinct := set.nodup_climb [leaf.id] leaf.parent (List.nodup_singleton leaf.id)

/-- The way up from a declaration with a parent is that of the declaration found under the
parent's id, provided that it does not lead back. -/
theorem walksTo_parent_iff {set : TemplateSet} {leaf : Draft} {p : String}
    (hparent : leaf.parent = some p) (templates : List Draft) :
    set.WalksTo leaf templates none ↔
      ∃ template above, templates = template :: above ∧ set.get? p = some template ∧
        set.WalksTo template above none ∧ leaf.id ∉ walk template above := by
  constructor
  · rintro ⟨hclimbs, hdistinct⟩
    cases hclimbs with
    | stay hroot =>
      rw [hparent] at hroot
      cases hroot
    | @up _ template id above _ hid hget hrest =>
      obtain rfl := Option.some.inj (hparent.symm.trans hid)
      obtain ⟨hnew, hdistinct⟩ := List.nodup_cons.mp hdistinct
      exact ⟨template, above, rfl, hget, ⟨hrest, hdistinct⟩, hnew⟩
  · rintro ⟨template, above, rfl, hget, hwalk, hnew⟩
    exact ⟨.up hparent hget hwalk.climbs, List.nodup_cons.mpr ⟨hnew, hwalk.distinct⟩⟩

/-- A walk is a beginning of the ancestry, which goes on from where it comes to. -/
theorem WalksTo.ancestry_eq {set : TemplateSet} {leaf : Draft} {templates : List Draft}
    {next : Option String} (hwalk : set.WalksTo leaf templates next) :
    set.ancestry leaf =
      ⟨templates ++ (set.climb (walk leaf templates) next).templates,
        (set.climb (walk leaf templates) next).ending⟩ :=
  climb_of_climbs hwalk.climbs hwalk.distinct

/-- The ancestry is rooted exactly if climbing reaches a declaration without a parent
before an id comes back. -/
theorem ancestry_rooted_iff (set : TemplateSet) (leaf : Draft) (templates : List Draft) :
    set.ancestry leaf = ⟨templates, .rooted⟩ ↔ set.WalksTo leaf templates none := by
  constructor
  · intro hancestry
    have hwalk := set.walksTo_ancestry leaf
    rwa [hancestry] at hwalk
  · intro hwalk
    simpa using hwalk.ancestry_eq

/-- The ancestry is circular exactly if climbing comes to an id of the walk first. -/
theorem ancestry_circular_iff (set : TemplateSet) (leaf : Draft) (templates : List Draft)
    (id : String) :
    set.ancestry leaf = ⟨templates, .circular id⟩ ↔
      set.WalksTo leaf templates (some id) ∧ id ∈ walk leaf templates := by
  constructor
  · intro hancestry
    have hwalk := set.walksTo_ancestry leaf
    have hmem := set.mem_of_climb_circular [leaf.id] leaf.parent id
    change (set.ancestry leaf).ending = _ → id ∈ [leaf.id] ++ (set.ancestry leaf).templates.map _
      at hmem
    rw [hancestry] at hwalk hmem
    exact ⟨hwalk, by simpa [walk] using hmem rfl⟩
  · rintro ⟨hwalk, hid⟩
    simpa [climb_of_mem set hid] using hwalk.ancestry_eq

/-- The ancestry is undeclared exactly if climbing comes first to an id that is neither
on the walk nor declared. -/
theorem ancestry_undeclared_iff (set : TemplateSet) (leaf : Draft) (templates : List Draft)
    (id : String) :
    set.ancestry leaf = ⟨templates, .undeclared id⟩ ↔
      set.WalksTo leaf templates (some id) ∧ id ∉ walk leaf templates ∧
        id ∉ set.declaredIds := by
  constructor
  · intro hancestry
    have hwalk := set.walksTo_ancestry leaf
    have hmem := set.not_mem_of_climb_undeclared [leaf.id] leaf.parent id
    change (set.ancestry leaf).ending = _ →
      id ∉ [leaf.id] ++ (set.ancestry leaf).templates.map _ ∧ _ at hmem
    rw [hancestry] at hwalk hmem
    exact ⟨hwalk, by simpa [walk] using hmem rfl⟩
  · rintro ⟨hwalk, hid, hdeclared⟩
    have hget := (get?_eq_none_iff set id).mpr hdeclared
    simpa [climb_of_undeclared set hid hget] using hwalk.ancestry_eq

end TemplateSet

end Wiring
