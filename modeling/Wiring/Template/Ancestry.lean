import Wiring.Report.ReadError
import Wiring.Template.Draft

/-!
Template resolution. The ancestry of a declaration is found by following parent ids
through the drafts of its source. It ends at a draft without a parent, at an id met
before, or at an id that is not declared; only in the first case there is a definition,
which merges the arguments of all ancestors and takes the factory of the topmost.
-/

namespace Wiring

/-- Where the walk along the parents ends. -/
inductive Ending where
  /-- The last draft has no parent. -/
  | rooted
  /-- The id was met before. -/
  | circular (id : String)
  /-- The id is not declared. -/
  | undeclared (id : String)
deriving DecidableEq

/-- The templates above a declaration, nearest first, and where they end. -/
structure Ancestry where
  templates : List Draft
  ending : Ending

/-- The top-level declarations of one source, among which parents are looked up. -/
structure TemplateSet where
  location : String
  drafts : List Draft

namespace TemplateSet

/-- The first declaration of an id. -/
def get? (set : TemplateSet) (id : String) : Option Draft :=
  set.drafts.find? fun d => d.id == id

/-- The drafts whose ids were not met yet. -/
def unseen (set : TemplateSet) (seen : List String) : List Draft :=
  set.drafts.filter fun d => d.id ∉ seen

theorem unseen_length_lt (set : TemplateSet) {seen : List String} {id : String}
    {parent : Draft} (hid : id ∉ seen) (hget : set.get? id = some parent) :
    (set.unseen (seen ++ [id])).length < (set.unseen seen).length := by
  have hmem : parent ∈ set.drafts := List.mem_of_find?_eq_some hget
  have hname : parent.id = id := by
    have := List.find?_some hget
    simpa using this
  have hsub : set.unseen (seen ++ [id]) = (set.unseen seen).filter fun d => d.id ≠ id := by
    unfold unseen
    rw [List.filter_filter]
    congr 1
    funext d
    simp [and_comm]
  rw [hsub]
  apply List.length_filter_lt_length_iff_exists.2
  exact ⟨parent, by simp [unseen, hmem, hname, hid], by simp [hname]⟩

/-- The ancestry that starts at a parent id, if there is one; `seen` holds the ids met
before. Every step meets a new declared id, so the walk ends. -/
def climb (set : TemplateSet) (seen : List String) : Option String → Ancestry
  | none => ⟨[], .rooted⟩
  | some id =>
    if hid : id ∈ seen then ⟨[], .circular id⟩
    else
      match hget : set.get? id with
      | none => ⟨[], .undeclared id⟩
      | some parent =>
        have := set.unseen_length_lt hid hget
        let above := climb set (seen ++ [id]) parent.parent
        ⟨parent :: above.templates, above.ending⟩
termination_by (set.unseen seen).length

def ancestry (set : TemplateSet) (leaf : Draft) : Ancestry := set.climb [leaf.id] leaf.parent

/-- The ids met on the way up, beginning with that of the declaration. An id is met as
the parent of the one before it. -/
def chain (leaf : Draft) (ancestry : Ancestry) : List String :=
  leaf.id :: ancestry.templates.map Draft.id

/-- The outcome for a declaration of a given ancestry. -/
def conclude (set : TemplateSet) (leaf : Draft) (ancestry : Ancestry) :
    Except ReadError ObjectDefinition :=
  match ancestry.ending with
  | .circular id => .error (.circularTemplate set.location (chain leaf ancestry ++ [id]))
  | .undeclared id => .error (.unknownTemplate set.location leaf.id id)
  | .rooted =>
    let args := ancestry.templates.foldl (fun args t => args.mergeParent t.args) leaf.args
    let factory := match ancestry.templates.getLast? with
      | some top => top.factory
      | none => leaf.factory
    .ok (leaf.build factory args)

def resolve (set : TemplateSet) (leaf : Draft) : Reading ObjectDefinition :=
  let ancestry := set.ancestry leaf
  ⟨ancestry.templates.map fun t => .mergingTemplate leaf.id t.id, set.conclude leaf ancestry⟩

/-- The definitions of some declarations in order, each after those written inline in
it. -/
def resolveAll (set : TemplateSet) : List Draft → Reading (List ObjectDefinition)
  | [] => pure []
  | draft :: drafts => do
    let definition ← set.resolve draft
    Traced.record (.parsedObject definition.id)
    let rest ← resolveAll set drafts
    return draft.inner ++ definition :: rest

end TemplateSet

/-- The definitions of all declarations of a source, in declaration order. -/
def resolveTemplates (location : String) (drafts : List Draft) :
    Reading (List ObjectDefinition) :=
  TemplateSet.resolveAll ⟨location, drafts⟩ drafts

end Wiring
