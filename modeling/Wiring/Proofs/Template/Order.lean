import Mathlib.Tactic.Choose
import Wiring.Proofs.Steps
import Wiring.Proofs.Template.Inheritance

/-!
The declarations of a source as a list. Each of them contributes one block of definitions,
and the others have a part in it only through what is found under parent ids. So the order
of declarations with distinct ids is no more than the order of their blocks. Declarations
that are added at the end leave the blocks before them as they are, even if they use an id
again, because it is the first declaration of an id that is found.
-/

namespace Wiring.TemplateSet

section Found

variable {set other : TemplateSet} {leaf : Draft} {templates : List Draft}

/-- Whatever is found under an id in the first set is found under it in the second. -/
def Within (set other : TemplateSet) : Prop :=
  ∀ id d, set.get? id = some d → other.get? id = some d

namespace Within

theorem climbs (hwithin : Within set other) {next : Option String}
    (hclimbs : set.Climbs leaf templates next) : other.Climbs leaf templates next := by
  induction hclimbs with
  | stay hnext => exact .stay hnext
  | up hparent hget _ ih => exact .up hparent (hwithin _ _ hget) ih

theorem walksTo (hwithin : Within set other) {next : Option String}
    (hwalk : set.WalksTo leaf templates next) : other.WalksTo leaf templates next :=
  ⟨hwithin.climbs hwalk.climbs, hwalk.distinct⟩

theorem resolve (hwithin : Within set other) {own : ObjectDefinition}
    (hresolve : (set.resolve leaf).answer = .ok own) : (other.resolve leaf).answer = .ok own := by
  obtain ⟨templates, hwalk, rfl⟩ := resolve_ok_inherit hresolve
  exact resolve_of_walksTo (hwithin.walksTo hwalk)

/-- A declaration that resolves has the same templates in the larger set. -/
theorem ancestry (hwithin : Within set other) {own : ObjectDefinition}
    (hresolve : (set.resolve leaf).answer = .ok own) : other.ancestry leaf = set.ancestry leaf := by
  obtain ⟨templates, hwalk, -⟩ := resolve_ok_inherit hresolve
  rw [(set.ancestry_rooted_iff leaf templates).mpr hwalk,
    (other.ancestry_rooted_iff leaf templates).mpr (hwithin.walksTo hwalk)]

end Within

/-- Where ids are distinct, every declaration is found under its own. -/
theorem get?_of_mem (hdistinct : set.declaredIds.Nodup) {d : Draft} (hd : d ∈ set.drafts) :
    set.get? d.id = some d := by
  cases hget : set.get? d.id with
  | none => exact absurd (List.mem_map_of_mem hd) ((get?_eq_none_iff set d.id).mp hget)
  | some e =>
    have he : e ∈ set.drafts := List.mem_of_find?_eq_some hget
    rw [List.inj_on_of_nodup_map hdistinct he hd (id_of_get? hget)]

theorem within_of_perm (hperm : set.drafts.Perm other.drafts)
    (hdistinct : set.declaredIds.Nodup) : Within set other := by
  intro id d hget
  have hother : other.declaredIds.Nodup := (hperm.map Draft.id).nodup_iff.mp hdistinct
  have hd : d ∈ other.drafts := hperm.mem_iff.mp (List.mem_of_find?_eq_some hget)
  rw [← id_of_get? hget]
  exact get?_of_mem hother hd

/-- The first declaration of an id is found, whatever comes behind it. -/
theorem within_append (location : String) (drafts more : List Draft) :
    Within ⟨location, drafts⟩ ⟨location, drafts ++ more⟩ := by
  intro id d hget
  rw [get?] at hget ⊢
  rw [List.find?_append, hget, Option.some_or]

end Found

section Blocks

variable {set other : TemplateSet} {location : String} {drafts : List Draft}

/-- What a declaration contributes: the definitions written inline in it as they are, and
its own behind them. -/
def block (set : TemplateSet) (draft : Draft) : Except ReadError (List ObjectDefinition) :=
  (set.resolve draft).answer.map fun own => draft.inner ++ [own]

theorem exists_of_block {draft : Draft} {definitions : List ObjectDefinition}
    (hblock : set.block draft = .ok definitions) :
    ∃ own, (set.resolve draft).answer = .ok own ∧ definitions = draft.inner ++ [own] :=
  (map_eq_ok_iff _ _ definitions).mp hblock

theorem Within.block (hwithin : Within set other) {draft : Draft}
    {definitions : List ObjectDefinition} (hblock : set.block draft = .ok definitions) :
    other.block draft = .ok definitions := by
  obtain ⟨own, hresolve, rfl⟩ := exists_of_block hblock
  rw [TemplateSet.block, hwithin.resolve hresolve]
  rfl

theorem answer_resolveAll (set : TemplateSet) (drafts : List Draft) :
    (set.resolveAll drafts).answer = (drafts.mapM set.block).map List.flatten := by
  induction drafts with
  | nil => rfl
  | cons draft drafts ih =>
    simp only [resolveAll, Traced.answer_bind, List.mapM_cons, ih, block]
    cases (set.resolve draft).answer with
    | error e => rfl
    | ok own =>
      cases drafts.mapM set.block with
      | error e => rfl
      | ok blocks =>
        show Except.ok (draft.inner ++ own :: blocks.flatten) =
          Except.ok ((draft.inner ++ [own]) :: blocks).flatten
        rw [List.flatten_cons, List.append_assoc]
        rfl

theorem answer_resolveTemplates (location : String) (drafts : List Draft) :
    (resolveTemplates location drafts).answer =
      (drafts.mapM (block ⟨location, drafts⟩)).map List.flatten :=
  answer_resolveAll ⟨location, drafts⟩ drafts

theorem exists_of_resolveTemplates {result : List ObjectDefinition}
    (hresult : (resolveTemplates location drafts).answer = .ok result) :
    ∃ blocks, drafts.mapM (block ⟨location, drafts⟩) = .ok blocks ∧ result = blocks.flatten := by
  rw [answer_resolveTemplates] at hresult
  exact (map_eq_ok_iff _ _ result).mp hresult

/-- A source resolves if each of its declarations does. -/
theorem exists_resolveTemplates_iff (location : String) (drafts : List Draft) :
    (∃ result, (resolveTemplates location drafts).answer = .ok result) ↔
      ∀ draft ∈ drafts, ∃ definitions, block ⟨location, drafts⟩ draft = .ok definitions := by
  rw [← exists_mapM_eq_ok_iff]
  constructor
  · rintro ⟨result, hresult⟩
    obtain ⟨blocks, hblocks, -⟩ := exists_of_resolveTemplates hresult
    exact ⟨blocks, hblocks⟩
  · rintro ⟨blocks, hblocks⟩
    rw [answer_resolveTemplates, hblocks]
    exact ⟨blocks.flatten, rfl⟩

theorem resolveTemplates_of_blocks {contribution : Draft → List ObjectDefinition}
    (hblocks : ∀ draft ∈ drafts, block ⟨location, drafts⟩ draft = .ok (contribution draft)) :
    (resolveTemplates location drafts).answer = .ok (drafts.flatMap contribution) := by
  have hall : drafts.mapM (block ⟨location, drafts⟩) = .ok (drafts.map contribution) := by
    rw [mapM_eq_ok_iff, List.forall₂_map_right_iff, List.forall₂_same]
    exact hblocks
  rw [answer_resolveTemplates, hall]
  rfl

/-- Where some declarations resolve, those added behind them decide about all. -/
theorem answer_resolveTemplates_append {result : List ObjectDefinition}
    (hresult : (resolveTemplates location drafts).answer = .ok result) (more : List Draft) :
    (resolveTemplates location (drafts ++ more)).answer =
      (more.mapM (block ⟨location, drafts ++ more⟩)).map fun blocks =>
        result ++ blocks.flatten := by
  obtain ⟨blocks, hblocks, rfl⟩ := exists_of_resolveTemplates hresult
  -- The blocks of the earlier declarations are the same among more of them.
  have hbefore : drafts.mapM (block ⟨location, drafts ++ more⟩) = .ok blocks := by
    rw [mapM_eq_ok_iff] at hblocks ⊢
    exact hblocks.imp fun _ _ => (within_append location drafts more).block
  rw [answer_resolveTemplates, List.mapM_append, hbefore]
  cases more.mapM (block ⟨location, drafts ++ more⟩) with
  | error e => rfl
  | ok added =>
    show Except.ok (blocks ++ added).flatten = Except.ok (blocks.flatten ++ added.flatten)
    rw [List.flatten_append]

end Blocks

/-- The order of declarations with distinct ids only orders what is defined. A source
resolves exactly if each of its declarations does, so it resolves in any other order as
well, and then each declaration contributes the same block, and the blocks follow the
declarations. -/
theorem resolveTemplates_perm (location : String) (drafts others : List Draft)
    (hperm : drafts.Perm others) (hdistinct : (drafts.map Draft.id).Nodup) :
    ((∃ result, (resolveTemplates location drafts).answer = .ok result) ↔
      ∀ draft ∈ drafts, ∃ definitions, block ⟨location, drafts⟩ draft = .ok definitions) ∧
    ((∃ result, (resolveTemplates location drafts).answer = .ok result) ↔
      ∃ result, (resolveTemplates location others).answer = .ok result) ∧
    ∀ result, (resolveTemplates location drafts).answer = .ok result →
      ∃ contribution : Draft → List ObjectDefinition,
        (∀ draft ∈ drafts,
          block ⟨location, drafts⟩ draft = .ok (contribution draft) ∧
          block ⟨location, others⟩ draft = .ok (contribution draft)) ∧
        result = drafts.flatMap contribution ∧
        (resolveTemplates location others).answer = .ok (others.flatMap contribution) := by
  have hother : (others.map Draft.id).Nodup := (hperm.map Draft.id).nodup_iff.mp hdistinct
  have forth : Within ⟨location, drafts⟩ ⟨location, others⟩ := within_of_perm hperm hdistinct
  have back : Within ⟨location, others⟩ ⟨location, drafts⟩ := within_of_perm hperm.symm hother
  refine ⟨exists_resolveTemplates_iff location drafts, ?_, fun result hresult => ?_⟩
  · rw [exists_resolveTemplates_iff, exists_resolveTemplates_iff]
    constructor
    · intro hblocks draft hdraft
      exact (hblocks draft (hperm.mem_iff.mpr hdraft)).imp fun _ => forth.block
    · intro hblocks draft hdraft
      exact (hblocks draft (hperm.mem_iff.mp hdraft)).imp fun _ => back.block
  · -- With distinct ids no declaration stands in two places, so a function of the
    -- declarations can tell the blocks.
    have hblocks := (exists_resolveTemplates_iff location drafts).mp ⟨result, hresult⟩
    choose! contribution hcontribution using hblocks
    have hsame : ∀ draft ∈ drafts, block ⟨location, others⟩ draft = .ok (contribution draft) :=
      fun draft hdraft => forth.block (hcontribution draft hdraft)
    refine ⟨contribution, fun draft hdraft => ⟨hcontribution draft hdraft, hsame draft hdraft⟩,
      ?_, ?_⟩
    · exact Except.ok.inj (hresult.symm.trans (resolveTemplates_of_blocks hcontribution))
    · exact resolveTemplates_of_blocks fun draft hdraft => hsame draft (hperm.mem_iff.mpr hdraft)

/-- A declaration before its templates resolves as it does behind them. -/
theorem resolveTemplates_perm_childFirst :
    (twoTemplates.drafts ++ [thirdLevel]).Perm ([thirdLevel] ++ twoTemplates.drafts) ∧
    ((twoTemplates.drafts ++ [thirdLevel]).map Draft.id).Nodup ∧
    ∃ result,
      (resolveTemplates "ctx.xml" (twoTemplates.drafts ++ [thirdLevel])).answer = .ok result ∧
      ∃ contribution : Draft → List ObjectDefinition,
        (∀ draft ∈ twoTemplates.drafts ++ [thirdLevel],
          block ⟨"ctx.xml", twoTemplates.drafts ++ [thirdLevel]⟩ draft =
            .ok (contribution draft) ∧
          block ⟨"ctx.xml", [thirdLevel] ++ twoTemplates.drafts⟩ draft =
            .ok (contribution draft)) ∧
        result = (twoTemplates.drafts ++ [thirdLevel]).flatMap contribution ∧
        (resolveTemplates "ctx.xml" ([thirdLevel] ++ twoTemplates.drafts)).answer =
          .ok (([thirdLevel] ++ twoTemplates.drafts).flatMap contribution) := by
  have hperm : (twoTemplates.drafts ++ [thirdLevel]).Perm ([thirdLevel] ++ twoTemplates.drafts) :=
    List.perm_append_comm
  have hdistinct : ((twoTemplates.drafts ++ [thirdLevel]).map Draft.id).Nodup := by decide
  have hok : (resolveTemplates "ctx.xml" (twoTemplates.drafts ++ [thirdLevel])).answer.isOk := by
    decide +kernel
  obtain ⟨result, hresult⟩ := Traced.exists_of_isOk hok
  exact ⟨hperm, hdistinct, result, hresult,
    (resolveTemplates_perm "ctx.xml" _ _ hperm hdistinct).2.2 result hresult⟩

/-- Declarations added behind others that resolve change nothing about those. Resolution
then fails with the error of the first added one that does not resolve, or it gives the
same definitions as before and behind them the blocks of the added ones. Either way the
earlier declarations keep their templates, also where an added one uses an id again. -/
theorem resolveTemplates_append (location : String) (drafts more : List Draft)
    (result : List ObjectDefinition)
    (hresult : (resolveTemplates location drafts).answer = .ok result) :
    ((∃ e, (resolveTemplates location (drafts ++ more)).answer = .error e ∧
        FirstFailure (block ⟨location, drafts ++ more⟩) more e) ∨
      ∃ blocks,
        (resolveTemplates location (drafts ++ more)).answer = .ok (result ++ blocks.flatten) ∧
        List.Forall₂ (fun draft definitions =>
          block ⟨location, drafts ++ more⟩ draft = .ok definitions) more blocks) ∧
    ∀ draft ∈ drafts,
      ancestry ⟨location, drafts ++ more⟩ draft = ancestry ⟨location, drafts⟩ draft := by
  have hanswer := answer_resolveTemplates_append hresult more
  constructor
  · cases hmore : more.mapM (block ⟨location, drafts ++ more⟩) with
    | error e =>
      rw [hmore] at hanswer
      exact .inl ⟨e, hanswer, (mapM_eq_error_iff _ more e).mp hmore⟩
    | ok blocks =>
      rw [hmore] at hanswer
      exact .inr ⟨blocks, hanswer, (mapM_eq_ok_iff _ more blocks).mp hmore⟩
  · intro draft hdraft
    have hblocks := (exists_resolveTemplates_iff location drafts).mp ⟨result, hresult⟩
    obtain ⟨definitions, hblock⟩ := hblocks draft hdraft
    obtain ⟨own, hresolve, -⟩ := exists_of_block hblock
    exact (within_append location drafts more).ancestry hresolve

/-- Declarations to be added: a second one of an id in use, and one that takes from it. -/
def redeclaredTop : List Draft :=
  [Draft.ofFactory "top" (.reflective "pkg.Other"),
    { Draft.ofFactory "late" .unspecified with parent := some "top" }]

theorem resolveTemplates_append_redeclaredTop :
    ∃ result, (resolveTemplates "ctx.xml" twoTemplates.drafts).answer = .ok result ∧
      ((∃ e, (resolveTemplates "ctx.xml" (twoTemplates.drafts ++ redeclaredTop)).answer =
            .error e ∧
          FirstFailure (block ⟨"ctx.xml", twoTemplates.drafts ++ redeclaredTop⟩)
            redeclaredTop e) ∨
        ∃ blocks,
          (resolveTemplates "ctx.xml" (twoTemplates.drafts ++ redeclaredTop)).answer =
            .ok (result ++ blocks.flatten) ∧
          List.Forall₂ (fun draft definitions =>
            block ⟨"ctx.xml", twoTemplates.drafts ++ redeclaredTop⟩ draft = .ok definitions)
            redeclaredTop blocks) ∧
      ∀ draft ∈ twoTemplates.drafts,
        ancestry ⟨"ctx.xml", twoTemplates.drafts ++ redeclaredTop⟩ draft =
          ancestry ⟨"ctx.xml", twoTemplates.drafts⟩ draft := by
  have hok : (resolveTemplates "ctx.xml" twoTemplates.drafts).answer.isOk := by decide +kernel
  obtain ⟨result, hresult⟩ := Traced.exists_of_isOk hok
  exact ⟨result, hresult,
    resolveTemplates_append "ctx.xml" twoTemplates.drafts redeclaredTop result hresult⟩

end Wiring.TemplateSet
