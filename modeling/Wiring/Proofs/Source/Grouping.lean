import Wiring.Proofs.Steps
import Wiring.Source.Selection

/-!
Sources are read together as each is read on its own. Which neighbours share a dialect
makes no difference, and neither does what stands in the other sources; only the first
error counts, and one in telling the dialects comes before one in reading.
-/

namespace Wiring

section Groups

variable (files : Files)

theorem readAll_cons (dialect : Dialect) (source : Source) (sources : List Source) :
    dialect.readAll files (source :: sources) = do
      let definitions ← dialect.readAll files [source]
      let rest ← dialect.readAll files sources
      return definitions ++ rest := by
  simp [Dialect.readAll]

/-- Groups may be split up, log and all. -/
theorem readGroups_groupByDialect (selected : List (Dialect × Source)) :
    readGroups files (groupByDialect selected) =
      readGroups files (selected.map fun choice => (choice.1, [choice.2])) := by
  induction selected with
  | nil => rfl
  | cons choice rest ih =>
    obtain ⟨dialect, source⟩ := choice
    rw [groupByDialect, List.map_cons, readGroups, ← ih]
    split
    · rename_i next sources groups hgroups
      rw [hgroups]
      split
      · rename_i hsame
        subst hsame
        rw [readGroups, readAll_cons, readGroups]
        simp only [bind_assoc, pure_bind, List.append_assoc]
      · rw [readGroups]
    · rename_i hgroups
      rw [hgroups, readGroups]
      rfl

theorem answer_readGroups_singletons (selected : List (Dialect × Source)) :
    (readGroups files (selected.map fun choice => (choice.1, [choice.2]))).answer =
      List.flatten <$> selected.mapM fun choice => (choice.1.readAll files [choice.2]).answer := by
  induction selected with
  | nil => rfl
  | cons choice rest ih =>
    rw [List.map_cons, readGroups, List.mapM_cons, Traced.answer_bind]
    simp only [Traced.answer_bind, ih, map_bind, bind_map_left, map_pure, List.flatten_cons]
    rfl

end Groups

/-- The dialect that a source is read in: the declared one, or else the one it is in. -/
def Source.dialectFor (files : Files) (source : Source) :
    Option Dialect → Except ReadError Dialect
  | some dialect => .ok dialect
  | none => source.dialect files

/-- What a source gives that is read on its own, by the reader of its dialect. -/
def readAlone (files : Files) (entry : Source × Option Dialect) :
    Except ReadError (List ObjectDefinition) := do
  let dialect ← entry.1.dialectFor files entry.2
  (dialect.readAll files [entry.1]).answer

theorem answer_select (files : Files) (source : Source) (declared : Option Dialect) :
    (select files source declared).answer =
      (source.dialectFor files declared).map fun dialect => (dialect, source) := by
  cases declared with
  | some dialect => rfl
  | none =>
    rw [select, Source.dialectFor, Traced.answer_bind]
    cases source.dialect files <;> rfl

theorem answer_selectAll (files : Files) (sources : List (Source × Option Dialect)) :
    (selectAll files sources).answer =
      sources.mapM fun entry => (select files entry.1 entry.2).answer := by
  induction sources with
  | nil => rfl
  | cons entry sources ih =>
    rw [selectAll, List.mapM_cons, Traced.answer_bind]
    simp only [Traced.answer_bind, ih]
    rfl

/-- Reading sources tells all dialects and then reads each source. -/
theorem answer_readSources (files : Files) (sources : List (Source × Option Dialect)) :
    (readSources files sources).answer =
      (sources.mapM fun entry => (select files entry.1 entry.2).answer) >>= fun selected =>
        List.flatten <$> selected.mapM fun choice =>
          (choice.1.readAll files [choice.2]).answer := by
  simp only [readSources, Traced.answer_bind, answer_selectAll, readGroups_groupByDialect,
    answer_readGroups_singletons]

theorem readAlone_eq (files : Files) (entry : Source × Option Dialect) :
    readAlone files entry =
      (select files entry.1 entry.2).answer >>= fun choice =>
        (choice.1.readAll files [choice.2]).answer := by
  rw [answer_select, readAlone]
  cases entry.1.dialectFor files entry.2 <;> rfl

/-- Once all dialects are told, reading the sources is reading each of them alone. -/
theorem answer_readSources_of_ok {files : Files} {sources : List (Source × Option Dialect)}
    {selected : List (Dialect × Source)}
    (hselected : (sources.mapM fun entry => (select files entry.1 entry.2).answer) =
      .ok selected) :
    (readSources files sources).answer = List.flatten <$> sources.mapM (readAlone files) := by
  have hread := mapM_bind_of_ok hselected fun choice =>
    (choice.1.readAll files [choice.2]).answer
  simp only [← readAlone_eq] at hread
  rw [answer_readSources, hselected, hread]
  rfl

/-- A dialect cannot be selected exactly if it cannot be told. -/
theorem select_error_iff (files : Files) (entry : Source × Option Dialect) (e : ReadError) :
    (select files entry.1 entry.2).answer = .error e ↔
      entry.1.dialectFor files entry.2 = .error e := by
  rw [answer_select]
  cases entry.1.dialectFor files entry.2 with
  | error d => simp [Except.map]
  | ok dialect => exact ⟨nofun, nofun⟩

theorem exists_select_iff (files : Files) (entry : Source × Option Dialect) :
    (∃ choice, (select files entry.1 entry.2).answer = .ok choice) ↔
      ∃ dialect, entry.1.dialectFor files entry.2 = .ok dialect := by
  simp only [exists_eq_ok_iff, ne_eq, select_error_iff]

theorem exists_select_of_readAlone {files : Files} {entry : Source × Option Dialect}
    {part : List ObjectDefinition} (hread : readAlone files entry = .ok part) :
    ∃ choice, (select files entry.1 entry.2).answer = .ok choice := by
  rw [readAlone_eq] at hread
  cases hselect : (select files entry.1 entry.2).answer with
  | error e =>
    rw [hselect] at hread
    cases hread
  | ok choice => exact ⟨choice, rfl⟩

theorem readSources_ok_iff (files : Files) (sources : List (Source × Option Dialect))
    (result : List ObjectDefinition) :
    (readSources files sources).answer = .ok result ↔
      ∃ parts, List.Forall₂ (fun entry part => readAlone files entry = .ok part) sources parts ∧
        result = parts.flatten := by
  simp only [← mapM_eq_ok_iff]
  constructor
  · intro hresult
    cases hselected : sources.mapM fun entry => (select files entry.1 entry.2).answer with
    | error e =>
      rw [answer_readSources, hselected] at hresult
      cases hresult
    | ok selected =>
      rw [answer_readSources_of_ok hselected] at hresult
      cases hparts : sources.mapM (readAlone files) with
      | error e =>
        rw [hparts] at hresult
        cases hresult
      | ok parts =>
        rw [hparts] at hresult
        exact ⟨parts, rfl, (Except.ok.inj hresult).symm⟩
  · rintro ⟨parts, hparts, rfl⟩
    have hall := (exists_mapM_eq_ok_iff (readAlone files) sources).mp ⟨parts, hparts⟩
    obtain ⟨selected, hselected⟩ :=
      (exists_mapM_eq_ok_iff (fun entry => (select files entry.1 entry.2).answer) sources).mpr
        fun entry hentry => exists_select_of_readAlone (hall entry hentry).choose_spec
    rw [answer_readSources_of_ok hselected, hparts]
    rfl

theorem readSources_error_iff (files : Files) (sources : List (Source × Option Dialect))
    (e : ReadError) :
    (readSources files sources).answer = .error e ↔
      FirstFailure (fun entry => entry.1.dialectFor files entry.2) sources e ∨
        (∀ entry ∈ sources, ∃ dialect, entry.1.dialectFor files entry.2 = .ok dialect) ∧
          FirstFailure (readAlone files) sources e := by
  rw [← firstFailure_congr (select_error_iff files), ← mapM_eq_error_iff, ← mapM_eq_error_iff]
  simp only [← exists_select_iff, ← exists_mapM_eq_ok_iff]
  cases hselected : sources.mapM fun entry => (select files entry.1 entry.2).answer with
  | error d =>
    have hanswer : (readSources files sources).answer = .error d := by
      rw [answer_readSources, hselected]
      rfl
    rw [hanswer, Except.error.injEq, Except.error.injEq]
    exact ⟨Or.inl, fun h => h.elim id fun hlate => nomatch hlate.1.choose_spec⟩
  | ok selected =>
    rw [answer_readSources_of_ok hselected]
    cases sources.mapM (readAlone files) with
    | error d =>
      change Except.error d = Except.error e ↔ _
      rw [Except.error.injEq, Except.error.injEq]
      exact ⟨fun h => Or.inr ⟨⟨selected, rfl⟩, h⟩, fun h => h.elim nofun And.right⟩
    | ok parts => exact ⟨nofun, fun h => h.elim nofun fun hlate => nomatch hlate.2⟩

/-- Reading sources succeeds exactly if the dialect of each can be told and each can be
read alone, and then gives what they give alone, one after the other. It fails with the
first error in telling the dialects, even if a source before it cannot be read, or else
with the first error in reading. -/
theorem readSources_as_each_alone (files : Files) (sources : List (Source × Option Dialect)) :
    ((∃ result, (readSources files sources).answer = .ok result) ↔
      (∀ entry ∈ sources, entry.2 = none → ∃ dialect, entry.1.dialect files = .ok dialect) ∧
        ∀ entry ∈ sources, ∃ part, readAlone files entry = .ok part) ∧
    (∀ result, (readSources files sources).answer = .ok result ↔
      ∃ parts, List.Forall₂ (fun entry part => readAlone files entry = .ok part) sources parts ∧
        result = parts.flatten) ∧
    (∀ e, (readSources files sources).answer = .error e ↔
      FirstFailure (fun entry => entry.1.dialectFor files entry.2) sources e ∨
        (∀ entry ∈ sources, ∃ dialect, entry.1.dialectFor files entry.2 = .ok dialect) ∧
          FirstFailure (readAlone files) sources e) := by
  refine ⟨?_, readSources_ok_iff files sources, readSources_error_iff files sources⟩
  have hparts : (∃ result, (readSources files sources).answer = .ok result) ↔
      ∀ entry ∈ sources, ∃ part, readAlone files entry = .ok part := by
    simp only [readSources_ok_iff, ← exists_mapM_eq_ok_iff, ← mapM_eq_ok_iff]
    exact ⟨fun ⟨_, parts, hparts, _⟩ => ⟨parts, hparts⟩,
      fun ⟨parts, hparts⟩ => ⟨parts.flatten, parts, hparts, rfl⟩⟩
  rw [hparts]
  refine ⟨fun hall => ⟨fun entry hentry hnone => ?_, hall⟩, And.right⟩
  obtain ⟨part, hpart⟩ := hall entry hentry
  have hdialect := (exists_select_iff files entry).mp (exists_select_of_readAlone hpart)
  rwa [hnone] at hdialect

end Wiring
