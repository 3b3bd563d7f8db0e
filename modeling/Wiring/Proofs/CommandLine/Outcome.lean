import Wiring.CommandLine.Outcome
import Wiring.Proofs.CommandLine.Spelling
import Wiring.Proofs.Source.Grouping

/-!
What the command line answers, by the sources that its arguments lead to. All of them are
read, those of the manifest before the files, or nothing is printed. How they are divided
between the two makes no difference.
-/

namespace Wiring.CommandLine

/-- Sources, and what each of them gives that is read on its own. -/
def EachRead (files : Files) (sources : List (Source × Option Dialect))
    (parts : List (List ObjectDefinition)) : Prop :=
  List.Forall₂ (fun entry part => readAlone files entry = .ok part) sources parts

theorem exists_eachRead_iff (files : Files) (sources : List (Source × Option Dialect)) :
    (∃ parts, EachRead files sources parts) ↔
      ∀ entry ∈ sources, ∃ part, readAlone files entry = .ok part := by
  simp only [EachRead, ← mapM_eq_ok_iff, exists_mapM_eq_ok_iff]

theorem EachRead.append {files : Files} {listed given : List (Source × Option Dialect)}
    {fromListed fromGiven : List (List ObjectDefinition)}
    (hlisted : EachRead files listed fromListed) (hgiven : EachRead files given fromGiven) :
    EachRead files (listed ++ given) (fromListed ++ fromGiven) :=
  List.rel_append hlisted hgiven

theorem EachRead.unique {files : Files} {sources : List (Source × Option Dialect)}
    {parts parts' : List (List ObjectDefinition)} (hparts : EachRead files sources parts)
    (hparts' : EachRead files sources parts') : parts = parts' := by
  rw [EachRead, ← mapM_eq_ok_iff] at hparts hparts'
  exact Except.ok.inj (hparts.symm.trans hparts')

namespace Options

/-- A manifest or at least one file is given. -/
def NamesSource (options : Options) : Prop := options.manifest.isSome ∨ options.files ≠ []

/-- The files, each with the dialect that is forced, if one is. -/
def given (options : Options) : List (Source × Option Dialect) :=
  options.files.map fun path => (.file path, options.dialect)

/-- The sources of the manifest, if it can be loaded. Without a manifest there are none. -/
def listed? (files : Files) (options : Options) : Option (List (Source × Option Dialect)) :=
  match options.manifest with
  | none => some []
  | some path => (Manifest.load files path).toOption.map Manifest.resolvedSources

/-- The sources of the manifest and then the files, if the manifest can be loaded. -/
def sources? (files : Files) (options : Options) : Option (List (Source × Option Dialect)) :=
  (options.listed? files).map fun listed => listed ++ options.given

variable (files : Files) (options : Options)

theorem answer_readManifest_some {path : String} (hmanifest : options.manifest = some path) :
    (options.readManifest files).answer =
      (Manifest.load files path).mapError (Failure.manifest path) >>= fun manifest =>
        (readSources files manifest.resolvedSources).answer.mapError .reading := by
  simp only [readManifest, hmanifest, Traced.answer_bind, Traced.answer_mapError, Manifest.read]
  rfl

theorem readManifest_ok_iff (definitions : List ObjectDefinition) :
    (options.readManifest files).answer = .ok definitions ↔
      ∃ listed parts, options.listed? files = some listed ∧ EachRead files listed parts ∧
        definitions = parts.flatten := by
  cases hmanifest : options.manifest with
  | none =>
    simp only [readManifest, listed?, hmanifest, Traced.pure_def, Except.ok.injEq]
    constructor
    · rintro rfl
      exact ⟨[], [], rfl, .nil, rfl⟩
    · rintro ⟨_, parts, hlisted, hparts, rfl⟩
      cases hlisted
      cases hparts
      rfl
  | some path =>
    rw [answer_readManifest_some files options hmanifest]
    simp only [listed?, hmanifest]
    cases Manifest.load files path with
    | error cause => exact ⟨nofun, nofun⟩
    | ok manifest =>
      simp only [Except.toOption, Option.map_some, Option.some.injEq, exists_and_left,
        exists_eq_left']
      exact (mapError_eq_ok_iff Failure.reading _ definitions).trans
        (readSources_ok_iff files manifest.resolvedSources definitions)

theorem namesSource_iff :
    options.NamesSource ↔ ¬(options.manifest.isNone && options.files.isEmpty) := by
  cases hmanifest : options.manifest <;> simp [NamesSource, hmanifest]

theorem answer_readFiles_ok_iff (definitions : List ObjectDefinition) :
    ((readFiles files none options.dialect options.files).mapError Failure.reading).answer =
        .ok definitions ↔
      ∃ parts, EachRead files options.given parts ∧ definitions = parts.flatten :=
  (mapError_eq_ok_iff Failure.reading _ definitions).trans
    (readSources_ok_iff files options.given definitions)

/-- What is asked for is read if something is, the manifest can be loaded, and each source
can be read. -/
theorem read_ok_iff (definitions : List ObjectDefinition) :
    (options.read files).answer = .ok definitions ↔
      options.NamesSource ∧ ∃ listed fromListed fromGiven,
        options.listed? files = some listed ∧ EachRead files listed fromListed ∧
        EachRead files options.given fromGiven ∧
        definitions = (fromListed ++ fromGiven).flatten := by
  rw [namesSource_iff, read]
  split
  · rename_i hnone
    exact ⟨nofun, fun h => absurd hnone h.1⟩
  · rename_i hsome
    constructor
    · intro hread
      obtain ⟨first, hfirst, hread⟩ := Traced.exists_of_bind hread
      obtain ⟨second, hsecond, hread⟩ := Traced.exists_of_bind hread
      obtain ⟨listed, fromListed, hlisted, hfrom, rfl⟩ :=
        (readManifest_ok_iff files options first).mp hfirst
      obtain ⟨fromGiven, hgiven, rfl⟩ := (answer_readFiles_ok_iff files options second).mp hsecond
      refine ⟨hsome, listed, fromListed, fromGiven, hlisted, hfrom, hgiven, ?_⟩
      rw [List.flatten_append]
      exact (Except.ok.inj hread).symm
    · rintro ⟨-, listed, fromListed, fromGiven, hlisted, hfrom, hgiven, rfl⟩
      have hfirst := (readManifest_ok_iff files options fromListed.flatten).mpr
        ⟨listed, fromListed, hlisted, hfrom, rfl⟩
      have hsecond := (answer_readFiles_ok_iff files options fromGiven.flatten).mpr
        ⟨fromGiven, hgiven, rfl⟩
      rw [Traced.bind_of_ok hfirst, Traced.bind_of_ok hsecond, List.flatten_append]
      rfl

/-- Something can be read if each source can. -/
theorem exists_read_iff :
    (∃ definitions, (options.read files).answer = .ok definitions) ↔
      options.NamesSource ∧ ∃ listed, options.listed? files = some listed ∧
        (∀ entry ∈ listed, ∃ part, readAlone files entry = .ok part) ∧
        ∀ entry ∈ options.given, ∃ part, readAlone files entry = .ok part := by
  simp only [read_ok_iff, ← exists_eachRead_iff]
  constructor
  · rintro ⟨_, hnames, listed, fromListed, fromGiven, hlisted, hfrom, hgiven, -⟩
    exact ⟨hnames, listed, hlisted, ⟨fromListed, hfrom⟩, fromGiven, hgiven⟩
  · rintro ⟨hnames, listed, hlisted, ⟨fromListed, hfrom⟩, fromGiven, hgiven⟩
    exact ⟨_, hnames, listed, fromListed, fromGiven, hlisted, hfrom, hgiven, rfl⟩

/-- The same sources give the same, however they are divided. -/
theorem read_unique {options others : Options} {definitions defs : List ObjectDefinition}
    (hsources : options.sources? files = others.sources? files)
    (hread : (options.read files).answer = .ok definitions)
    (hothers : (others.read files).answer = .ok defs) : definitions = defs := by
  obtain ⟨-, listed, fromListed, fromGiven, hlisted, hfrom, hgiven, rfl⟩ :=
    (read_ok_iff files options definitions).mp hread
  obtain ⟨-, listed', fromListed', fromGiven', hlisted', hfrom', hgiven', rfl⟩ :=
    (read_ok_iff files others defs).mp hothers
  simp only [sources?, hlisted, hlisted', Option.map_some, Option.some.injEq] at hsources
  have hparts := hfrom.append hgiven
  rw [hsources] at hparts
  rw [hparts.unique (hfrom'.append hgiven')]

/-- The exit code tells whether everything is read. -/
theorem outcome_code_eq_zero_iff :
    (options.outcome files).code = 0 ↔
      ∃ definitions, (options.read files).answer = .ok definitions := by
  rw [outcome]
  cases (options.read files).answer with
  | ok definitions => exact ⟨fun _ => ⟨definitions, rfl⟩, fun _ => rfl⟩
  | error failure => exact ⟨nofun, nofun⟩

theorem output_of_read {definitions : List ObjectDefinition}
    (hread : (options.read files).answer = .ok definitions) :
    (options.outcome files).output = lines (definitions.map ObjectDefinition.display) := by
  simp only [outcome, hread]

theorem output_of_code_ne_zero (hcode : (options.outcome files).code ≠ 0) :
    (options.outcome files).output = "" := by
  rw [outcome] at hcode ⊢
  cases hread : (options.read files).answer with
  | ok definitions => exact absurd (by rw [hread]) hcode
  | error failure => rfl

/-- Without files the dialect does not matter. -/
theorem outcome_of_no_files (hfiles : options.files = []) (dialect : Option Dialect) :
    { options with dialect := dialect }.outcome files = options.outcome files := by
  have hread : { options with dialect := dialect }.read files = options.read files := by
    simp only [read, readFiles, hfiles, List.map_nil]
    rfl
  simp only [outcome, hread]

end Options

theorem outcome_of_parse (files : Files) {arguments : List String} {options : Options}
    (hparse : Options.parse arguments = .ok options) :
    outcome files arguments = options.outcome files := by
  rw [outcome, hparse]

/-- Arguments that make no sense are refused with an exit code of their own. -/
theorem outcome_of_usage (files : Files) {arguments : List String} {error : UsageError}
    (hparse : Options.parse arguments = .error (.usage error)) :
    outcome files arguments = ⟨2, "", ["error: " ++ error.message]⟩ := by
  rw [outcome, hparse]
  rfl

/-- Arguments that do not ask for help have an exit code of zero exactly if they name a
source, the manifest can be loaded, if there is one, and each of its sources and each file
can be read, the latter in the dialect that is forced. Then what is printed is what the
sources of the manifest give, in its order, and then what the files give; otherwise nothing
is. Two successful runs whose sources are the same print the same, whichever of them a
manifest lists. -/
theorem outcome_all_or_nothing (files : Files) (arguments : List String)
    (hhelp : ∀ full, Options.parse arguments ≠ .error (.help full)) :
    ((outcome files arguments).code = 0 ↔
      ∃ options listed, Options.parse arguments = .ok options ∧ options.NamesSource ∧
        options.listed? files = some listed ∧
        (∀ entry ∈ listed, ∃ part, readAlone files entry = .ok part) ∧
        ∀ path ∈ options.files, ∃ part, readAlone files (.file path, options.dialect) = .ok part) ∧
    ((outcome files arguments).code = 0 →
      ∃ options listed fromListed fromGiven, Options.parse arguments = .ok options ∧
        options.listed? files = some listed ∧ EachRead files listed fromListed ∧
        EachRead files options.given fromGiven ∧
        (outcome files arguments).output =
          lines ((fromListed ++ fromGiven).flatten.map ObjectDefinition.display)) ∧
    ((outcome files arguments).code ≠ 0 → (outcome files arguments).output = "") ∧
    (∀ options dialect, Options.parse arguments = .ok options → options.files = [] →
      { options with dialect := dialect }.outcome files = outcome files arguments) ∧
    ∀ others options options', Options.parse arguments = .ok options →
      Options.parse others = .ok options' → options.sources? files = options'.sources? files →
      (outcome files arguments).code = 0 → (outcome files others).code = 0 →
      (outcome files others).output = (outcome files arguments).output := by
  cases hparse : Options.parse arguments with
  | error refusal =>
    cases refusal with
    | help full => exact absurd hparse (hhelp full)
    | usage error =>
      rw [outcome_of_usage files hparse]
      exact ⟨⟨nofun, nofun⟩, nofun, fun _ => rfl, nofun, nofun⟩
  | ok options =>
    rw [outcome_of_parse files hparse]
    refine ⟨?_, ?_, options.output_of_code_ne_zero files, ?_, ?_⟩
    · rw [options.outcome_code_eq_zero_iff files, options.exists_read_iff files]
      simp only [Options.given, List.forall_mem_map]
      constructor
      · rintro ⟨hnames, listed, hlisted, hall, hgiven⟩
        exact ⟨options, listed, rfl, hnames, hlisted, hall, hgiven⟩
      · rintro ⟨_, listed, hoptions, hnames, hlisted, hall, hgiven⟩
        cases hoptions
        exact ⟨hnames, listed, hlisted, hall, hgiven⟩
    · intro hcode
      obtain ⟨definitions, hread⟩ := (options.outcome_code_eq_zero_iff files).mp hcode
      obtain ⟨-, listed, fromListed, fromGiven, hlisted, hfrom, hgiven, rfl⟩ :=
        (options.read_ok_iff files definitions).mp hread
      exact ⟨options, listed, fromListed, fromGiven, rfl, hlisted, hfrom, hgiven,
        options.output_of_read files hread⟩
    · rintro _ dialect hoptions hfiles
      cases hoptions
      exact options.outcome_of_no_files files hfiles dialect
    · rintro others _ options' hoptions hothers hsources hcode hcode'
      cases hoptions
      rw [outcome_of_parse files hothers] at hcode' ⊢
      obtain ⟨definitions, hread⟩ := (options.outcome_code_eq_zero_iff files).mp hcode
      obtain ⟨definitions', hread'⟩ := (options'.outcome_code_eq_zero_iff files).mp hcode'
      rw [options.output_of_read files hread, options'.output_of_read files hread',
        Options.read_unique files hsources hread hread']

/-- Two files, one of which a manifest lists. -/
def shop : FileTree := .directory
  [("objdef.toml", .file (some "[[source]]\npath = \"app.yaml\"\n")),
   ("app.yaml", .file (some "objects:\n  - object: app\n    class: App\n")),
   ("pool.yaml", .file (some "objects:\n  - object: pool\n    class: Pool\n"))]

/-- One file by the manifest and the other by its path. -/
def shopDivided : Options := ⟨some "objdef.toml", none, false, ["./pool.yaml"]⟩

/-- Both files by their paths. -/
def shopFiles : Options := ⟨none, none, false, ["./app.yaml", "./pool.yaml"]⟩

theorem outcome_all_or_nothing_shop :
    (outcome shop.toFiles shopDivided.spelled).code = 0 ∧
      (outcome shop.toFiles shopFiles.spelled).output =
        (outcome shop.toFiles shopDivided.spelled).output := by
  have hdivided := shopDivided.parse_spelled (by decide) (by decide)
  have hfiles := shopFiles.parse_spelled (by decide) (by decide)
  have hcode : (outcome shop.toFiles shopDivided.spelled).code = 0 := by
    rw [outcome_of_parse shop.toFiles hdivided]
    decide +kernel
  have hcode' : (outcome shop.toFiles shopFiles.spelled).code = 0 := by
    rw [outcome_of_parse shop.toFiles hfiles]
    decide +kernel
  have hhelp : ∀ full, Options.parse shopDivided.spelled ≠ .error (.help full) := by
    rw [hdivided]
    exact nofun
  obtain ⟨-, -, -, -, hsame⟩ := outcome_all_or_nothing shop.toFiles shopDivided.spelled hhelp
  have hsources : shopDivided.sources? shop.toFiles = shopFiles.sources? shop.toFiles := by
    decide +kernel
  exact ⟨hcode, hsame shopFiles.spelled shopDivided shopFiles hdivided hfiles hsources hcode hcode'⟩

end Wiring.CommandLine
