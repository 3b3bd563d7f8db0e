import Wiring.CommandLine.Options

/-!
Options written out as arguments: long names with their values behind equals signs, and
then a lone pair of dashes and the files. Whatever is chosen can be asked for in this way,
files that look like options included.
-/

namespace Wiring.CommandLine

open UsageError (switchText)

/-- The arguments that ask for some options. -/
def Options.spelled (options : Options) : List String :=
  (options.manifest.toList.map fun path => switchText (.setting .manifest) ++ "=" ++ path) ++
    (options.dialect.toList.map fun d => switchText (.setting .dialect) ++ "=" ++ d.name) ++
    (if options.verbose then [switchText (.flag .verbose)] else []) ++ "--" :: options.files

theorem Switch.ofName?_name (s : Switch) : Switch.ofName? s.name.toList = some s := by
  obtain (_ | _) | (_ | _) := s <;> simp [ofName?, all, name]

namespace Progress

theorem takeWhile_name (setting : Setting) (value : List Char) :
    ((Switch.setting setting).name.toList ++ '=' :: value).takeWhile (· ≠ '=') =
      (Switch.setting setting).name.toList := by
  cases setting <;> simp [Switch.name]

theorem readLong_setting (progress : Progress) (setting : Setting) (value : List Char) :
    progress.readLong ((Switch.setting setting).name.toList ++ '=' :: value) =
      progress.setValue setting (String.ofList value) := by
  simp only [readLong, takeWhile_name, Switch.ofName?_name, List.drop_left]

variable (options : Options)

theorem readArgument_setting (setting : Setting) (value : String) :
    (⟨options, none, false⟩ : Progress).readArgument
        (switchText (.setting setting) ++ "=" ++ value) =
      (⟨options, none, false⟩ : Progress).setValue setting value := by
  have hread := readLong_setting ⟨options, none, false⟩ setting value.toList
  rw [String.ofList_toList] at hread
  rw [← hread]
  cases setting <;> simp [readArgument, switchText, Switch.name, settled, bind, Except.bind]

theorem readArgument_verbose (hverbose : options.verbose = false) :
    (⟨options, none, false⟩ : Progress).readArgument (switchText (.flag .verbose)) =
      .ok ⟨{ options with verbose := true }, none, false⟩ := by
  simp [readArgument, switchText, Switch.name, settled, bind, Except.bind, readLong,
    Switch.ofName?, Switch.all, turnOn, hverbose]

theorem readArgument_dashes :
    (⟨options, none, false⟩ : Progress).readArgument "--" = .ok ⟨options, none, true⟩ := by
  rfl

/-- After a lone pair of dashes each argument is a file. -/
theorem foldlM_readArgument_onlyFiles {files : List String} (hfiles : "" ∉ files) :
    files.foldlM readArgument ⟨options, none, true⟩ =
      .ok ⟨{ options with files := options.files ++ files }, none, true⟩ := by
  induction files generalizing options with
  | nil => simp [pure, Except.pure]
  | cons file files ih =>
    rw [List.mem_cons, not_or] at hfiles
    have hfile : (⟨options, none, true⟩ : Progress).readArgument file =
        .ok ⟨{ options with files := options.files ++ [file] }, none, true⟩ := by
      simp [readArgument, addFile, Ne.symm hfiles.1]
    rw [List.foldlM_cons, hfile]
    exact (ih _ hfiles.2).trans (by rw [List.append_assoc]; rfl)

end Progress

/-- Options with no empty path among them are what their spelling is parsed to. -/
theorem Options.parse_spelled (options : Options) (hmanifest : options.manifest ≠ some "")
    (hfiles : "" ∉ options.files) : Options.parse options.spelled = .ok options := by
  obtain ⟨manifest, dialect, verbose, files⟩ := options
  have hfirst : (manifest.toList.map fun path =>
      switchText (.setting .manifest) ++ "=" ++ path).foldlM Progress.readArgument .start =
        .ok ⟨⟨manifest, none, false, []⟩, none, false⟩ := by
    cases manifest with
    | none => rfl
    | some path =>
      have hpath : path ≠ "" := fun h => hmanifest (congrArg some h)
      simp [Progress.start, Progress.readArgument_setting, Progress.setValue, hpath]
  have hsecond : (dialect.toList.map fun d =>
      switchText (.setting .dialect) ++ "=" ++ d.name).foldlM Progress.readArgument
        ⟨⟨manifest, none, false, []⟩, none, false⟩ =
          .ok ⟨⟨manifest, dialect, false, []⟩, none, false⟩ := by
    cases dialect with
    | none => rfl
    | some d =>
      simp [Progress.readArgument_setting, Progress.setValue, Dialect.ofName?_name]
  have hthird : (if verbose then [switchText (.flag .verbose)] else []).foldlM
      Progress.readArgument ⟨⟨manifest, dialect, false, []⟩, none, false⟩ =
        .ok ⟨⟨manifest, dialect, verbose, []⟩, none, false⟩ := by
    cases verbose with
    | false => rfl
    | true => simp [Progress.readArgument_verbose]
  have hfourth := Progress.foldlM_readArgument_onlyFiles ⟨manifest, dialect, verbose, []⟩ hfiles
  rw [parse, spelled, List.foldlM_append, List.foldlM_append, List.foldlM_append, hfirst]
  simp only [bind, Except.bind, hsecond, hthird, List.foldlM_cons, Progress.readArgument_dashes,
    hfourth]
  rfl

end Wiring.CommandLine
