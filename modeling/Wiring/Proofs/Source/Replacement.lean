import Wiring.Proofs.Elaboration.Replacement
import Wiring.Proofs.Source.Reading
import Wiring.Proofs.Steps

/-!
Which inline definitions of a source are held by its declarations. A template takes
nothing away, so what a declaration holds itself is held by its own definition. All that is
returned without being held anywhere was written in a value that was replaced.
-/

namespace Wiring

theorem tracked_draft {source id : String} {declaration : Declaration} {draft : Draft}
    (hdraft : (declaration.draft source id).answer = .ok draft) :
    Tracked source (HeldAmong draft.args.Gives) declaration.placements draft.inner := by
  obtain ⟨bare, helaborate, rfl⟩ := exists_of_draft hdraft
  exact declaration.tracked_elaborate source id bare helaborate

/-- The definitions of a declaration: those of what is written inline in it, of which its
own holds the ones that stay, and then its own. -/
def TrackedBlockOf (set : TemplateSet) (written : String × Declaration)
    (block : List ObjectDefinition) : Prop :=
  ∃ draft own, (written.2.draft set.location written.1).answer = .ok draft ∧
    (set.resolve draft).answer = .ok own ∧ own.id = written.1 ∧
    Tracked set.location own.Holds written.2.placements draft.inner ∧
    block = draft.inner ++ [own]

namespace TemplateSet

variable {set : TemplateSet}

/-- Templates take nothing away from what a declaration holds. -/
theorem holds_of_resolve {draft : Draft} {own : ObjectDefinition}
    (hresolve : (set.resolve draft).answer = .ok own) (d : ObjectDefinition)
    (hheld : HeldAmong draft.args.Gives d) : own.Holds d := by
  obtain ⟨templates, -, rfl⟩ := resolve_ok_inherit hresolve
  obtain ⟨v, hgives, hin⟩ := hheld
  exact .given (Arguments.gives_mergeAll (templates.map Draft.args) hgives) hin

theorem trackedBlockOf_of_blockOf {written : String × Declaration}
    {block : List ObjectDefinition} (hblock : BlockOf set written block) :
    TrackedBlockOf set written block := by
  obtain ⟨draft, own, hdraft, hown, hid, -, hsplit⟩ := hblock
  exact ⟨draft, own, hdraft, hown, hid, (tracked_draft hdraft).imp (holds_of_resolve hown), hsplit⟩

end TemplateSet

/-- Whether a value is a scalar. -/
def ValueDefinition.isScalar : ValueDefinition → Bool
  | .scalar _ _ => true
  | _ => false

/-- Whether a definition has no arguments but named scalars, and no properties. -/
def ObjectDefinition.isPlain (d : ObjectDefinition) : Bool :=
  d.args.isEmpty && d.named.all (fun argument => argument.2.isScalar) && d.properties.isEmpty

theorem ObjectDefinition.not_holds_of_isPlain {d : ObjectDefinition} (hplain : d.isPlain)
    (e : ObjectDefinition) : ¬ d.Holds e := by
  simp only [isPlain, Bool.and_eq_true, List.isEmpty_iff, List.all_eq_true] at hplain
  obtain ⟨⟨hargs, hnamed⟩, hproperties⟩ := hplain
  rintro ⟨hslot | ⟨key, hmem⟩ | hproperty, hin⟩
  · simp [arguments, hargs] at hslot
  · have hscalar := hnamed _ hmem
    cases hin with
    | inner | inside | entry | item => cases hscalar
  · simp [arguments, hproperties] at hproperty

namespace Dialect

/-- Reading a source whose dialect declares objects gives one block for each declaration.
Of what is written inline in it, everything is held by its own definition except what was
written in a value that was replaced. -/
theorem read_holds_what_stays (files : Files) (dialect : Dialect) (source : Source)
    (result : List ObjectDefinition) (hdialect : dialect ≠ .legacy)
    (hread : (dialect.read files source).answer = .ok result) :
    ∃ text document drafts blocks, source.load files = .ok text ∧
      dialect.Declares source.location text document ∧
      (draftsOf source.location document).answer = .ok drafts ∧ result = blocks.flatten ∧
      List.Forall₂ (TrackedBlockOf ⟨source.location, drafts⟩)
        (document.filterMap TopLevel.declared?) blocks := by
  obtain ⟨_, -, hread⟩ := Traced.exists_of_bind hread
  obtain ⟨text, htext, hread⟩ := Traced.exists_of_bind hread
  obtain ⟨document, hdocument, hresult⟩ := readText_ok hdialect hread
  obtain ⟨drafts, hdrafts, hcollects⟩ := collects_of_definitionsOf hresult
  obtain ⟨blocks, hsplit, hblocks⟩ := hcollects.blocks
  refine ⟨text, document, drafts, blocks, htext, hdocument, hdrafts, hsplit, ?_⟩
  exact hblocks.imp fun _ _ hblock => TemplateSet.trackedBlockOf_of_blockOf hblock

/-- An object with one pool in a list, and another one under a key that is given again. -/
def twoPools : Source :=
  .inline "app.yaml" <|
    "objects:\n  - object: app\n    class: App\n    properties:\n" ++
    "      pools: [\x7bclass: Pool\x7d, \x7bdict: \x7b1: \x7bclass: Pool\x7d, '1': none\x7d\x7d]\n"

theorem read_holds_what_stays_twoPools :
    Dialect.yaml ≠ .legacy ∧
      ∃ result, (Dialect.yaml.read (fun _ => .error .notFound) twoPools).answer = .ok result ∧
        ∃ text document drafts blocks,
          twoPools.load (fun _ => .error .notFound) = .ok text ∧
          Dialect.yaml.Declares twoPools.location text document ∧
          (draftsOf twoPools.location document).answer = .ok drafts ∧ result = blocks.flatten ∧
          List.Forall₂ (TrackedBlockOf ⟨twoPools.location, drafts⟩)
            (document.filterMap TopLevel.declared?) blocks := by
  have hok : (Dialect.yaml.read (fun _ => .error .notFound) twoPools).answer.isOk := by
    decide +kernel
  obtain ⟨result, hread⟩ := Traced.exists_of_isOk hok
  exact ⟨by decide, result, hread,
    read_holds_what_stays _ .yaml twoPools result (by decide) hread⟩

theorem answer_read_inline (files : Files) {name text : String} {mappings : List Yaml.Mapping}
    (hmappings : Yaml.parseObjects? text = some mappings) :
    (Dialect.yaml.read files (.inline name text)).answer =
      (definitionsOf name (StructuredText.document mappings)).answer := by
  have hread : (Dialect.yaml.read files (.inline name text)).answer =
      (readStructuredText name text).answer := by
    rw [read, Traced.answer_bind, Source.load]
    rfl
  rw [hread, readStructuredText, hmappings]
  rfl

/-- Two keys that become one text, with a definition written inline under the first. -/
def sameKey : String :=
  "objects:\n  - object: app\n    class: App\n" ++
  "    constructor-args: \x7b1: \x7bclass: Pool\x7d, '1': shared\x7d\n"

/-- The definition of the value that is replaced is returned, but nothing that is returned
holds it. -/
theorem read_stray_sameKey :
    ∃ result document drafts,
      (Dialect.yaml.read (fun _ => .error .notFound) (.inline "app.yaml" sameKey)).answer =
        .ok result ∧
      Dialect.yaml.Declares "app.yaml" sameKey document ∧
      (draftsOf "app.yaml" document).answer = .ok drafts ∧
      ∃ draft ∈ drafts, ∃ d ∈ draft.inner, d ∈ result ∧ ∀ e ∈ result, ¬ e.Holds d := by
  have hrun : (Yaml.parseObjects? sameKey).any fun mappings =>
      (draftsOf "app.yaml" (StructuredText.document mappings)).answer.toOption.any fun drafts =>
        drafts.any (fun draft => !draft.inner.isEmpty) &&
          (resolveTemplates "app.yaml" drafts).answer.toOption.any fun result =>
            result.all ObjectDefinition.isPlain := by
    decide +kernel
  obtain ⟨mappings, hmappings, hrun⟩ := (Option.any_eq_true _ _).mp hrun
  obtain ⟨drafts, hdrafts, hrun⟩ := exists_of_any hrun
  obtain ⟨hinner, hrun⟩ := Bool.and_eq_true_iff.mp hrun
  obtain ⟨draft, hdraft, hinner⟩ := List.any_eq_true.mp hinner
  obtain ⟨d, hd⟩ := List.exists_mem_of_ne_nil draft.inner (by simpa using hinner)
  obtain ⟨result, hresult, hplain⟩ := exists_of_any hrun
  refine ⟨result, StructuredText.document mappings, drafts, ?_, ⟨mappings, hmappings, rfl⟩,
    hdrafts, draft, hdraft, d, hd, ?_, ?_⟩
  · rw [answer_read_inline _ hmappings, answer_definitionsOf, hdrafts]
    exact hresult
  · exact (TemplateSet.mem_resolveAll hresult d).mpr ⟨draft, hdraft, Or.inl hd⟩
  · exact fun e he => ObjectDefinition.not_holds_of_isPlain (List.all_eq_true.mp hplain e he) d

end Dialect

end Wiring
