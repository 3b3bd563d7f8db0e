import Wiring.Proofs.Source.Reading
import Wiring.Proofs.Steps
import Wiring.Proofs.Template.Laws

/-!
What a declaration inherits that adds nothing of its own. It has the constructor arguments
and the factory of its template, and the properties as well, with one exception: where a
template gives several properties of one name, only the first is passed on.
-/

namespace Wiring

namespace Arguments

/-! Nothing laid over some arguments. -/

variable (base : Arguments) (above : List Arguments)

theorem positional_empty_mergeAll :
    (empty.mergeAll (base :: above)).positional = (base.mergeAll above).positional := by
  rw [mergeAll_cons, empty_mergeParent]

theorem named_empty_mergeAll (hdistinct : base.named.KeysDistinct) :
    (empty.mergeAll (base :: above)).named = (base.mergeAll above).named := by
  rw [named_mergeAll, named_mergeAll, List.flatMap_cons]
  change fresh Prod.fst [] _ = _
  rw [fresh_append, fresh_eq_self Prod.fst hdistinct (by simp)]
  rfl

/-- Of several properties of one name only the first gets through. -/
theorem properties_empty_mergeAll :
    (empty.mergeAll (base :: above)).properties =
      fresh ValueDefinition.name [] (base.mergeAll above).properties := by
  rw [mergeAll_cons, empty_mergeParent]

end Arguments

namespace Elaboration.Ensures

variable {α : Type}

theorem trivial (x : Elaboration α) : Ensures x fun _ _ => True := fun _ _ => True.intro

end Elaboration.Ensures

section Named

open Elaboration

variable (source : String)

/-- Named arguments are put in by key, so their keys stay distinct. -/
theorem ensures_keysDistinct_arguments (owner : String) (arguments : List WrittenArgument) :
    ∀ done : Arguments, done.named.KeysDistinct →
      (elaborateArguments source owner done arguments).Ensures fun _ args =>
        args.named.KeysDistinct := by
  induction arguments with
  | nil =>
    intro done hdone
    rw [elaborateArguments]
    exact Ensures.pure hdone
  | cons argument arguments ih =>
    intro done hdone
    cases argument with
    | positional content =>
      rw [elaborateArguments]
      exact (Ensures.trivial _).bind fun _ _ _ => ih _ hdone
    | named name content =>
      rw [elaborateArguments]
      refine (Ensures.trivial _).bind fun _ value _ => ?_
      cases value with
      | none => exact (Ensures.trivial _).bind fun _ _ _ => ih done hdone
      | some value => exact ih _ (Entries.keysDistinct_put name value hdone)
    | ignored label =>
      rw [elaborateArguments]
      exact (Ensures.trivial _).bind fun _ _ _ => ih done hdone

theorem ensures_keysDistinct (id : String) (declaration : Declaration) :
    (declaration.elaborate source id).Ensures fun _ draft => draft.args.named.KeysDistinct := by
  obtain ⟨_, typeName, scope, lazyInit, isAbstract, parent, shorthand, element, arguments,
    properties⟩ := declaration
  have hempty : Arguments.empty.named.KeysDistinct := List.nodup_nil
  rw [Declaration.elaborate]
  refine (Ensures.trivial _).bind fun _ draft _ => ?_
  refine (Ensures.trivial _).bind fun _ short _ => ?_
  cases short with
  | some short => exact Ensures.pure hempty
  | none =>
    refine (Ensures.trivial _).bind fun _ _ _ => ?_
    refine (ensures_keysDistinct_arguments source id arguments _ hempty).bind fun _ args hargs => ?_
    exact (Ensures.trivial _).bind fun _ _ _ => Ensures.pure hargs

theorem DraftOf.keysDistinct {source : String} {written : String × Declaration} {draft : Draft}
    (hdraft : DraftOf source written draft) : draft.args.named.KeysDistinct := by
  obtain ⟨bare, helaborate, rfl⟩ := exists_of_draft hdraft.elaborated
  exact ensures_keysDistinct source written.1 written.2 bare helaborate

/-- The named arguments of whatever is read from a document have distinct keys. -/
theorem keysDistinct_of_draftsOf {document : List TopLevel} {drafts : List Draft}
    (hdrafts : (draftsOf source document).answer = .ok drafts) :
    ∀ draft ∈ drafts, draft.args.named.KeysDistinct := by
  obtain ⟨written, hwritten⟩ : ∃ written, List.Forall₂ (DraftOf source) written drafts :=
    ⟨_, forall₂_draftsOf hdrafts⟩
  clear hdrafts
  induction hwritten with
  | nil => simp
  | cons hdraft _ ih => exact List.forall_mem_cons.mpr ⟨hdraft.keysDistinct, ih⟩

end Named

namespace TemplateSet

/-- Where a child resolves, its template does, with the same templates above. -/
theorem resolve_template_of_child {set : TemplateSet} {leaf : Draft} {p : String}
    {own : ObjectDefinition} (hparent : leaf.parent = some p)
    (hresolve : (set.resolve leaf).answer = .ok own) :
    ∃ template above, set.get? p = some template ∧ own = inherit leaf (template :: above) ∧
      (set.resolve template).answer = .ok (inherit template above) := by
  obtain ⟨templates, hwalk, rfl⟩ := resolve_ok_inherit hresolve
  obtain ⟨template, above, rfl, hget, habove, -⟩ := (walksTo_parent_iff hparent templates).mp hwalk
  exact ⟨template, above, hget, rfl, resolve_of_walksTo habove⟩

/-- A child that adds nothing to its template has the arguments and the factory of the
template's own definition, and its properties, of each name the first. -/
theorem resolve_empty_child (source : String) (document : List TopLevel) (drafts : List Draft)
    (leaf : Draft) (p : String) (own : ObjectDefinition)
    (hdrafts : (draftsOf source document).answer = .ok drafts)
    (hparent : leaf.parent = some p) (hempty : leaf.args = Arguments.empty)
    (hresolve : (TemplateSet.resolve ⟨source, drafts⟩ leaf).answer = .ok own) :
    ∃ template base, TemplateSet.get? ⟨source, drafts⟩ p = some template ∧
      (TemplateSet.resolve ⟨source, drafts⟩ template).answer = .ok base ∧
      own.args = base.args ∧ own.named = base.named ∧ own.factory = base.factory ∧
      own.properties = fresh ValueDefinition.name [] base.properties ∧
      ((base.properties.map ValueDefinition.name).Nodup → own.properties = base.properties) := by
  obtain ⟨template, above, hget, rfl, hbase⟩ := resolve_template_of_child hparent hresolve
  have hmem : template ∈ drafts := List.mem_of_find?_eq_some hget
  have hdistinct := keysDistinct_of_draftsOf source hdrafts template hmem
  have hargs : (inherit leaf (template :: above)).arguments =
      Arguments.empty.mergeAll (template.args :: above.map Draft.args) := by
    rw [← hempty]
    rfl
  have hproperties : (inherit leaf (template :: above)).properties =
      fresh ValueDefinition.name [] (inherit template above).properties :=
    (congrArg Arguments.properties hargs).trans (Arguments.properties_empty_mergeAll _ _)
  refine ⟨template, inherit template above, hget, hbase, ?_, ?_, ?_, hproperties, fun hnodup => ?_⟩
  · exact (congrArg Arguments.positional hargs).trans (Arguments.positional_empty_mergeAll _ _)
  · exact (congrArg Arguments.named hargs).trans (Arguments.named_empty_mergeAll _ _ hdistinct)
  · simp [inherit, Draft.build]
  · rw [hproperties, fresh_eq_self ValueDefinition.name hnodup (by simp)]

/-- Whether a draft adds nothing to the template of an id. -/
def isEmptyChild (p : String) (draft : Draft) : Bool :=
  draft.parent == some p && draft.args.positional.isEmpty && draft.args.named.isEmpty &&
    draft.args.properties.isEmpty

theorem isEmptyChild_iff (p : String) (draft : Draft) :
    isEmptyChild p draft ↔ draft.parent = some p ∧ draft.args = Arguments.empty := by
  obtain ⟨_, _, _, _, _, parent, ⟨positional, named, properties⟩, _⟩ := draft
  simp [isEmptyChild, Arguments.empty, and_assoc]

/-- A declaration with nothing but a type, a parent, arguments and properties. -/
def declare (typeName parent : TextAttribute) (arguments : List WrittenArgument)
    (properties : List WrittenProperty) : Declaration where
  explicitId := none
  typeName := typeName
  scope := none
  lazyInit := false
  isAbstract := false
  parent := parent
  shorthand := .absent
  element := none
  arguments := arguments
  properties := properties

/-- A template above another one, and a child that adds nothing to the lower one. -/
def twoTemplatesAndChild : List TopLevel :=
  [.declared "top" false (declare (.given "pkg.Top") .absent
      [.positional (.ofText "t0"), .named "port" (.ofText "80")] [.named "name" (.ofText "top")]),
    .declared "base" false (declare .absent (.given "top") [.positional .nothing]
      [.named "host" (.ofText "a"), .named "host" (.ofText "b")]),
    .declared "child" false (declare .absent (.given "base") [] [])]

theorem resolve_empty_child_twoTemplates :
    ∃ drafts leaf own, (draftsOf "ctx.xml" twoTemplatesAndChild).answer = .ok drafts ∧
      leaf.parent = some "base" ∧ leaf.args = Arguments.empty ∧
      (TemplateSet.resolve ⟨"ctx.xml", drafts⟩ leaf).answer = .ok own ∧
      ∃ template base, TemplateSet.get? ⟨"ctx.xml", drafts⟩ "base" = some template ∧
        (TemplateSet.resolve ⟨"ctx.xml", drafts⟩ template).answer = .ok base ∧
        own.args = base.args ∧ own.named = base.named ∧ own.factory = base.factory ∧
        own.properties = fresh ValueDefinition.name [] base.properties ∧
        ((base.properties.map ValueDefinition.name).Nodup →
          own.properties = base.properties) := by
  have hrun : (draftsOf "ctx.xml" twoTemplatesAndChild).answer.toOption.any fun drafts =>
      drafts.any fun leaf => isEmptyChild "base" leaf &&
        (TemplateSet.resolve ⟨"ctx.xml", drafts⟩ leaf).answer.toOption.any fun _ => true := by
    decide +kernel
  obtain ⟨drafts, hdrafts, hrun⟩ := exists_of_any hrun
  obtain ⟨leaf, -, hrun⟩ := List.any_eq_true.mp hrun
  obtain ⟨hempty, hrun⟩ := Bool.and_eq_true_iff.mp hrun
  obtain ⟨own, hown, -⟩ := exists_of_any hrun
  obtain ⟨hparent, hargs⟩ := (isEmptyChild_iff "base" leaf).mp hempty
  exact ⟨drafts, leaf, own, hdrafts, hparent, hargs, hown,
    resolve_empty_child "ctx.xml" twoTemplatesAndChild drafts leaf "base" own hdrafts hparent
      hargs hown⟩

/-- A template that gives two values for one property, and a child that adds nothing. -/
def twoHosts : String :=
  "<objects xmlns='http://www.springframework.org/springpython/schema/objects'>" ++
  "<object id='base' class='B'><property name='host' value='a'/>" ++
  "<property name='host' value='b'/></object><object id='child' parent='base'/></objects>"

/-- The child has only the first of the two values, the template's own definition both. -/
theorem twoHosts_inherited_once :
    ∃ document drafts leaf template own base,
      Dialect.objects.Declares "app.xml" twoHosts document ∧
      (draftsOf "app.xml" document).answer = .ok drafts ∧
      leaf ∈ drafts ∧ leaf.parent = some "base" ∧ leaf.args = Arguments.empty ∧
      (TemplateSet.resolve ⟨"app.xml", drafts⟩ leaf).answer = .ok own ∧
      TemplateSet.get? ⟨"app.xml", drafts⟩ "base" = some template ∧
      (TemplateSet.resolve ⟨"app.xml", drafts⟩ template).answer = .ok base ∧
      own.properties ≠ base.properties := by
  have hrun : (Markup.parseRoot "app.xml" twoHosts).toOption.any fun root =>
      (Markup.rootNamespace "app.xml" Vocabulary.objects.root
        Vocabulary.objects.dialect.namespaces root).toOption.any fun uri =>
      (draftsOf "app.xml" (Markup.document Vocabulary.objects uri root)).answer.toOption.any
        fun drafts => drafts.any fun leaf => isEmptyChild "base" leaf &&
          (TemplateSet.resolve ⟨"app.xml", drafts⟩ leaf).answer.toOption.any fun own =>
          (TemplateSet.get? ⟨"app.xml", drafts⟩ "base").any fun template =>
          (TemplateSet.resolve ⟨"app.xml", drafts⟩ template).answer.toOption.any fun base =>
            own.properties.length != base.properties.length := by
    decide +kernel
  obtain ⟨root, hroot, hrun⟩ := exists_of_any hrun
  obtain ⟨uri, huri, hrun⟩ := exists_of_any hrun
  obtain ⟨drafts, hdrafts, hrun⟩ := exists_of_any hrun
  obtain ⟨leaf, hleaf, hrun⟩ := List.any_eq_true.mp hrun
  obtain ⟨hempty, hrun⟩ := Bool.and_eq_true_iff.mp hrun
  obtain ⟨own, hown, hrun⟩ := exists_of_any hrun
  obtain ⟨template, htemplate, hrun⟩ := (Option.any_eq_true _ _).mp hrun
  obtain ⟨base, hbase, hlength⟩ := exists_of_any hrun
  obtain ⟨hparent, hargs⟩ := (isEmptyChild_iff "base" leaf).mp hempty
  refine ⟨_, drafts, leaf, template, own, base, ⟨root, uri, hroot, huri, rfl⟩, hdrafts, hleaf,
    hparent, hargs, hown, htemplate, hbase, fun hsame => ?_⟩
  simp [hsame] at hlength

end TemplateSet

end Wiring
