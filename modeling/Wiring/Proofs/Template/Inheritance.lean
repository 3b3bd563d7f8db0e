import Wiring.Proofs.Template.Climb
import Wiring.Proofs.Template.Merge

/-!
What a definition takes from its templates, over chains of any length. The arguments of
all templates are laid beneath those of the declaration, nearest first; the factory is
that of the topmost, and everything else is the declaration's own.
-/

namespace Wiring

/-- A definition is a declaration with the arguments of some templates, nearest first,
beneath its own. -/
structure Inherits (leaf : Draft) (templates : List Draft) (definition : ObjectDefinition) :
    Prop where
  /-- There are as many slots as the longest list of positional arguments has. -/
  slotCount : definition.args.length =
    ((leaf :: templates).map fun d => d.args.positional.length).foldr max 0
  /-- A slot holds the value of the nearest declaration that fills it. -/
  slot : ∀ i : Nat, definition.args[i]?.join =
    (leaf :: templates).findSome? fun d => d.args.positional[i]?.join
  /-- A named argument has the value that the nearest declaration gives its key. -/
  namedValue : ∀ key, Entries.find? key definition.named =
    (leaf :: templates).findSome? fun d => Entries.find? key d.args.named
  /-- The own named arguments come first, and then level by level those of new keys. -/
  named : definition.named =
    leaf.args.named ++ fresh Prod.fst (Entries.keys leaf.args.named)
      (templates.flatMap fun d => d.args.named)
  /-- The own properties come first as they are, and then level by level the first of
  each new name. -/
  properties : definition.properties =
    leaf.args.properties ++ fresh ValueDefinition.name
      (leaf.args.properties.map ValueDefinition.name)
      (templates.flatMap fun d => d.args.properties)
  /-- The topmost declaration gives the factory. -/
  factory : definition.factory = ((leaf :: templates).getLast (by simp)).factory
  id : definition.id = leaf.id
  scope : definition.scope = leaf.scope
  lazyInit : definition.lazyInit = leaf.lazyInit
  isAbstract : definition.isAbstract = leaf.isAbstract
  parent : definition.parent = leaf.parent

namespace TemplateSet

/-- The definition of a declaration whose ancestry is rooted. -/
def inherit (leaf : Draft) (templates : List Draft) : ObjectDefinition :=
  leaf.build ((leaf :: templates).getLast (by simp)).factory
    (leaf.args.mergeAll (templates.map Draft.args))

theorem conclude_rooted (set : TemplateSet) (leaf : Draft) (templates : List Draft) :
    set.conclude leaf ⟨templates, .rooted⟩ = .ok (inherit leaf templates) := by
  have hargs : templates.foldl (fun args t => args.mergeParent t.args) leaf.args =
      leaf.args.mergeAll (templates.map Draft.args) := by
    rw [Arguments.mergeAll, List.foldl_map]
  cases h : templates.getLast? with
  | none =>
    rw [List.getLast?_eq_none_iff] at h
    subst h
    rfl
  | some top =>
    have htop : (leaf :: templates).getLast (by simp) = top := by
      rw [List.getLast?_eq_some_iff] at h
      obtain ⟨init, rfl⟩ := h
      simp
    simp only [conclude, h, inherit, htop, hargs]

theorem inherits_inherit (leaf : Draft) (templates : List Draft) :
    Inherits leaf templates (inherit leaf templates) where
  slotCount := by
    have hlength := Arguments.length_positional_mergeAll leaf.args (templates.map Draft.args)
    simpa [inherit, Draft.build, Function.comp_def] using hlength
  slot i := by
    have hslot := Arguments.slot?_mergeAll leaf.args (templates.map Draft.args) i
    rw [← List.map_cons, List.findSome?_map] at hslot
    exact hslot
  namedValue key := by
    have hvalue := Arguments.find?_mergeAll_named leaf.args (templates.map Draft.args) key
    rw [← List.map_cons, List.findSome?_map] at hvalue
    exact hvalue
  named := by
    have hnamed := Arguments.named_mergeAll leaf.args (templates.map Draft.args)
    rw [List.flatMap_map] at hnamed
    exact hnamed
  properties := by
    have hproperties := Arguments.properties_mergeAll leaf.args (templates.map Draft.args)
    rw [List.flatMap_map] at hproperties
    exact hproperties
  factory := rfl
  id := rfl
  scope := rfl
  lazyInit := rfl
  isAbstract := rfl
  parent := rfl

/-- Where a declaration resolves, its templates are those that climbing from it meets. -/
theorem resolve_ok_inherit {set : TemplateSet} {leaf : Draft} {definition : ObjectDefinition}
    (hresolve : (set.resolve leaf).answer = .ok definition) :
    ∃ templates, set.WalksTo leaf templates none ∧ definition = inherit leaf templates := by
  change set.conclude leaf (set.ancestry leaf) = .ok definition at hresolve
  cases hancestry : set.ancestry leaf with
  | mk templates ending =>
    cases ending with
    | rooted =>
      have hwalk := (set.ancestry_rooted_iff leaf templates).mp hancestry
      rw [hancestry, conclude_rooted] at hresolve
      cases hresolve
      exact ⟨templates, hwalk, rfl⟩
    | circular id => simp [hancestry, conclude] at hresolve
    | undeclared id => simp [hancestry, conclude] at hresolve

theorem resolve_of_walksTo {set : TemplateSet} {leaf : Draft} {templates : List Draft}
    (hwalk : set.WalksTo leaf templates none) :
    (set.resolve leaf).answer = .ok (inherit leaf templates) := by
  change set.conclude leaf (set.ancestry leaf) = _
  rw [(set.ancestry_rooted_iff leaf templates).mpr hwalk, conclude_rooted]

/-- Every definition that resolution gives is the declaration with all the templates
above it beneath: those met by following parent ids up to the one without a parent,
which are the only ones that can be met. -/
theorem resolve_inherits (set : TemplateSet) (leaf : Draft) (definition : ObjectDefinition)
    (hresolve : (set.resolve leaf).answer = .ok definition) :
    ∃ templates, set.Climbs leaf templates none ∧
      (∀ other, set.Climbs leaf other none → other = templates) ∧
      Inherits leaf templates definition := by
  obtain ⟨templates, hwalk, rfl⟩ := resolve_ok_inherit hresolve
  refine ⟨templates, hwalk.climbs, ?_, inherits_inherit leaf templates⟩
  intro other hother
  exact hwalk.climbs.rooted_unique hother

/-- Two templates, one above the other. -/
def twoTemplates : TemplateSet where
  location := "ctx.xml"
  drafts :=
    [{ Draft.ofFactory "top" (.reflective "pkg.Top") with
        args := ⟨[some (.ofText "constr[0]" "t0"), some (.ofText "constr[1]" "t1")],
          [("host", .ofText "host" "top")], [.ofText "debug" "False", .ofText "name" "top"]⟩ },
      { Draft.ofFactory "middle" (.reflective "pkg.Middle") with
        parent := some "top"
        args := ⟨[none], [("port", .ofText "port" "80")], [.ofText "name" "middle"]⟩ }]

/-- A declaration below them, with a repeated property. -/
def thirdLevel : Draft :=
  { Draft.ofFactory "leaf" .unspecified with
    parent := some "middle"
    args := ⟨[], [("host", .ofText "host" "leaf")],
      [.ofText "debug" "True", .ofText "debug" "False"]⟩ }

theorem resolve_inherits_thirdLevel :
    ∃ definition, (twoTemplates.resolve thirdLevel).answer = .ok definition ∧
      ∃ templates, twoTemplates.Climbs thirdLevel templates none ∧
        (∀ other, twoTemplates.Climbs thirdLevel other none → other = templates) ∧
        Inherits thirdLevel templates definition := by
  have hok : (twoTemplates.resolve thirdLevel).answer.isOk := by decide +kernel
  obtain ⟨definition, hresolve⟩ := Traced.exists_of_isOk hok
  exact ⟨definition, hresolve, resolve_inherits twoTemplates thirdLevel definition hresolve⟩

end TemplateSet

end Wiring
