import Wiring.Proofs.Definition.Holding
import Wiring.Proofs.Template.Inheritance
import Wiring.Proofs.Template.Laws

/-!
Resolution one level at a time. A declaration with a parent needs no more of its templates
than the definition of the one found under the parent's id: that one has taken from
everything above it already, and because merging is associative the declaration takes the
same from it at once as from all templates in turn.
-/

namespace Wiring.TemplateSet

theorem inherit_cons (leaf template : Draft) (above : List Draft) :
    inherit leaf (template :: above) =
      leaf.build (inherit template above).factory
        (leaf.args.mergeParent (inherit template above).arguments) := by
  -- The templates are merged from the nearest on; by associativity the first merge can come
  -- last, when the template has taken from those above it.
  have hargs : leaf.args.mergeAll ((template :: above).map Draft.args) =
      leaf.args.mergeParent (inherit template above).arguments :=
    Arguments.mergeAll_cons leaf.args template.args (above.map Draft.args)
  have hfactory : (leaf :: template :: above).getLast (by simp) =
      (template :: above).getLast (by simp) := List.getLast_cons _
  rw [inherit, hargs, hfactory]
  rfl

theorem ancestry_templates {set : TemplateSet} {leaf : Draft} {templates : List Draft}
    (hwalk : set.WalksTo leaf templates none) : (set.ancestry leaf).templates = templates := by
  rw [(set.ancestry_rooted_iff leaf templates).mpr hwalk]

/-- The definition of a declaration with a parent, in terms of that of its template. -/
theorem resolve_eq_ok_iff_parent {set : TemplateSet} {leaf : Draft} {p : String}
    (hparent : leaf.parent = some p) (own : ObjectDefinition) :
    (set.resolve leaf).answer = .ok own ↔
      ∃ template base, set.get? p = some template ∧
        (set.resolve template).answer = .ok base ∧
        leaf.id ∉ chain template (set.ancestry template) ∧
        own = leaf.build base.factory (leaf.args.mergeParent base.arguments) := by
  constructor
  · intro hresolve
    obtain ⟨templates, hwalk, rfl⟩ := resolve_ok_inherit hresolve
    obtain ⟨template, above, rfl, hget, habove, hnew⟩ :=
      (walksTo_parent_iff hparent templates).mp hwalk
    refine ⟨template, inherit template above, hget, resolve_of_walksTo habove, ?_,
      inherit_cons leaf template above⟩
    rw [chain, ancestry_templates habove]
    exact hnew
  · rintro ⟨template, base, hget, hbase, hnew, rfl⟩
    obtain ⟨above, habove, rfl⟩ := resolve_ok_inherit hbase
    rw [chain, ancestry_templates habove] at hnew
    have hwalk : set.WalksTo leaf (template :: above) none :=
      (walksTo_parent_iff hparent _).mpr ⟨template, above, rfl, hget, habove, hnew⟩
    rw [resolve_of_walksTo hwalk, inherit_cons]

/-- A declaration with a parent resolves exactly if the parent is declared, the declaration
found there resolves, and the chain of that one does not come back to the first. It then
has its own arguments with those of the template's definition beneath, merged once, and
the factory of that definition. -/
theorem resolve_compositional (set : TemplateSet) (leaf : Draft) (p : String)
    (hparent : leaf.parent = some p) :
    ((∃ own, (set.resolve leaf).answer = .ok own) ↔
      ∃ template base, set.get? p = some template ∧
        (set.resolve template).answer = .ok base ∧
        leaf.id ∉ chain template (set.ancestry template)) ∧
    ∀ own, (set.resolve leaf).answer = .ok own →
      ∃ template base, set.get? p = some template ∧
        (set.resolve template).answer = .ok base ∧
        own.arguments = leaf.args.mergeParent base.arguments ∧
        own.factory = base.factory := by
  refine ⟨⟨?_, ?_⟩, ?_⟩
  · rintro ⟨own, hresolve⟩
    obtain ⟨template, base, hget, hbase, hnew, -⟩ :=
      (resolve_eq_ok_iff_parent hparent own).mp hresolve
    exact ⟨template, base, hget, hbase, hnew⟩
  · rintro ⟨template, base, hget, hbase, hnew⟩
    exact ⟨_, (resolve_eq_ok_iff_parent hparent _).mpr ⟨template, base, hget, hbase, hnew, rfl⟩⟩
  · intro own hresolve
    obtain ⟨template, base, hget, hbase, -, rfl⟩ :=
      (resolve_eq_ok_iff_parent hparent own).mp hresolve
    exact ⟨template, base, hget, hbase, rfl, rfl⟩

theorem resolve_compositional_thirdLevel :
    thirdLevel.parent = some "middle" ∧
    (∃ own, (twoTemplates.resolve thirdLevel).answer = .ok own) ∧
    ((∃ own, (twoTemplates.resolve thirdLevel).answer = .ok own) ↔
      ∃ template base, twoTemplates.get? "middle" = some template ∧
        (twoTemplates.resolve template).answer = .ok base ∧
        thirdLevel.id ∉ chain template (twoTemplates.ancestry template)) ∧
    ∀ own, (twoTemplates.resolve thirdLevel).answer = .ok own →
      ∃ template base, twoTemplates.get? "middle" = some template ∧
        (twoTemplates.resolve template).answer = .ok base ∧
        own.arguments = thirdLevel.args.mergeParent base.arguments ∧
        own.factory = base.factory := by
  have hok : (twoTemplates.resolve thirdLevel).answer.isOk := by decide +kernel
  exact ⟨rfl, Traced.exists_of_isOk hok, resolve_compositional twoTemplates thirdLevel "middle" rfl⟩

end Wiring.TemplateSet
