import Wiring.Proofs.Elaboration.Inline

/-!
When a declaration has a draft, and what its attributes make of it. Skipping is never an
error, so nothing but a scope stands in the way: a declaration has a draft exactly if its
own scope and that of every declaration written inline in it is known.
-/

namespace Wiring

/-- A computation that gives a result. -/
def Traced.Succeeds {ω ε α : Type} (x : Traced ω ε α) : Prop := ∃ a, x.answer = .ok a

namespace Traced.Succeeds

variable {ω ε α β : Type}

theorem pure (a : α) : (Pure.pure a : Traced ω ε α).Succeeds := ⟨a, rfl⟩

/-- A sequence succeeds if its first part does and the rest does whatever came of it. -/
theorem bind_iff {x : Traced ω ε α} {f : α → Traced ω ε β} {rest : Prop}
    (hf : ∀ a, x.answer = .ok a → ((f a).Succeeds ↔ rest)) :
    (x >>= f).Succeeds ↔ x.Succeeds ∧ rest := by
  constructor
  · rintro ⟨b, hb⟩
    obtain ⟨a, hx, hrest⟩ := Traced.exists_of_bind hb
    exact ⟨⟨a, hx⟩, (hf a hx).mp ⟨b, hrest⟩⟩
  · rintro ⟨⟨a, hx⟩, hrest⟩
    obtain ⟨b, hb⟩ := (hf a hx).mpr hrest
    refine ⟨b, ?_⟩
    rw [Traced.answer_bind, hx]
    exact hb

/-- A first part that always succeeds can be passed over. -/
theorem bind_iff_of_succeeds {x : Traced ω ε α} {f : α → Traced ω ε β} {rest : Prop}
    (hx : x.Succeeds) (hf : ∀ a, x.answer = .ok a → ((f a).Succeeds ↔ rest)) :
    (x >>= f).Succeeds ↔ rest := by
  rw [bind_iff hf]
  exact and_iff_right hx

/-- A rest that always succeeds can be left out. -/
theorem bind_iff_of_rest {x : Traced ω ε α} {f : α → Traced ω ε β} (hf : ∀ a, (f a).Succeeds) :
    (x >>= f).Succeeds ↔ x.Succeeds := by
  have hiff : (x >>= f).Succeeds ↔ x.Succeeds ∧ True :=
    bind_iff fun a _ => iff_of_true (hf a) trivial
  rwa [and_true] at hiff

end Traced.Succeeds

/-- Whether the scope of a declaration, if it tells one, is known. -/
def Declaration.hasKnownScope (declaration : Declaration) : Bool :=
  declaration.scope.all fun token => (Scope.ofToken? token).isSome

theorem Scope.exists_ofDeclared_iff (location object : String) (token : Option String) :
    (∃ scope, Scope.ofDeclared location object token = .ok scope) ↔
      token.all fun token => (Scope.ofToken? token).isSome := by
  cases token with
  | none => simp [Scope.ofDeclared]
  | some token =>
    cases hscope : Scope.ofToken? token <;> simp [Scope.ofDeclared, hscope]

/-- What the attributes of a declaration make of its draft. -/
structure Draft.HasAttributes (draft : Draft) (source id : String) (declaration : Declaration) :
    Prop where
  ownId : draft.id = id
  scope : Scope.ofDeclared source id declaration.scope = .ok draft.scope
  lazyInit : draft.lazyInit = declaration.lazyInit
  isAbstract : draft.isAbstract = declaration.isAbstract
  parent : draft.parent = declaration.parent.templateId
  factory : declaration.shorthand = .absent → draft.factory = declaration.typeName.factory

section Scopes

open Elaboration Traced

variable (source : String)

theorem answer_outline (id : String) (typeName : TextAttribute) (scopeToken : Option String)
    (lazyInit isAbstract : Bool) (parent : TextAttribute) :
    (outline source id typeName scopeToken lazyInit isAbstract parent).answer =
      (Scope.ofDeclared source id scopeToken).map fun scope =>
        { id, scope, lazyInit, isAbstract
          factory := typeName.factory
          parent := parent.templateId
          args := Arguments.empty
          inner := [] } := by
  rw [outline, Traced.answer_bind, answer_logIf]
  change ((Traced.ofExcept (Scope.ofDeclared source id scopeToken) >>= fun scope => _) :
    Elaboration Draft).answer = _
  rw [Traced.answer_bind, Traced.ofExcept]
  cases Scope.ofDeclared source id scopeToken with
  | error e => rfl
  | ok scope =>
    change ((logIf (parent = .unreadable) _ >>= fun _ => _) : Elaboration Draft).answer = _
    rw [Traced.answer_bind, answer_logIf]
    rfl

/-- A declaration with an unknown scope is an error, before anything else of it counts. -/
theorem answer_elaborate_of_unknown_scope {id token : String} {declaration : Declaration}
    (htoken : declaration.scope = some token) (hunknown : Scope.ofToken? token = none) :
    (declaration.elaborate source id).answer = .error (.unknownScope source id token) := by
  obtain ⟨explicitId, typeName, scopeToken, lazyInit, isAbstract, parent, shorthand, element,
    arguments, properties⟩ := declaration
  have hscope : Scope.ofDeclared source id scopeToken = .error (.unknownScope source id token) := by
    dsimp only at htoken
    simp [htoken, Scope.ofDeclared, hunknown]
  rw [Declaration.elaborate, Traced.answer_bind, answer_outline, hscope]
  rfl

theorem hasAttributes_of_elaborate {id : String} {declaration : Declaration} {draft : Draft}
    (hdraft : (declaration.elaborate source id).answer = .ok draft) :
    draft.HasAttributes source id declaration := by
  obtain ⟨explicitId, typeName, scopeToken, lazyInit, isAbstract, parent, shorthand, element,
    arguments, properties⟩ := declaration
  rw [Declaration.elaborate] at hdraft
  obtain ⟨outlined, houtlined, hdraft⟩ := Traced.exists_of_bind hdraft
  rw [answer_outline] at houtlined
  cases hscope : Scope.ofDeclared source id scopeToken with
  | error e =>
    rw [hscope] at houtlined
    cases houtlined
  | ok scope =>
    rw [hscope] at houtlined
    cases houtlined
    obtain ⟨short, hshort, hdraft⟩ := Traced.exists_of_bind hdraft
    cases short with
    | some given =>
      -- A shorthand keeps all attributes but the type, and then it is not absent.
      cases hdraft
      refine ⟨rfl, hscope, rfl, rfl, rfl, fun habsent => ?_⟩
      dsimp only at habsent
      subst habsent
      rw [Shorthand.elaborate] at hshort
      split at hshort <;> cases hshort
    | none =>
      obtain ⟨_, -, hdraft⟩ := Traced.exists_of_bind hdraft
      obtain ⟨args, -, hdraft⟩ := Traced.exists_of_bind hdraft
      obtain ⟨values, -, hdraft⟩ := Traced.exists_of_bind hdraft
      cases hdraft
      exact ⟨rfl, hscope, rfl, rfl, rfl, fun _ => rfl⟩

-- The induction is on the syntax. Whether the rest of a sequence succeeds never depends on
-- the value before it, so each part asks for the scopes of its own inline declarations.
mutual

theorem Content.elaborate_succeeds_iff (owner name : String) : ∀ content : Content,
    (content.elaborate source owner name).Succeeds ↔
      ∀ d ∈ content.inlines, d.hasKnownScope
  | .scalar value => by
    rw [Content.elaborate, Content.inlines]
    exact iff_of_true (Succeeds.pure _) (by simp)
  | .reference target => by
    rw [Content.elaborate, Content.inlines]
    exact iff_of_true (Succeeds.pure _) (by simp)
  | .sequence shape items => by
    rw [Content.elaborate, Content.inlines, Succeeds.bind_iff_of_rest fun _ => Succeeds.pure _]
    exact elaborateItems_succeeds_iff owner name shape 0 items
  | .mapping entries => by
    rw [Content.elaborate, Content.inlines, Succeeds.bind_iff_of_rest fun _ => Succeeds.pure _]
    exact elaborateEntries_succeeds_iff owner name [] entries
  | .inline declaration => by
    have hinner :=
      declaration.elaborate_succeeds_iff (Naming.inner owner name declaration.explicitId)
    rw [Content.elaborate, Content.inlines, List.forall_mem_append, List.forall_mem_singleton,
      and_comm, ← hinner]
    exact Succeeds.bind_iff_of_rest fun draft => ⟨some (.inner name draft.declared), rfl⟩
  | .unusable complaints => by
    rw [Content.elaborate, Content.inlines]
    exact iff_of_true ⟨none, rfl⟩ (by simp)
termination_by structural content => content

theorem elaborateItems_succeeds_iff (owner name : String) (shape : Shape) (index : Nat) :
    ∀ items : List Content, (elaborateItems source owner name shape index items).Succeeds ↔
      ∀ d ∈ inlinesOfItems items, d.hasKnownScope
  | [] => by
    rw [elaborateItems, inlinesOfItems]
    exact iff_of_true (Succeeds.pure _) (by simp)
  | item :: items => by
    rw [elaborateItems, inlinesOfItems, List.forall_mem_append,
      ← item.elaborate_succeeds_iff owner (Naming.element name shape.label index)]
    refine Succeeds.bind_iff fun value _ => ?_
    cases value with
    | some value =>
      have hrest := elaborateItems_succeeds_iff owner name shape (index + 1) items
      exact (Succeeds.bind_iff_of_rest fun _ => Succeeds.pure _).trans hrest
    | none => exact elaborateItems_succeeds_iff owner name shape index items
termination_by structural items => items

theorem elaborateEntries_succeeds_iff (owner name : String) (done : Entries ValueDefinition) :
    ∀ entries : List WrittenEntry,
      (elaborateEntries source owner name done entries).Succeeds ↔
        ∀ d ∈ inlinesOfEntries entries, d.hasKnownScope
  | [] => by
    rw [elaborateEntries, inlinesOfEntries]
    exact iff_of_true (Succeeds.pure _) (by simp)
  | .keyless complaint :: entries => by
    rw [elaborateEntries, inlinesOfEntries]
    exact Succeeds.bind_iff_of_succeeds ⟨(), rfl⟩
      fun _ _ => elaborateEntries_succeeds_iff owner name done entries
  | .keyed key content :: entries => by
    rw [elaborateEntries, inlinesOfEntries, List.forall_mem_append,
      ← content.elaborate_succeeds_iff owner (Naming.entry name key)]
    refine Succeeds.bind_iff fun value _ => ?_
    cases value with
    | some value => exact elaborateEntries_succeeds_iff owner name (done.put key value) entries
    | none =>
      exact Succeeds.bind_iff_of_succeeds ⟨(), rfl⟩
        fun _ _ => elaborateEntries_succeeds_iff owner name done entries
termination_by structural entries => entries

theorem elaborateArguments_succeeds_iff (owner : String) (done : Arguments) :
    ∀ arguments : List WrittenArgument,
      (elaborateArguments source owner done arguments).Succeeds ↔
        ∀ d ∈ inlinesOfArguments arguments, d.hasKnownScope
  | [] => by
    rw [elaborateArguments, inlinesOfArguments]
    exact iff_of_true (Succeeds.pure _) (by simp)
  | .positional content :: arguments => by
    rw [elaborateArguments, inlinesOfArguments, List.forall_mem_append,
      ← content.elaborate_succeeds_iff owner (Naming.positional done.positional.length)]
    exact Succeeds.bind_iff fun value _ => elaborateArguments_succeeds_iff owner _ arguments
  | .named name content :: arguments => by
    rw [elaborateArguments, inlinesOfArguments, List.forall_mem_append,
      ← content.elaborate_succeeds_iff owner name]
    refine Succeeds.bind_iff fun value _ => ?_
    cases value with
    | some value => exact elaborateArguments_succeeds_iff owner _ arguments
    | none =>
      exact Succeeds.bind_iff_of_succeeds ⟨(), rfl⟩
        fun _ _ => elaborateArguments_succeeds_iff owner done arguments
  | .ignored label :: arguments => by
    rw [elaborateArguments, inlinesOfArguments]
    exact Succeeds.bind_iff_of_succeeds ⟨(), rfl⟩
      fun _ _ => elaborateArguments_succeeds_iff owner done arguments
termination_by structural arguments => arguments

theorem elaborateProperties_succeeds_iff (owner : String) :
    ∀ properties : List WrittenProperty,
      (elaborateProperties source owner properties).Succeeds ↔
        ∀ d ∈ inlinesOfProperties properties, d.hasKnownScope
  | [] => by
    rw [elaborateProperties, inlinesOfProperties]
    exact iff_of_true (Succeeds.pure _) (by simp)
  | .named name content :: properties => by
    rw [elaborateProperties, inlinesOfProperties, List.forall_mem_append,
      ← content.elaborate_succeeds_iff owner name]
    refine Succeeds.bind_iff fun value _ => ?_
    have hrest := elaborateProperties_succeeds_iff owner properties
    cases value with
    | some value => exact (Succeeds.bind_iff_of_rest fun _ => Succeeds.pure _).trans hrest
    | none => exact Succeeds.bind_iff_of_succeeds ⟨(), rfl⟩ fun _ _ => hrest
  | .unnamed :: properties => by
    rw [elaborateProperties, inlinesOfProperties]
    exact Succeeds.bind_iff_of_succeeds ⟨(), rfl⟩
      fun _ _ => elaborateProperties_succeeds_iff owner properties
  | .ignored label :: properties => by
    rw [elaborateProperties, inlinesOfProperties]
    exact Succeeds.bind_iff_of_succeeds ⟨(), rfl⟩
      fun _ _ => elaborateProperties_succeeds_iff owner properties
termination_by structural properties => properties

theorem Shorthand.elaborate_succeeds_iff (owner : String) : ∀ shorthand : Shorthand,
    (shorthand.elaborate source owner).Succeeds ↔
      ∀ d ∈ shorthand.inlines?.getD [], d.hasKnownScope
  | .absent => by
    rw [Shorthand.elaborate, Shorthand.inlines?]
    exact iff_of_true (Succeeds.pure _) (by simp)
  | .present type content => by
    rw [Shorthand.elaborate, Shorthand.inlines?, Option.getD_some,
      Succeeds.bind_iff_of_rest fun _ => Succeeds.pure _]
    exact content.elaborate_succeeds_iff owner (Naming.positional 0)
termination_by structural shorthand => shorthand

/-- A declaration has a draft exactly if its scope and that of each inline declaration in it
are known. -/
theorem Declaration.elaborate_succeeds_iff (id : String) : ∀ declaration : Declaration,
    (declaration.elaborate source id).Succeeds ↔
      declaration.hasKnownScope ∧ ∀ d ∈ declaration.inlines, d.hasKnownScope
  | ⟨explicitId, typeName, scopeToken, lazyInit, isAbstract, parent, shorthand, element,
      arguments, properties⟩ => by
    have houtline : (outline source id typeName scopeToken lazyInit isAbstract parent).Succeeds ↔
        (scopeToken.all fun token => (Scope.ofToken? token).isSome) = true := by
      rw [← Scope.exists_ofDeclared_iff source id scopeToken, Succeeds, answer_outline]
      cases Scope.ofDeclared source id scopeToken with
      | ok scope => exact iff_of_true ⟨_, rfl⟩ ⟨scope, rfl⟩
      | error e => exact iff_of_false nofun nofun
    have hlisted (draft : Draft) (note : Elaboration Unit) (hnote : note.Succeeds) : (do
        note
        let args ← elaborateArguments source id Arguments.empty arguments
        let values ← elaborateProperties source id properties
        return { draft with args := { args with properties := values } }).Succeeds ↔
          ∀ d ∈ inlinesOfArguments arguments ++ inlinesOfProperties properties,
            d.hasKnownScope := by
      rw [List.forall_mem_append, ← elaborateArguments_succeeds_iff id Arguments.empty arguments,
        ← elaborateProperties_succeeds_iff id properties]
      refine Succeeds.bind_iff_of_succeeds hnote fun _ _ => ?_
      exact Succeeds.bind_iff fun args _ => Succeeds.bind_iff_of_rest fun _ => Succeeds.pure _
    have hshorthand := shorthand.elaborate_succeeds_iff id
    rw [Declaration.elaborate, Declaration.inlines, Declaration.hasKnownScope, ← houtline]
    refine Succeeds.bind_iff fun draft hdraft => ?_
    obtain ⟨-, -, htyped⟩ :=
      ensures_outline source id typeName scopeToken lazyInit isAbstract parent draft hdraft
    have hnote : (logIf (!draft.isTyped) (.untyped source id element)).Succeeds :=
      ⟨(), answer_logIf _ _⟩
    rw [← htyped]
    cases hcase : draft.isTyped with
    | true =>
      rw [hcase] at hnote
      exact hlisted draft _ hnote
    | false =>
      rw [hcase] at hnote
      cases shorthand with
      | absent =>
        rw [Shorthand.elaborate, Shorthand.inlines?]
        exact hlisted draft _ hnote
      | present type content =>
        rw [Shorthand.elaborate, Shorthand.inlines?, Option.getD_some,
          Succeeds.bind_iff_of_rest fun _ => Succeeds.pure _] at hshorthand
        rw [Shorthand.elaborate, Shorthand.inlines?]
        refine Iff.trans ?_ hshorthand
        simp only [Bool.false_eq_true, if_false, bind_assoc, pure_bind]
        exact Succeeds.bind_iff_of_rest fun value => Succeeds.pure _
termination_by structural declaration => declaration

end

end Scopes

end Wiring
