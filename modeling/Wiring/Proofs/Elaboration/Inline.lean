import Mathlib.Data.List.Forall2
import Wiring.Proofs.Definition.Holding
import Wiring.Proofs.Elaboration.Basic

/-!
Inline declarations and the definitions emitted for them. Elaborating a declaration
emits one definition for each inline declaration in it, a nested one before the one
around it, and every definition that the draft holds is among those emitted.
-/

namespace Wiring

/-- Whether a declaration tells what it constructs, or leaves that to a template. -/
def Declaration.isTyped (typeName parent : TextAttribute) : Bool :=
  typeName.factory.isSpecified || parent.templateId.isSome

mutual

/-- The inline declarations in some content that become definitions, each after those
nested in it. -/
def Content.inlines : Content → List Declaration
  | .scalar _ => []
  | .reference _ => []
  | .sequence _ items => inlinesOfItems items
  | .mapping entries => inlinesOfEntries entries
  | .inline declaration => declaration.inlines ++ [declaration]
  | .unusable _ => []
termination_by structural content => content

def inlinesOfItems : List Content → List Declaration
  | [] => []
  | item :: items => item.inlines ++ inlinesOfItems items
termination_by structural items => items

def inlinesOfEntries : List WrittenEntry → List Declaration
  | [] => []
  | .keyed _ content :: entries => content.inlines ++ inlinesOfEntries entries
  | .keyless _ :: entries => inlinesOfEntries entries
termination_by structural entries => entries

def inlinesOfArguments : List WrittenArgument → List Declaration
  | [] => []
  | .positional content :: arguments => content.inlines ++ inlinesOfArguments arguments
  | .named _ content :: arguments => content.inlines ++ inlinesOfArguments arguments
  | .ignored _ :: arguments => inlinesOfArguments arguments
termination_by structural arguments => arguments

def inlinesOfProperties : List WrittenProperty → List Declaration
  | [] => []
  | .named _ content :: properties => content.inlines ++ inlinesOfProperties properties
  | .unnamed :: properties => inlinesOfProperties properties
  | .ignored _ :: properties => inlinesOfProperties properties
termination_by structural properties => properties

def Shorthand.inlines? : Shorthand → Option (List Declaration)
  | .absent => none
  | .present _ content => some content.inlines
termination_by structural shorthand => shorthand

/-- The inline declarations in a declaration. Those of a shorthand are in its only
argument, and then the rest is not looked at. -/
def Declaration.inlines : Declaration → List Declaration
  | ⟨_, typeName, _, _, _, parent, shorthand, _, arguments, properties⟩ =>
    let listed := inlinesOfArguments arguments ++ inlinesOfProperties properties
    if Declaration.isTyped typeName parent then listed else shorthand.inlines?.getD listed
termination_by structural declaration => declaration

end

/-- A definition is that of an inline declaration, under the id that its place gives. -/
def InlineOf (source : String) (declaration : Declaration) (d : ObjectDefinition) : Prop :=
  ∃ owner name draft,
    (declaration.elaborate source (Naming.inner owner name declaration.explicitId)).answer =
      .ok draft ∧ d = draft.declared

/-- The definitions emitted for some inline declarations, one for each in order, with
everything that one of them holds before it. -/
structure Block (source : String) (written : List Declaration) (block : List ObjectDefinition) :
    Prop where
  each : List.Forall₂ (InlineOf source) written block
  nestedFirst : ∀ before d after, block = before ++ d :: after →
    ∀ e, d.Holds e → e ∈ before

namespace Block

variable {source : String}

theorem nil : Block source [] [] where
  each := .nil
  nestedFirst := by simp

theorem append {written more : List Declaration} {block rest : List ObjectDefinition}
    (hblock : Block source written block) (hrest : Block source more rest) :
    Block source (written ++ more) (block ++ rest) where
  each := List.rel_append hblock.each hrest.each
  nestedFirst := by
    intro before d after hsplit e he
    rw [List.append_eq_append_iff] at hsplit
    rcases hsplit with ⟨middle, rfl, hrest'⟩ | ⟨middle, hblock', hafter⟩
    · exact List.mem_append_right _ (hrest.nestedFirst middle d after hrest' e he)
    · cases middle with
      | nil =>
        have hempty := hrest.nestedFirst [] d after (by simpa using hafter.symm) e he
        cases hempty
      | cons x middle =>
        obtain ⟨rfl, rfl⟩ := List.cons.inj hafter
        exact hblock.nestedFirst before d middle hblock' e he

theorem closed {written : List Declaration} {block : List ObjectDefinition}
    (hblock : Block source written block) {d e : ObjectDefinition} (hd : d ∈ block)
    (hholds : d.Holds e) : e ∈ block := by
  obtain ⟨before, after, rfl⟩ := List.append_of_mem hd
  exact List.mem_append_left _ (hblock.nestedFirst before d after rfl e hholds)

/-- A block goes on with a definition that holds nothing beyond it. -/
theorem snoc {written : List Declaration} {block : List ObjectDefinition}
    (hblock : Block source written block) {declaration : Declaration} {d : ObjectDefinition}
    (hinline : InlineOf source declaration d) (hheld : ∀ e, d.Holds e → e ∈ block) :
    Block source (written ++ [declaration]) (block ++ [d]) where
  each := List.rel_append hblock.each (.cons hinline .nil)
  nestedFirst := by
    intro before x after hsplit e he
    rcases List.eq_nil_or_concat after with rfl | ⟨init, last, rfl⟩
    · obtain ⟨rfl, hx⟩ := List.append_inj' hsplit rfl
      obtain rfl : d = x := by simpa using hx
      exact hheld e he
    · have hinit : block = before ++ x :: init := by
        have hlast : block ++ [d] = (before ++ x :: init) ++ [last] := by
          simpa using hsplit
        exact (List.append_inj' hlast rfl).1
      exact hblock.nestedFirst before x init hinit e he

end Block

/-- All definitions that a value holds are among some definitions. -/
def ValueDefinition.HeldIn (v : ValueDefinition) (block : List ObjectDefinition) : Prop :=
  ∀ e, v.Holds e → e ∈ block

namespace ValueDefinition.HeldIn

variable {v : ValueDefinition} {block : List ObjectDefinition}

theorem append_right (hheld : v.HeldIn block) (more : List ObjectDefinition) :
    v.HeldIn (block ++ more) :=
  fun e he => List.mem_append_left more (hheld e he)

theorem append_left (hheld : v.HeldIn block) (before : List ObjectDefinition) :
    v.HeldIn (before ++ block) :=
  fun e he => List.mem_append_right before (hheld e he)

theorem cons (hheld : v.HeldIn block) {values : List ValueDefinition}
    {rest : List ObjectDefinition} (hvalues : ∀ w ∈ values, w.HeldIn rest) :
    ∀ w ∈ v :: values, w.HeldIn (block ++ rest) := by
  intro w hw
  rcases List.mem_cons.mp hw with rfl | hrest
  · exact hheld.append_right rest
  · exact (hvalues w hrest).append_left block

end ValueDefinition.HeldIn

section Emission

open Elaboration

variable (source : String)

theorem ensures_outline (id : String) (typeName : TextAttribute) (scope : Option String)
    (lazyInit isAbstract : Bool) (parent : TextAttribute) :
    (outline source id typeName scope lazyInit isAbstract parent).Ensures fun block draft =>
      block = [] ∧ draft.id = id ∧ draft.isTyped = Declaration.isTyped typeName parent := by
  refine Ensures.bind_silent (definitions_logIf _ _) fun _ => ?_
  refine Ensures.bind_silent rfl fun scope => ?_
  refine Ensures.bind_silent (definitions_logIf _ _) fun _ => ?_
  exact Ensures.pure ⟨rfl, rfl, rfl⟩

/-- The listed arguments and properties of a declaration are elaborated in turn. -/
theorem ensures_listed (draft : Draft) (note : Elaboration Unit)
    (hnote : definitions note = []) {args : Elaboration Arguments}
    {properties : Elaboration (List ValueDefinition)} {written more : List Declaration}
    (hargs : args.Ensures fun block args =>
      Block source written block ∧ ∀ v, args.Gives v → Arguments.empty.Gives v ∨ v.HeldIn block)
    (hproperties : properties.Ensures fun block values =>
      Block source more block ∧ ∀ v ∈ values, v.HeldIn block) :
    Ensures (do
      note
      let args ← args
      let values ← properties
      return { draft with args := { args with properties := values } }) fun block made =>
        made.id = draft.id ∧ Block source (written ++ more) block ∧
          ∀ v, made.args.Gives v → v.HeldIn block := by
  refine Ensures.bind_silent hnote fun _ => ?_
  refine hargs.bind fun block args hargs => ?_
  refine hproperties.bind fun rest values hvalues => ?_
  refine Ensures.pure ⟨rfl, by simpa using hargs.1.append hvalues.1, ?_⟩
  have hown : ∀ v, args.Gives v → v.HeldIn (block ++ (rest ++ [])) := by
    intro v hv
    rcases hargs.2 v hv with hempty | hheld
    · rcases hempty with hslot | ⟨key, hnamed⟩ | hproperty
      · cases hslot
      · cases hnamed
      · cases hproperty
    · exact hheld.append_right _
  rintro v (hslot | hnamed | hproperty)
  · exact hown v (Or.inl hslot)
  · exact hown v (Or.inr (Or.inl hnamed))
  · exact ((hvalues.2 v hproperty).append_right []).append_left block

-- The induction is on the syntax. Entries and arguments are added to those done before,
-- so a value among them was there already or is held by what is emitted from here on.
mutual

theorem Content.ensures_block (owner name : String) : ∀ content : Content,
    (content.elaborate source owner name).Ensures fun block value =>
      Block source content.inlines block ∧ ∀ v, value = some v → v.HeldIn block
  | .scalar value => by
    rw [Content.elaborate, Content.inlines]
    refine Ensures.pure ⟨Block.nil, ?_⟩
    rintro v ⟨⟩ e ⟨⟩
  | .reference target => by
    rw [Content.elaborate, Content.inlines]
    refine Ensures.pure ⟨Block.nil, ?_⟩
    rintro v ⟨⟩ e ⟨⟩
  | .sequence shape items => by
    rw [Content.elaborate, Content.inlines]
    refine (ensures_blockItems owner name shape 0 items).bind fun block values hvalues => ?_
    refine Ensures.pure ⟨by simpa using hvalues.1, ?_⟩
    rintro v ⟨⟩ e (_ | _ | _ | ⟨hmem, hin⟩)
    simpa using hvalues.2 _ hmem e hin
  | .mapping entries => by
    rw [Content.elaborate, Content.inlines]
    refine (ensures_blockEntries owner name [] entries).bind fun block values hvalues => ?_
    refine Ensures.pure ⟨by simpa using hvalues.1, ?_⟩
    rintro v ⟨⟩ e (_ | _ | ⟨hmem, hin⟩ | _)
    rcases hvalues.2 _ hmem with hdone | hheld
    · cases hdone
    · simpa using hheld e hin
  | .inline declaration => by
    rw [Content.elaborate, Content.inlines]
    refine (declaration.ensures_draft _).answered.bind fun block draft hdraft => ?_
    obtain ⟨hanswer, -, hblock, hheld⟩ := hdraft
    have hdeclared : ∀ e, draft.declared.Holds e → e ∈ block := by
      rintro e ⟨hgives, hin⟩
      exact hheld _ hgives e hin
    refine Ensures.bind_silent (definitions_log _) fun _ => ?_
    intro value hvalue
    cases hvalue
    refine ⟨hblock.snoc ⟨owner, name, draft, hanswer, rfl⟩ hdeclared, ?_⟩
    rintro v ⟨⟩ e (_ | ⟨hin⟩ | _ | _)
    · exact List.mem_append_right block List.mem_cons_self
    · exact List.mem_append_left _ (hdeclared e hin)
  | .unusable complaints => by
    rw [Content.elaborate, Content.inlines]
    refine Ensures.bind_silent (definitions_complain _ _) fun _ => ?_
    exact Ensures.pure ⟨Block.nil, by rintro v ⟨⟩⟩
termination_by structural content => content

theorem ensures_blockItems (owner name : String) (shape : Shape) (index : Nat) :
    ∀ items : List Content,
      (elaborateItems source owner name shape index items).Ensures fun block values =>
        Block source (inlinesOfItems items) block ∧ ∀ v ∈ values, v.HeldIn block
  | [] => by
    rw [elaborateItems, inlinesOfItems]
    exact Ensures.pure ⟨Block.nil, by simp⟩
  | item :: items => by
    rw [elaborateItems, inlinesOfItems]
    refine (item.ensures_block owner _).bind fun block value hvalue => ?_
    cases value with
    | none =>
      refine (ensures_blockItems owner name shape index items).imp fun rest values hvalues => ?_
      refine ⟨hvalue.1.append hvalues.1, fun v hv => ?_⟩
      exact (hvalues.2 v hv).append_left block
    | some value =>
      refine (ensures_blockItems owner name shape (index + 1) items).bind
        fun rest values hvalues => ?_
      refine Ensures.pure ⟨by simpa using hvalue.1.append hvalues.1, ?_⟩
      simpa using (hvalue.2 value rfl).cons hvalues.2
termination_by structural items => items

theorem ensures_blockEntries (owner name : String) (done : Entries ValueDefinition) :
    ∀ entries : List WrittenEntry,
      (elaborateEntries source owner name done entries).Ensures fun block values =>
        Block source (inlinesOfEntries entries) block ∧
          ∀ entry ∈ values, entry ∈ done ∨ entry.2.HeldIn block
  | [] => by
    rw [elaborateEntries, inlinesOfEntries]
    exact Ensures.pure ⟨Block.nil, fun entry hentry => Or.inl hentry⟩
  | .keyless complaint :: entries => by
    rw [elaborateEntries, inlinesOfEntries]
    refine Ensures.bind_silent (definitions_complain _ _) fun _ => ?_
    exact ensures_blockEntries owner name done entries
  | .keyed key content :: entries => by
    rw [elaborateEntries, inlinesOfEntries]
    refine (content.ensures_block owner _).bind fun block value hvalue => ?_
    cases value with
    | none =>
      refine Ensures.bind_silent (definitions_complain _ _) fun _ => ?_
      refine (ensures_blockEntries owner name done entries).imp fun rest values hvalues => ?_
      refine ⟨hvalue.1.append hvalues.1, fun entry hentry => ?_⟩
      exact (hvalues.2 entry hentry).imp_right fun hheld => hheld.append_left block
    | some value =>
      refine (ensures_blockEntries owner name (done.put key value) entries).imp
        fun rest values hvalues => ?_
      refine ⟨hvalue.1.append hvalues.1, fun entry hentry => ?_⟩
      rcases hvalues.2 entry hentry with hput | hheld
      · rcases Entries.mem_put hput with hdone | hvalue'
        · exact Or.inl hdone
        · exact Or.inr (hvalue' ▸ (hvalue.2 value rfl).append_right _)
      · exact Or.inr (hheld.append_left block)
termination_by structural entries => entries

theorem ensures_blockArguments (owner : String) (done : Arguments) :
    ∀ arguments : List WrittenArgument,
      (elaborateArguments source owner done arguments).Ensures fun block args =>
        Block source (inlinesOfArguments arguments) block ∧
          ∀ v, args.Gives v → done.Gives v ∨ v.HeldIn block
  | [] => by
    rw [elaborateArguments, inlinesOfArguments]
    exact Ensures.pure ⟨Block.nil, fun v hv => Or.inl hv⟩
  | .positional content :: arguments => by
    rw [elaborateArguments, inlinesOfArguments]
    refine (content.ensures_block owner _).bind fun block value hvalue => ?_
    refine (ensures_blockArguments owner _ arguments).imp fun rest args hargs => ?_
    refine ⟨hvalue.1.append hargs.1, fun v hv => ?_⟩
    rcases hargs.2 v hv with hdone | hheld
    · rcases Arguments.gives_snoc hdone with hbefore | hnew
      · exact Or.inl hbefore
      · exact Or.inr ((hvalue.2 v hnew).append_right _)
    · exact Or.inr (hheld.append_left block)
  | .named name content :: arguments => by
    rw [elaborateArguments, inlinesOfArguments]
    refine (content.ensures_block owner name).bind fun block value hvalue => ?_
    cases value with
    | none =>
      refine Ensures.bind_silent (definitions_log _) fun _ => ?_
      refine (ensures_blockArguments owner done arguments).imp fun rest args hargs => ?_
      refine ⟨hvalue.1.append hargs.1, fun v hv => ?_⟩
      exact (hargs.2 v hv).imp_right fun hheld => hheld.append_left block
    | some value =>
      refine (ensures_blockArguments owner _ arguments).imp fun rest args hargs => ?_
      refine ⟨hvalue.1.append hargs.1, fun v hv => ?_⟩
      rcases hargs.2 v hv with hdone | hheld
      · rcases Arguments.gives_put hdone with hbefore | rfl
        · exact Or.inl hbefore
        · exact Or.inr ((hvalue.2 v rfl).append_right _)
      · exact Or.inr (hheld.append_left block)
  | .ignored label :: arguments => by
    rw [elaborateArguments, inlinesOfArguments]
    refine Ensures.bind_silent (definitions_log _) fun _ => ?_
    exact ensures_blockArguments owner done arguments
termination_by structural arguments => arguments

theorem ensures_blockProperties (owner : String) : ∀ properties : List WrittenProperty,
    (elaborateProperties source owner properties).Ensures fun block values =>
      Block source (inlinesOfProperties properties) block ∧ ∀ v ∈ values, v.HeldIn block
  | [] => by
    rw [elaborateProperties, inlinesOfProperties]
    exact Ensures.pure ⟨Block.nil, by simp⟩
  | .named name content :: properties => by
    rw [elaborateProperties, inlinesOfProperties]
    refine (content.ensures_block owner name).bind fun block value hvalue => ?_
    cases value with
    | none =>
      refine Ensures.bind_silent (definitions_log _) fun _ => ?_
      refine (ensures_blockProperties owner properties).imp fun rest values hvalues => ?_
      refine ⟨hvalue.1.append hvalues.1, fun v hv => ?_⟩
      exact (hvalues.2 v hv).append_left block
    | some value =>
      refine (ensures_blockProperties owner properties).bind fun rest values hvalues => ?_
      refine Ensures.pure ⟨by simpa using hvalue.1.append hvalues.1, ?_⟩
      simpa using (hvalue.2 value rfl).cons hvalues.2
  | .unnamed :: properties => by
    rw [elaborateProperties, inlinesOfProperties]
    refine Ensures.bind_silent (definitions_log _) fun _ => ?_
    exact ensures_blockProperties owner properties
  | .ignored label :: properties => by
    rw [elaborateProperties, inlinesOfProperties]
    refine Ensures.bind_silent (definitions_log _) fun _ => ?_
    exact ensures_blockProperties owner properties
termination_by structural properties => properties

theorem Shorthand.ensures_block (owner : String) : ∀ shorthand : Shorthand,
    (shorthand.elaborate source owner).Ensures fun block short =>
      (shorthand.inlines? = none ∧ short = none ∧ block = []) ∨
        ∃ written type value, shorthand.inlines? = some written ∧ short = some (type, value) ∧
          Block source written block ∧ ∀ v, value = some v → v.HeldIn block
  | .absent => by
    rw [Shorthand.elaborate, Shorthand.inlines?]
    exact Ensures.pure (Or.inl ⟨rfl, rfl, rfl⟩)
  | .present type content => by
    rw [Shorthand.elaborate, Shorthand.inlines?]
    refine (content.ensures_block owner _).bind fun block value hvalue => ?_
    refine Ensures.pure (Or.inr ⟨_, type, value, rfl, rfl, ?_⟩)
    simpa using hvalue
termination_by structural shorthand => shorthand

theorem Declaration.ensures_draft (id : String) : ∀ declaration : Declaration,
    (declaration.elaborate source id).Ensures fun block draft =>
      draft.id = id ∧ Block source declaration.inlines block ∧
        ∀ v, draft.args.Gives v → v.HeldIn block
  | ⟨_, typeName, scope, lazyInit, isAbstract, parent, shorthand, element, arguments,
      properties⟩ => by
    rw [Declaration.elaborate, Declaration.inlines]
    refine (ensures_outline source id typeName scope lazyInit isAbstract parent).bind
      fun block draft hdraft => ?_
    obtain ⟨rfl, rfl, htyped⟩ := hdraft
    have hlisted := ensures_listed source draft
      (logIf (!draft.isTyped) (.untyped source draft.id element)) (definitions_logIf _ _)
      (ensures_blockArguments draft.id Arguments.empty arguments)
      (ensures_blockProperties draft.id properties)
    rw [← htyped]
    cases hcase : draft.isTyped with
    | true =>
      rw [hcase] at hlisted
      exact hlisted
    | false =>
      rw [hcase] at hlisted
      refine (shorthand.ensures_block draft.id).bind fun block short hshort => ?_
      rcases hshort with ⟨hnone, rfl, rfl⟩ | ⟨written, type, value, hsome, rfl, hblock, hheld⟩
      · rw [hnone]
        exact hlisted
      · rw [hsome]
        refine Ensures.pure ⟨rfl, by simpa using hblock, ?_⟩
        rintro v (hslot | ⟨key, hnamed⟩ | hproperty)
        · simpa using hheld v (List.mem_singleton.mp hslot).symm
        · cases hnamed
        · cases hproperty
termination_by structural declaration => declaration

end

end Emission

end Wiring
