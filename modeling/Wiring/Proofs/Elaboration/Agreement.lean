import Wiring.Proofs.Elaboration.Basic

/-!
Elaborations that differ in their log alone. What an elaboration answers and which
definitions it emits is all that reaches a reader's result, so two elaborations that
agree in both are as good as equal. The name of the element a declaration is written as
goes into the log and nowhere else.
-/

namespace Wiring

namespace Elaboration

variable {α β : Type}

/-- The same answer and the same definitions; only the logs may differ. -/
structure Agree (x y : Elaboration α) : Prop where
  answer : x.answer = y.answer
  definitions : definitions x = definitions y

namespace Agree

theorem refl (x : Elaboration α) : Agree x x := ⟨rfl, rfl⟩

theorem bind {x y : Elaboration α} (hxy : Agree x y) {f g : α → Elaboration β}
    (hfg : ∀ a, Agree (f a) (g a)) : Agree (x >>= f) (y >>= g) := by
  have hanswer : x.answer = y.answer := hxy.answer
  cases hy : y.answer with
  | ok a =>
    have hx : x.answer = .ok a := hanswer.trans hy
    constructor
    · rw [Traced.bind_of_ok hx, Traced.bind_of_ok hy]
      exact (hfg a).answer
    · rw [definitions_bind_of_ok hx, definitions_bind_of_ok hy, hxy.definitions,
        (hfg a).definitions]
  | error e =>
    have hx : x.answer = .error e := hanswer.trans hy
    constructor
    · rw [Traced.bind_of_error hx, Traced.bind_of_error hy]
    · rw [definitions_bind_of_error hx, definitions_bind_of_error hy, hxy.definitions]

theorem bind_right (x : Elaboration α) {f g : α → Elaboration β}
    (hfg : ∀ a, Agree (f a) (g a)) : Agree (x >>= f) (x >>= g) :=
  (refl x).bind hfg

theorem logIf (condition : Bool) (e e' : Event) :
    Agree (Elaboration.logIf condition e) (Elaboration.logIf condition e') :=
  ⟨by simp, by simp⟩

end Agree

end Elaboration

/-! Declarations without the names of their elements. -/

mutual

/-- The same content, with no element named in it. -/
def Content.bare : Content → Content
  | .scalar value => .scalar value
  | .reference target => .reference target
  | .sequence shape items => .sequence shape (bareItems items)
  | .mapping entries => .mapping (bareEntries entries)
  | .inline declaration => .inline declaration.bare
  | .unusable complaints => .unusable complaints
termination_by structural content => content

def bareItems : List Content → List Content
  | [] => []
  | item :: items => item.bare :: bareItems items
termination_by structural items => items

def bareEntries : List WrittenEntry → List WrittenEntry
  | [] => []
  | .keyed key content :: entries => .keyed key content.bare :: bareEntries entries
  | .keyless complaint :: entries => .keyless complaint :: bareEntries entries
termination_by structural entries => entries

def bareArguments : List WrittenArgument → List WrittenArgument
  | [] => []
  | .positional content :: arguments => .positional content.bare :: bareArguments arguments
  | .named name content :: arguments => .named name content.bare :: bareArguments arguments
  | .ignored label :: arguments => .ignored label :: bareArguments arguments
termination_by structural arguments => arguments

def bareProperties : List WrittenProperty → List WrittenProperty
  | [] => []
  | .named name content :: properties => .named name content.bare :: bareProperties properties
  | .unnamed :: properties => .unnamed :: bareProperties properties
  | .ignored label :: properties => .ignored label :: bareProperties properties
termination_by structural properties => properties

def Shorthand.bare : Shorthand → Shorthand
  | .absent => .absent
  | .present type content => .present type content.bare
termination_by structural shorthand => shorthand

/-- The same declaration, with no element named in it. -/
def Declaration.bare : Declaration → Declaration
  | ⟨explicitId, typeName, scope, lazyInit, isAbstract, parent, shorthand, _, arguments,
      properties⟩ =>
    ⟨explicitId, typeName, scope, lazyInit, isAbstract, parent, shorthand.bare, none,
      bareArguments arguments, bareProperties properties⟩
termination_by structural declaration => declaration

end

section Elements

open Elaboration

variable (source : String)

mutual

/-- Naming no elements changes the log of an elaboration alone. -/
theorem Content.agree_bare (owner name : String) : ∀ content : Content,
    Agree (content.bare.elaborate source owner name) (content.elaborate source owner name)
  | .scalar _ => by
    rw [Content.bare]
    exact Agree.refl _
  | .reference _ => by
    rw [Content.bare]
    exact Agree.refl _
  | .sequence shape items => by
    rw [Content.bare, Content.elaborate, Content.elaborate]
    exact (agree_bareItems owner name shape 0 items).bind fun _ => Agree.refl _
  | .mapping entries => by
    rw [Content.bare, Content.elaborate, Content.elaborate]
    exact (agree_bareEntries owner name [] entries).bind fun _ => Agree.refl _
  | .inline declaration => by
    have hid : declaration.bare.explicitId = declaration.explicitId := by
      cases declaration
      rw [Declaration.bare]
    rw [Content.bare, Content.elaborate, Content.elaborate, hid]
    exact (declaration.agree_bare _).bind fun _ => Agree.refl _
  | .unusable _ => by
    rw [Content.bare]
    exact Agree.refl _
termination_by structural content => content

theorem agree_bareItems (owner name : String) (shape : Shape) (index : Nat) :
    ∀ items : List Content, Agree (elaborateItems source owner name shape index (bareItems items))
      (elaborateItems source owner name shape index items)
  | [] => by
    rw [bareItems]
    exact Agree.refl _
  | item :: items => by
    rw [bareItems, elaborateItems, elaborateItems]
    refine (item.agree_bare owner _).bind fun value => ?_
    cases value with
    | some value =>
      exact (agree_bareItems owner name shape (index + 1) items).bind fun _ => Agree.refl _
    | none => exact agree_bareItems owner name shape index items
termination_by structural items => items

theorem agree_bareEntries (owner name : String) (done : Entries ValueDefinition) :
    ∀ entries : List WrittenEntry,
      Agree (elaborateEntries source owner name done (bareEntries entries))
        (elaborateEntries source owner name done entries)
  | [] => by
    rw [bareEntries]
    exact Agree.refl _
  | .keyless complaint :: entries => by
    rw [bareEntries, elaborateEntries, elaborateEntries]
    exact Agree.bind_right _ fun _ => agree_bareEntries owner name done entries
  | .keyed key content :: entries => by
    rw [bareEntries, elaborateEntries, elaborateEntries]
    refine (content.agree_bare owner _).bind fun value => ?_
    cases value with
    | some value => exact agree_bareEntries owner name (done.put key value) entries
    | none => exact Agree.bind_right _ fun _ => agree_bareEntries owner name done entries
termination_by structural entries => entries

theorem agree_bareArguments (owner : String) (done : Arguments) :
    ∀ arguments : List WrittenArgument,
      Agree (elaborateArguments source owner done (bareArguments arguments))
        (elaborateArguments source owner done arguments)
  | [] => by
    rw [bareArguments]
    exact Agree.refl _
  | .positional content :: arguments => by
    rw [bareArguments, elaborateArguments, elaborateArguments]
    exact (content.agree_bare owner _).bind fun value => agree_bareArguments owner _ arguments
  | .named name content :: arguments => by
    rw [bareArguments, elaborateArguments, elaborateArguments]
    refine (content.agree_bare owner name).bind fun value => ?_
    cases value with
    | some value => exact agree_bareArguments owner _ arguments
    | none => exact Agree.bind_right _ fun _ => agree_bareArguments owner done arguments
  | .ignored label :: arguments => by
    rw [bareArguments, elaborateArguments, elaborateArguments]
    exact Agree.bind_right _ fun _ => agree_bareArguments owner done arguments
termination_by structural arguments => arguments

theorem agree_bareProperties (owner : String) : ∀ properties : List WrittenProperty,
    Agree (elaborateProperties source owner (bareProperties properties))
      (elaborateProperties source owner properties)
  | [] => by
    rw [bareProperties]
    exact Agree.refl _
  | .named name content :: properties => by
    rw [bareProperties, elaborateProperties, elaborateProperties]
    refine (content.agree_bare owner name).bind fun value => ?_
    cases value with
    | some value => exact (agree_bareProperties owner properties).bind fun _ => Agree.refl _
    | none => exact Agree.bind_right _ fun _ => agree_bareProperties owner properties
  | .unnamed :: properties => by
    rw [bareProperties, elaborateProperties, elaborateProperties]
    exact Agree.bind_right _ fun _ => agree_bareProperties owner properties
  | .ignored label :: properties => by
    rw [bareProperties, elaborateProperties, elaborateProperties]
    exact Agree.bind_right _ fun _ => agree_bareProperties owner properties
termination_by structural properties => properties

theorem Shorthand.agree_bare (owner : String) : ∀ shorthand : Shorthand,
    Agree (shorthand.bare.elaborate source owner) (shorthand.elaborate source owner)
  | .absent => by
    rw [Shorthand.bare]
    exact Agree.refl _
  | .present type content => by
    rw [Shorthand.bare, Shorthand.elaborate, Shorthand.elaborate]
    exact (content.agree_bare owner _).bind fun _ => Agree.refl _
termination_by structural shorthand => shorthand

theorem Declaration.agree_bare (id : String) : ∀ declaration : Declaration,
    Agree (declaration.bare.elaborate source id) (declaration.elaborate source id)
  | ⟨_, typeName, scope, lazyInit, isAbstract, parent, shorthand, element, arguments,
      properties⟩ => by
    rw [Declaration.bare, Declaration.elaborate, Declaration.elaborate]
    refine Agree.bind_right _ fun draft => ?_
    refine Agree.bind ?_ fun short => ?_
    · split
      · exact Agree.refl _
      · exact shorthand.agree_bare id
    · cases short with
      | some value => exact Agree.refl _
      | none =>
        refine (Agree.logIf _ _ _).bind fun _ => ?_
        refine (agree_bareArguments id _ arguments).bind fun args => ?_
        exact (agree_bareProperties id properties).bind fun _ => Agree.refl _
termination_by structural declaration => declaration

end

/-- The same at the top level, where a missing id is logged and no more. -/
def TopLevel.bare : TopLevel → TopLevel
  | .declared id _ declaration => .declared id false declaration.bare
  | .foreign element => .foreign element
  | .unidentified => .unidentified

theorem answer_draft_bare (id : String) (declaration : Declaration) :
    (declaration.bare.draft source id).answer = (declaration.draft source id).answer := by
  have hagree := declaration.agree_bare source id
  have hinner : (declaration.bare.elaborate source id).trace.filterMap Emission.definition? =
      (declaration.elaborate source id).trace.filterMap Emission.definition? := hagree.definitions
  simp only [Declaration.draft, hagree.answer, hinner]

theorem answer_draftsOf_bare (document : List TopLevel) :
    (draftsOf source (document.map TopLevel.bare)).answer =
      (draftsOf source document).answer := by
  induction document with
  | nil => rfl
  | cons top document ih =>
    cases top with
    | foreign element =>
      rw [List.map_cons, TopLevel.bare, answer_draftsOf_foreign, answer_draftsOf_foreign, ih]
    | unidentified => rw [List.map_cons, TopLevel.bare, draftsOf, draftsOf]
    | declared id idless declaration =>
      rw [List.map_cons, TopLevel.bare, answer_draftsOf_declared, answer_draftsOf_declared,
        answer_draft_bare, ih]

/-- Naming no elements changes the log of a reading alone. -/
theorem answer_definitionsOf_bare (document : List TopLevel) :
    (definitionsOf source (document.map TopLevel.bare)).answer =
      (definitionsOf source document).answer := by
  rw [answer_definitionsOf, answer_definitionsOf, answer_draftsOf_bare]

end Elements

end Wiring
