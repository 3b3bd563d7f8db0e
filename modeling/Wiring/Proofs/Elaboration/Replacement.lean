import Wiring.Proofs.Elaboration.Pruning

/-!
Which inline definitions a declaration still holds. The definition of an inline
declaration is emitted when its value is made. If the key of a mapping or the name of an
argument is given again later, the value made first is replaced, but what was emitted for
it stays. Every other emitted definition is held by what the declaration gives.
-/

namespace Wiring

/-- Whether one of some entries gives a key a value. -/
def isGivenBy (key : String) (entries : List WrittenEntry) : Bool :=
  entries.any fun entry =>
    match entry with
    | .keyed other content => other == key && content.isUsable
    | .keyless _ => false

/-- Whether one of some arguments gives a name a value. -/
def isPassedBy (name : String) (arguments : List WrittenArgument) : Bool :=
  arguments.any fun argument =>
    match argument with
    | .named other content => other == name && content.isUsable
    | .positional _ => false
    | .ignored _ => false

/-- An inline declaration, and whether the value it is written in stays. -/
structure Placement where
  declaration : Declaration
  stays : Bool

/-- What is written in a value goes with it if it is replaced. -/
def stayingUnless (isReplaced : Bool) (placements : List Placement) : List Placement :=
  placements.map fun placement => { placement with stays := placement.stays && !isReplaced }

mutual

/-- The inline declarations in some content that become definitions, each after those
nested in it. -/
def Content.placements : Content → List Placement
  | .scalar _ => []
  | .reference _ => []
  | .sequence _ items => placementsInItems items
  | .mapping entries => placementsInEntries entries
  | .inline declaration => declaration.placements ++ [⟨declaration, true⟩]
  | .unusable _ => []
termination_by structural content => content

def placementsInItems : List Content → List Placement
  | [] => []
  | item :: items => item.placements ++ placementsInItems items
termination_by structural items => items

def placementsInEntries : List WrittenEntry → List Placement
  | [] => []
  | .keyed key content :: entries =>
    stayingUnless (isGivenBy key entries) content.placements ++ placementsInEntries entries
  | .keyless _ :: entries => placementsInEntries entries
termination_by structural entries => entries

def placementsInArguments : List WrittenArgument → List Placement
  | [] => []
  | .positional content :: arguments => content.placements ++ placementsInArguments arguments
  | .named name content :: arguments =>
    stayingUnless (isPassedBy name arguments) content.placements ++
      placementsInArguments arguments
  | .ignored _ :: arguments => placementsInArguments arguments
termination_by structural arguments => arguments

def placementsInProperties : List WrittenProperty → List Placement
  | [] => []
  | .named _ content :: properties => content.placements ++ placementsInProperties properties
  | .unnamed :: properties => placementsInProperties properties
  | .ignored _ :: properties => placementsInProperties properties
termination_by structural properties => properties

def Shorthand.placements? : Shorthand → Option (List Placement)
  | .absent => none
  | .present _ content => some content.placements
termination_by structural shorthand => shorthand

/-- The inline declarations in a declaration. Those of a shorthand are in its only
argument, and then the rest is not looked at. -/
def Declaration.placements : Declaration → List Placement
  | ⟨_, typeName, _, _, _, parent, shorthand, _, arguments, properties⟩ =>
    let listed := placementsInArguments arguments ++ placementsInProperties properties
    if Declaration.isTyped typeName parent then listed else shorthand.placements?.getD listed
termination_by structural declaration => declaration

end

/-- A definition is held by one of the values that are given. -/
def HeldAmong (given : ValueDefinition → Prop) (d : ObjectDefinition) : Prop :=
  ∃ v, given v ∧ v.Holds d

/-- Each of some definitions is that of an inline declaration, and is held if the value
it is written in stays. -/
def Tracked (source : String) (held : ObjectDefinition → Prop) (placements : List Placement)
    (block : List ObjectDefinition) : Prop :=
  List.Forall₂
    (fun placement d => InlineOf source placement.declaration d ∧ (placement.stays → held d))
    placements block

namespace Tracked

variable {source : String} {held other : ObjectDefinition → Prop}
variable {placements more : List Placement} {block rest : List ObjectDefinition}

theorem nil : Tracked source held [] [] := List.Forall₂.nil

theorem append (hblock : Tracked source held placements block)
    (hrest : Tracked source held more rest) :
    Tracked source held (placements ++ more) (block ++ rest) :=
  List.rel_append hblock hrest

theorem imp (hblock : Tracked source held placements block) (himp : ∀ d, held d → other d) :
    Tracked source other placements block :=
  List.Forall₂.imp (fun _ d hd => ⟨hd.1, fun hstays => himp d (hd.2 hstays)⟩) hblock

/-- What is written in a value that may be replaced is held if the value is not. -/
theorem unlessReplaced {isReplaced : Bool} (hblock : Tracked source held placements block)
    (himp : isReplaced = false → ∀ d, held d → other d) :
    Tracked source other (stayingUnless isReplaced placements) block := by
  refine List.forall₂_map_left_iff.mpr (List.Forall₂.imp ?_ hblock)
  rintro placement d ⟨hinline, hheld⟩
  refine ⟨hinline, fun hstays => ?_⟩
  obtain ⟨hstays, hkept⟩ := Bool.and_eq_true_iff.mp hstays
  exact himp (by simpa using hkept) d (hheld hstays)

end Tracked

theorem HeldAmong.imp {given other : ValueDefinition → Prop} (himp : ∀ v, given v → other v)
    (d : ObjectDefinition) (hheld : HeldAmong given d) : HeldAmong other d := by
  obtain ⟨v, hgiven, hin⟩ := hheld
  exact ⟨v, himp v hgiven, hin⟩

/-- One more value is given in front of some. -/
theorem Tracked.cons {source : String} {value : ValueDefinition} {values : List ValueDefinition}
    {placements more : List Placement} {block rest : List ObjectDefinition}
    (hvalue : Tracked source (HeldAmong (some value = some ·)) placements block)
    (hvalues : Tracked source (HeldAmong (· ∈ values)) more rest) :
    Tracked source (HeldAmong (· ∈ value :: values)) (placements ++ more) (block ++ rest) := by
  refine (hvalue.imp (HeldAmong.imp ?_)).append (hvalues.imp (HeldAmong.imp ?_))
  · rintro v ⟨⟩
    exact List.mem_cons_self
  · exact fun v hv => List.mem_cons_of_mem value hv

theorem isGivenBy_keyed {name key : String} {content : Content} {entries : List WrittenEntry}
    (hgiven : isGivenBy name (.keyed key content :: entries) = false) :
    (content.isUsable = true → name ≠ key) ∧ isGivenBy name entries = false := by
  simp only [isGivenBy, List.any_cons, Bool.or_eq_false_iff] at hgiven ⊢
  refine ⟨fun husable hname => ?_, hgiven.2⟩
  simp [husable, hname] at hgiven

theorem isPassedBy_named {name key : String} {content : Content}
    {arguments : List WrittenArgument}
    (hpassed : isPassedBy name (.named key content :: arguments) = false) :
    (content.isUsable = true → name ≠ key) ∧ isPassedBy name arguments = false := by
  simp only [isPassedBy, List.any_cons, Bool.or_eq_false_iff] at hpassed ⊢
  refine ⟨fun husable hname => ?_, hpassed.2⟩
  simp [husable, hname] at hpassed

/-- A value is passed to the constructor. -/
def Arguments.Passes (args : Arguments) (v : ValueDefinition) : Prop :=
  some v ∈ args.positional ∨ ∃ key, (key, v) ∈ args.named

section Emission

open Elaboration

variable (source : String)

/-- What the listed arguments and properties of a declaration hold, its draft holds. -/
theorem tracked_listed (draft : Draft) (note : Elaboration Unit) (hnote : definitions note = [])
    {args : Elaboration Arguments} {properties : Elaboration (List ValueDefinition)}
    {placements more : List Placement}
    (hargs : args.Ensures fun block args =>
      Tracked source (HeldAmong args.Passes) placements block)
    (hproperties : properties.Ensures fun block values =>
      Tracked source (HeldAmong (· ∈ values)) more block) :
    Ensures (do
      note
      let args ← args
      let values ← properties
      return { draft with args := { args with properties := values } }) fun block made =>
        Tracked source (HeldAmong made.args.Gives) (placements ++ more) block := by
  refine Ensures.bind_silent hnote fun _ => ?_
  refine hargs.bind fun block args hargs => ?_
  refine hproperties.bind fun rest values hvalues => ?_
  refine Ensures.pure ?_
  rw [List.append_nil]
  refine (hargs.imp (HeldAmong.imp ?_)).append (hvalues.imp (HeldAmong.imp ?_))
  · rintro v (hslot | hnamed)
    · exact Or.inl hslot
    · exact Or.inr (Or.inl hnamed)
  · exact fun v hv => Or.inr (Or.inr hv)

-- The induction is on the syntax. Entries and arguments are added to those done before, and
-- of these the ones stay whose keys are not given again.
mutual

theorem Content.tracked_elaborate (owner name : String) : ∀ content : Content,
    (content.elaborate source owner name).Ensures fun block value =>
      Tracked source (HeldAmong (value = some ·)) content.placements block ∧
        (value.isSome → content.isUsable)
  | .scalar value => by
    rw [Content.elaborate, Content.placements]
    exact Ensures.pure ⟨Tracked.nil, fun _ => rfl⟩
  | .reference target => by
    rw [Content.elaborate, Content.placements]
    exact Ensures.pure ⟨Tracked.nil, fun _ => rfl⟩
  | .sequence shape items => by
    rw [Content.elaborate, Content.placements]
    refine (tracked_elaborateItems owner name shape 0 items).bind fun block values hvalues => ?_
    refine Ensures.pure ⟨?_, fun _ => rfl⟩
    rw [List.append_nil]
    refine hvalues.imp fun d hheld => ?_
    obtain ⟨v, hmem, hin⟩ := hheld
    exact ⟨_, rfl, .item hmem hin⟩
  | .mapping entries => by
    rw [Content.elaborate, Content.placements]
    refine (tracked_elaborateEntries owner name [] entries).bind fun block values hvalues => ?_
    refine Ensures.pure ⟨?_, fun _ => rfl⟩
    rw [List.append_nil]
    refine hvalues.1.imp fun d hheld => ?_
    obtain ⟨v, ⟨key, hmem⟩, hin⟩ := hheld
    exact ⟨_, rfl, .entry hmem hin⟩
  | .inline declaration => by
    rw [Content.elaborate, Content.placements]
    refine (declaration.tracked_elaborate _).answered.bind fun block draft hdraft => ?_
    obtain ⟨hanswer, hblock⟩ := hdraft
    refine Ensures.bind_silent (definitions_log _) fun _ => ?_
    intro value hvalue
    cases hvalue
    refine ⟨Tracked.append ?_ (List.Forall₂.cons ?_ .nil), fun _ => rfl⟩
    · refine hblock.imp fun d hheld => ?_
      obtain ⟨v, hgives, hin⟩ := hheld
      exact ⟨_, rfl, .inside ⟨hgives, hin⟩⟩
    · exact ⟨⟨owner, name, draft, hanswer, rfl⟩, fun _ => ⟨_, rfl, .inner⟩⟩
  | .unusable complaints => by
    rw [Content.elaborate, Content.placements]
    refine Ensures.bind_silent (definitions_complain _ _) fun _ => ?_
    exact Ensures.pure ⟨Tracked.nil, nofun⟩
termination_by structural content => content

theorem tracked_elaborateItems (owner name : String) (shape : Shape) (index : Nat) :
    ∀ items : List Content,
      (elaborateItems source owner name shape index items).Ensures fun block values =>
        Tracked source (HeldAmong (· ∈ values)) (placementsInItems items) block
  | [] => by
    rw [elaborateItems, placementsInItems]
    exact Ensures.pure Tracked.nil
  | item :: items => by
    rw [elaborateItems, placementsInItems]
    refine (item.tracked_elaborate owner _).bind fun block value hvalue => ?_
    cases value with
    | none =>
      refine (tracked_elaborateItems owner name shape index items).imp fun rest values hvalues => ?_
      exact (hvalue.1.imp (HeldAmong.imp nofun)).append hvalues
    | some value =>
      refine (tracked_elaborateItems owner name shape (index + 1) items).bind
        fun rest values hvalues => ?_
      refine Ensures.pure ?_
      rw [List.append_nil]
      exact hvalue.1.cons hvalues
termination_by structural items => items

theorem tracked_elaborateEntries (owner name : String) (done : Entries ValueDefinition) :
    ∀ entries : List WrittenEntry,
      (elaborateEntries source owner name done entries).Ensures fun block values =>
        Tracked source (HeldAmong fun v => ∃ key, (key, v) ∈ values)
            (placementsInEntries entries) block ∧
          ∀ entry ∈ done, isGivenBy entry.1 entries = false → entry ∈ values
  | [] => by
    rw [elaborateEntries, placementsInEntries]
    exact Ensures.pure ⟨Tracked.nil, fun entry hentry _ => hentry⟩
  | .keyless complaint :: entries => by
    rw [elaborateEntries, placementsInEntries]
    refine Ensures.bind_silent (definitions_complain _ _) fun _ => ?_
    exact tracked_elaborateEntries owner name done entries
  | .keyed key content :: entries => by
    rw [elaborateEntries, placementsInEntries]
    refine (content.tracked_elaborate owner _).bind fun block value hvalue => ?_
    cases value with
    | none =>
      refine Ensures.bind_silent (definitions_complain _ _) fun _ => ?_
      refine (tracked_elaborateEntries owner name done entries).imp fun rest values hvalues => ?_
      refine ⟨(hvalue.1.unlessReplaced fun _ => HeldAmong.imp nofun).append hvalues.1, ?_⟩
      exact fun entry hentry hgiven => hvalues.2 entry hentry (isGivenBy_keyed hgiven).2
    | some value =>
      refine (tracked_elaborateEntries owner name (done.put key value) entries).imp
        fun rest values hvalues => ?_
      refine ⟨(hvalue.1.unlessReplaced fun hkept => HeldAmong.imp ?_).append hvalues.1, ?_⟩
      · rintro v ⟨⟩
        exact ⟨key, hvalues.2 _ (Entries.mem_put_self key value done) hkept⟩
      · intro entry hentry hgiven
        obtain ⟨hne, hkept⟩ := isGivenBy_keyed hgiven
        exact hvalues.2 entry (Entries.mem_put_of_ne value (hne (hvalue.2 rfl)) hentry) hkept
termination_by structural entries => entries

theorem tracked_elaborateArguments (owner : String) (done : Arguments) :
    ∀ arguments : List WrittenArgument,
      (elaborateArguments source owner done arguments).Ensures fun block args =>
        Tracked source (HeldAmong args.Passes) (placementsInArguments arguments) block ∧
          (∀ slot ∈ done.positional, slot ∈ args.positional) ∧
          ∀ entry ∈ done.named, isPassedBy entry.1 arguments = false → entry ∈ args.named
  | [] => by
    rw [elaborateArguments, placementsInArguments]
    exact Ensures.pure ⟨Tracked.nil, fun slot hslot => hslot, fun entry hentry _ => hentry⟩
  | .positional content :: arguments => by
    rw [elaborateArguments, placementsInArguments]
    refine (content.tracked_elaborate owner _).bind fun block value hvalue => ?_
    refine (tracked_elaborateArguments owner _ arguments).imp fun rest args hargs => ?_
    obtain ⟨hrest, hslots, hnamed⟩ := hargs
    refine ⟨(hvalue.1.imp (HeldAmong.imp ?_)).append hrest, ?_, hnamed⟩
    · rintro v rfl
      exact Or.inl (hslots _ (List.mem_append_right _ List.mem_cons_self))
    · exact fun slot hslot => hslots slot (List.mem_append_left _ hslot)
  | .named name content :: arguments => by
    rw [elaborateArguments, placementsInArguments]
    refine (content.tracked_elaborate owner name).bind fun block value hvalue => ?_
    cases value with
    | none =>
      refine Ensures.bind_silent (definitions_log _) fun _ => ?_
      refine (tracked_elaborateArguments owner done arguments).imp fun rest args hargs => ?_
      obtain ⟨hrest, hslots, hnamed⟩ := hargs
      refine ⟨(hvalue.1.unlessReplaced fun _ => HeldAmong.imp nofun).append hrest, hslots, ?_⟩
      exact fun entry hentry hpassed => hnamed entry hentry (isPassedBy_named hpassed).2
    | some value =>
      refine (tracked_elaborateArguments owner _ arguments).imp fun rest args hargs => ?_
      obtain ⟨hrest, hslots, hnamed⟩ := hargs
      refine ⟨(hvalue.1.unlessReplaced fun hkept => HeldAmong.imp ?_).append hrest, hslots, ?_⟩
      · rintro v ⟨⟩
        exact Or.inr ⟨name, hnamed _ (Entries.mem_put_self name value done.named) hkept⟩
      · intro entry hentry hpassed
        obtain ⟨hne, hkept⟩ := isPassedBy_named hpassed
        exact hnamed entry (Entries.mem_put_of_ne value (hne (hvalue.2 rfl)) hentry) hkept
  | .ignored label :: arguments => by
    rw [elaborateArguments, placementsInArguments]
    refine Ensures.bind_silent (definitions_log _) fun _ => ?_
    exact tracked_elaborateArguments owner done arguments
termination_by structural arguments => arguments

theorem tracked_elaborateProperties (owner : String) : ∀ properties : List WrittenProperty,
    (elaborateProperties source owner properties).Ensures fun block values =>
      Tracked source (HeldAmong (· ∈ values)) (placementsInProperties properties) block
  | [] => by
    rw [elaborateProperties, placementsInProperties]
    exact Ensures.pure Tracked.nil
  | .named name content :: properties => by
    rw [elaborateProperties, placementsInProperties]
    refine (content.tracked_elaborate owner name).bind fun block value hvalue => ?_
    cases value with
    | none =>
      refine Ensures.bind_silent (definitions_log _) fun _ => ?_
      refine (tracked_elaborateProperties owner properties).imp fun rest values hvalues => ?_
      exact (hvalue.1.imp (HeldAmong.imp nofun)).append hvalues
    | some value =>
      refine (tracked_elaborateProperties owner properties).bind fun rest values hvalues => ?_
      refine Ensures.pure ?_
      rw [List.append_nil]
      exact hvalue.1.cons hvalues
  | .unnamed :: properties => by
    rw [elaborateProperties, placementsInProperties]
    refine Ensures.bind_silent (definitions_log _) fun _ => ?_
    exact tracked_elaborateProperties owner properties
  | .ignored label :: properties => by
    rw [elaborateProperties, placementsInProperties]
    refine Ensures.bind_silent (definitions_log _) fun _ => ?_
    exact tracked_elaborateProperties owner properties
termination_by structural properties => properties

theorem Shorthand.tracked_elaborate (owner : String) : ∀ shorthand : Shorthand,
    (shorthand.elaborate source owner).Ensures fun block short =>
      (shorthand.placements? = none ∧ short = none ∧ block = []) ∨
        ∃ placements type value, shorthand.placements? = some placements ∧
          short = some (type, value) ∧
          Tracked source (HeldAmong (value = some ·)) placements block
  | .absent => by
    rw [Shorthand.elaborate, Shorthand.placements?]
    exact Ensures.pure (Or.inl ⟨rfl, rfl, rfl⟩)
  | .present type content => by
    rw [Shorthand.elaborate, Shorthand.placements?]
    refine (content.tracked_elaborate owner _).bind fun block value hvalue => ?_
    refine Ensures.pure (Or.inr ⟨_, type, value, rfl, rfl, ?_⟩)
    rw [List.append_nil]
    exact hvalue.1
termination_by structural shorthand => shorthand

theorem Declaration.tracked_elaborate (id : String) : ∀ declaration : Declaration,
    (declaration.elaborate source id).Ensures fun block draft =>
      Tracked source (HeldAmong draft.args.Gives) declaration.placements block
  | ⟨_, typeName, scope, lazyInit, isAbstract, parent, shorthand, element, arguments,
      properties⟩ => by
    rw [Declaration.elaborate, Declaration.placements]
    refine (ensures_outline source id typeName scope lazyInit isAbstract parent).bind
      fun block draft hdraft => ?_
    obtain ⟨rfl, rfl, htyped⟩ := hdraft
    have hlisted := tracked_listed source draft
      (logIf (!draft.isTyped) (.untyped source draft.id element)) (definitions_logIf _ _)
      ((tracked_elaborateArguments draft.id Arguments.empty arguments).imp
        fun _ _ hargs => hargs.1)
      (tracked_elaborateProperties draft.id properties)
    rw [← htyped]
    cases hcase : draft.isTyped with
    | true =>
      rw [hcase] at hlisted
      exact hlisted
    | false =>
      rw [hcase] at hlisted
      refine (shorthand.tracked_elaborate draft.id).bind fun block short hshort => ?_
      rcases hshort with ⟨hnone, rfl, rfl⟩ | ⟨placements, type, value, hsome, rfl, hblock⟩
      · rw [hnone]
        exact hlisted
      · rw [hsome]
        refine Ensures.pure ?_
        rw [List.append_nil]
        refine hblock.imp (HeldAmong.imp ?_)
        rintro v rfl
        exact Or.inl List.mem_cons_self
termination_by structural declaration => declaration

end

end Emission

end Wiring
