import Wiring.Proofs.Elaboration.Inline

/-!
The record of an elaboration. What is recorded for a part of a declaration, be it an inline
declaration or the content of a constructor slot, stands in one piece in the record of the
whole. So whatever is said about a part is found in the log.
-/

namespace Wiring

namespace Traced

variable {ω ε α β : Type}

theorem isInfix_bind_left {x : Traced ω ε α} {a : α} (hx : x.answer = .ok a)
    (f : α → Traced ω ε β) : x.trace <:+: (x >>= f).trace := by
  rw [bind_of_ok hx]
  exact (List.prefix_append _ _).isInfix

theorem isInfix_bind_right {x : Traced ω ε α} {a : α} (hx : x.answer = .ok a)
    (f : α → Traced ω ε β) : (f a).trace <:+: (x >>= f).trace := by
  rw [bind_of_ok hx]
  exact (List.suffix_append _ _).isInfix

end Traced

/-- The elaboration of an inline declaration, with the definition emitted for it, is part of
a record. -/
def RecordedIn (source : String) (trace : List Emission) (declaration : Declaration) : Prop :=
  ∃ id draft, (declaration.elaborate source id).answer = .ok draft ∧
    (declaration.elaborate source id).trace ++ [.event (.parsedInline draft.declared.id),
      .definition draft.declared] <:+: trace

theorem RecordedIn.mono {source : String} {trace more : List Emission} {declaration : Declaration}
    (hrecorded : RecordedIn source trace declaration) (hmore : trace <:+: more) :
    RecordedIn source more declaration := by
  obtain ⟨id, draft, hanswer, htrace⟩ := hrecorded
  exact ⟨id, draft, hanswer, htrace.trans hmore⟩

/-- If an elaboration succeeds, some inline declarations are all recorded in it. -/
def Elaboration.RecordsAll {α : Type} (source : String) (written : List Declaration)
    (x : Elaboration α) : Prop :=
  ∀ a, x.answer = .ok a → ∀ d ∈ written, RecordedIn source x.trace d

namespace Elaboration.RecordsAll

variable {α β : Type} {source : String} {written more : List Declaration}

theorem nil (x : Elaboration α) : x.RecordsAll source [] := by
  intro a _ d hd
  cases hd

theorem bind {x : Elaboration α} {f : α → Elaboration β} (hx : x.RecordsAll source written)
    (hf : ∀ a, x.answer = .ok a → (f a).RecordsAll source more) :
    (x >>= f).RecordsAll source (written ++ more) := by
  intro b hb d hd
  obtain ⟨a, ha, hb⟩ := Traced.exists_of_bind hb
  rcases List.mem_append.mp hd with hfirst | hlater
  · exact (hx a ha d hfirst).mono (Traced.isInfix_bind_left ha f)
  · exact (hf a ha b hb d hlater).mono (Traced.isInfix_bind_right ha f)

theorem bind_left {x : Elaboration α} (hx : x.RecordsAll source written)
    (f : α → Elaboration β) : (x >>= f).RecordsAll source written := by
  have hbind := hx.bind (f := f) fun a _ => nil (f a)
  rwa [List.append_nil] at hbind

theorem bind_right (x : Elaboration α) {f : α → Elaboration β}
    (hf : ∀ a, x.answer = .ok a → (f a).RecordsAll source more) :
    (x >>= f).RecordsAll source more := by
  have hbind := (nil x).bind hf
  rwa [List.nil_append] at hbind

end Elaboration.RecordsAll

section Inlines

open Elaboration

variable (source : String)

-- The induction is on the syntax. Each part records its own inline declarations, whatever
-- came of the parts before it.
mutual

theorem Content.records_inlines (owner name : String) : ∀ content : Content,
    (content.elaborate source owner name).RecordsAll source content.inlines
  | .scalar value => by
    rw [Content.inlines]
    exact RecordsAll.nil _
  | .reference target => by
    rw [Content.inlines]
    exact RecordsAll.nil _
  | .sequence shape items => by
    rw [Content.elaborate, Content.inlines]
    exact (recordsItems_inlines owner name shape 0 items).bind_left _
  | .mapping entries => by
    rw [Content.elaborate, Content.inlines]
    exact (recordsEntries_inlines owner name [] entries).bind_left _
  | .inline declaration => by
    have hnested := declaration.records_inlines (Naming.inner owner name declaration.explicitId)
    rw [Content.elaborate, Content.inlines]
    intro value hvalue d hd
    rcases List.mem_append.mp hd with hinner | hself
    · exact hnested.bind_left _ value hvalue d hinner
    · obtain rfl := List.mem_singleton.mp hself
      obtain ⟨draft, hdraft, -⟩ := Traced.exists_of_bind hvalue
      refine ⟨_, draft, hdraft, ?_⟩
      rw [Traced.bind_of_ok hdraft]
      exact List.infix_rfl
  | .unusable complaints => by
    rw [Content.inlines]
    exact RecordsAll.nil _
termination_by structural content => content

theorem recordsItems_inlines (owner name : String) (shape : Shape) (index : Nat) :
    ∀ items : List Content,
      (elaborateItems source owner name shape index items).RecordsAll source
        (inlinesOfItems items)
  | [] => by
    rw [inlinesOfItems]
    exact RecordsAll.nil _
  | item :: items => by
    rw [elaborateItems, inlinesOfItems]
    apply (item.records_inlines owner _).bind
    intro value _
    cases value with
    | some value => exact (recordsItems_inlines owner name shape (index + 1) items).bind_left _
    | none => exact recordsItems_inlines owner name shape index items
termination_by structural items => items

theorem recordsEntries_inlines (owner name : String) (done : Entries ValueDefinition) :
    ∀ entries : List WrittenEntry,
      (elaborateEntries source owner name done entries).RecordsAll source
        (inlinesOfEntries entries)
  | [] => by
    rw [inlinesOfEntries]
    exact RecordsAll.nil _
  | .keyless complaint :: entries => by
    rw [elaborateEntries, inlinesOfEntries]
    exact RecordsAll.bind_right _ fun _ _ => recordsEntries_inlines owner name done entries
  | .keyed key content :: entries => by
    rw [elaborateEntries, inlinesOfEntries]
    apply (content.records_inlines owner _).bind
    intro value _
    cases value with
    | some value => exact recordsEntries_inlines owner name (done.put key value) entries
    | none =>
      exact RecordsAll.bind_right _ fun _ _ => recordsEntries_inlines owner name done entries
termination_by structural entries => entries

theorem recordsArguments_inlines (owner : String) (done : Arguments) :
    ∀ arguments : List WrittenArgument,
      (elaborateArguments source owner done arguments).RecordsAll source
        (inlinesOfArguments arguments)
  | [] => by
    rw [inlinesOfArguments]
    exact RecordsAll.nil _
  | .positional content :: arguments => by
    rw [elaborateArguments, inlinesOfArguments]
    apply (content.records_inlines owner _).bind
    intro value _
    exact recordsArguments_inlines owner _ arguments
  | .named name content :: arguments => by
    rw [elaborateArguments, inlinesOfArguments]
    apply (content.records_inlines owner name).bind
    intro value _
    cases value with
    | some value => exact recordsArguments_inlines owner _ arguments
    | none => exact RecordsAll.bind_right _ fun _ _ => recordsArguments_inlines owner done arguments
  | .ignored label :: arguments => by
    rw [elaborateArguments, inlinesOfArguments]
    exact RecordsAll.bind_right _ fun _ _ => recordsArguments_inlines owner done arguments
termination_by structural arguments => arguments

theorem recordsProperties_inlines (owner : String) : ∀ properties : List WrittenProperty,
    (elaborateProperties source owner properties).RecordsAll source
      (inlinesOfProperties properties)
  | [] => by
    rw [inlinesOfProperties]
    exact RecordsAll.nil _
  | .named name content :: properties => by
    rw [elaborateProperties, inlinesOfProperties]
    apply (content.records_inlines owner name).bind
    intro value _
    cases value with
    | some value => exact (recordsProperties_inlines owner properties).bind_left _
    | none => exact RecordsAll.bind_right _ fun _ _ => recordsProperties_inlines owner properties
  | .unnamed :: properties => by
    rw [elaborateProperties, inlinesOfProperties]
    exact RecordsAll.bind_right _ fun _ _ => recordsProperties_inlines owner properties
  | .ignored label :: properties => by
    rw [elaborateProperties, inlinesOfProperties]
    exact RecordsAll.bind_right _ fun _ _ => recordsProperties_inlines owner properties
termination_by structural properties => properties

theorem Shorthand.records_inlines (owner : String) : ∀ shorthand : Shorthand,
    (shorthand.elaborate source owner).RecordsAll source (shorthand.inlines?.getD [])
  | .absent => by
    rw [Shorthand.inlines?]
    exact RecordsAll.nil _
  | .present type content => by
    rw [Shorthand.elaborate, Shorthand.inlines?]
    exact (content.records_inlines owner _).bind_left _
termination_by structural shorthand => shorthand

theorem Declaration.records_inlines (id : String) : ∀ declaration : Declaration,
    (declaration.elaborate source id).RecordsAll source declaration.inlines
  | ⟨_, typeName, scope, lazyInit, isAbstract, parent, shorthand, element, arguments,
      properties⟩ => by
    have hlisted (draft : Draft) (note : Elaboration Unit) : RecordsAll source
        (inlinesOfArguments arguments ++ inlinesOfProperties properties) (do
          note
          let args ← elaborateArguments source id Arguments.empty arguments
          let values ← elaborateProperties source id properties
          return { draft with args := { args with properties := values } }) := by
      apply RecordsAll.bind_right
      intro _ _
      apply (recordsArguments_inlines id Arguments.empty arguments).bind
      intro args _
      exact (recordsProperties_inlines id properties).bind_left _
    have hshorthand := shorthand.records_inlines id
    rw [Declaration.elaborate, Declaration.inlines]
    apply RecordsAll.bind_right
    intro draft hdraft
    obtain ⟨-, -, htyped⟩ :=
      ensures_outline source id typeName scope lazyInit isAbstract parent draft hdraft
    rw [← htyped]
    cases hcase : draft.isTyped with
    | true => exact hlisted draft _
    | false =>
      cases shorthand with
      | absent =>
        rw [Shorthand.elaborate, Shorthand.inlines?]
        exact hlisted draft _
      | present type content =>
        rw [Shorthand.inlines?] at hshorthand ⊢
        exact hshorthand.bind_left _
termination_by structural declaration => declaration

end

end Inlines

/-! The slots of a constructor. -/

/-- The contents of the positional arguments. -/
def positionals : List WrittenArgument → List Content
  | [] => []
  | .positional content :: arguments => content :: positionals arguments
  | .named _ _ :: arguments => positionals arguments
  | .ignored _ :: arguments => positionals arguments

/-- The contents of the constructor slots of a declaration. A shorthand has one. -/
def Declaration.slots (declaration : Declaration) : List Content :=
  if Declaration.isTyped declaration.typeName declaration.parent then
    positionals declaration.arguments
  else
    match declaration.shorthand with
    | .absent => positionals declaration.arguments
    | .present _ content => [content]

/-- Constructor slots from an index on hold what their contents are elaborated to, and that
is on record. -/
inductive Fills (source owner : String) (trace : List Emission) :
    Nat → List Content → List (Option ValueDefinition) → Prop
  | nil {index : Nat} : Fills source owner trace index [] []
  | cons {index : Nat} {content : Content} {contents : List Content}
      {value : Option ValueDefinition} {values : List (Option ValueDefinition)}
      (hvalue : (content.elaborate source owner (Naming.positional index)).answer = .ok value)
      (hrecorded : (content.elaborate source owner (Naming.positional index)).trace <:+: trace)
      (hrest : Fills source owner trace (index + 1) contents values) :
      Fills source owner trace index (content :: contents) (value :: values)

namespace Fills

variable {source owner : String} {trace more : List Emission} {index : Nat}
  {contents : List Content} {values : List (Option ValueDefinition)}

theorem mono (hfills : Fills source owner trace index contents values) (hmore : trace <:+: more) :
    Fills source owner more index contents values := by
  induction hfills with
  | nil => exact .nil
  | cons hvalue hrecorded _ ih => exact .cons hvalue (hrecorded.trans hmore) ih

theorem length_eq (hfills : Fills source owner trace index contents values) :
    values.length = contents.length := by
  induction hfills with
  | nil => rfl
  | cons _ _ _ ih => simp [ih]

theorem exists_content (hfills : Fills source owner trace index contents values) {i : Nat}
    {value : Option ValueDefinition} (hi : values[i]? = some value) :
    ∃ content, contents[i]? = some content ∧
      (content.elaborate source owner (Naming.positional (index + i))).answer = .ok value ∧
      (content.elaborate source owner (Naming.positional (index + i))).trace <:+: trace := by
  induction hfills generalizing i with
  | nil => simp at hi
  | @cons index content _ _ _ hvalue hrecorded _ ih =>
    cases i with
    | zero =>
      obtain rfl := Option.some.inj hi
      exact ⟨content, rfl, hvalue, hrecorded⟩
    | succ i =>
      obtain ⟨content, hcontent, hanswer, htrace⟩ := ih (i := i) (by simpa using hi)
      rw [show index + 1 + i = index + (i + 1) by omega] at hanswer htrace
      exact ⟨content, by simpa using hcontent, hanswer, htrace⟩

end Fills

section Slots

variable (source : String)

/-- Positional arguments go to the slots after those that are filled. -/
theorem fills_elaborateArguments (owner : String) (done : Arguments)
    (arguments : List WrittenArgument) {args : Arguments}
    (hargs : (elaborateArguments source owner done arguments).answer = .ok args) :
    ∃ slots, args.positional = done.positional ++ slots ∧
      Fills source owner (elaborateArguments source owner done arguments).trace
        done.positional.length (positionals arguments) slots := by
  induction arguments generalizing done with
  | nil =>
    cases hargs
    exact ⟨[], by simp, .nil⟩
  | cons argument arguments ih =>
    cases argument with
    | positional content =>
      rw [elaborateArguments] at hargs ⊢
      obtain ⟨value, hvalue, hargs⟩ := Traced.exists_of_bind hargs
      obtain ⟨slots, hslots, hfills⟩ := ih _ hargs
      rw [List.length_append, List.length_singleton] at hfills
      refine ⟨value :: slots, by simp [hslots], ?_⟩
      rw [positionals, Traced.bind_of_ok hvalue]
      apply Fills.cons hvalue (List.prefix_append _ _).isInfix
      exact hfills.mono (List.suffix_append _ _).isInfix
    | named name content =>
      rw [elaborateArguments] at hargs ⊢
      obtain ⟨value, hvalue, hargs⟩ := Traced.exists_of_bind hargs
      rw [positionals, Traced.bind_of_ok hvalue]
      cases value with
      | some value =>
        obtain ⟨slots, hslots, hfills⟩ := ih _ hargs
        exact ⟨slots, hslots, hfills.mono (List.suffix_append _ _).isInfix⟩
      | none =>
        obtain ⟨_, hlog, hargs⟩ := Traced.exists_of_bind hargs
        obtain ⟨slots, hslots, hfills⟩ := ih _ hargs
        refine ⟨slots, hslots, hfills.mono ?_⟩
        rw [Traced.bind_of_ok hlog]
        exact ((List.suffix_append _ _).trans (List.suffix_append _ _)).isInfix
    | ignored label =>
      rw [elaborateArguments] at hargs ⊢
      obtain ⟨_, hlog, hargs⟩ := Traced.exists_of_bind hargs
      obtain ⟨slots, hslots, hfills⟩ := ih _ hargs
      rw [positionals, Traced.bind_of_ok hlog]
      exact ⟨slots, hslots, hfills.mono (List.suffix_append _ _).isInfix⟩

/-- The constructor slots of a draft are those of its declaration. -/
theorem fills_elaborate {id : String} {declaration : Declaration} {draft : Draft}
    (hdraft : (declaration.elaborate source id).answer = .ok draft) :
    Fills source id (declaration.elaborate source id).trace 0 declaration.slots
      draft.args.positional := by
  obtain ⟨_, typeName, scope, lazyInit, isAbstract, parent, shorthand, element, arguments,
    properties⟩ := declaration
  have hlisted (outlined : Draft) (note : Elaboration Unit) :
      let listed : Elaboration Draft := do
        note
        let args ← elaborateArguments source id Arguments.empty arguments
        let values ← elaborateProperties source id properties
        return { outlined with args := { args with properties := values } }
      ∀ draft, listed.answer = .ok draft →
        Fills source id listed.trace 0 (positionals arguments) draft.args.positional := by
    intro listed draft hanswer
    obtain ⟨_, hnote, hanswer⟩ := Traced.exists_of_bind hanswer
    obtain ⟨args, hargs, hanswer⟩ := Traced.exists_of_bind hanswer
    obtain ⟨values, hvalues, hanswer⟩ := Traced.exists_of_bind hanswer
    cases hanswer
    obtain ⟨slots, hslots, hfills⟩ := fills_elaborateArguments source id _ arguments hargs
    have hslots : args.positional = slots := hslots
    rw [← hslots] at hfills
    apply hfills.mono
    have hinfix := Traced.isInfix_bind_left hargs fun args => do
      let values ← elaborateProperties source id properties
      return { outlined with args := { args with properties := values } }
    exact hinfix.trans (Traced.isInfix_bind_right hnote fun _ => _)
  rw [Declaration.elaborate] at hdraft ⊢
  obtain ⟨outlined, houtlined, hdraft⟩ := Traced.exists_of_bind hdraft
  obtain ⟨-, -, htyped⟩ :=
    ensures_outline source id typeName scope lazyInit isAbstract parent outlined houtlined
  refine Fills.mono ?_ (Traced.isInfix_bind_right houtlined _)
  rw [Declaration.slots, ← htyped]
  cases hcase : outlined.isTyped with
  | true =>
    rw [hcase] at hdraft
    exact hlisted outlined _ draft hdraft
  | false =>
    rw [hcase] at hdraft
    cases shorthand with
    | absent =>
      rw [Shorthand.elaborate] at hdraft ⊢
      exact hlisted outlined _ draft hdraft
    | present type content =>
      rw [Shorthand.elaborate] at hdraft ⊢
      obtain ⟨short, hshort, hdraft⟩ := Traced.exists_of_bind hdraft
      refine Fills.mono ?_ (Traced.isInfix_bind_left hshort _)
      obtain ⟨value, hvalue, hshort⟩ := Traced.exists_of_bind hshort
      cases hshort
      cases hdraft
      exact .cons hvalue (Traced.isInfix_bind_left hvalue _) .nil

/-- Only unusable content has no value, and then its complaints are all there is on record. -/
theorem Content.unusable_of_elaborate_none {owner name : String} {content : Content}
    (hnone : (content.elaborate source owner name).answer = .ok none) :
    ∃ complaints, content = .unusable complaints ∧
      (content.elaborate source owner name).trace =
        complaints.map fun c => .event (.complaint c name) := by
  cases content with
  | unusable complaints =>
    refine ⟨complaints, rfl, ?_⟩
    rw [Content.elaborate]
    simp [Elaboration.complain, Traced.recordAll, Traced.bind_of_ok, Traced.pure_def]
  | scalar value => cases hnone
  | reference target => cases hnone
  | sequence shape items =>
    rw [Content.elaborate] at hnone
    obtain ⟨values, -, hnone⟩ := Traced.exists_of_bind hnone
    cases hnone
  | mapping entries =>
    rw [Content.elaborate] at hnone
    obtain ⟨values, -, hnone⟩ := Traced.exists_of_bind hnone
    cases hnone
  | inline declaration =>
    rw [Content.elaborate] at hnone
    obtain ⟨draft, -, hnone⟩ := Traced.exists_of_bind hnone
    cases hnone

end Slots

end Wiring
