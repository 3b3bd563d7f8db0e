import Mathlib.Data.List.Basic
import Mathlib.Data.List.Induction
import Mathlib.Data.List.Nodup
import Wiring.Registration

/-!
What is read while definitions are registered in code. A read lists every name that was
registered before it once, at the place of its first call and as its last call has it. It
changes nothing, so the calls before a read are all that counts for it. Factories are
compared by the declaration that a call was given: definitions from any two reads have equal
factories if, and only if, their calls were given the same one, or copies of it. One that is
registered twice has the same factory in both reads.
-/

namespace Wiring

/-- What a factory asks a registry for of its own accord: the instance of a parent template,
before anything else and without which it fails, or nothing. -/
def RegisteredFactory.AsksFor (factory : RegisteredFactory) : Option String → Prop
  | none => ∃ run, factory.build = .plain run ∧ factory.invoke = run
  | some parent => ∃ run, factory.build = .derived parent run ∧
      ∀ registry, factory.invoke registry =
        match registry.template parent with
        | .ok base => ⟨.template parent :: (run registry base).trace, (run registry base).answer⟩
        | .error e => ⟨[.template parent], .error e⟩

theorem RegisteredFactory.asksFor_parent (factory : RegisteredFactory) :
    factory.AsksFor factory.parent := by
  obtain ⟨name, identity, build⟩ := factory
  cases build with
  | plain run => exact ⟨run, rfl, rfl⟩
  | derived parent run =>
    refine ⟨run, rfl, fun registry => ?_⟩
    change registry.fetchTemplate parent >>= run registry = _
    cases htemplate : registry.template parent with
    | ok base => exact Traced.bind_of_ok htemplate _
    | error e => exact Traced.bind_of_error htemplate _

namespace Registrations

/-- One of the declarations that a program made, as it is given to a call: the declaration
itself, or a copy of it. Copies differ at most in what the container is to know. -/
structure Copy (made : List Registration) where
  which : Fin made.length
  scope : Scope
  lazyInit : Bool
  isAbstract : Bool

variable {made : List Registration}

namespace Copy

/-- Its identity is its place among all that were made, so copies of it have the same. -/
def declared (copy : Copy made) : Declared where
  name := made[copy.which].name
  build := made[copy.which].build
  scope := copy.scope
  lazyInit := copy.lazyInit
  isAbstract := copy.isAbstract
  identity := copy.which

def name (copy : Copy made) : String := made[copy.which].name

/-- A declaration as it was made. -/
def original (which : Fin made.length) : Copy made where
  which := which
  scope := made[which].scope
  lazyInit := made[which].lazyInit
  isAbstract := made[which].isAbstract

end Copy

def addCopy (registrations : Registrations) (copy : Copy made) : Registrations :=
  registrations.add copy.declared

/-- What is done with registrations: a declaration is registered, or all are read. -/
inductive Step (made : List Registration) where
  | register (call : Copy made)
  | read

namespace Step

def call? : Step made → Option (Copy made)
  | .register call => some call
  | .read => none

/-- The registrations after a step. -/
def next (registrations : Registrations) : Step made → Registrations
  | .register call => registrations.addCopy call
  | .read => registrations

def answer? (registrations : Registrations) :
    Step made → Option (Reading (List ObjectDefinition))
  | .register _ => none
  | .read => some registrations.read

end Step

/-- What some steps answer, one after the other. -/
def answers (registrations : Registrations) :
    List (Step made) → List (Option (Reading (List ObjectDefinition)))
  | [] => []
  | step :: steps => step.answer? registrations :: answers (step.next registrations) steps

/-- What the calls among some steps are given. -/
def calls (steps : List (Step made)) : List (Copy made) := steps.filterMap Step.call?

/-- The registrations after some calls, the first one coming first. -/
def after (calls : List (Copy made)) : Registrations := calls.foldl addCopy empty

/-- The last of some calls for a name, and its place among them. -/
structure LastCall (calls : List (Copy made)) (name : String) (place : Nat)
    (call : Copy made) : Prop where
  at_place : calls[place]? = some call
  name_eq : call.name = name
  last : ∀ later other, place < later → calls[later]? = some other → other.name ≠ name

/-- A definition says what a call was given and no more, and its parent is the template that
its factory asks for. -/
structure Describes (d : ObjectDefinition) (call : Copy made) : Prop where
  scope : d.scope = call.scope
  lazyInit : d.lazyInit = call.lazyInit
  isAbstract : d.isAbstract = call.isAbstract
  factory : ∃ factory, d.factory = .registered factory ∧ factory.name = call.name ∧
    factory.build = made[call.which].build ∧ factory.AsksFor d.parent
  no_values : d.args = [] ∧ d.named = [] ∧ d.properties = []

/-- Some definitions are those of all names of some calls: one for each, in the order of
the first calls, each as the last call has it. -/
structure Lists (calls : List (Copy made)) (ds : List ObjectDefinition) : Prop where
  distinct : (ds.map ObjectDefinition.id).Nodup
  complete : ∀ name, name ∈ ds.map ObjectDefinition.id ↔ name ∈ calls.map Copy.name
  ordered : (ds.map ObjectDefinition.id).Pairwise fun first second =>
    (calls.map Copy.name).idxOf first < (calls.map Copy.name).idxOf second
  latest : ∀ d ∈ ds, ∃ place call, LastCall calls d.id place call ∧ Describes d call

/-- The step at a place among some steps answers with these definitions. -/
def Read (steps : List (Step made)) (place : Nat) (ds : List ObjectDefinition) : Prop :=
  ∃ log, (answers empty steps)[place]? = some (some ⟨log, .ok ds⟩)

section Calls

variable (calls : List (Copy made)) (call : Copy made)

theorem after_concat : after (calls ++ [call]) = (after calls).add call.declared := by
  rw [after, List.foldl_concat]
  rfl

/-- What is declared next is told apart from all that was registered before. -/
theorem identity_lt_next_after (earlier : Copy made) (hearlier : earlier ∈ calls) :
    earlier.declared.identity < (after calls).next := by
  induction calls using List.reverseRecOn with
  | nil => exact nomatch hearlier
  | append_singleton calls call ih =>
    rw [after_concat, add]
    rcases List.mem_append.mp hearlier with hbefore | hlast
    · exact Nat.lt_of_lt_of_le (ih hbefore) (Nat.le_max_left _ _)
    · rw [List.mem_singleton.mp hlast]
      exact Nat.le_max_right _ _

theorem keysDistinct_after : Entries.KeysDistinct (after calls).entries := by
  induction calls using List.reverseRecOn with
  | nil => exact List.nodup_nil
  | append_singleton calls call ih =>
    rw [after_concat]
    exact Entries.keysDistinct_put call.name _ ih

theorem mem_keys_after (name : String) :
    name ∈ Entries.keys (after calls).entries ↔ name ∈ calls.map Copy.name := by
  induction calls using List.reverseRecOn with
  | nil => rfl
  | append_singleton calls call ih =>
    rw [after_concat, add, ← Entries.find?_isSome_iff, Entries.find?_put, List.map_append,
      List.mem_append, ← ih, ← Entries.find?_isSome_iff, List.map_singleton, List.mem_singleton]
    change _ ↔ _ ∨ name = call.declared.name
    by_cases hname : name = call.declared.name
    · simp [hname]
    · simp [hname]

/-- A new name goes behind all others, and names that are known stay where they are. -/
theorem ordered_after : (Entries.keys (after calls).entries).Pairwise fun first second =>
    (calls.map Copy.name).idxOf first < (calls.map Copy.name).idxOf second := by
  induction calls using List.reverseRecOn with
  | nil => exact List.Pairwise.nil
  | append_singleton calls call ih =>
    have hmem := mem_keys_after calls
    have hold : (Entries.keys (after calls).entries).Pairwise fun first second =>
        ((calls ++ [call]).map Copy.name).idxOf first <
          ((calls ++ [call]).map Copy.name).idxOf second := by
      refine ih.imp_of_mem fun {first second} hfirst hsecond hlt => ?_
      rw [List.map_append, List.idxOf_append_of_mem ((hmem first).mp hfirst),
        List.idxOf_append_of_mem ((hmem second).mp hsecond)]
      exact hlt
    rw [after_concat, add, Entries.keys_put]
    split
    · exact hold
    · rename_i hnew
      refine List.pairwise_append.mpr ⟨hold, List.pairwise_singleton _ _, ?_⟩
      intro first hfirst second hsecond
      obtain rfl := List.mem_singleton.mp hsecond
      rw [List.map_append, List.idxOf_append_of_mem ((hmem first).mp hfirst),
        List.idxOf_append_of_notMem (mt (hmem _).mpr hnew)]
      have hlt := List.idxOf_lt_length_of_mem ((hmem first).mp hfirst)
      omega

theorem LastCall.place_unique {calls : List (Copy made)} {name : String} {i j : Nat}
    {call other : Copy made} (hcall : LastCall calls name i call)
    (hother : LastCall calls name j other) : i = j := by
  rcases Nat.lt_trichotomy i j with hlt | heq | hgt
  · exact absurd hother.name_eq (hcall.last j other hlt hother.at_place)
  · exact heq
  · exact absurd hcall.name_eq (hother.last i call hgt hcall.at_place)

theorem LastCall.call_unique {calls : List (Copy made)} {name : String} {i j : Nat}
    {call other : Copy made} (hcall : LastCall calls name i call)
    (hother : LastCall calls name j other) : call = other := by
  obtain rfl := hcall.place_unique hother
  exact Option.some.inj (hcall.at_place.symm.trans hother.at_place)

theorem getElem?_concat_eq_some_iff (place : Nat) (other : Copy made) :
    (calls ++ [call])[place]? = some other ↔
      calls[place]? = some other ∨ place = calls.length ∧ other = call := by
  grind

/-- One more call is the last one for its name. -/
theorem lastCall_concat_self (place : Nat) (latest : Copy made) :
    LastCall (calls ++ [call]) call.name place latest ↔ place = calls.length ∧ latest = call := by
  have hcases := getElem?_concat_eq_some_iff calls call
  constructor
  · intro hlast
    rcases (hcases place latest).mp hlast.at_place with hbefore | hend
    · have hlt := (List.getElem?_eq_some_iff.mp hbefore).1
      have hend := (hcases calls.length call).mpr (Or.inr ⟨rfl, rfl⟩)
      exact absurd rfl (hlast.last calls.length call hlt hend)
    · exact hend
  · rintro ⟨rfl, rfl⟩
    refine ⟨(hcases _ _).mpr (Or.inr ⟨rfl, rfl⟩), rfl, ?_⟩
    intro later other hlater hother
    rcases (hcases later other).mp hother with hbefore | ⟨hend, -⟩
    · have hlt := (List.getElem?_eq_some_iff.mp hbefore).1
      omega
    · omega

/-- One more call does not count for other names. -/
theorem lastCall_concat_of_ne {name : String} (hname : name ≠ call.name) (place : Nat)
    (latest : Copy made) :
    LastCall (calls ++ [call]) name place latest ↔ LastCall calls name place latest := by
  have hcases := getElem?_concat_eq_some_iff calls call
  constructor
  · intro hlast
    rcases (hcases place latest).mp hlast.at_place with hbefore | ⟨-, rfl⟩
    · refine ⟨hbefore, hlast.name_eq, ?_⟩
      intro later other hlater hother
      exact hlast.last later other hlater ((hcases later other).mpr (Or.inl hother))
    · exact absurd hlast.name_eq.symm hname
  · intro hlast
    refine ⟨(hcases _ _).mpr (Or.inl hlast.at_place), hlast.name_eq, ?_⟩
    intro later other hlater hother
    rcases (hcases later other).mp hother with hbefore | ⟨-, rfl⟩
    · exact hlast.last later other hlater hbefore
    · exact hname.symm

/-- What is registered under a name is what its last call was given. -/
theorem find?_after (name : String) (declared : Declared) :
    Entries.find? name (after calls).entries = some declared ↔
      ∃ place call, LastCall calls name place call ∧ declared = call.declared := by
  induction calls using List.reverseRecOn with
  | nil => exact ⟨nofun, fun ⟨_, _, hlast, _⟩ => nomatch hlast.at_place⟩
  | append_singleton calls call ih =>
    rw [after_concat, add, Entries.find?_put]
    split
    · rename_i hname
      have hself := lastCall_concat_self calls call
      rw [Option.some.injEq]
      constructor
      · rintro rfl
        rw [hname]
        exact ⟨calls.length, call, (hself _ _).mpr ⟨rfl, rfl⟩, rfl⟩
      · rintro ⟨place, latest, hlast, rfl⟩
        rw [hname] at hlast
        rw [((hself place latest).mp hlast).2]
    · rename_i hname
      simp only [lastCall_concat_of_ne calls call hname]
      exact ih

theorem mem_definitions_after (d : ObjectDefinition) :
    d ∈ (after calls).definitions ↔
      ∃ place call, LastCall calls d.id place call ∧ d = call.declared.definition := by
  constructor
  · intro hd
    obtain ⟨⟨name, declared⟩, hentry, rfl⟩ := List.mem_map.mp hd
    obtain ⟨place, call, hlast, rfl⟩ := (find?_after calls name declared).mp
      (Entries.find?_of_mem (keysDistinct_after calls) hentry)
    obtain rfl := hlast.name_eq
    exact ⟨place, call, hlast, rfl⟩
  · rintro ⟨place, call, hlast, heq⟩
    have hentry := Entries.mem_of_find?
      ((find?_after calls d.id call.declared).mpr ⟨place, call, hlast, rfl⟩)
    exact List.mem_map.mpr ⟨_, hentry, heq.symm⟩

theorem ids_definitions_after :
    (after calls).definitions.map ObjectDefinition.id = Entries.keys (after calls).entries := by
  rw [definitions, List.map_map, Entries.keys]
  apply List.map_congr_left
  intro entry hentry
  obtain ⟨place, call, hlast, heq⟩ := (find?_after calls entry.1 entry.2).mp
    (Entries.find?_of_mem (keysDistinct_after calls) hentry)
  exact (congrArg (·.name) heq).trans hlast.name_eq

theorem describes_definition : Describes call.declared.definition call where
  scope := rfl
  lazyInit := rfl
  isAbstract := rfl
  factory := ⟨call.declared.factory, rfl, rfl, rfl,
    RegisteredFactory.asksFor_parent call.declared.factory⟩
  no_values := ⟨rfl, rfl, rfl⟩

theorem lists_after : Lists calls (after calls).definitions where
  distinct := by
    rw [ids_definitions_after]
    exact keysDistinct_after calls
  complete := by
    intro name
    rw [ids_definitions_after]
    exact mem_keys_after calls name
  ordered := by
    rw [ids_definitions_after]
    exact ordered_after calls
  latest := by
    intro d hd
    obtain ⟨place, call, hlast, rfl⟩ := (mem_definitions_after calls d).mp hd
    exact ⟨place, call, hlast, describes_definition call⟩

/-- Copies of one declaration have one factory, and different declarations have different
ones. -/
theorem equals_definition_iff (other : Copy made) :
    call.declared.definition.factory.equals other.declared.definition.factory ↔
      call.which = other.which := by
  have hequals : call.declared.definition.factory.equals other.declared.definition.factory ↔
      (call.name = other.name ∧ call.declared.factory.parent = other.declared.factory.parent) ∧
        call.which.val = other.which.val := by
    simp [Declared.definition, Factory.equals, ObjectDefinition.ofFactory,
      RegisteredFactory.equals, Declared.factory, Copy.declared, Copy.name]
  rw [hequals, Fin.ext_iff]
  constructor
  · intro hequal
    exact hequal.2
  · intro hwhich
    have hfactory : call.declared.factory = other.declared.factory := by
      simp [Declared.factory, Copy.declared, Fin.ext hwhich]
    exact ⟨⟨congrArg RegisteredFactory.name hfactory, congrArg RegisteredFactory.parent hfactory⟩,
      hwhich⟩

end Calls

/-- Declarations that are registered as they are made have their places as identities. -/
theorem foldl_register_take (n : Nat) (hn : n ≤ made.length) :
    (made.take n).foldl register empty =
        after (((List.finRange made.length).take n).map Copy.original) ∧
      ((made.take n).foldl register empty).next = n := by
  induction n with
  | zero => exact ⟨rfl, rfl⟩
  | succ n ih =>
    obtain ⟨hregistered, hnext⟩ := ih (Nat.le_of_succ_le hn)
    have hplace : n < (List.finRange made.length).length := by
      rwa [List.length_finRange]
    have hadd : (made.take (n + 1)).foldl register empty =
        ((made.take n).foldl register empty).add (Copy.original ⟨n, hn⟩ : Copy made).declared := by
      rw [← List.take_append_getElem hn, List.foldl_concat, register, hnext]
      rfl
    constructor
    · rw [hadd, hregistered, ← List.take_append_getElem hplace, List.map_append,
        List.map_singleton, after_concat, List.getElem_finRange]
      rfl
    · rw [hadd, add, hnext]
      exact Nat.max_eq_right (Nat.le_succ n)

/-- To register each declaration as it is made is to register them all once, in order. -/
theorem foldl_register :
    made.foldl register empty = after ((List.finRange made.length).map Copy.original) := by
  have htake := (foldl_register_take made.length (Nat.le_refl made.length)).1
  have hall : (List.finRange made.length).length ≤ made.length :=
    Nat.le_of_eq List.length_finRange
  rw [List.take_length, List.take_of_length_le hall] at htake
  exact htake

section Run

variable (steps : List (Step made)) (place : Nat)

theorem getElem?_answers (registrations : Registrations) :
    (answers registrations steps)[place]? = steps[place]?.map
      (Step.answer? ((calls (steps.take place)).foldl addCopy registrations)) := by
  induction steps generalizing registrations place with
  | nil => rfl
  | cons step steps ih =>
    cases place with
    | zero => rfl
    | succ place =>
      cases step with
      | register call => exact ih place (registrations.addCopy call)
      | read => exact ih place registrations

theorem read_iff (ds : List ObjectDefinition) :
    Read steps place ds ↔
      steps[place]? = some .read ∧ ds = (after (calls (steps.take place))).definitions := by
  rw [Read, getElem?_answers]
  cases steps[place]? with
  | none => simp
  | some step =>
    cases step with
    | register call => simp [Step.answer?]
    | read =>
      constructor
      · rintro ⟨log, heq⟩
        have hread : (after (calls (steps.take place))).read = ⟨log, .ok ds⟩ :=
          Option.some.inj (Option.some.inj heq)
        exact ⟨rfl, (Except.ok.inj (congrArg Traced.answer hread)).symm⟩
      · rintro ⟨-, rfl⟩
        exact ⟨_, rfl⟩

/-- The calls before a step are the first of all calls. -/
theorem getElem?_calls {i : Nat} {call : Copy made}
    (hcall : (calls (steps.take place))[i]? = some call) : (calls steps)[i]? = some call := by
  obtain ⟨rest, heq⟩ := (List.take_prefix place steps).filterMap Step.call?
  have hlt := (List.getElem?_eq_some_iff.mp hcall).1
  rw [calls, ← heq]
  exact (List.getElem?_append_left hlt).trans hcall

/-- If no declaration is registered twice, calls that were given the same one are one call. -/
theorem which_eq_iff_of_nodup (hnodup : ((calls steps).map Copy.which).Nodup) {i j : Nat}
    {call other : Copy made} (hcall : (calls steps)[i]? = some call)
    (hother : (calls steps)[j]? = some other) : call.which = other.which ↔ i = j := by
  obtain ⟨hi, rfl⟩ := List.getElem?_eq_some_iff.mp hcall
  obtain ⟨hj, rfl⟩ := List.getElem?_eq_some_iff.mp hother
  rw [← List.getElem_map Copy.which, ← List.getElem_map Copy.which]
  · exact hnodup.getElem_inj_iff
  · rwa [List.length_map]
  · rwa [List.length_map]

end Run

/-- Every read among some calls lists the names that were registered before it, each once,
in the order of their first calls and as their last calls have them. What else is read, and
what is registered later, does not count for it. Definitions that two reads list have equal
factories if, and only if, the calls they come from were given copies of one declaration. If
no declaration is registered twice, they have equal factories only if one call made both. -/
theorem reads_follow_calls (made : List Registration) (steps : List (Step made)) :
    (∀ place, steps[place]? = some .read →
      ∃ ds, Read steps place ds ∧ Lists (calls (steps.take place)) ds) ∧
    (∀ (other : List (Step made)) (place otherPlace : Nat),
      steps[place]? = some .read → other[otherPlace]? = some .read →
      calls (steps.take place) = calls (other.take otherPlace) →
      (answers empty steps)[place]? = (answers empty other)[otherPlace]?) ∧
    ∀ (place otherPlace : Nat) (ds es : List ObjectDefinition),
      Read steps place ds → Read steps otherPlace es → ∀ d ∈ ds, ∀ e ∈ es,
      ∀ (i j : Nat) (call other : Copy made),
        LastCall (calls (steps.take place)) d.id i call →
        LastCall (calls (steps.take otherPlace)) e.id j other →
        (d.factory.equals e.factory ↔ call.which = other.which) ∧
        (((calls steps).map Copy.which).Nodup → (d.factory.equals e.factory ↔ i = j)) := by
  refine ⟨?_, ?_, ?_⟩
  · intro place hread
    exact ⟨_, (read_iff steps place _).mpr ⟨hread, rfl⟩, lists_after _⟩
  · intro other place otherPlace hread hother hcalls
    rw [getElem?_answers, getElem?_answers, hread, hother, hcalls]
  · intro place otherPlace ds es hds hes d hd e he i j call other hcall hother
    obtain ⟨-, rfl⟩ := (read_iff steps place ds).mp hds
    obtain ⟨-, rfl⟩ := (read_iff steps otherPlace es).mp hes
    obtain ⟨i', call', hcall', hd⟩ := (mem_definitions_after _ d).mp hd
    obtain ⟨j', other', hother', he⟩ := (mem_definitions_after _ e).mp he
    obtain rfl := hcall.call_unique hcall'
    obtain rfl := hother.call_unique hother'
    have hequal : d.factory.equals e.factory ↔ call.which = other.which := by
      rw [hd, he]
      exact equals_definition_iff call other
    refine ⟨hequal, fun hnodup => hequal.trans ?_⟩
    exact which_eq_iff_of_nodup steps hnodup (getElem?_calls steps place hcall.at_place)
      (getElem?_calls steps otherPlace hother.at_place)

/-- Two names are declared, and the first one once more, to be derived from the second. -/
def threeMade : List Registration :=
  [⟨"a", .plain fun _ => pure ⟨"one"⟩, .singleton, false, false⟩,
    ⟨"b", .plain fun _ => pure ⟨"two"⟩, .singleton, false, true⟩,
    ⟨"a", .derived "b" fun _ base => pure base, .prototype, false, false⟩]

/-- What is registered first under the first name. -/
def firstMade : Copy threeMade := .original ⟨0, by decide⟩

def secondMade : Copy threeMade := .original ⟨1, by decide⟩

def thirdMade : Copy threeMade := .original ⟨2, by decide⟩

/-- Two names are registered and read, and then the first one is registered again, with a
declaration of its own. -/
def redeclared : List (Step threeMade) :=
  [.register firstMade, .register secondMade, .read, .register thirdMade, .read]

theorem reads_follow_calls_redeclared :
    ∃ ds es, Read redeclared 2 ds ∧ Lists (calls (redeclared.take 2)) ds ∧
      Read redeclared 4 es ∧ Lists (calls (redeclared.take 4)) es ∧
      ds.map ObjectDefinition.id = ["a", "b"] ∧ es.map ObjectDefinition.id = ["a", "b"] ∧
      ((calls redeclared).map Copy.which).Nodup ∧
      ∃ d ∈ ds, ∃ e ∈ es, d.id = "a" ∧ e.id = "a" ∧ d.parent = none ∧ e.parent = some "b" ∧
        ¬ d.factory.equals e.factory := by
  obtain ⟨hreads, -, hequal⟩ := reads_follow_calls threeMade redeclared
  obtain ⟨ds, hds, hlists⟩ := hreads 2 rfl
  obtain ⟨es, hes, hothers⟩ := hreads 4 rfl
  have hnodup : ((calls redeclared).map Copy.which).Nodup := by decide
  refine ⟨ds, es, hds, hlists, hes, hothers, ?_⟩
  have hequal := hequal 2 4 ds es hds hes
  obtain ⟨-, rfl⟩ := (read_iff redeclared 2 ds).mp hds
  obtain ⟨-, rfl⟩ := (read_iff redeclared 4 es).mp hes
  have hfirst : LastCall (calls (redeclared.take 2)) "a" 0 firstMade :=
    (lastCall_concat_of_ne [firstMade] secondMade (by decide) 0 firstMade).mpr
      ((lastCall_concat_self [] firstMade 0 firstMade).mpr ⟨rfl, rfl⟩)
  have hthird : LastCall (calls (redeclared.take 4)) "a" 2 thirdMade :=
    (lastCall_concat_self [firstMade, secondMade] thirdMade 2 thirdMade).mpr ⟨rfl, rfl⟩
  obtain ⟨-, hunequal⟩ :=
    hequal _ List.mem_cons_self _ List.mem_cons_self 0 2 _ _ hfirst hthird
  refine ⟨rfl, rfl, hnodup, _, List.mem_cons_self, _, List.mem_cons_self, rfl, rfl, rfl, rfl, ?_⟩
  intro hsame
  exact absurd ((hunequal hnodup).mp hsame) (by decide)

/-- One declaration is registered and read, and then a copy of it that is a prototype. -/
def registeredAgain : List (Step threeMade) :=
  [.register firstMade, .read, .register { firstMade with scope := .prototype }, .read]

/-- Different calls that are given copies of one declaration do not tell factories apart. -/
theorem registeredAgain_equal :
    ∃ d e, Read registeredAgain 1 [d] ∧ Read registeredAgain 3 [e] ∧
      d.scope = .singleton ∧ e.scope = .prototype ∧
      ∃ i j call other, LastCall (calls (registeredAgain.take 1)) d.id i call ∧
        LastCall (calls (registeredAgain.take 3)) e.id j other ∧
        d.factory.equals e.factory ∧ i ≠ j := by
  refine ⟨_, _, ⟨_, rfl⟩, ⟨_, rfl⟩, rfl, rfl, 0, 1, firstMade,
    { firstMade with scope := .prototype }, ?_, ?_, ?_, by decide⟩
  · exact (lastCall_concat_self [] firstMade 0 firstMade).mpr ⟨rfl, rfl⟩
  · exact (lastCall_concat_self [firstMade] { firstMade with scope := .prototype } 1 _).mpr
      ⟨rfl, rfl⟩
  · exact (equals_definition_iff firstMade { firstMade with scope := .prototype }).mpr rfl

end Registrations

end Wiring
