import Wiring.Expression.Basic
import Wiring.Live.Resolution
import Wiring.Proofs.Live.Equality
import Wiring.Proofs.Settled

/-!
What expressions mean. The meaning is said of the tree alone: it knows neither the names that
its parts get nor the definitions that stand for them on the way to a live value. Resolving
the definition of an expression asks the registry for nothing and gives the meaning.
-/

namespace Wiring

namespace Value

/-- The values of which no earlier one is equal, in order. -/
def firstsBehind (earlier : List Value) : List Value → List Value
  | [] => []
  | v :: vs =>
    if earlier.any fun w => v.equals w then firstsBehind (earlier ++ [v]) vs
    else v :: firstsBehind (earlier ++ [v]) vs

/-- Adding values to a set compares each with the members alone, which is as good as comparing
it with all earlier ones as long as these are told apart by the members. -/
theorem foldl_addMember {members : List Value} (earlier : List Value)
    (htold : ∀ v : Value, (∃ w ∈ earlier, v.Same w) ↔ ∃ w ∈ members, v.Same w)
    (vs : List Value) :
    vs.foldl addMember members = members ++ firstsBehind earlier vs := by
  induction vs generalizing members earlier with
  | nil => simp [firstsBehind]
  | cons v vs ih =>
    have hfound : (earlier.any fun w => v.equals w) = true ↔ v.isMember members = true := by
      rw [isMember_iff, ← htold, List.any_eq_true]
      rfl
    rw [List.foldl_cons, firstsBehind, addMember]
    by_cases hmember : v.isMember members = true
    · rw [if_pos hmember, if_pos (hfound.mpr hmember)]
      apply ih
      intro w
      obtain ⟨m, hm, hvm⟩ := (isMember_iff v members).mp hmember
      rw [← htold]
      constructor
      · rintro ⟨u, hu, hwu⟩
        rcases List.mem_append.mp hu with hold | hlast
        · exact ⟨u, hold, hwu⟩
        · obtain rfl := List.mem_singleton.mp hlast
          exact (htold w).mpr ⟨m, hm, hwu.trans hvm⟩
      · rintro ⟨u, hu, hwu⟩
        exact ⟨u, List.mem_append_left _ hu, hwu⟩
    · rw [if_neg hmember, if_neg (mt hfound.mp hmember), ih, List.append_assoc,
        List.singleton_append]
      intro w
      simp only [List.mem_append, List.mem_singleton, or_and_right, exists_or, htold]

theorem members_eq (vs : List Value) : members vs = firstsBehind [] vs := by
  rw [members, foldl_addMember [] (fun _ => Iff.rfl), List.nil_append]

end Value

namespace Expression

/-- The literal value of a scalar. The texts of the truth values mean these. -/
def scalarMeaning : Scalar → Value
  | .null => .null
  | .bool b => .bool b
  | .int n => .int n
  | .float x => .float x
  | .text s =>
    if s = "True" then .bool true
    else if s = "False" then .bool false
    else .text s

/-- What elements make: a set drops those that an earlier one equals. -/
def groupMeaning : Grouping → List Value → Value
  | .list, vs => .sequence .list vs
  | .tuple, vs => .sequence .tuple vs
  | .set, vs => .sequence .set (Value.firstsBehind [] vs)

mutual

/-- The meaning of an expression. The keys of a dictionary count by their text. -/
def meaning : Expression → Value
  | .atom value => scalarMeaning value
  | .group grouping items => groupMeaning grouping (meanings items)
  | .dict entries => .map (entryMeanings entries).settled
termination_by structural e => e

def meanings : List Expression → List Value
  | [] => []
  | item :: items => item.meaning :: meanings items
termination_by structural items => items

/-- The meanings of the values of entries, each with the text of its key. -/
def entryMeanings : List (Scalar × Expression) → Entries Value
  | [] => []
  | (key, value) :: entries => (key.key, value.meaning) :: entryMeanings entries
termination_by structural entries => entries

end

/-- The entries of a dictionary as definitions, one for each. -/
def converted (name : String) (entries : List (Scalar × Expression)) :
    Entries ValueDefinition :=
  entries.map fun (key, value) => (key.key, value.toDefinition (Naming.entry name key.key))

theorem entryDefinitions_eq (name : String) (done : Entries ValueDefinition)
    (entries : List (Scalar × Expression)) :
    entryDefinitions name done entries = done.putAll (converted name entries) := by
  induction entries generalizing done with
  | nil => rfl
  | cons entry entries ih =>
    obtain ⟨key, value⟩ := entry
    rw [entryDefinitions, ih]
    rfl

end Expression

namespace ValueDefinition

variable (registry : Registry)

/-- A definition resolves to a value without a lookup. -/
def Yields (d : ValueDefinition) (v : Value) : Prop := d.resolve registry = pure v

variable {registry}

theorem yields_sequence {items : List ValueDefinition} {values : List Value}
    (hitems : List.Forall₂ (Yields registry) items values) (name : String) (shape : Shape) :
    Yields registry (.sequence name shape items) (.ofItems shape values) := by
  have hvalues : resolveItems registry items = pure values := by
    induction hitems with
    | nil => rfl
    | cons hitem _ ih => rw [resolveItems, hitem, ih, pure_bind, pure_bind]
  rw [Yields, resolve, hvalues, pure_bind]

theorem yields_mapping {entries : Entries ValueDefinition} {values : Entries Value}
    (hentries : List.Forall₂ (Entries.Alike (Yields registry)) entries values) (name : String) :
    Yields registry (.mapping name entries) (.map values) := by
  have hvalues : resolveEntries registry entries = pure values := by
    induction hentries with
    | nil => rfl
    | @cons entry value _ _ hentry _ ih =>
      obtain ⟨key, d⟩ := entry
      obtain ⟨key', v⟩ := value
      obtain ⟨rfl, hd⟩ := hentry
      rw [resolveEntries, hd, ih, pure_bind, pure_bind]
  rw [Yields, resolve, hvalues, pure_bind]

end ValueDefinition

namespace Expression

open ValueDefinition

variable (registry : Registry)

theorem yields_atom (name : String) (value : Scalar) :
    Yields registry ((atom value).toDefinition name) (scalarMeaning value) := by
  cases value with
  | text s =>
    rw [toDefinition, ofText, Yields, resolve, Scalar.ofText, scalarMeaning]
    split
    · rfl
    · split <;> rfl
  | _ => rfl

theorem yields_group {grouping : Grouping} {items : List ValueDefinition} {values : List Value}
    (hitems : List.Forall₂ (Yields registry) items values) (name : String) :
    Yields registry (.sequence name grouping.shape items) (groupMeaning grouping values) := by
  have hsequence := yields_sequence hitems name grouping.shape
  cases grouping with
  | set =>
    rw [groupMeaning, ← Value.members_eq]
    exact hsequence
  | _ => exact hsequence

mutual

theorem yields_meaning (name : String) :
    ∀ e : Expression, Yields registry (e.toDefinition name) e.meaning
  | .atom value => by
    rw [meaning]
    exact yields_atom registry name value
  | .group grouping items => by
    rw [toDefinition, meaning]
    exact yields_group registry (yields_meanings name grouping.shape 0 items) name
  | .dict entries => by
    rw [toDefinition, meaning, entryDefinitions_eq, Entries.putAll_empty]
    exact yields_mapping (Entries.settledBehind_related (yields_entryMeanings name entries) []) name
termination_by structural e => e

theorem yields_meanings (name : String) (shape : Shape) (index : Nat) :
    ∀ items : List Expression,
      List.Forall₂ (Yields registry) (itemDefinitions name shape index items) (meanings items)
  | [] => by
    rw [itemDefinitions, meanings]
    exact .nil
  | item :: items => by
    rw [itemDefinitions, meanings]
    exact .cons (yields_meaning _ item) (yields_meanings name shape (index + 1) items)
termination_by structural items => items

theorem yields_entryMeanings (name : String) :
    ∀ entries : List (Scalar × Expression),
      List.Forall₂ (Entries.Alike (Yields registry)) (converted name entries)
        (entryMeanings entries)
  | [] => by
    rw [entryMeanings]
    exact .nil
  | (key, value) :: entries => by
    rw [entryMeanings]
    exact .cons ⟨rfl, yields_meaning _ value⟩ (yields_entryMeanings name entries)
termination_by structural entries => entries

end

/-- Whatever an expression is read from and whatever name its definition gets, the definition
resolves against any registry, without asking it for anything, to the meaning of the
expression. -/
theorem resolve_toDefinition (registry : Registry) (name : String) (e : Expression) :
    (e.toDefinition name).resolve registry = ⟨[], .ok e.meaning⟩ :=
  yields_meaning registry name e

/-- The second entry with the key text 1 gives the value in the place of the first one, and a
set has one of the text True and the truth value. -/
example : (dict [(.int 1, .atom .null), (.text "b", .atom (.int 2)),
    (.text "1", .group .set [.atom (.text "True"), .atom (.bool true)])]).meaning =
      .map [("1", .sequence .set [.bool true]), ("b", .int 2)] := by
  rfl

end Expression

end Wiring
