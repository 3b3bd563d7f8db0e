import Wiring.Proofs.Matching

/-!
Keyed values put into a dictionary one after the other. However many there are, what stands
in the end is one entry for each key, in the place of the first of its values and with the
last of them. Keyed values stay as they are exactly if their keys are distinct.
-/

namespace Wiring.Entries

variable {α β : Type}

/-- The value that a key has in the end, if it has one and may be given others. -/
def lastValue (key : String) (value : α) : Entries α → α
  | [] => value
  | (k, v) :: rest => lastValue key (if k = key then v else value) rest

/-- What stands in the end of keyed values that come behind some earlier keys: a new key
stands where it first occurs, with the last of its values. -/
def settledBehind (earlier : List String) : Entries α → Entries α
  | [] => []
  | (key, value) :: rest =>
    if key ∈ earlier then settledBehind earlier rest
    else (key, lastValue key value rest) :: settledBehind (earlier ++ [key]) rest

def settled (entries : Entries α) : Entries α := settledBehind [] entries

/-- Keyed values put into a dictionary in order. -/
def putAll (done entries : Entries α) : Entries α :=
  entries.foldl (fun done entry => done.put entry.1 entry.2) done

theorem keysDistinct_nil : KeysDistinct ([] : Entries α) := List.nodup_nil

theorem key_mem_keys {entry : String × α} {entries : Entries α} (hmem : entry ∈ entries) :
    entry.1 ∈ keys entries :=
  List.mem_map_of_mem hmem

@[simp] theorem putAll_nil (done : Entries α) : putAll done [] = done := rfl

theorem putAll_cons (done : Entries α) (key : String) (value : α) (rest : Entries α) :
    putAll done ((key, value) :: rest) = putAll (done.put key value) rest := rfl

theorem keysDistinct_putAll {done : Entries α} (hdone : done.KeysDistinct)
    (entries : Entries α) : (putAll done entries).KeysDistinct := by
  induction entries generalizing done with
  | nil => exact hdone
  | cons entry rest ih => exact ih (keysDistinct_put entry.1 entry.2 hdone)

/-- A key that is known keeps its place and takes the new value. -/
theorem put_of_mem {key : String} (value : α) {entries : Entries α}
    (hdistinct : entries.KeysDistinct) (hkey : key ∈ keys entries) :
    put key value entries =
      entries.map fun entry => (entry.1, if key = entry.1 then value else entry.2) := by
  induction entries with
  | nil => cases hkey
  | cons entry rest ih =>
    obtain ⟨k, v⟩ := entry
    obtain ⟨hk, hrest⟩ : k ∉ keys rest ∧ KeysDistinct rest :=
      List.nodup_cons.mp hdistinct
    rw [put, List.map_cons]
    by_cases hsame : k = key
    · subst hsame
      have hothers : ∀ entry ∈ rest,
          (entry.1, if k = entry.1 then value else entry.2) = entry := by
        intro entry hmem
        have hne : k ≠ entry.1 := by
          rintro rfl
          exact hk (key_mem_keys hmem)
        rw [if_neg hne]
      rw [if_pos rfl, if_pos rfl, List.map_congr_left hothers, List.map_id']
    · have hmem : key ∈ keys rest := by
        rcases List.mem_cons.mp hkey with heq | hmem
        · exact absurd heq.symm hsame
        · exact hmem
      rw [if_neg hsame, if_neg (Ne.symm hsame), ih hrest hmem]

/-- What is put in updates what is there already, and the rest of it settles behind. -/
theorem putAll_eq {done : Entries α} (hdone : done.KeysDistinct) (entries : Entries α) :
    putAll done entries =
      (done.map fun entry => (entry.1, lastValue entry.1 entry.2 entries)) ++
        settledBehind (keys done) entries := by
  induction entries generalizing done with
  | nil => simp [lastValue, settledBehind]
  | cons entry rest ih =>
    obtain ⟨key, value⟩ := entry
    rw [putAll_cons, ih (keysDistinct_put key value hdone), keys_put, settledBehind]
    by_cases hkey : key ∈ keys done
    · rw [if_pos hkey, if_pos hkey, put_of_mem value hdone hkey, List.map_map]
      rfl
    · have hothers : ∀ entry ∈ done, (entry.1, lastValue entry.1 entry.2 rest) =
          (entry.1, lastValue entry.1 entry.2 ((key, value) :: rest)) := by
        intro entry hmem
        have hne : key ≠ entry.1 := by
          rintro rfl
          exact hkey (key_mem_keys hmem)
        rw [lastValue, if_neg hne]
      rw [if_neg hkey, if_neg hkey, put_of_not_mem value hkey, List.map_append,
        List.map_congr_left hothers, List.append_assoc]
      rfl

theorem putAll_empty (entries : Entries α) : putAll [] entries = entries.settled :=
  putAll_eq keysDistinct_nil entries

theorem keysDistinct_settled (entries : Entries α) : entries.settled.KeysDistinct := by
  rw [← putAll_empty]
  exact keysDistinct_putAll keysDistinct_nil entries

theorem lastValue_of_not_mem {key : String} (value : α) {entries : Entries α}
    (hkey : key ∉ keys entries) : lastValue key value entries = value := by
  induction entries with
  | nil => rfl
  | cons entry rest ih =>
    obtain ⟨k, v⟩ := entry
    obtain ⟨hne, hrest⟩ := not_or.mp (mt List.mem_cons.mpr hkey)
    rw [lastValue, if_neg (Ne.symm hne), ih hrest]

theorem settledBehind_of_distinct {earlier : List String} {entries : Entries α}
    (hdistinct : entries.KeysDistinct) (hnew : ∀ key ∈ earlier, key ∉ keys entries) :
    settledBehind earlier entries = entries := by
  induction entries generalizing earlier with
  | nil => rfl
  | cons entry rest ih =>
    obtain ⟨key, value⟩ := entry
    obtain ⟨hkey, hrest⟩ := List.nodup_cons.mp hdistinct
    have hfresh : key ∉ earlier := fun hmem => hnew key hmem List.mem_cons_self
    rw [settledBehind, if_neg hfresh, lastValue_of_not_mem value hkey, ih hrest]
    intro k hk
    rcases List.mem_append.mp hk with hold | hlast
    · exact fun hmem => hnew k hold (List.mem_cons_of_mem _ hmem)
    · obtain rfl := List.mem_singleton.mp hlast
      exact hkey

/-- Nothing is lost exactly if no key is given twice. -/
theorem settled_eq_self_iff (entries : Entries α) :
    entries.settled = entries ↔ entries.KeysDistinct := by
  constructor
  · intro hself
    rw [← hself]
    exact keysDistinct_settled entries
  · intro hdistinct
    exact settledBehind_of_distinct hdistinct (by simp)

/-! Values that are related one by one stay so. -/

section Related

variable {r : α → β → Prop} {entries : Entries α} {others : Entries β}

theorem lastValue_related (halike : List.Forall₂ (Alike r) entries others) (key : String)
    {value : α} {other : β} (hvalue : r value other) :
    r (lastValue key value entries) (lastValue key other others) := by
  induction halike generalizing value other with
  | nil => exact hvalue
  | @cons entry entry' _ _ hentry _ ih =>
    obtain ⟨k, v⟩ := entry
    obtain ⟨k', w⟩ := entry'
    obtain ⟨hkey, hr⟩ := hentry
    obtain rfl : k = k' := hkey
    rw [lastValue, lastValue]
    apply ih
    split
    · exact hr
    · exact hvalue

theorem settledBehind_related (halike : List.Forall₂ (Alike r) entries others)
    (earlier : List String) :
    List.Forall₂ (Alike r) (settledBehind earlier entries) (settledBehind earlier others) := by
  induction halike generalizing earlier with
  | nil => exact .nil
  | @cons entry entry' _ _ hentry hrest ih =>
    obtain ⟨k, v⟩ := entry
    obtain ⟨k', w⟩ := entry'
    obtain ⟨hkey, hr⟩ := hentry
    obtain rfl : k = k' := hkey
    rw [settledBehind, settledBehind]
    split
    · exact ih earlier
    · exact .cons ⟨rfl, lastValue_related hrest k hr⟩ (ih _)

end Related

end Wiring.Entries
