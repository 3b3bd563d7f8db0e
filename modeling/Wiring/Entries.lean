/-!
Ordered dictionaries: lists of keyed values in the order in which the keys were first
put in. `put` replaces the value of a known key in its place and adds a new key at the
end; `putNew` leaves known keys alone. Both keep the keys distinct.
-/

namespace Wiring

/-- Keyed values in order of insertion. -/
abbrev Entries (α : Type) := List (String × α)

namespace Entries

variable {α : Type}

def keys (entries : Entries α) : List String := entries.map Prod.fst

def hasKey (key : String) (entries : Entries α) : Bool := entries.any fun entry => entry.1 == key

def find? (key : String) : Entries α → Option α
  | [] => none
  | (k, v) :: rest => if k = key then some v else find? key rest

/-- Gives a key a value, in the place the key already has or else at the end. -/
def put (key : String) (value : α) : Entries α → Entries α
  | [] => [(key, value)]
  | (k, v) :: rest => if k = key then (key, value) :: rest else (k, v) :: put key value rest

/-- Adds a key that is not present yet. -/
def putNew (key : String) (value : α) (entries : Entries α) : Entries α :=
  if hasKey key entries then entries else entries ++ [(key, value)]

def KeysDistinct (entries : Entries α) : Prop := (keys entries).Nodup

theorem hasKey_iff_mem_keys (key : String) (entries : Entries α) :
    hasKey key entries ↔ key ∈ keys entries := by
  simp [hasKey, keys]

theorem keys_put (key : String) (value : α) (entries : Entries α) :
    keys (put key value entries) =
      if key ∈ keys entries then keys entries else keys entries ++ [key] := by
  induction entries with
  | nil => rfl
  | cons entry rest ih =>
    obtain ⟨k, v⟩ := entry
    by_cases h : k = key
    · simp [put, keys, h]
    · have hk : ¬ key = k := fun e => h e.symm
      simp only [keys] at ih
      simp only [put, if_neg h, keys, List.map_cons, List.mem_cons, hk, false_or, ih]
      split <;> simp_all

theorem keysDistinct_put (key : String) (value : α) {entries : Entries α}
    (h : KeysDistinct entries) : KeysDistinct (put key value entries) := by
  unfold KeysDistinct at h ⊢
  rw [keys_put]
  split
  · exact h
  · rename_i hk
    rw [List.nodup_append]
    exact ⟨h, by simp, fun a ha b hb => by simp at hb; subst hb; exact fun e => hk (e ▸ ha)⟩

theorem find?_put (key other : String) (value : α) (entries : Entries α) :
    find? other (put key value entries) =
      if other = key then some value else find? other entries := by
  induction entries with
  | nil =>
    simp only [put, find?]
    grind
  | cons entry rest ih =>
    obtain ⟨k, v⟩ := entry
    simp only [put]
    split <;> simp only [find?, ih] <;> grind

/-- A new key goes to the end. -/
theorem put_of_not_mem {key : String} (value : α) {entries : Entries α}
    (hkey : key ∉ keys entries) : put key value entries = entries ++ [(key, value)] := by
  induction entries with
  | nil => rfl
  | cons entry rest ih =>
    obtain ⟨k, v⟩ := entry
    have hkeys : key ≠ k ∧ key ∉ keys rest := by
      simpa [keys] using hkey
    rw [put, if_neg (Ne.symm hkeys.1), ih hkeys.2, List.cons_append]

/-- An entry after a put is one from before or the new one. -/
theorem eq_of_mem_put {key : String} {value : α} {entry : String × α} {entries : Entries α}
    (hmem : entry ∈ put key value entries) : entry ∈ entries ∨ entry = (key, value) := by
  induction entries with
  | nil =>
    rw [put, List.mem_singleton] at hmem
    exact Or.inr hmem
  | cons first rest ih =>
    obtain ⟨k, v⟩ := first
    rw [put] at hmem
    split at hmem
    · rcases List.mem_cons.mp hmem with rfl | hrest
      · exact Or.inr rfl
      · exact Or.inl (List.mem_cons_of_mem _ hrest)
    · rcases List.mem_cons.mp hmem with rfl | hrest
      · exact Or.inl List.mem_cons_self
      · exact (ih hrest).imp_left (List.mem_cons_of_mem _)

/-- An entry after a put is one from before or carries the new value. -/
theorem mem_put {key : String} {value : α} {entry : String × α} {entries : Entries α}
    (hmem : entry ∈ put key value entries) : entry ∈ entries ∨ entry.2 = value :=
  (eq_of_mem_put hmem).imp_right fun hnew => congrArg Prod.snd hnew

theorem mem_put_self (key : String) (value : α) (entries : Entries α) :
    (key, value) ∈ put key value entries := by
  induction entries with
  | nil => exact List.mem_singleton.mpr rfl
  | cons first rest ih =>
    obtain ⟨k, v⟩ := first
    rw [put]
    split
    · exact List.mem_cons_self
    · exact List.mem_cons_of_mem _ ih

/-- A put leaves the entries of other keys alone. -/
theorem mem_put_of_ne {key : String} (value : α) {entry : String × α} {entries : Entries α}
    (hne : entry.1 ≠ key) (hmem : entry ∈ entries) : entry ∈ put key value entries := by
  induction entries with
  | nil => cases hmem
  | cons first rest ih =>
    obtain ⟨k, v⟩ := first
    rw [put]
    split
    · rename_i hkey
      rcases List.mem_cons.mp hmem with rfl | hrest
      · exact absurd hkey hne
      · exact List.mem_cons_of_mem _ hrest
    · rcases List.mem_cons.mp hmem with rfl | hrest
      · exact List.mem_cons_self
      · exact List.mem_cons_of_mem _ (ih hrest)

theorem find?_append (key : String) (entries other : Entries α) :
    find? key (entries ++ other) = (find? key entries).or (find? key other) := by
  induction entries with
  | nil => rfl
  | cons entry rest ih =>
    obtain ⟨k, v⟩ := entry
    by_cases hk : k = key <;> simp [find?, hk, ih]

theorem find?_isSome_iff (key : String) (entries : Entries α) :
    (find? key entries).isSome ↔ key ∈ keys entries := by
  induction entries with
  | nil => simp [find?, keys]
  | cons entry rest ih =>
    obtain ⟨k, v⟩ := entry
    by_cases hk : k = key
    · simp [find?, keys, hk]
    · simpa [find?, keys, hk, Ne.symm hk] using ih

/-- What is found under a key is an entry. -/
theorem mem_of_find? {key : String} {value : α} {entries : Entries α}
    (hfind : find? key entries = some value) : (key, value) ∈ entries := by
  induction entries with
  | nil => cases hfind
  | cons entry rest ih =>
    obtain ⟨k, v⟩ := entry
    rw [find?] at hfind
    split at hfind
    · rename_i hkey
      obtain rfl := Option.some.inj hfind
      rw [hkey]
      exact List.mem_cons_self
    · exact List.mem_cons_of_mem _ (ih hfind)

/-- With distinct keys, every entry is found under its key. -/
theorem find?_of_mem {key : String} {value : α} {entries : Entries α}
    (hdistinct : KeysDistinct entries) (hmem : (key, value) ∈ entries) :
    find? key entries = some value := by
  induction entries with
  | nil => cases hmem
  | cons entry rest ih =>
    obtain ⟨k, v⟩ := entry
    obtain ⟨hk, hrest⟩ := List.nodup_cons.mp hdistinct
    rw [find?]
    rcases List.mem_cons.mp hmem with heq | hmem
    · obtain ⟨rfl, rfl⟩ := Prod.mk.inj heq
      rw [if_pos rfl]
    · have hne : k ≠ key := by
        rintro rfl
        exact hk (List.mem_map.mpr ⟨_, hmem, rfl⟩)
      rw [if_neg hne]
      exact ih hrest hmem

/-- A key that is put in only if it is new yields to the value it may have. -/
theorem find?_putNew (key other : String) (value : α) (entries : Entries α) :
    find? other (putNew key value entries) =
      if other = key then (find? key entries).or (some value) else find? other entries := by
  unfold putNew
  split
  · rename_i hkey
    have hsome := (find?_isSome_iff key entries).mpr ((hasKey_iff_mem_keys key entries).mp hkey)
    obtain ⟨v, hv⟩ := Option.isSome_iff_exists.mp hsome
    split
    · rename_i hother
      rw [hother, hv]
      rfl
    · rfl
  · rename_i hkey
    rw [find?_append]
    split
    · rename_i hother
      simp [hother, find?]
    · rename_i hother
      cases h : find? other entries <;> simp [find?, Ne.symm hother]

end Entries

end Wiring
