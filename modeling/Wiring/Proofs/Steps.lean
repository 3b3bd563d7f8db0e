import Mathlib.Data.List.Forall2

/-!
Steps that may fail, taken for the items of a list one after the other. Together they
succeed if each does, item by item, and otherwise they fail as the first that fails.
-/

namespace Wiring

variable {ε α β γ : Type}

/-- Of some items taken in order, the first at which a step fails does so with an error. -/
def FirstFailure (f : α → Except ε β) (xs : List α) (e : ε) : Prop :=
  ∃ before x after, xs = before ++ x :: after ∧ (∀ y ∈ before, ∃ b, f y = .ok b) ∧ f x = .error e

theorem not_firstFailure_nil (f : α → Except ε β) (e : ε) : ¬ FirstFailure f [] e := by
  rintro ⟨before, x, after, hxs, -⟩
  simp at hxs

theorem firstFailure_cons_of_error {f : α → Except ε β} {x : α} {d : ε} (hx : f x = .error d)
    (xs : List α) (e : ε) : FirstFailure f (x :: xs) e ↔ d = e := by
  constructor
  · rintro ⟨before, y, after, hxs, hbefore, hy⟩
    cases before with
    | nil =>
      obtain ⟨rfl, -⟩ := List.cons.inj hxs
      rw [hx] at hy
      exact Except.error.inj hy
    | cons z before =>
      obtain ⟨rfl, -⟩ := List.cons.inj hxs
      obtain ⟨b, hb⟩ := hbefore x List.mem_cons_self
      rw [hx] at hb
      cases hb
  · rintro rfl
    exact ⟨[], x, xs, rfl, by simp, hx⟩

theorem firstFailure_cons_of_ok {f : α → Except ε β} {x : α} {b : β} (hx : f x = .ok b)
    (xs : List α) (e : ε) : FirstFailure f (x :: xs) e ↔ FirstFailure f xs e := by
  constructor
  · rintro ⟨before, y, after, hxs, hbefore, hy⟩
    cases before with
    | nil =>
      obtain ⟨rfl, -⟩ := List.cons.inj hxs
      rw [hx] at hy
      cases hy
    | cons z before =>
      obtain ⟨-, rfl⟩ := List.cons.inj hxs
      exact ⟨before, y, after, rfl, fun w hw => hbefore w (List.mem_cons_of_mem z hw), hy⟩
  · rintro ⟨before, y, after, rfl, hbefore, hy⟩
    exact ⟨x :: before, y, after, rfl, List.forall_mem_cons.mpr ⟨⟨b, hx⟩, hbefore⟩, hy⟩

/-- Taking a step for each item fails as the first step that does. -/
theorem mapM_eq_error_iff (f : α → Except ε β) (xs : List α) (e : ε) :
    xs.mapM f = .error e ↔ FirstFailure f xs e := by
  induction xs with
  | nil => exact ⟨nofun, fun h => absurd h (not_firstFailure_nil f e)⟩
  | cons x xs ih =>
    rw [List.mapM_cons]
    cases hx : f x with
    | error d =>
      rw [firstFailure_cons_of_error hx]
      exact ⟨fun h => Except.error.inj h, fun h => congrArg Except.error h⟩
    | ok b =>
      rw [firstFailure_cons_of_ok hx, ← ih]
      cases xs.mapM f with
      | error d => rfl
      | ok bs => exact ⟨nofun, nofun⟩

theorem mapM_eq_ok_iff (f : α → Except ε β) (xs : List α) (ys : List β) :
    xs.mapM f = .ok ys ↔ List.Forall₂ (fun x y => f x = .ok y) xs ys := by
  induction xs generalizing ys with
  | nil =>
    rw [List.forall₂_nil_left_iff]
    exact ⟨fun h => (Except.ok.inj h).symm, fun h => congrArg Except.ok h.symm⟩
  | cons x xs ih =>
    rw [List.mapM_cons, List.forall₂_cons_left_iff]
    constructor
    · intro h
      cases hx : f x with
      | error e => simp [hx, bind, Except.bind] at h
      | ok b =>
        cases hxs : xs.mapM f with
        | error e => simp [hx, hxs, bind, Except.bind] at h
        | ok bs =>
          rw [hx, hxs] at h
          exact ⟨b, bs, rfl, (ih bs).mp hxs, (Except.ok.inj h).symm⟩
    · rintro ⟨b, bs, hx, hxs, rfl⟩
      rw [hx, (ih bs).mpr hxs]
      rfl

/-- All steps together succeed if each of them does. -/
theorem exists_mapM_eq_ok_iff (f : α → Except ε β) (xs : List α) :
    (∃ ys, xs.mapM f = .ok ys) ↔ ∀ x ∈ xs, ∃ y, f x = .ok y := by
  induction xs with
  | nil => exact ⟨fun _ x hx => (List.not_mem_nil hx).elim, fun _ => ⟨[], rfl⟩⟩
  | cons x xs ih =>
    rw [List.mapM_cons, List.forall_mem_cons, ← ih]
    cases f x with
    | error e => exact ⟨nofun, nofun⟩
    | ok y =>
      cases xs.mapM f with
      | error e => exact ⟨nofun, nofun⟩
      | ok ys => exact ⟨fun _ => ⟨⟨y, rfl⟩, ⟨ys, rfl⟩⟩, fun _ => ⟨y :: ys, rfl⟩⟩

theorem exists_of_any {a : Except ε α} {p : α → Bool} (hany : a.toOption.any p) :
    ∃ b, a = .ok b ∧ p b := by
  cases a with
  | error e => cases hany
  | ok b => exact ⟨b, rfl, hany⟩

theorem mapError_eq_ok_iff {ε' : Type} (f : ε → ε') (a : Except ε α) (b : α) :
    a.mapError f = .ok b ↔ a = .ok b := by
  cases a <;> simp [Except.mapError]

theorem map_eq_ok_iff (f : α → β) (a : Except ε α) (b : β) :
    a.map f = .ok b ↔ ∃ x, a = .ok x ∧ b = f x := by
  cases a <;> simp [Except.map, eq_comm]

theorem exists_eq_ok_iff (a : Except ε β) : (∃ b, a = .ok b) ↔ ∀ e, a ≠ .error e := by
  cases a <;> simp

/-- Steps that fail alike have the same first failure. -/
theorem firstFailure_congr {f : α → Except ε β} {g : α → Except ε γ}
    (hfail : ∀ x e, f x = .error e ↔ g x = .error e) (xs : List α) (e : ε) :
    FirstFailure f xs e ↔ FirstFailure g xs e := by
  simp only [FirstFailure, exists_eq_ok_iff, ne_eq, hfail]

/-- Where all first steps succeed, the second ones may as well follow each right away. -/
theorem mapM_bind_of_ok {f : α → Except ε β} {xs : List α} {ys : List β}
    (hxs : xs.mapM f = .ok ys) (g : β → Except ε γ) :
    xs.mapM (fun x => f x >>= g) = ys.mapM g := by
  rw [mapM_eq_ok_iff] at hxs
  induction hxs with
  | nil => rfl
  | cons hx _ ih =>
    rw [List.mapM_cons, List.mapM_cons, hx, ih]
    rfl

end Wiring
