/-!
Computations that leave a record. A `Traced ω ε α` holds, in order, what was recorded
and either a result or the failure that ended it. Sequencing appends the records, so
the record of a failed computation ends where the failure arose.
-/

namespace Wiring

/-- What was recorded, in order, and how the computation ended. -/
structure Traced (ω ε α : Type) where
  trace : List ω
  answer : Except ε α

namespace Traced

variable {ω ε α β γ : Type}

/-- A result without a record. -/
protected def pure (a : α) : Traced ω ε α := ⟨[], .ok a⟩

/-- The second computation runs on the result of the first, and only if there is one. -/
protected def bind (x : Traced ω ε α) (f : α → Traced ω ε β) : Traced ω ε β :=
  match x.answer with
  | .ok a => ⟨x.trace ++ (f a).trace, (f a).answer⟩
  | .error e => ⟨x.trace, .error e⟩

instance : Monad (Traced ω ε) where
  pure := Traced.pure
  bind := Traced.bind

/-- A failure without a record. -/
def fail (e : ε) : Traced ω ε α := ⟨[], .error e⟩

def record (entry : ω) : Traced ω ε Unit := ⟨[entry], .ok ()⟩

def recordAll (entries : List ω) : Traced ω ε Unit := ⟨entries, .ok ()⟩

/-- An answer without a record. -/
def ofExcept (answer : Except ε α) : Traced ω ε α := ⟨[], answer⟩

/-- The same computation with its failure described otherwise. -/
def mapError {ε' : Type} (f : ε → ε') (x : Traced ω ε α) : Traced ω ε' α :=
  ⟨x.trace, x.answer.mapError f⟩

@[ext] theorem ext {x y : Traced ω ε α} (ht : x.trace = y.trace) (ha : x.answer = y.answer) :
    x = y := by
  cases x
  cases y
  simp_all

@[simp] theorem trace_mapError {ε' : Type} (f : ε → ε') (x : Traced ω ε α) :
    (x.mapError f).trace = x.trace := rfl

@[simp] theorem answer_mapError {ε' : Type} (f : ε → ε') (x : Traced ω ε α) :
    (x.mapError f).answer = x.answer.mapError f := rfl

theorem exists_of_isOk {x : Traced ω ε α} (h : x.answer.isOk) : ∃ a, x.answer = .ok a := by
  cases hx : x.answer with
  | ok a => exact ⟨a, rfl⟩
  | error e => simp [hx, Except.isOk, Except.toBool] at h

theorem pure_def (a : α) : (pure a : Traced ω ε α) = ⟨[], .ok a⟩ := rfl

theorem bind_of_ok {x : Traced ω ε α} {a : α} (h : x.answer = .ok a) (f : α → Traced ω ε β) :
    x >>= f = ⟨x.trace ++ (f a).trace, (f a).answer⟩ := by
  show Traced.bind x f = _
  simp [Traced.bind, h]

theorem bind_of_error {x : Traced ω ε α} {e : ε} (h : x.answer = .error e)
    (f : α → Traced ω ε β) : x >>= f = ⟨x.trace, .error e⟩ := by
  show Traced.bind x f = _
  simp [Traced.bind, h]

/-- The answer of a sequence is the sequence of the answers. -/
theorem answer_bind (x : Traced ω ε α) (f : α → Traced ω ε β) :
    (x >>= f).answer = x.answer >>= fun a => (f a).answer := by
  cases h : x.answer with
  | ok a =>
    rw [bind_of_ok h]
    rfl
  | error e =>
    rw [bind_of_error h]
    rfl

/-- A sequence that succeeds has parts that do. -/
theorem exists_of_bind {x : Traced ω ε α} {f : α → Traced ω ε β} {b : β}
    (h : (x >>= f).answer = .ok b) : ∃ a, x.answer = .ok a ∧ (f a).answer = .ok b := by
  rw [answer_bind] at h
  cases hx : x.answer with
  | ok a =>
    rw [hx] at h
    exact ⟨a, rfl, h⟩
  | error e =>
    rw [hx] at h
    cases h

instance : LawfulMonad (Traced ω ε) := LawfulMonad.mk' _
  (fun x => by
    show Traced.bind x Traced.pure = x
    cases x with
    | mk t a => cases a <;> simp [Traced.bind, Traced.pure])
  (fun _ _ => rfl)
  (fun x f g => by
    show Traced.bind (Traced.bind x f) g = Traced.bind x fun a => Traced.bind (f a) g
    cases x with
    | mk t a =>
      cases a with
      | error e => rfl
      | ok a =>
        cases h : (f a).answer <;> simp [Traced.bind, h])

end Traced

end Wiring
