import Wiring.Proofs.Expression.Following
import Wiring.Proofs.Expression.Viability

/-!
The furthest failure is where the reading that never goes back stops, and expects all that
could stand there. Trials of two texts with the same beginning go the same way until one of
them looks behind it. If one text is accepted and the other one is not, it is then that the
other one fails, and expects what the first one has.
-/

namespace Wiring.Expression

/-- A failure reaches the place where so many tokens are left: it is at that place and
expects no less than is wanted, or it is beyond. -/
def Failure.Reaches (left : Nat) (wanted : List Expectation) (failure : Failure) : Prop :=
  failure.left < left ∨ failure.left = left ∧ wanted ⊆ failure.expected

theorem Failure.Reaches.merge_left {left : Nat} {wanted : List Expectation} {f : Failure}
    (h : f.Reaches left wanted) (g : Failure) : (f.merge g).Reaches left wanted := by
  rw [Failure.merge]
  split
  · exact h
  · split
    · rcases h with hlt | ⟨rfl, -⟩ <;> exact .inl (by omega)
    · exact h.imp_right (And.imp_right fun hwanted =>
        List.Subset.trans hwanted (List.subset_append_left _ _))

theorem Failure.Reaches.merge_right {left : Nat} {wanted : List Expectation} {g : Failure}
    (h : g.Reaches left wanted) (f : Failure) : (f.merge g).Reaches left wanted := by
  rw [Failure.merge]
  split
  · rcases h with hlt | ⟨rfl, -⟩ <;> exact .inl (by omega)
  · split
    · exact h
    · rcases h with hlt | ⟨rfl, hwanted⟩
      · exact .inl (show f.left < left by omega)
      · exact .inr ⟨show f.left = g.left by omega,
          List.Subset.trans hwanted (List.subset_append_right _ _)⟩

/-- An attempt reaches a place if it takes what stands there or fails not before it. -/
def Attempt.Reaches {α : Type} (left : Nat) (wanted : List Expectation) (attempt : Attempt α) :
    Prop :=
  (∃ failure, attempt.failure? = some failure ∧ failure.Reaches left wanted) ∨
    ∃ x rest, attempt.outcome = some (x, rest) ∧ rest.length < left

/-- Two attempts on texts that differ at their backs have the same outcome. -/
def Attempt.Same {α : Type} (a b : List Token) (front : List Token) (first second : Attempt α) :
    Prop :=
  (first.outcome = none ∧ second.outcome = none) ∨
    ∃ x more, more <:+ front ∧ first.outcome = some (x, more ++ a) ∧
      second.outcome = some (x, more ++ b)

/-- What the beginning of some tokens is expected as. -/
def Expectation.ofHead : List Token → Expectation
  | [] => .endOfInput
  | first :: _ => first.expectation

/-- Two texts that part behind a common front, and what is wanted where they do so that the
second one goes on as the first one. -/
structure Fork (front a b : List Token) (wanted : List Expectation) : Prop where
  differs : a.head? ≠ b.head?
  expects : wanted ⊆ [Expectation.ofHead a]
  afterMinus : front.getLast? = some .minus → wanted = []

namespace Trial

/-- On two texts that part, two trials do the same until the second one reaches the place
where they do. -/
structure Alike {α : Type} (front a b : List Token) (wanted : List Expectation) (bound : Nat)
    (first second : Trial α) : Prop where
  same : ∀ ⦃u⦄, u <:+ front → u.length < bound →
    (second.run (u ++ b)).Reaches b.length wanted ∨
      Attempt.Same a b u (first.run (u ++ a)) (second.run (u ++ b))
  beyond : ∀ ⦃tokens⦄, tokens.length < b.length → (second.run tokens).Reaches b.length wanted

section

variable {α β : Type} {left : Nat} {wanted : List Expectation}

theorem exists_reaches_merge_left {earlier : Option Failure}
    (h : ∃ f, earlier = some f ∧ f.Reaches left wanted) (later : Option Failure) :
    ∃ f, earlier.merge Failure.merge later = some f ∧ f.Reaches left wanted := by
  obtain ⟨f, rfl, hf⟩ := h
  cases later with
  | none => exact ⟨f, rfl, hf⟩
  | some g => exact ⟨_, rfl, hf.merge_left g⟩

theorem exists_reaches_merge_right {later : Option Failure}
    (h : ∃ g, later = some g ∧ g.Reaches left wanted) (earlier : Option Failure) :
    ∃ f, earlier.merge Failure.merge later = some f ∧ f.Reaches left wanted := by
  obtain ⟨g, rfl, hg⟩ := h
  cases earlier with
  | none => exact ⟨g, rfl, hg⟩
  | some f => exact ⟨_, rfl, hg.merge_right f⟩

theorem reaches_bind_of_outcome {trial : Trial α} {next : α → Trial β}
    {tokens rest : List Token} {x : α} (houtcome : (trial.run tokens).outcome = some (x, rest))
    (h : ((next x).run rest).Reaches left wanted) :
    ((trial >>= next).run tokens).Reaches left wanted := by
  rcases h with hfailure | ⟨y, last, hlast, hlt⟩
  · refine .inl ?_
    rw [failure?_bind, houtcome]
    exact exists_reaches_merge_right hfailure _
  · refine .inr ⟨y, last, ?_, hlt⟩
    rw [outcome_bind, houtcome]
    exact hlast

theorem reaches_bind {trial : Trial α} {next : α → Trial β} {tokens : List Token}
    (h : (trial.run tokens).Reaches left wanted)
    (hnext : ∀ x ⦃rest⦄, rest.length < left → ((next x).run rest).Reaches left wanted) :
    ((trial >>= next).run tokens).Reaches left wanted := by
  rcases h with hfailure | ⟨x, rest, houtcome, hlt⟩
  · refine .inl ?_
    rw [failure?_bind]
    exact exists_reaches_merge_left hfailure _
  · exact reaches_bind_of_outcome houtcome (hnext x hlt)

theorem reaches_orElse {first : Trial α} {tokens : List Token}
    (h : (first.run tokens).Reaches left wanted) (second : Trial α) :
    ((first.orElse second).run tokens).Reaches left wanted := by
  rcases h with hfailure | ⟨x, rest, houtcome, hlt⟩
  · refine .inl ?_
    rw [failure?_orElse]
    exact exists_reaches_merge_left hfailure _
  · refine .inr ⟨x, rest, ?_, hlt⟩
    rw [outcome_orElse, houtcome, Option.some_or]

theorem reaches_orElse_of_outcome {first second : Trial α} {tokens : List Token}
    (houtcome : (first.run tokens).outcome = none)
    (h : (second.run tokens).Reaches left wanted) :
    ((first.orElse second).run tokens).Reaches left wanted := by
  rcases h with hfailure | ⟨x, rest, hsecond, hlt⟩
  · refine .inl ?_
    rw [failure?_orElse, houtcome]
    exact exists_reaches_merge_right hfailure _
  · refine .inr ⟨x, rest, ?_, hlt⟩
    rw [outcome_orElse, houtcome, Option.none_or, hsecond]

end

section

variable {α β : Type} {front a b : List Token} {wanted : List Expectation} {bound : Nat}

theorem Alike.mono {bound' : Nat} {p q : Trial α} (h : Alike front a b wanted bound p q)
    (hbound : bound' ≤ bound) : Alike front a b wanted bound' p q :=
  ⟨fun _ hu hlt => h.same hu (by omega), h.beyond⟩

theorem alike_pure (x : α) : Alike front a b wanted bound (pure x) (pure x) where
  same u _ _ := .inr (.inr ⟨x, u, List.suffix_refl u, rfl, rfl⟩)
  beyond tokens h := .inr ⟨x, tokens, rfl, h⟩

theorem alike_fail (expected : List Expectation) :
    Alike front a b wanted bound (fail expected : Trial α) (fail expected) where
  same _ _ _ := .inr (.inl ⟨rfl, rfl⟩)
  beyond _ h := .inl ⟨_, rfl, .inl h⟩

/-- Two trials that take the same go on as what follows them does. -/
theorem same_bind_of_outcome {p q : Trial α} {next next' : α → Trial β} {x : α}
    {u more : List Token} (hmore : more <:+ u)
    (hp : (p.run (u ++ a)).outcome = some (x, more ++ a))
    (hq : (q.run (u ++ b)).outcome = some (x, more ++ b))
    (h : ((next' x).run (more ++ b)).Reaches b.length wanted ∨
      Attempt.Same a b more ((next x).run (more ++ a)) ((next' x).run (more ++ b))) :
    ((q >>= next').run (u ++ b)).Reaches b.length wanted ∨
      Attempt.Same a b u ((p >>= next).run (u ++ a)) ((q >>= next').run (u ++ b)) := by
  refine h.imp (reaches_bind_of_outcome hq) fun hsame => ?_
  rw [Attempt.Same, outcome_bind, outcome_bind, hp, hq]
  refine hsame.imp_right ?_
  rintro ⟨y, last, hlast, hsome, hsome'⟩
  exact ⟨y, last, hlast.trans hmore, hsome, hsome'⟩

theorem Alike.bind {p q : Trial α} {next next' : α → Trial β}
    (h : Alike front a b wanted bound p q)
    (hnext : ∀ x, Alike front a b wanted bound (next x) (next' x)) :
    Alike front a b wanted bound (p >>= next) (q >>= next') where
  same u hu hlt := by
    rcases h.same hu hlt with hreaches | ⟨hp, hq⟩ | ⟨x, more, hmore, hp, hq⟩
    · exact .inl (reaches_bind hreaches fun x _ hlt => (hnext x).beyond hlt)
    · exact .inr (.inl ⟨by rw [outcome_bind, hp]; rfl, by rw [outcome_bind, hq]; rfl⟩)
    · have hlength := hmore.length_le
      exact same_bind_of_outcome hmore hp hq ((hnext x).same (hmore.trans hu) (by omega))
  beyond tokens hlt := reaches_bind (h.beyond hlt) fun x _ hlt => (hnext x).beyond hlt

theorem Alike.orElse {p q p' q' : Trial α} (h : Alike front a b wanted bound p q)
    (h' : Alike front a b wanted bound p' q') :
    Alike front a b wanted bound (p.orElse p') (q.orElse q') where
  same u hu hlt := by
    rcases h.same hu hlt with hreaches | ⟨hp, hq⟩ | ⟨x, more, hmore, hp, hq⟩
    · exact .inl (reaches_orElse hreaches q')
    · refine (h'.same hu hlt).imp (reaches_orElse_of_outcome hq) fun hsame => ?_
      rw [Attempt.Same, outcome_orElse, outcome_orElse, hp, hq]
      exact hsame
    · refine .inr (.inr ⟨x, more, hmore, ?_, ?_⟩)
      · rw [outcome_orElse, hp, Option.some_or]
      · rw [outcome_orElse, hq, Option.some_or]
  beyond tokens hlt := reaches_orElse (h.beyond hlt) q'

theorem alike_of_beyond (p : Trial α) {q : Trial α}
    (h : ∀ ⦃tokens⦄, tokens.length < b.length → (q.run tokens).Reaches b.length wanted) :
    Alike front a b wanted 0 p q :=
  ⟨fun _ _ hlt => absurd hlt (Nat.not_lt_zero _), h⟩

theorem reaches_take (token : Token) {tokens : List Token} (hlt : tokens.length < b.length) :
    ((take token).run tokens).Reaches b.length wanted := by
  by_cases hhead : tokens.head? = some token
  · obtain ⟨rest, rfl⟩ := List.head?_eq_some_iff.1 hhead
    rw [List.length_cons] at hlt
    exact .inr ⟨(), rest, outcome_take_self _ _, by omega⟩
  · exact .inl ⟨_, by rw [take_run_of_ne hhead]; rfl, .inl hlt⟩

theorem reaches_atEnd {tokens : List Token} (hlt : tokens.length < b.length) :
    (atEnd.run tokens).Reaches b.length wanted := by
  cases tokens with
  | nil => exact .inr ⟨(), [], rfl, hlt⟩
  | cons token rest => exact .inl ⟨_, rfl, .inl hlt⟩

theorem reaches_atom {tokens : List Token} (hlt : tokens.length < b.length) :
    (atom.run tokens).Reaches b.length wanted := by
  have hrun := atom_run tokens
  generalize atom.run tokens = attempt at hrun
  cases hrun with
  | plain rest hvalue =>
    rw [List.length_cons] at hlt
    exact .inr ⟨_, rest, rfl, by omega⟩
  | negative rest hvalue =>
    rw [List.length_cons, List.length_cons] at hlt
    exact .inr ⟨_, rest, rfl, by omega⟩
  | afterMinus rest hrest =>
    rw [List.length_cons] at hlt
    exact .inl ⟨_, rfl, .inl (Nat.lt_of_succ_lt hlt)⟩
  | refused tokens htokens => exact .inl ⟨_, rfl, .inl hlt⟩

section

variable (hfork : Fork front a b wanted)

include hfork

/-- A token that is to be taken stands in the common front, or in neither text, unless the
second one reaches the place where they part. -/
theorem take_cases {token : Token} (htoken : token.beginsScalar = false) (u : List Token) :
    ((take token).run (u ++ b)).Reaches b.length wanted ∨
      ((u ++ a).head? ≠ some token ∧ (u ++ b).head? ≠ some token) ∨ ∃ more, u = token :: more := by
  cases u with
  | cons next more =>
    by_cases hnext : next = token
    · exact .inr (.inr ⟨more, by rw [hnext]⟩)
    · simp [hnext]
  | nil =>
    by_cases hb : b.head? = some token
    · obtain ⟨rest, rfl⟩ := List.head?_eq_some_iff.1 hb
      exact .inl (.inr ⟨(), rest, outcome_take_self _ _, Nat.lt_succ_self _⟩)
    · by_cases ha : a.head? = some token
      · obtain ⟨rest, rfl⟩ := List.head?_eq_some_iff.1 ha
        have hexpects := hfork.expects
        rw [Expectation.ofHead, Token.expectation_of_plain htoken] at hexpects
        exact .inl (.inl ⟨_, by rw [List.nil_append, take_run_of_ne hb]; rfl, .inr ⟨rfl, hexpects⟩⟩)
      · exact .inr (.inl ⟨ha, hb⟩)

theorem alike_take {token : Token} (htoken : token.beginsScalar = false) :
    Alike front a b wanted bound (take token) (take token) where
  same u hu hlt := by
    rcases take_cases hfork htoken u with hreaches | ⟨ha, hb⟩ | ⟨more, rfl⟩
    · exact .inl hreaches
    · exact .inr (.inl ⟨by rw [take_run_of_ne ha]; rfl, by rw [take_run_of_ne hb]; rfl⟩)
    · exact .inr (.inr ⟨(), more, List.suffix_cons token more,
        outcome_take_self token (more ++ a), outcome_take_self token (more ++ b)⟩)
  beyond _ hlt := reaches_take token hlt

/-- Behind a token that is taken there is less left of the common front. -/
theorem alike_take_bind {token : Token} (htoken : token.beginsScalar = false) {p q : Trial α}
    (h : Alike front a b wanted bound p q) :
    Alike front a b wanted (bound + 1) (take token >>= fun _ => p) (take token >>= fun _ => q) where
  same u hu hlt := by
    rcases take_cases hfork htoken u with hreaches | ⟨ha, hb⟩ | ⟨more, rfl⟩
    · exact .inl (reaches_bind hreaches fun _ _ hlt => h.beyond hlt)
    · refine .inr (.inl ⟨?_, ?_⟩)
      · rw [outcome_bind, take_run_of_ne ha]; rfl
      · rw [outcome_bind, take_run_of_ne hb]; rfl
    · have hsuffix := List.suffix_cons token more
      rw [List.length_cons] at hlt
      exact same_bind_of_outcome hsuffix (outcome_take_self token (more ++ a))
        (outcome_take_self token (more ++ b)) (h.same (hsuffix.trans hu) (by omega))
  beyond _ hlt := reaches_bind (reaches_take token hlt) fun _ _ hlt => h.beyond hlt

/-- An atom where the texts part. -/
theorem atom_at_fork : (atom.run b).Reaches b.length wanted ∨
    (atom.run a).outcome = none ∧ (atom.run b).outcome = none := by
  have hrun := atom_run b
  generalize atom.run b = attempt at hrun
  cases hrun with
  | plain rest hvalue => exact .inl (.inr ⟨_, rest, rfl, Nat.lt_succ_self _⟩)
  | negative rest hvalue =>
    exact .inl (.inr ⟨_, rest, rfl, Nat.lt_succ_of_lt (Nat.lt_succ_self _)⟩)
  | afterMinus rest hrest => exact .inl (.inl ⟨_, rfl, .inl (Nat.lt_succ_self _)⟩)
  | refused tokens hb =>
    cases a with
    | nil => exact .inr ⟨rfl, rfl⟩
    | cons first tail =>
      cases hfirst : first.beginsScalar with
      | false =>
        have hplain : ∀ token ∈ (first :: tail).head?, token.beginsScalar = false := by
          rintro _ ⟨⟩
          exact hfirst
        exact .inr ⟨outcome_atom_of_plain hplain, rfl⟩
      | true =>
        have hexpects := hfork.expects
        rw [Expectation.ofHead, Token.expectation, hfirst] at hexpects
        exact .inl (.inl ⟨_, rfl, .inr ⟨rfl, hexpects⟩⟩)

/-- An atom of whose tokens only the minus sign stands before the texts part. What is not a
number fails there, and expects nothing. -/
theorem atom_behind_minus (hminus : front.getLast? = some .minus) :
    (atom.run (.minus :: b)).Reaches b.length wanted := by
  have hrun := atom_run (.minus :: b)
  generalize atom.run (.minus :: b) = attempt at hrun
  cases hrun with
  | plain rest hvalue => cases hvalue
  | negative rest hvalue => exact .inr ⟨_, rest, rfl, Nat.lt_succ_self _⟩
  | afterMinus rest hrest =>
    have hwanted : wanted ⊆ [] := by rw [hfork.afterMinus hminus]; exact List.nil_subset _
    exact .inl ⟨_, rfl, .inr ⟨rfl, hwanted⟩⟩
  | refused tokens htokens => cases htokens .minus rfl

theorem alike_atom : Alike front a b wanted bound atom atom where
  same u hu hlt := by
    rcases u with _ | ⟨token, more⟩
    · exact (atom_at_fork hfork).imp_right fun hnone => .inl hnone
    · by_cases hminus : token = .minus
      · subst hminus
        rcases more with _ | ⟨next, more⟩
        · obtain ⟨before, rfl⟩ := hu
          exact .inl (atom_behind_minus hfork List.getLast?_concat)
        · refine .inr ?_
          rw [Attempt.Same, outcome_atom, outcome_atom]
          simp only [List.cons_append, Choice.readAtom]
          cases next.negated? with
          | none => exact .inl ⟨rfl, rfl⟩
          | some value => exact .inr ⟨value, more, ⟨[.minus, next], rfl⟩, rfl, rfl⟩
      · refine .inr ?_
        rw [Attempt.Same, outcome_atom, outcome_atom, List.cons_append, List.cons_append,
          Choice.readAtom_of_ne_minus hminus, Choice.readAtom_of_ne_minus hminus]
        cases token.scalar? with
        | none => exact .inl ⟨rfl, rfl⟩
        | some value => exact .inr ⟨value, more, List.suffix_cons token more, rfl, rfl⟩
  beyond tokens hlt := reaches_atom hlt

theorem alike_further (allowTrailing : Bool) {p q : Trial (List α)}
    (h : Alike front a b wanted bound p q) :
    Alike front a b wanted (bound + 1) (further allowTrailing p) (further allowTrailing q) := by
  refine (alike_take_bind hfork rfl ?_).orElse (alike_pure [])
  cases allowTrailing with
  | false => exact h
  | true => exact h.orElse (alike_pure [])

theorem alike_series_succ {p q : Trial α} (hitem : Alike front a b wanted bound p q)
    (allowTrailing : Bool) {n m : Nat}
    (h : Alike front a b wanted (bound - 1) (series p allowTrailing n) (series q allowTrailing m)) :
    Alike front a b wanted bound (series p allowTrailing (n + 1))
      (series q allowTrailing (m + 1)) :=
  hitem.bind fun x =>
    ((alike_further hfork allowTrailing h).mono (by omega)).bind fun xs => alike_pure (x :: xs)

/-- How many items may follow does not matter if it is not less than what is left of the
common front. -/
theorem alike_series {p q : Trial α} (hitem : Alike front a b wanted bound p q)
    (allowTrailing : Bool) {n m : Nat} (hn : bound ≤ n) (hm : bound ≤ m) :
    Alike front a b wanted bound (series p allowTrailing n) (series q allowTrailing m) := by
  induction m generalizing bound p n with
  | zero =>
    obtain rfl := Nat.le_zero.1 hm
    exact alike_of_beyond _ (hitem.bind fun x => alike_pure [x]).beyond
  | succ m ih =>
    cases n with
    | zero =>
      obtain rfl := Nat.le_zero.1 hn
      have hself : Alike front a b wanted 0 q q := alike_of_beyond q hitem.beyond
      have hrest := ih hself (Nat.zero_le m) (Nat.zero_le m)
      exact alike_of_beyond _ (alike_series_succ hfork hself allowTrailing hrest).beyond
    | succ n =>
      have hrest := ih (hitem.mono (Nat.sub_le bound 1)) (n := n) (by omega) (by omega)
      exact alike_series_succ hfork hitem allowTrailing hrest

theorem alike_enclosed (bracket : Bracket) {p q : Trial α}
    (h : Alike front a b wanted bound p q) :
    Alike front a b wanted (bound + 1) (enclosed bracket p) (enclosed bracket q) :=
  alike_take_bind hfork rfl <| h.bind fun x =>
    (alike_take hfork rfl).bind fun _ => alike_pure x

section

variable {p q : Trial Expression} (hitem : Alike front a b wanted bound p q) {n m : Nat}
  (hn : bound ≤ n) (hm : bound ≤ m)

include hitem hn hm

theorem alike_list : Alike front a b wanted (bound + 1) (list p n) (list q m) :=
  (alike_enclosed hfork .square ((alike_series hfork hitem true hn hm).orElse
    (alike_pure []))).bind fun items => alike_pure (Expression.group .list items)

theorem alike_round : Alike front a b wanted (bound + 1) (round p n) (round q m) := by
  have hcomma : Alike front a b wanted bound
      ((do take .comma; pure true : Trial Bool).orElse (pure false))
      ((do take .comma; pure true : Trial Bool).orElse (pure false)) :=
    ((alike_take hfork rfl).bind fun _ => alike_pure true).orElse (alike_pure false)
  have hparts : Alike front a b wanted bound (parts p n) (parts q m) :=
    ((alike_series hfork hitem false hn hm).orElse (alike_pure [])).bind fun items =>
      hcomma.bind fun trailing => alike_pure (items, trailing)
  exact (alike_enclosed hfork .round hparts).bind fun (items, trailing) =>
    alike_pure (Bracket.round.enclose items trailing)

theorem alike_dict : Alike front a b wanted (bound + 1) (dict p n) (dict q m) := by
  have hentry : Alike front a b wanted bound (entry p) (entry q) :=
    (alike_atom hfork).bind fun key => (alike_take hfork rfl).bind fun _ =>
      hitem.bind fun value => alike_pure (key, value)
  exact (alike_enclosed hfork .curly ((alike_series hfork hentry true hn hm).orElse
    (alike_pure []))).bind fun entries => alike_pure (Expression.dict entries)

theorem alike_set : Alike front a b wanted (bound + 1) (set p n) (set q m) :=
  (alike_enclosed hfork .curly (alike_series hfork hitem true hn hm)).bind fun items =>
    alike_pure (Expression.group .set items)

theorem alike_alternatives :
    Alike front a b wanted (bound + 1) (alternatives p n) (alternatives q m) := by
  have hatom : Alike front a b wanted (bound + 1)
      (do let value ← atom; pure (.atom value) : Trial Expression)
      (do let value ← atom; pure (.atom value) : Trial Expression) :=
    (alike_atom hfork).bind fun value => alike_pure (Expression.atom value)
  exact hatom.orElse <| (alike_list hfork hitem hn hm).orElse <|
    (alike_round hfork hitem hn hm).orElse <| (alike_dict hfork hitem hn hm).orElse <|
    alike_set hfork hitem hn hm

end

/-- How deep expressions may be does not matter if it is not less than what is left of the
common front. -/
theorem alike_expression {n m : Nat} (hn : bound ≤ n) (hm : bound ≤ m) :
    Alike front a b wanted bound (expression n) (expression m) := by
  induction m generalizing bound n with
  | zero =>
    obtain rfl := Nat.le_zero.1 hm
    have hfail : Alike front a b wanted 0 (fail [] : Trial Expression) (fail []) := alike_fail []
    exact alike_of_beyond _ hfail.beyond
  | succ m ih =>
    cases n with
    | zero =>
      obtain rfl := Nat.le_zero.1 hn
      have hself := ih (Nat.zero_le m) (Nat.zero_le m)
      exact alike_of_beyond _
        (alike_alternatives hfork hself (Nat.zero_le m) (Nat.zero_le m)).beyond
    | succ n =>
      have hless : Alike front a b wanted (bound - 1) (expression n) (expression m) :=
        ih (by omega) (by omega)
      exact (alike_alternatives hfork hless (by omega) (by omega)).mono (by omega)

/-- If the first text is accepted, the second one is read as far as they are the same. -/
theorem reaches_whole {n m : Nat} (hn : front.length < n) (hm : front.length < m)
    {e : Expression} (haccepted : ((whole n).run (front ++ a)).outcome = some (e, [])) :
    ((whole m).run (front ++ b)).Reaches b.length wanted := by
  have hend : ∀ (e : Expression) ⦃tokens⦄, tokens.length < b.length →
      ((do atEnd; pure e : Trial Expression).run tokens).Reaches b.length wanted :=
    fun e tokens hlt => reaches_bind (reaches_atEnd hlt) fun _ rest hlt => .inr ⟨e, rest, rfl, hlt⟩
  have halike : Alike front a b wanted (front.length + 1) (expression n) (expression m) :=
    alike_expression hfork hn hm
  rw [outcome_whole_eq_some_iff, ← outcome_expression] at haccepted
  rcases halike.same (List.suffix_refl front) (Nat.lt_succ_self _) with
    hreaches | ⟨hnone, -⟩ | ⟨x, more, -, hsome, hsome'⟩
  · exact reaches_bind hreaches hend
  · rw [hnone] at haccepted
    cases haccepted.1
  · -- The first text is at its end, which the second one is not.
    obtain ⟨rfl, hempty⟩ := Prod.mk.inj (Option.some.inj (hsome.symm.trans haccepted.1))
    obtain ⟨rfl, rfl⟩ := List.append_eq_nil_iff.1 hempty
    refine reaches_bind_of_outcome hsome' ?_
    cases b with
    | nil => exact absurd rfl hfork.differs
    | cons token rest => exact .inl ⟨_, rfl, .inr ⟨rfl, hfork.expects⟩⟩

end

end

end Trial

/-- A reading goes on neither with some tokens nor, if there are none, to its end. -/
def Progress.Stuck (progress : Progress) : List Token → Prop
  | [] => progress.result? = none
  | token :: _ => progress.step token = none

section

variable {front back : List Token} {last : Progress}
  (hrun : Progress.start.run front = some last) (hstuck : last.Stuck back)

include hrun hstuck

theorem not_derives_of_stuck (e : Expression) : ¬Derives (front ++ back) e := by
  intro hderives
  obtain ⟨final, hfinal, hresult⟩ := (derives_iff_run _ e).1 hderives
  rw [Progress.run_append_of_run hrun] at hfinal
  cases back with
  | nil =>
    cases hfinal
    rw [Progress.Stuck, hresult] at hstuck
    cases hstuck
  | cons token rest =>
    rw [Progress.run_cons, show last.step token = none from hstuck] at hfinal
    cases hfinal

/-- No place beyond the tokens before which a reading is stuck is reached. -/
theorem length_le_of_stuck {front' back' : List Token} {last' : Progress}
    (heq : front ++ back = front' ++ back') (hrun' : Progress.start.run front' = some last') :
    back.length ≤ back'.length := by
  rcases List.append_eq_append_iff.1 heq with ⟨more, rfl, rfl⟩ | ⟨more, -, rfl⟩
  · rw [Progress.run_append_of_run hrun] at hrun'
    cases more with
    | nil => exact Nat.le_refl _
    | cons token more =>
      rw [Progress.run_cons, show last.step token = none from hstuck] at hrun'
      cases hrun'
  · simp

/-- Any accepted text with the same front parts from a text where the reading is stuck. -/
theorem fork_of_stuck {a : List Token} {e : Expression} (hderives : Derives (front ++ a) e) :
    Fork front a back
      (if front.getLast? = some .minus then [] else [Expectation.ofHead a]) where
  differs heads := by
    obtain ⟨final, hfinal, hresult⟩ := (derives_iff_run _ e).1 hderives
    rw [Progress.run_append_of_run hrun] at hfinal
    match a, back with
    | [], [] => exact not_derives_of_stuck hrun hstuck e hderives
    | token :: _, other :: _ =>
      obtain rfl : token = other := Option.some.inj heads
      rw [Progress.run_cons, show last.step token = none from hstuck] at hfinal
      cases hfinal
    | [], _ :: _ => cases heads
    | _ :: _, [] => cases heads
  expects := by
    split
    · exact List.nil_subset _
    · exact List.Subset.refl _
  afterMinus h := if_pos h

theorem Trial.exists_failed_of_stuck : ∃ failure,
    (whole ((front ++ back).length + 1)).run (front ++ back) = .failed failure := by
  cases hwhole : (whole ((front ++ back).length + 1)).run (front ++ back) with
  | failed failure => exact ⟨failure, rfl⟩
  | taken e rest failure =>
    have houtcome : ((whole ((front ++ back).length + 1)).run (front ++ back)).outcome =
        some (e, rest) := by rw [hwhole]; rfl
    have hread := ((outcome_whole_eq_some_iff _ _ _ _).1 houtcome).1
    exact absurd ((Choice.readExpression_eq_some_iff (Nat.le_succ _) e).1 hread)
      (not_derives_of_stuck hrun hstuck e)

/-- Wherever else something accepted goes on, the failure is not before that place, and
expects it there. -/
theorem Trial.failure_reaches_of_stuck {failure : Failure}
    (hfailed : (whole ((front ++ back).length + 1)).run (front ++ back) = .failed failure)
    {a : List Token} {e : Expression} (hderives : Derives (front ++ a) e) :
    failure.Reaches back.length
      (if front.getLast? = some .minus then [] else [Expectation.ofHead a]) := by
  have hread := (Choice.readExpression_eq_some_iff (Nat.le_succ (front ++ a).length) e).2 hderives
  have haccepted := (outcome_whole_eq_some_iff _ (front ++ a) [] e).2 ⟨hread, rfl⟩
  have hlength : ∀ more : List Token, front.length < (front ++ more).length + 1 := by
    intro more
    rw [List.length_append]
    omega
  rcases reaches_whole (fork_of_stuck hrun hstuck hderives) (hlength a) (hlength back)
    haccepted with ⟨f, hf, hreaches⟩ | ⟨x, rest, hsome, -⟩
  · rw [hfailed] at hf
    cases hf
    exact hreaches
  · rw [hfailed] at hsome
    cases hsome

/-- The furthest failure is where the reading is stuck, and expects what the reading expects
there. -/
theorem Trial.read_error :
    ∃ failure, Trial.read (front ++ back) = .error failure ∧ failure.left = back.length ∧
      ∀ expectation, expectation ∈ failure.expected ↔ expectation ∈ last.expected := by
  obtain ⟨failure, hfailed⟩ := exists_failed_of_stuck hrun hstuck
  have hread : read (front ++ back) = .error failure := by rw [read, hfailed]
  have honWay : failure.OnWay .start (front ++ back) :=
    (follows_whole _).failure (by rw [hfailed]; rfl)
  obtain ⟨front', back', last', heq, hleft, hrun', hexpected⟩ := honWay
  have hle := length_le_of_stuck hrun hstuck heq hrun'
  -- Some tokens lead to the end from where the reading is stuck, so the failure is there.
  obtain ⟨a, e, hviable⟩ := (viable_iff_run _).2 ⟨last, hrun⟩
  have hplace : failure.left = back.length := by
    rcases failure_reaches_of_stuck hrun hstuck hfailed hviable with hlt | ⟨heq, -⟩
    · omega
    · exact heq
  obtain ⟨rfl, rfl⟩ := List.append_inj' heq (by omega)
  obtain rfl : last = last' := Option.some.inj (hrun.symm.trans hrun')
  refine ⟨failure, hread, hplace, fun expectation => ⟨fun h => hexpected h, fun hmem => ?_⟩⟩
  by_cases hminus : front.getLast? = some .minus
  · obtain ⟨frames, rfl⟩ := (Progress.negative_iff_of_run hrun).2 hminus
    cases hmem
  · have hwanted : ∀ {a : List Token} {e : Expression}, Derives (front ++ a) e →
        Expectation.ofHead a ∈ failure.expected := by
      intro a e hderives
      have hreaches := failure_reaches_of_stuck hrun hstuck hfailed hderives
      rw [if_neg hminus] at hreaches
      rcases hreaches with hlt | ⟨-, hsubset⟩
      · omega
      · exact hsubset List.mem_cons_self
    rcases (Progress.mem_expected_iff hrun hminus expectation).1 hmem with
      ⟨token, ⟨more, e, hderives⟩, rfl⟩ | ⟨rfl, e, hderives⟩
    · rw [List.append_assoc] at hderives
      exact hwanted hderives
    · rw [← List.append_nil front] at hderives
      exact hwanted hderives

end

/-- An error is exact: it is at the first token with which no accepted sequence begins, or
at the end if there is no such token, and it expects what could follow before it. It is also
the furthest of the failures that a reading by ordered choice runs into. -/
structure ExactError (text : String) (front back : List SpannedToken)
    (error : ExpressionError) : Prop where
  split : tokens text = front ++ back
  /-- Everything before the error begins an accepted sequence. -/
  viable : ∀ beginning, beginning <+: front.map SpannedToken.token → Viable beginning
  /-- The token at the error does not go on with it; without one, it is not accepted. -/
  place : match back with
    | [] => (¬∃ e, Derives (front.map SpannedToken.token) e) ∧ error.found = none ∧
        error.start = byteLength text.toList ∧ error.stop = byteLength text.toList
    | token :: _ => ¬Viable (front.map SpannedToken.token ++ [token.token]) ∧
        error.found = some token.token ∧ error.start = token.start ∧ error.stop = token.stop
  /-- Behind a minus sign nothing is expected. -/
  afterMinus : (front.map SpannedToken.token).getLast? = some .minus → error.expected = []
  /-- Elsewhere exactly that is expected with which what was read begins an accepted
  sequence, or the end if it is one. -/
  expected : (front.map SpannedToken.token).getLast? ≠ some .minus →
    ∀ word, word ∈ error.expected.map Expectation.describe ↔
      (∃ token : Token, Viable (front.map SpannedToken.token ++ [token]) ∧
        word = if token.beginsScalar then "literal" else token.describe) ∨
      (word = "end of input" ∧ ∃ e, Derives (front.map SpannedToken.token) e)
  /-- The furthest failure is at the same place and expects the same. -/
  furthest : ∃ failure,
    Trial.read ((tokens text).map SpannedToken.token) = .error failure ∧
      failure.left = back.length ∧
      ∀ expectation, expectation ∈ failure.expected ↔ expectation ∈ error.expected

/-- A text that is not accepted has one error, and it is exact. -/
theorem parse_error_exact (text : String) (hrejected : ∀ e, parse text ≠ .ok e) :
    ∃ error front back, parse text = .error error ∧ ExactError text front back error := by
  cases hparse : parse text with
  | ok e => exact absurd hparse (hrejected e)
  | error error =>
    obtain ⟨front, back, last, hsplit, hrun, hend⟩ :=
      Progress.start.exists_split_of_finish (tokens text) hparse
    have hexpected : error.expected = last.expected := by
      rcases hend with ⟨-, -, rfl⟩ | ⟨token, rest, -, -, rfl⟩ <;> rfl
    have hstuck : last.Stuck (back.map SpannedToken.token) := by
      rcases hend with ⟨rfl, hresult, -⟩ | ⟨token, rest, rfl, hstep, -⟩
      · exact hresult
      · exact hstep
    refine ⟨error, front, back, rfl, hsplit, ?_, ?_, ?_, ?_, ?_⟩
    · rintro beginning ⟨more, hmore⟩
      have hviable := (viable_iff_run _).2 ⟨last, hrun⟩
      rw [← hmore] at hviable
      exact hviable.of_append
    · rcases hend with ⟨rfl, hresult, rfl⟩ | ⟨token, rest, rfl, hstep, rfl⟩
      · refine ⟨?_, rfl, rfl, rfl⟩
        rw [Progress.derives_iff_result? hrun, hresult]
        decide
      · refine ⟨?_, rfl, rfl, rfl⟩
        rw [Progress.viable_concat_iff hrun, hstep]
        decide
    · intro hminus
      obtain ⟨frames, rfl⟩ := (Progress.negative_iff_of_run hrun).2 hminus
      exact hexpected
    · intro hminus word
      rw [hexpected]
      exact Progress.mem_expected_words_iff hrun hminus word
    · rw [hsplit, List.map_append, hexpected, ← List.length_map SpannedToken.token]
      exact Trial.read_error hrun hstuck

theorem parse_error_exact_mixedBraces :
    (∀ e, parse "\x7b1: 2, 3\x7d" ≠ .ok e) ∧
      ∃ error front back, parse "\x7b1: 2, 3\x7d" = .error error ∧
        ExactError "\x7b1: 2, 3\x7d" front back error := by
  have hrejected : ∀ e, parse "\x7b1: 2, 3\x7d" ≠ .ok e := by
    intro e h
    have hok : (parse "\x7b1: 2, 3\x7d").isOk = true := by rw [h]; rfl
    revert hok
    decide +kernel
  exact ⟨hrejected, parse_error_exact _ hrejected⟩

end Wiring.Expression
