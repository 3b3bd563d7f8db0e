import Wiring.Expression.Parse
import Wiring.Proofs.Expression.Choice

/-!
Reading by ordered choice with an account of the failures. An alternative that fails is
given up and the next one is tried at the same place, but where it failed is kept: of all
the failures the furthest one is the error, and at one place everything counts as expected
that was tried there. Without the account this is reading by ordered choice.
-/

namespace Wiring.Expression

/-- A place where something failed. -/
structure Failure where
  /-- How many tokens are left at the place. -/
  left : Nat
  expected : List Expectation

/-- The further of two failures. At one place whatever either expects is expected. -/
def Failure.merge (f g : Failure) : Failure :=
  if f.left < g.left then f
  else if g.left < f.left then g
  else ⟨f.left, f.expected ++ g.expected⟩

/-- What comes of a trial. Even if it takes something, alternatives may have failed on the
way. -/
inductive Attempt (α : Type) where
  | taken (value : α) (rest : List Token) (failure : Option Failure)
  | failed (failure : Failure)

namespace Attempt

variable {α : Type}

/-- The furthest failure on the way. -/
def failure? : Attempt α → Option Failure
  | .taken _ _ failure => failure
  | .failed failure => some failure

/-- An attempt after an earlier failure. -/
def after (earlier : Option Failure) : Attempt α → Attempt α
  | .taken value rest failure => .taken value rest (earlier.merge Failure.merge failure)
  | .failed failure => .failed (earlier.elim failure (·.merge failure))

/-- An attempt without the account of the failures. -/
def outcome : Attempt α → Option (α × List Token)
  | .taken value rest _ => some (value, rest)
  | .failed _ => none

@[simp] theorem failure?_after (earlier : Option Failure) (attempt : Attempt α) :
    (attempt.after earlier).failure? = earlier.merge Failure.merge attempt.failure? := by
  cases attempt <;> cases earlier <;> rfl

@[simp] theorem outcome_after (earlier : Option Failure) (attempt : Attempt α) :
    (attempt.after earlier).outcome = attempt.outcome := by
  cases attempt <;> rfl

end Attempt

/-- A reader that keeps an account of the failures. -/
structure Trial (α : Type) where
  run : List Token → Attempt α

namespace Trial

variable {α β : Type}

instance : Monad Trial where
  pure x := ⟨fun tokens => .taken x tokens none⟩
  bind trial next := ⟨fun tokens =>
    match trial.run tokens with
    | .taken x rest failure => ((next x).run rest).after failure
    | .failed failure => .failed failure⟩

/-- The second trial at the same place if the first one fails. -/
def orElse (first second : Trial α) : Trial α where
  run tokens :=
    match first.run tokens with
    | .taken x rest failure => .taken x rest failure
    | .failed failure => (second.run tokens).after (some failure)

/-- Fails at its place with some expectations. -/
def fail (expected : List Expectation) : Trial α where
  run tokens := .failed ⟨tokens.length, expected⟩

/-- Takes one certain token. -/
def take (token : Token) : Trial Unit where
  run
    | [] => (fail [.token token]).run []
    | next :: rest =>
      if next = token then .taken () rest none else (fail [.token token]).run (next :: rest)

/-- Takes a token that has a value. What it could be is not said where it fails. -/
def select (value? : Token → Option α) : Trial α where
  run
    | [] => (fail []).run []
    | next :: rest =>
      match value? next with
      | some x => .taken x rest none
      | none => (fail []).run (next :: rest)

/-- The end of the tokens. -/
def atEnd : Trial Unit where
  run
    | [] => .taken () [] none
    | tokens => (fail [.endOfInput]).run tokens

/-- A trial under a name. Where it fails at its own beginning, its name is expected. -/
def labelled (label : Expectation) (trial : Trial α) : Trial α where
  run tokens :=
    let relabel (failure : Failure) : Failure :=
      if failure.left = tokens.length then ⟨failure.left, [label]⟩ else failure
    match trial.run tokens with
    | .taken x rest failure => .taken x rest (failure.map relabel)
    | .failed failure => .failed (relabel failure)

def atom : Trial Scalar :=
  labelled .scalar <| (select Token.scalar?).orElse do
    take .minus
    select Token.negated?

section

variable (item : Trial α) (allowTrailing : Bool)

/-- What stands behind an item: nothing, or a comma and further items. If no item follows
the comma, it is taken all the same where a trailing one is allowed, and is given back
elsewhere. -/
def further (items : Trial (List α)) : Trial (List α) :=
  let behindComma := do
    take .comma
    if allowTrailing then items.orElse (pure []) else items
  behindComma.orElse (pure [])

/-- Items separated by commas; there is at least one. -/
def series : Nat → Trial (List α)
  | 0 => do
    let x ← item
    pure [x]
  | fuel + 1 => do
    let x ← item
    let xs ← further allowTrailing (series fuel)
    pure (x :: xs)

end

/-- Something in brackets of one kind. -/
def enclosed (bracket : Bracket) (inside : Trial α) : Trial α := do
  take (.opening bracket)
  let x ← inside
  take (.closing bracket)
  pure x

section

variable (item : Trial Expression) (fuel : Nat)

def list : Trial Expression := do
  let items ← enclosed .square ((series item true fuel).orElse (pure []))
  pure (.group .list items)

/-- The items in round brackets, and whether a comma follows them. -/
def parts : Trial (List Expression × Bool) := do
  let items ← (series item false fuel).orElse (pure [])
  let trailing ← (do take .comma; pure true : Trial Bool).orElse (pure false)
  pure (items, trailing)

def round : Trial Expression := do
  let (items, trailing) ← enclosed .round (parts item fuel)
  pure (Bracket.round.enclose items trailing)

def entry : Trial (Scalar × Expression) := do
  let key ← atom
  take .colon
  let value ← item
  pure (key, value)

def dict : Trial Expression := do
  let entries ← enclosed .curly ((series (entry item) true fuel).orElse (pure []))
  pure (.dict entries)

def set : Trial Expression := do
  let items ← enclosed .curly (series item true fuel)
  pure (.group .set items)

/-- The alternatives for an expression in their order. -/
def alternatives : Trial Expression :=
  (do let value ← atom; pure (.atom value) : Trial Expression).orElse <|
    (list item fuel).orElse <| (round item fuel).orElse <| (dict item fuel).orElse <|
    set item fuel

end

def expression : Nat → Trial Expression
  | 0 => fail []
  | fuel + 1 => alternatives (expression fuel) fuel

def whole (fuel : Nat) : Trial Expression := do
  let e ← expression fuel
  atEnd
  pure e

/-- All the tokens as one expression, or else the furthest failure. -/
def read (tokens : List Token) : Except Failure Expression :=
  match (whole (tokens.length + 1)).run tokens with
  | .taken e _ _ => .ok e
  | .failed failure => .error failure

theorem bind_run (trial : Trial α) (next : α → Trial β) (tokens : List Token) :
    (trial >>= next).run tokens = match trial.run tokens with
      | .taken x rest failure => ((next x).run rest).after failure
      | .failed failure => .failed failure := rfl

theorem failure?_bind (trial : Trial α) (next : α → Trial β) (tokens : List Token) :
    ((trial >>= next).run tokens).failure? =
      (trial.run tokens).failure?.merge Failure.merge
        ((trial.run tokens).outcome.bind fun (x, rest) => ((next x).run rest).failure?) := by
  rw [bind_run]
  cases trial.run tokens with
  | taken x rest failure => exact Attempt.failure?_after failure ((next x).run rest)
  | failed failure => rfl

theorem failure?_orElse (first second : Trial α) (tokens : List Token) :
    ((first.orElse second).run tokens).failure? =
      (first.run tokens).failure?.merge Failure.merge
        ((first.run tokens).outcome.elim (second.run tokens).failure? fun _ => none) := by
  simp only [orElse]
  cases first.run tokens with
  | taken x rest failure => cases failure <;> rfl
  | failed failure => exact Attempt.failure?_after (some failure) (second.run tokens)

theorem take_run_of_ne {token : Token} {tokens : List Token} (h : tokens.head? ≠ some token) :
    (take token).run tokens = .failed ⟨tokens.length, [.token token]⟩ := by
  cases tokens with
  | nil => rfl
  | cons next rest =>
    have hne : next ≠ token := fun heq => h (congrArg some heq)
    simp [take, hne, fail]

/-! Without the failures this is `Choice`. -/

theorem outcome_bind (trial : Trial α) (next : α → Trial β) (tokens : List Token) :
    ((trial >>= next).run tokens).outcome =
      (trial.run tokens).outcome.bind fun (x, rest) => ((next x).run rest).outcome := by
  rw [bind_run]
  cases trial.run tokens with
  | taken x rest failure => exact Attempt.outcome_after failure ((next x).run rest)
  | failed failure => rfl

@[simp] theorem outcome_pure (x : α) (tokens : List Token) :
    ((pure x : Trial α).run tokens).outcome = some (x, tokens) := rfl

theorem outcome_orElse (first second : Trial α) (tokens : List Token) :
    ((first.orElse second).run tokens).outcome =
      (first.run tokens).outcome.or (second.run tokens).outcome := by
  simp only [orElse]
  cases first.run tokens with
  | taken x rest failure => rfl
  | failed failure => exact Attempt.outcome_after (some failure) (second.run tokens)

theorem outcome_take (token : Token) (tokens : List Token) :
    ((take token).run tokens).outcome =
      if tokens.head? = some token then some ((), tokens.tail) else none := by
  by_cases h : tokens.head? = some token
  · obtain ⟨rest, rfl⟩ := List.head?_eq_some_iff.1 h
    simp [take, Attempt.outcome]
  · rw [take_run_of_ne h, if_neg h]
    rfl

theorem outcome_take_self (token : Token) (rest : List Token) :
    ((take token).run (token :: rest)).outcome = some ((), rest) := by
  simp [outcome_take]

theorem outcome_take_eq_some_iff (token : Token) (tokens rest : List Token) (x : Unit) :
    ((take token).run tokens).outcome = some (x, rest) ↔ tokens = token :: rest := by
  rw [outcome_take]
  cases tokens with
  | nil => simp
  | cons next tail => by_cases h : next = token <;> simp [h]

@[simp] theorem outcome_select_nil (value? : Token → Option α) :
    ((select value?).run []).outcome = none := rfl

@[simp] theorem outcome_select_cons (value? : Token → Option α) (next : Token)
    (rest : List Token) :
    ((select value?).run (next :: rest)).outcome = (value? next).map (·, rest) := by
  simp only [select]
  cases value? next <;> rfl

theorem outcome_labelled (label : Expectation) (trial : Trial α) (tokens : List Token) :
    ((labelled label trial).run tokens).outcome = (trial.run tokens).outcome := by
  simp only [labelled]
  cases trial.run tokens <;> rfl

theorem outcome_atom (tokens : List Token) :
    (atom.run tokens).outcome = Choice.readAtom tokens := by
  rw [atom, outcome_labelled, outcome_orElse, outcome_bind, outcome_take]
  cases tokens with
  | nil => rfl
  | cons token rest =>
    by_cases hminus : token = .minus
    · subst hminus
      cases rest <;> simp [Token.scalar?, Choice.readAtom]
    · rw [Choice.readAtom_of_ne_minus hminus]
      simp [hminus]

section

variable {item : Trial α} {reader : Reader α} {allowTrailing : Bool}

theorem outcome_further (items : Trial (List α)) (tokens : List Token) :
    ((further allowTrailing items).run tokens).outcome = some (match tokens with
      | .comma :: rest => (items.run rest).outcome.getD
          ([], if allowTrailing then rest else .comma :: rest)
      | tokens => ([], tokens)) := by
  rw [further, outcome_orElse, outcome_bind, outcome_take]
  rcases tokens with _ | ⟨token, rest⟩
  · rfl
  · by_cases hcomma : token = .comma
    · subst hcomma
      cases allowTrailing with
      | false => cases h : (items.run rest).outcome <;> simp [h]
      | true => cases h : (items.run rest).outcome <;> simp [h, outcome_orElse]
    · simp [hcomma]

theorem outcome_series (hitem : ∀ tokens, (item.run tokens).outcome = reader tokens)
    (fuel : Nat) (tokens : List Token) :
    ((series item allowTrailing fuel).run tokens).outcome =
      (reader tokens).map fun (x, rest) =>
        let (xs, last) := Choice.readMore reader allowTrailing fuel rest
        (x :: xs, last) := by
  induction fuel generalizing tokens with
  | zero =>
    rw [series, outcome_bind, hitem]
    cases reader tokens <;> simp [Choice.readMore]
  | succ fuel ih =>
    rw [series, outcome_bind, hitem]
    cases reader tokens with
    | none => rfl
    | some taken =>
      obtain ⟨x, rest⟩ := taken
      simp only [Option.bind_some, outcome_bind, outcome_further, outcome_pure, Option.map_some]
      rcases rest with _ | ⟨token, rest⟩
      · simp [Choice.readMore]
      · by_cases hcomma : token = .comma
        · subst hcomma
          simp only [ih, Choice.readMore]
          cases reader rest <;> rfl
        · simp [Choice.readMore, hcomma]

theorem outcome_separated (hitem : ∀ tokens, (item.run tokens).outcome = reader tokens)
    (fuel : Nat) (tokens : List Token) :
    (((series item allowTrailing fuel).orElse (pure [])).run tokens).outcome =
      some (Choice.readSeparated reader allowTrailing fuel tokens) := by
  rw [outcome_orElse, outcome_series hitem, Choice.readSeparated]
  cases reader tokens <;> rfl

theorem outcome_enclosed_eq_some_iff {bracket : Bracket} {inside : Trial α}
    {tokens rest : List Token} {x : α} :
    ((enclosed bracket inside).run tokens).outcome = some (x, rest) ↔
      ∃ middle, tokens = .opening bracket :: middle ∧
        (inside.run middle).outcome = some (x, .closing bracket :: rest) := by
  simp only [enclosed, outcome_bind, Option.bind_eq_some_iff, outcome_pure]
  constructor
  · rintro ⟨⟨⟨⟩, middle⟩, hopening, ⟨y, last⟩, hinside, ⟨⟨⟩, after⟩, hclosing, hpair⟩
    obtain rfl := (outcome_take_eq_some_iff _ _ _ _).1 hopening
    obtain rfl := (outcome_take_eq_some_iff _ _ _ _).1 hclosing
    cases hpair
    exact ⟨middle, rfl, hinside⟩
  · rintro ⟨middle, rfl, hinside⟩
    exact ⟨⟨(), middle⟩, outcome_take_self _ _, ⟨x, _⟩, hinside, ⟨(), rest⟩,
      outcome_take_self _ _, rfl⟩

/-- Inside brackets, what always takes something stands for a function. -/
theorem outcome_enclosed {inside : Trial α} {function : List Token → α × List Token}
    (hinside : ∀ tokens, (inside.run tokens).outcome = some (function tokens))
    (bracket : Bracket) (tokens : List Token) :
    ((enclosed bracket inside).run tokens).outcome =
      Choice.readEnclosed bracket function tokens := by
  refine Option.ext ?_
  rintro ⟨x, rest⟩
  rw [outcome_enclosed_eq_some_iff, Choice.readEnclosed_eq_some_iff]
  simp only [hinside, Option.some.injEq]

end

section

variable {item : Trial Expression} {reader : Reader Expression}
  (hitem : ∀ tokens, (item.run tokens).outcome = reader tokens) (fuel : Nat)

include hitem

theorem outcome_list (tokens : List Token) :
    ((list item fuel).run tokens).outcome = Choice.readList reader fuel tokens := by
  rw [list, outcome_bind, outcome_enclosed (outcome_separated hitem fuel), Choice.readList]
  exact Option.map_eq_bind.symm

theorem outcome_parts (tokens : List Token) :
    ((parts item fuel).run tokens).outcome = some (Choice.readParts reader fuel tokens) := by
  simp only [parts, outcome_bind, outcome_separated hitem, Option.bind_some, outcome_orElse,
    outcome_take, Choice.readParts]
  rcases Choice.readSeparated reader false fuel tokens with ⟨items, _ | ⟨token, rest⟩⟩
  · rfl
  · by_cases hcomma : token = .comma
    · subst hcomma
      rfl
    · simp [hcomma, Choice.readComma]

theorem outcome_round (tokens : List Token) :
    ((round item fuel).run tokens).outcome = Choice.readRound reader fuel tokens := by
  rw [round, outcome_bind, outcome_enclosed (outcome_parts hitem fuel), Choice.readRound]
  exact Option.map_eq_bind.symm

theorem outcome_entry (tokens : List Token) :
    ((entry item).run tokens).outcome = Choice.readEntry reader tokens := by
  rw [entry, outcome_bind, outcome_atom, Choice.readEntry]
  rcases Choice.readAtom tokens with _ | ⟨key, _ | ⟨token, rest⟩⟩
  · rfl
  · rfl
  · by_cases hcolon : token = .colon
    · subst hcolon
      simp only [Option.bind_some, outcome_bind, outcome_take, List.head?_cons, if_true, hitem]
      exact Option.map_eq_bind.symm
    · simp [outcome_bind, outcome_take, hcolon]

theorem outcome_dict (tokens : List Token) :
    ((dict item fuel).run tokens).outcome = Choice.readDict reader fuel tokens := by
  rw [dict, outcome_bind, outcome_enclosed (outcome_separated (outcome_entry hitem) fuel),
    Choice.readDict]
  exact Option.map_eq_bind.symm

theorem outcome_set (tokens : List Token) :
    ((set item fuel).run tokens).outcome = Choice.readSet reader fuel tokens := by
  have hseries : ∀ middle items last,
      ((series item true fuel).run middle).outcome = some (items, last) ↔
        Choice.readSeparated reader true fuel middle = (items, last) ∧ items ≠ [] := by
    intro middle items last
    rw [outcome_series hitem, Choice.readSeparated]
    cases reader middle with
    | none =>
      simp only [Option.map_none, Prod.mk.injEq, reduceCtorEq, false_iff]
      rintro ⟨⟨rfl, -⟩, hne⟩
      exact hne rfl
    | some taken =>
      simp only [Option.map_some, Option.some.injEq, iff_self_and]
      rintro ⟨⟩
      exact List.cons_ne_nil _ _
  refine Option.ext ?_
  rintro ⟨e, rest⟩
  rw [set, outcome_bind, Option.bind_eq_some_iff]
  constructor
  · rintro ⟨⟨items, last⟩, henclosed, hpair⟩
    cases hpair
    obtain ⟨middle, rfl, hmiddle⟩ := outcome_enclosed_eq_some_iff.1 henclosed
    obtain ⟨hseparated, hne⟩ := (hseries _ _ _).1 hmiddle
    rw [Choice.readSet, Choice.readEnclosed_eq_some_iff.2 ⟨middle, rfl, hseparated⟩]
    cases items with
    | nil => exact absurd rfl hne
    | cons first items => rfl
  · fun_cases Choice.readSet reader fuel tokens with
    | case1 first items after henclosed =>
      rintro ⟨⟩
      obtain ⟨middle, rfl, hmiddle⟩ := Choice.readEnclosed_eq_some_iff.1 henclosed
      have hset := (hseries _ _ _).2 ⟨hmiddle, List.cons_ne_nil first items⟩
      exact ⟨_, outcome_enclosed_eq_some_iff.2 ⟨middle, rfl, hset⟩, rfl⟩
    | case2 => rintro ⟨⟩

theorem outcome_alternatives (tokens : List Token) :
    ((alternatives item fuel).run tokens).outcome =
      (Choice.alternatives reader fuel).findSome? fun alternative => alternative tokens := by
  have hatom : ((do let value ← atom; pure (.atom value) : Trial Expression).run tokens).outcome =
      (Choice.readAtom tokens).map fun taken => (.atom taken.1, taken.2) := by
    rw [outcome_bind, outcome_atom]
    exact Option.map_eq_bind.symm
  have hcons : ∀ (first : Reader Expression) (others : List (Reader Expression)),
      ((first :: others).findSome? fun alternative => alternative tokens) =
        (first tokens).or (others.findSome? fun alternative => alternative tokens) := by
    intro first others
    rw [List.findSome?_cons]
    cases first tokens <;> rfl
  simp only [alternatives, outcome_orElse, hatom, outcome_list hitem, outcome_round hitem,
    outcome_dict hitem, outcome_set hitem, Choice.alternatives, hcons, List.findSome?_nil,
    Option.or_none]

end

theorem outcome_expression (fuel : Nat) (tokens : List Token) :
    ((expression fuel).run tokens).outcome = Choice.readExpression fuel tokens := by
  induction fuel generalizing tokens with
  | zero => rfl
  | succ fuel ih => exact outcome_alternatives ih fuel tokens

theorem outcome_whole_eq_some_iff (fuel : Nat) (tokens rest : List Token) (e : Expression) :
    ((whole fuel).run tokens).outcome = some (e, rest) ↔
      Choice.readExpression fuel tokens = some (e, []) ∧ rest = [] := by
  have hend : ∀ (value : Expression) (last : List Token),
      ((do atEnd; pure value : Trial Expression).run last).outcome =
        if last = [] then some (value, []) else none := by
    intro value last
    cases last <;> rfl
  rw [whole, outcome_bind, outcome_expression]
  rcases Choice.readExpression fuel tokens with _ | ⟨value, last⟩
  · simp
  · by_cases hlast : last = []
    · simp [hend, hlast, eq_comm]
    · simp [hend, hlast]

end Trial

end Wiring.Expression
