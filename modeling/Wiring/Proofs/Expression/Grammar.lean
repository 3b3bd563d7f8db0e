import Wiring.Expression.Basic
import Wiring.Expression.Token

/-!
The grammar of literal expressions. A phrase is a parse tree: it has the tokens it is
written in and the expression it stands for. The grammar is unambiguous, even if anything
may follow: a phrase is told by its tokens, and no phrase goes on where another one ends.
-/

namespace Wiring.Expression

/-- A scalar as it is written: a token of its own, or a number after a minus sign. -/
inductive Atom where
  | int (n : Int64)
  | float (x : Binary64)
  | text (s : String)
  | truth (b : Bool)
  | null
  | negativeInt (n : Int64)
  | negativeFloat (x : Binary64)

namespace Atom

def tokens : Atom → List Token
  | .int n => [.int n]
  | .float x => [.float x]
  | .text s => [.text s]
  | .truth b => [.truth b]
  | .null => [.null]
  | .negativeInt n => [.minus, .int n]
  | .negativeFloat x => [.minus, .float x]

def scalar : Atom → Scalar
  | .int n => .int n
  | .float x => .float x
  | .text s => .text s
  | .truth b => .bool b
  | .null => .null
  | .negativeInt n => .int (-n)
  | .negativeFloat x => .float x.neg

end Atom

/-- A token that stands for a scalar is an atom. -/
theorem Token.exists_atom {token : Token} {value : Scalar} (h : token.scalar? = some value) :
    ∃ a : Atom, a.tokens = [token] ∧ a.scalar = value := by
  cases token <;> cases h
  case truth b => exact ⟨.truth b, rfl, rfl⟩
  case null => exact ⟨.null, rfl, rfl⟩
  case int n => exact ⟨.int n, rfl, rfl⟩
  case float x => exact ⟨.float x, rfl, rfl⟩
  case text s => exact ⟨.text s, rfl, rfl⟩

theorem Token.exists_negative_atom {token : Token} {value : Scalar}
    (h : token.negated? = some value) :
    ∃ a : Atom, a.tokens = [.minus, token] ∧ a.scalar = value := by
  cases token <;> cases h
  case int n => exact ⟨.negativeInt n, rfl, rfl⟩
  case float x => exact ⟨.negativeFloat x, rfl, rfl⟩

/-- What items in brackets make. One item in round brackets with no comma behind it is
that item itself, and curly brackets around nothing make a dictionary. -/
def Bracket.enclose (bracket : Bracket) (items : List Expression) (trailing : Bool) :
    Expression :=
  match bracket, items, trailing with
  | .square, items, _ => .group .list items
  | .round, [e], false => e
  | .round, items, _ => .group .tuple items
  | .curly, [], _ => .dict []
  | .curly, items, _ => .group .set items

/-- A parse tree. A series is `expr {',' expr} [',']` in brackets of one kind, and a
dictionary `atom ':' expr {',' atom ':' expr} [',']` in curly ones; `trailing` tells
whether the last comma is there. -/
inductive Phrase where
  | atom (a : Atom)
  /-- Brackets with nothing inside. -/
  | empty (bracket : Bracket)
  /-- Round brackets with nothing but a comma inside. -/
  | comma
  | series (bracket : Bracket) (first : Phrase) (rest : List Phrase) (trailing : Bool)
  | dict (key : Atom) (value : Phrase) (rest : List (Atom × Phrase)) (trailing : Bool)

section

variable {β : Type} (write : β → List Token)

/-- Parts with a comma in front of each. -/
def commaBeforeEach (parts : List β) : List Token := parts.flatMap fun part => .comma :: write part

/-- Parts with a comma behind each. -/
def commaAfterEach (parts : List β) : List Token := parts.flatMap fun part => write part ++ [.comma]

@[simp] theorem commaBeforeEach_nil : commaBeforeEach write [] = [] := rfl

theorem commaBeforeEach_cons (part : β) (parts : List β) :
    commaBeforeEach write (part :: parts) =
      .comma :: (write part ++ commaBeforeEach write parts) := rfl

@[simp] theorem commaAfterEach_nil : commaAfterEach write [] = [] := rfl

theorem commaAfterEach_cons (part : β) (parts : List β) :
    commaAfterEach write (part :: parts) =
      write part ++ .comma :: commaAfterEach write parts := by
  simp [commaAfterEach]

theorem commaAfterEach_concat (parts : List β) (last : β) :
    commaAfterEach write (parts ++ [last]) =
      commaAfterEach write parts ++ (write last ++ [.comma]) := by
  simp [commaAfterEach]

/-- The commas in front of some parts and one more are those behind the parts and one before
them. -/
theorem commaBeforeEach_comma (parts : List β) (r : List Token) :
    commaBeforeEach write parts ++ .comma :: r =
      .comma :: (commaAfterEach write parts ++ r) := by
  induction parts with
  | nil => rfl
  | cons part parts ih => simp [commaBeforeEach_cons, commaAfterEach_cons, ih]

theorem commaBeforeEach_concat (parts : List β) (last : β) :
    commaBeforeEach write (parts ++ [last]) =
      .comma :: (commaAfterEach write parts ++ write last) := by
  rw [← commaBeforeEach_comma]
  simp [commaBeforeEach]

end

/-- The comma that may stand behind the last part. -/
def trailingComma (trailing : Bool) : List Token := if trailing then [.comma] else []

namespace Phrase

mutual

/-- The tokens that a phrase is written in. -/
def tokens : Phrase → List Token
  | .atom a => a.tokens
  | .empty bracket => [.opening bracket, .closing bracket]
  | .comma => [.opening .round, .comma, .closing .round]
  | .series bracket first rest trailing =>
    .opening bracket :: (first.tokens ++ (tokensOfRest rest ++
      (trailingComma trailing ++ [.closing bracket])))
  | .dict key value rest trailing =>
    .opening .curly :: (key.tokens ++ .colon :: (value.tokens ++ (tokensOfEntries rest ++
      (trailingComma trailing ++ [.closing .curly]))))
termination_by structural p => p

/-- Further parts of a series, each behind a comma. -/
def tokensOfRest : List Phrase → List Token
  | [] => []
  | p :: ps => .comma :: (p.tokens ++ tokensOfRest ps)
termination_by structural ps => ps

/-- Further entries of a dictionary, each behind a comma. -/
def tokensOfEntries : List (Atom × Phrase) → List Token
  | [] => []
  | (key, p) :: ps => .comma :: (key.tokens ++ .colon :: (p.tokens ++ tokensOfEntries ps))
termination_by structural ps => ps

end

mutual

/-- The expression that a phrase stands for. -/
def expression : Phrase → Expression
  | .atom a => .atom a.scalar
  | .empty bracket => bracket.enclose [] false
  | .comma => Bracket.round.enclose [] true
  | .series bracket first rest trailing =>
    bracket.enclose (first.expression :: expressions rest) trailing
  | .dict key value rest _ => .dict ((key.scalar, value.expression) :: entries rest)
termination_by structural p => p

def expressions : List Phrase → List Expression
  | [] => []
  | p :: ps => p.expression :: expressions ps
termination_by structural ps => ps

def entries : List (Atom × Phrase) → List (Scalar × Expression)
  | [] => []
  | (key, p) :: ps => (key.scalar, p.expression) :: entries ps
termination_by structural ps => ps

end

/-- The tokens of a key, a colon and a value. -/
def tokensOfEntry (part : Atom × Phrase) : List Token :=
  part.1.tokens ++ .colon :: part.2.tokens

/-- The key and the value that an entry stands for. -/
def entry (part : Atom × Phrase) : Scalar × Expression := (part.1.scalar, part.2.expression)

theorem tokensOfRest_eq (rest : List Phrase) :
    tokensOfRest rest = commaBeforeEach tokens rest := by
  induction rest with
  | nil => rfl
  | cons p rest ih => rw [tokensOfRest, ih, commaBeforeEach_cons]

theorem tokensOfEntries_eq (rest : List (Atom × Phrase)) :
    tokensOfEntries rest = commaBeforeEach tokensOfEntry rest := by
  induction rest with
  | nil => rfl
  | cons part rest ih => simp [tokensOfEntries, ih, tokensOfEntry, commaBeforeEach_cons]

theorem expressions_eq_map (parts : List Phrase) : expressions parts = parts.map expression := by
  induction parts with
  | nil => rfl
  | cons p parts ih => rw [expressions, ih, List.map_cons]

theorem entries_eq_map (parts : List (Atom × Phrase)) : entries parts = parts.map entry := by
  induction parts with
  | nil => rfl
  | cons part parts ih => rw [entries, ih, List.map_cons, entry]

end Phrase

/-- Some tokens derive an expression: a phrase that stands for it is written in them. -/
def Derives (tokens : List Token) (e : Expression) : Prop :=
  ∃ p : Phrase, p.tokens = tokens ∧ p.expression = e

/-- Whether an expression may begin with a token. -/
def Token.begins : Token → Bool
  | .minus => true
  | .opening _ => true
  | token => token.scalar?.isSome

theorem Atom.head_begins (a : Atom) :
    ∃ token tokens, a.tokens = token :: tokens ∧ token.begins = true := by
  cases a <;> exact ⟨_, _, rfl, rfl⟩

theorem Atom.tokens_append_inj {a b : Atom} {r s : List Token}
    (h : a.tokens ++ r = b.tokens ++ s) : a = b ∧ r = s := by
  cases a <;> cases b <;> simp_all [Atom.tokens]

/-- An atom is no bracket. -/
theorem Atom.tokens_append_ne (a : Atom) (r s : List Token) (bracket : Bracket) :
    a.tokens ++ r ≠ .opening bracket :: s := by
  cases a <;> simp [Atom.tokens]

namespace Phrase

theorem head_begins (p : Phrase) :
    ∃ token tokens, p.tokens = token :: tokens ∧ token.begins = true := by
  cases p with
  | atom a => exact a.head_begins
  | _ => exact ⟨_, _, rfl, rfl⟩

/-- No expression begins with a token that begins none, such as a comma. -/
theorem tokens_append_ne (p : Phrase) (r s : List Token) {token : Token}
    (h : token.begins = false) : p.tokens ++ r ≠ token :: s := by
  obtain ⟨first, tokens, hp, hfirst⟩ := p.head_begins
  intro heq
  rw [hp, List.cons_append, List.cons.injEq] at heq
  rw [heq.1, h] at hfirst
  cases hfirst

/-- What stands behind the last part in brackets: a comma if there is a trailing one, the
closing bracket and whatever follows. -/
theorem trailing_inj {t u : Bool} {bracket : Bracket} {r s : List Token}
    (h : trailingComma t ++ .closing bracket :: r = trailingComma u ++ .closing bracket :: s) :
    t = u ∧ r = s := by
  cases t <;> cases u <;> simp_all [trailingComma]

/-- Behind the last part in brackets no further part begins. -/
theorem trailing_ne (p : Phrase) (t : Bool) (bracket : Bracket) (r s : List Token) :
    trailingComma t ++ .closing bracket :: r ≠ .comma :: (p.tokens ++ s) := by
  cases t with
  | false => simp [trailingComma]
  | true =>
    intro h
    simp only [trailingComma, if_true, List.cons_append, List.nil_append, List.cons.injEq,
      true_and] at h
    exact p.tokens_append_ne s r rfl h.symm

/-- A series goes on behind an atom otherwise than a dictionary. -/
theorem colon_ne (rest : List Phrase) (t : Bool) (bracket : Bracket) (r s : List Token) :
    tokensOfRest rest ++ (trailingComma t ++ .closing bracket :: r) ≠ .colon :: s := by
  cases rest <;> cases t <;> simp [tokensOfRest, trailingComma]

theorem atom_append_inj {a : Atom} {q : Phrase} {r s : List Token}
    (h : a.tokens ++ r = q.tokens ++ s) : .atom a = q ∧ r = s := by
  cases q with
  | atom b => exact (Atom.tokens_append_inj h).imp_left (congrArg atom)
  | _ => exact absurd h (a.tokens_append_ne r _ _)

theorem empty_append_inj {b : Bracket} {q : Phrase} {r s : List Token}
    (h : (empty b).tokens ++ r = q.tokens ++ s) : .empty b = q ∧ r = s := by
  cases q with
  | atom a => exact absurd h.symm (a.tokens_append_ne s _ _)
  | empty c => simp_all [tokens]
  | comma => simp [tokens] at h
  | series c first rest t =>
    simp only [tokens, List.cons_append, List.append_assoc, List.cons.injEq] at h
    exact absurd h.2.symm (first.tokens_append_ne _ _ rfl)
  | dict key value rest t =>
    simp only [tokens, List.cons_append, List.append_assoc, List.cons.injEq] at h
    exact absurd h.2.symm ((atom key).tokens_append_ne _ _ rfl)

theorem comma_append_inj {q : Phrase} {r s : List Token}
    (h : comma.tokens ++ r = q.tokens ++ s) : .comma = q ∧ r = s := by
  cases q with
  | atom a => exact absurd h.symm (a.tokens_append_ne s _ _)
  | empty c => simp [tokens] at h
  | comma => simpa [tokens] using h
  | series c first rest t =>
    simp only [tokens, List.cons_append, List.append_assoc, List.cons.injEq] at h
    exact absurd h.2.symm (first.tokens_append_ne _ _ rfl)
  | dict key value rest t =>
    simp only [tokens, List.cons_append, List.append_assoc, List.cons.injEq] at h
    exact absurd h.2.symm ((atom key).tokens_append_ne _ _ rfl)

mutual

/-- A phrase is told by its tokens, whatever follows them. -/
theorem tokens_append_inj (p q : Phrase) {r s : List Token}
    (h : p.tokens ++ r = q.tokens ++ s) : p = q ∧ r = s := by
  -- A phrase that holds no other is told by its first two tokens. Otherwise the parts are
  -- compared in order; where a series meets a dictionary, the first part settles it.
  match p, q with
  | .atom a, q => exact atom_append_inj h
  | .empty b, q => exact empty_append_inj h
  | .comma, q => exact comma_append_inj h
  | p, .atom a => exact (atom_append_inj h.symm).imp Eq.symm Eq.symm
  | p, .empty b => exact (empty_append_inj h.symm).imp Eq.symm Eq.symm
  | p, .comma => exact (comma_append_inj h.symm).imp Eq.symm Eq.symm
  | .series b first rest t, .series c first' rest' t' =>
    simp only [tokens, List.cons_append, List.append_assoc, List.cons.injEq,
      Token.opening.injEq] at h
    obtain ⟨rfl, hinside⟩ := h
    obtain ⟨rfl, hrest⟩ := tokens_append_inj first first' hinside
    obtain ⟨rfl, rfl, htail⟩ := tokensOfRest_append_inj rest rest' hrest
    exact ⟨rfl, htail⟩
  | .series b first rest t, .dict key value entries t' =>
    simp only [tokens, List.cons_append, List.append_assoc, List.cons.injEq] at h
    exact absurd (atom_append_inj h.2.symm).2.symm (colon_ne _ _ _ _ _)
  | .dict key value entries t, .series b first rest t' =>
    simp only [tokens, List.cons_append, List.append_assoc, List.cons.injEq] at h
    exact absurd (atom_append_inj h.2).2.symm (colon_ne _ _ _ _ _)
  | .dict key value rest t, .dict key' value' rest' t' =>
    simp only [tokens, List.cons_append, List.append_assoc, List.cons.injEq] at h
    obtain ⟨rfl, hcolon⟩ := Atom.tokens_append_inj h.2
    obtain ⟨rfl, hrest⟩ := tokens_append_inj value value' (List.cons.inj hcolon).2
    obtain ⟨rfl, rfl, htail⟩ := tokensOfEntries_append_inj rest rest' hrest
    exact ⟨rfl, htail⟩
termination_by structural p

theorem tokensOfRest_append_inj (ps qs : List Phrase) {t u : Bool} {bracket : Bracket}
    {r s : List Token}
    (h : tokensOfRest ps ++ (trailingComma t ++ .closing bracket :: r) =
      tokensOfRest qs ++ (trailingComma u ++ .closing bracket :: s)) :
    ps = qs ∧ t = u ∧ r = s := by
  match ps, qs with
  | [], [] => exact ⟨rfl, trailing_inj h⟩
  | [], q :: qs => exact absurd (by simpa [tokensOfRest] using h) (trailing_ne q t bracket r _)
  | p :: ps, [] =>
    exact absurd (by simpa [tokensOfRest] using h.symm) (trailing_ne p u bracket s _)
  | p :: ps, q :: qs =>
    simp only [tokensOfRest, List.cons_append, List.append_assoc, List.cons.injEq, true_and] at h
    obtain ⟨rfl, hrest⟩ := tokens_append_inj p q h
    obtain ⟨rfl, htail⟩ := tokensOfRest_append_inj ps qs hrest
    exact ⟨rfl, htail⟩
termination_by structural ps

theorem tokensOfEntries_append_inj (ps qs : List (Atom × Phrase)) {t u : Bool}
    {bracket : Bracket} {r s : List Token}
    (h : tokensOfEntries ps ++ (trailingComma t ++ .closing bracket :: r) =
      tokensOfEntries qs ++ (trailingComma u ++ .closing bracket :: s)) :
    ps = qs ∧ t = u ∧ r = s := by
  match ps, qs with
  | [], [] => exact ⟨rfl, trailing_inj h⟩
  | [], (key, q) :: qs =>
    exact absurd (by simpa [tokensOfEntries, tokens] using h)
      (trailing_ne (.atom key) t bracket r _)
  | (key, p) :: ps, [] =>
    exact absurd (by simpa [tokensOfEntries, tokens] using h.symm)
      (trailing_ne (.atom key) u bracket s _)
  | (key, p) :: ps, (key', q) :: qs =>
    simp only [tokensOfEntries, List.cons_append, List.append_assoc, List.cons.injEq,
      true_and] at h
    obtain ⟨rfl, hcolon⟩ := Atom.tokens_append_inj h
    obtain ⟨rfl, hrest⟩ := tokens_append_inj p q (List.cons.inj hcolon).2
    obtain ⟨rfl, htail⟩ := tokensOfEntries_append_inj ps qs hrest
    exact ⟨rfl, htail⟩
termination_by structural ps

end

/-- The grammar is unambiguous. -/
theorem tokens_injective : Function.Injective tokens := by
  intro p q h
  exact (tokens_append_inj p q (congrArg (· ++ []) h)).1

end Phrase

/-- Tokens derive at most one expression. -/
theorem Derives.unique {tokens : List Token} {e e' : Expression} (h : Derives tokens e)
    (h' : Derives tokens e') : e = e' := by
  obtain ⟨p, hp, rfl⟩ := h
  obtain ⟨q, hq, rfl⟩ := h'
  rw [Phrase.tokens_injective (hp.trans hq.symm)]

end Wiring.Expression
