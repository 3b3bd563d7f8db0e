import Wiring.Proofs.Expression.Grammar

/-!
Reading by ordered choice. At each place the alternatives are tried one after the other,
each from the same token on, and the first that succeeds is kept for good. What such a
reading takes is a phrase, and since a phrase is told by its tokens, it does not matter
which alternative took it: the order of the choices loses nothing.
-/

namespace Wiring.Expression

/-- A reader takes some of the tokens at a place, or fails. -/
abbrev Reader (α : Type) := List Token → Option (α × List Token)

namespace Choice

def readAtom : Reader Scalar
  | .minus :: token :: rest => token.negated?.map (·, rest)
  | token :: rest => token.scalar?.map (·, rest)
  | [] => none

section

variable {α β : Type}

/-- Items behind commas. If no item follows a comma, the comma is taken all the same
where a trailing one is allowed, and is given back elsewhere. -/
def readMore (item : Reader α) (allowTrailing : Bool) : Nat → List Token → List α × List Token
  | fuel + 1, .comma :: rest =>
    match item rest with
    | some (x, rest) =>
      let (xs, last) := readMore item allowTrailing fuel rest
      (x :: xs, last)
    | none => ([], if allowTrailing then rest else .comma :: rest)
  | _, tokens => ([], tokens)

/-- Items separated by commas; there may be none. -/
def readSeparated (item : Reader α) (allowTrailing : Bool) (fuel : Nat) (tokens : List Token) :
    List α × List Token :=
  match item tokens with
  | some (x, rest) =>
    let (xs, last) := readMore item allowTrailing fuel rest
    (x :: xs, last)
  | none => ([], tokens)

/-- Something in brackets of one kind. -/
def readEnclosed (bracket : Bracket) (inside : List Token → β × List Token) : Reader β
  | .opening opening :: tokens =>
    if opening = bracket then
      match inside tokens with
      | (x, .closing closing :: rest) => if closing = bracket then some (x, rest) else none
      | _ => none
    else none
  | _ => none

end

/-- Takes a comma if there is one. -/
def readComma : List Token → Bool × List Token
  | .comma :: rest => (true, rest)
  | tokens => (false, tokens)

section

variable (item : Reader Expression) (fuel : Nat)

def readList : Reader Expression := fun tokens =>
  (readEnclosed .square (readSeparated item true fuel) tokens).map fun (items, rest) =>
    (.group .list items, rest)

/-- The items in round brackets, and whether a comma follows them. -/
def readParts (tokens : List Token) : (List Expression × Bool) × List Token :=
  let (items, rest) := readSeparated item false fuel tokens
  let (trailing, rest) := readComma rest
  ((items, trailing), rest)

def readRound : Reader Expression := fun tokens =>
  (readEnclosed .round (readParts item fuel) tokens).map fun ((items, trailing), rest) =>
    (Bracket.round.enclose items trailing, rest)

def readEntry : Reader (Scalar × Expression) := fun tokens =>
  match readAtom tokens with
  | some (key, .colon :: rest) => (item rest).map fun (value, rest) => ((key, value), rest)
  | _ => none

def readDict : Reader Expression := fun tokens =>
  (readEnclosed .curly (readSeparated (readEntry item) true fuel) tokens).map
    fun (entries, rest) => (.dict entries, rest)

/-- A set has at least one element. -/
def readSet : Reader Expression := fun tokens =>
  match readEnclosed .curly (readSeparated item true fuel) tokens with
  | some (first :: items, rest) => some (.group .set (first :: items), rest)
  | _ => none

/-- The alternatives for an expression in their order. -/
def alternatives : List (Reader Expression) :=
  [fun tokens => (readAtom tokens).map fun (value, rest) => (.atom value, rest),
    readList item fuel, readRound item fuel, readDict item fuel, readSet item fuel]

end

/-- The first alternative that succeeds. -/
def readExpression : Nat → Reader Expression
  | 0 => fun _ => none
  | fuel + 1 => fun tokens =>
    (alternatives (readExpression fuel) fuel).findSome? fun alternative => alternative tokens

/-- Reads all the tokens as one expression. There are no more expressions in it than
tokens. -/
def read (tokens : List Token) : Option Expression :=
  match readExpression tokens.length tokens with
  | some (e, []) => some e
  | _ => none

/-- What a reader takes is the writing of a part, and gives the value of that part. -/
def Sound {α β : Type} (item : Reader α) (write : β → List Token) (value : β → α) : Prop :=
  ∀ ⦃tokens : List Token⦄ ⦃x : α⦄ ⦃rest : List Token⦄, item tokens = some (x, rest) →
    ∃ part, tokens = write part ++ rest ∧ x = value part

theorem readAtom_of_ne_minus {token : Token} (h : token ≠ .minus) (rest : List Token) :
    readAtom (token :: rest) = token.scalar?.map (·, rest) := by
  rw [readAtom]
  exact fun _ _ hminus _ => h hminus

theorem readAtom_sound : Sound readAtom Atom.tokens Atom.scalar := by
  intro tokens x rest h
  revert h
  fun_cases readAtom tokens with
  | case1 token tokens =>
    intro h
    obtain ⟨value, hvalue, hpair⟩ := Option.map_eq_some_iff.1 h
    obtain ⟨rfl, rfl⟩ := Prod.mk.inj hpair
    obtain ⟨a, ha, rfl⟩ := Token.exists_negative_atom hvalue
    exact ⟨a, by rw [ha]; rfl, rfl⟩
  | case2 token tokens =>
    intro h
    obtain ⟨value, hvalue, hpair⟩ := Option.map_eq_some_iff.1 h
    obtain ⟨rfl, rfl⟩ := Prod.mk.inj hpair
    obtain ⟨a, ha, rfl⟩ := Token.exists_atom hvalue
    exact ⟨a, by rw [ha]; rfl, rfl⟩
  | case3 => rintro ⟨⟩

section

variable {α β : Type} {item : Reader α} {write : β → List Token} {value : β → α}
  {allowTrailing : Bool} {fuel : Nat} {tokens : List Token} {xs : List α} {last : List Token}

theorem readMore_sound (hitem : Sound item write value)
    (h : readMore item allowTrailing fuel tokens = (xs, last)) :
    ∃ (parts : List β) (trailing : Bool), (trailing = true → allowTrailing = true) ∧
      xs = parts.map value ∧
      tokens = commaBeforeEach write parts ++
        (trailingComma trailing ++ last) := by
  fun_induction readMore item allowTrailing fuel tokens generalizing xs last with
  | case1 fuel rest x after hx ys last hmore ih =>
    cases h
    obtain ⟨part, rfl, rfl⟩ := hitem hx
    obtain ⟨parts, trailing, hallow, rfl, rfl⟩ := ih hmore
    refine ⟨part :: parts, trailing, hallow, rfl, ?_⟩
    rw [commaBeforeEach_cons, List.cons_append, List.append_assoc]
  | case2 fuel rest hnone =>
    cases h
    cases allowTrailing with
    | false => exact ⟨[], false, id, rfl, rfl⟩
    | true => exact ⟨[], true, id, rfl, rfl⟩
  | case3 =>
    cases h
    exact ⟨[], false, nofun, rfl, rfl⟩

theorem readSeparated_sound (hitem : Sound item write value)
    (h : readSeparated item allowTrailing fuel tokens = (xs, last)) :
    (xs = [] ∧ last = tokens) ∨
      ∃ (first : β) (parts : List β) (trailing : Bool),
        (trailing = true → allowTrailing = true) ∧ xs = value first :: parts.map value ∧
        tokens = write first ++ (commaBeforeEach write parts ++
          (trailingComma trailing ++ last)) := by
  revert h
  fun_cases readSeparated item allowTrailing fuel tokens with
  | case1 x rest hx ys last hmore =>
    intro h
    cases h
    obtain ⟨first, rfl, rfl⟩ := hitem hx
    obtain ⟨parts, trailing, hallow, rfl, rfl⟩ := readMore_sound hitem hmore
    exact .inr ⟨first, parts, trailing, hallow, rfl, rfl⟩
  | case2 =>
    intro h
    cases h
    exact .inl ⟨rfl, rfl⟩

end

theorem readEnclosed_eq_some_iff {β : Type} {bracket : Bracket}
    {inside : List Token → β × List Token} {tokens rest : List Token} {x : β} :
    readEnclosed bracket inside tokens = some (x, rest) ↔
      ∃ middle, tokens = .opening bracket :: middle ∧
        inside middle = (x, .closing bracket :: rest) := by
  constructor
  · fun_cases readEnclosed bracket inside tokens with
    | case1 middle y after hinside =>
      intro h
      cases h
      exact ⟨middle, rfl, hinside⟩
    | _ => rintro ⟨⟩
  · rintro ⟨middle, rfl, hinside⟩
    simp [readEnclosed, hinside]

theorem eq_trailingComma_of_readComma {tokens rest : List Token} {trailing : Bool}
    (h : readComma tokens = (trailing, rest)) : tokens = trailingComma trailing ++ rest := by
  revert h
  fun_cases readComma tokens <;> rintro ⟨⟩ <;> rfl

section

variable {item : Reader Expression} {fuel : Nat}

theorem readList_sound (hitem : Sound item Phrase.tokens Phrase.expression) :
    Sound (readList item fuel) Phrase.tokens Phrase.expression := by
  intro tokens e rest h
  obtain ⟨⟨items, after⟩, henclosed, hpair⟩ := Option.map_eq_some_iff.1 h
  cases hpair
  obtain ⟨middle, rfl, hmiddle⟩ := readEnclosed_eq_some_iff.1 henclosed
  rcases readSeparated_sound hitem hmiddle with
    ⟨rfl, rfl⟩ | ⟨first, parts, trailing, -, rfl, rfl⟩
  · exact ⟨.empty .square, rfl, rfl⟩
  · refine ⟨.series .square first parts trailing, ?_, ?_⟩
    · simp [Phrase.tokens, Phrase.tokensOfRest_eq]
    · rw [Phrase.expression, Phrase.expressions_eq_map]; rfl

theorem exists_readSeparated_of_readParts {tokens rest : List Token}
    {items : List Expression} {trailing : Bool}
    (h : readParts item fuel tokens = ((items, trailing), rest)) :
    ∃ last, readSeparated item false fuel tokens = (items, last) ∧
      last = trailingComma trailing ++ rest := by
  revert h
  fun_cases readParts item fuel tokens with
  | case1 items' last hseparated trailing' rest' hcomma =>
    intro h
    cases h
    exact ⟨last, hseparated, eq_trailingComma_of_readComma hcomma⟩

theorem readRound_sound (hitem : Sound item Phrase.tokens Phrase.expression) :
    Sound (readRound item fuel) Phrase.tokens Phrase.expression := by
  intro tokens e rest h
  obtain ⟨⟨⟨items, trailing⟩, after⟩, henclosed, hpair⟩ := Option.map_eq_some_iff.1 h
  cases hpair
  obtain ⟨middle, rfl, hmiddle⟩ := readEnclosed_eq_some_iff.1 henclosed
  obtain ⟨last, hseparated, rfl⟩ := exists_readSeparated_of_readParts hmiddle
  rcases readSeparated_sound hitem hseparated with
    ⟨rfl, hlast⟩ | ⟨first, parts, given, hgiven, rfl, rfl⟩
  · rw [← hlast]
    cases trailing with
    | false => exact ⟨.empty .round, rfl, rfl⟩
    | true => exact ⟨.comma, rfl, rfl⟩
  · obtain rfl : given = false := by simpa using hgiven
    refine ⟨.series .round first parts trailing, ?_, ?_⟩
    · simp [Phrase.tokens, Phrase.tokensOfRest_eq, trailingComma]
    · rw [Phrase.expression, Phrase.expressions_eq_map]

theorem readSet_sound (hitem : Sound item Phrase.tokens Phrase.expression) :
    Sound (readSet item fuel) Phrase.tokens Phrase.expression := by
  intro tokens e rest h
  revert h
  fun_cases readSet item fuel tokens with
  | case1 x xs after henclosed =>
    intro h
    cases h
    obtain ⟨middle, rfl, hmiddle⟩ := readEnclosed_eq_some_iff.1 henclosed
    rcases readSeparated_sound hitem hmiddle with
      ⟨hempty, -⟩ | ⟨first, parts, trailing, -, hitems, rfl⟩
    · cases hempty
    · refine ⟨.series .curly first parts trailing, ?_, ?_⟩
      · simp [Phrase.tokens, Phrase.tokensOfRest_eq]
      · rw [Phrase.expression, Phrase.expressions_eq_map, hitems]; rfl
  | case2 => rintro ⟨⟩

theorem readEntry_sound (hitem : Sound item Phrase.tokens Phrase.expression) :
    Sound (readEntry item) Phrase.tokensOfEntry Phrase.entry := by
  intro tokens e rest h
  revert h
  fun_cases readEntry item tokens with
  | case1 key middle hkey =>
    intro h
    obtain ⟨⟨value, after⟩, hvalue, hpair⟩ := Option.map_eq_some_iff.1 h
    cases hpair
    obtain ⟨a, rfl, rfl⟩ := readAtom_sound hkey
    obtain ⟨p, rfl, rfl⟩ := hitem hvalue
    exact ⟨(a, p), by simp [Phrase.tokensOfEntry], rfl⟩
  | case2 => rintro ⟨⟩

theorem readDict_sound (hitem : Sound item Phrase.tokens Phrase.expression) :
    Sound (readDict item fuel) Phrase.tokens Phrase.expression := by
  intro tokens e rest h
  obtain ⟨⟨entries, after⟩, henclosed, hpair⟩ := Option.map_eq_some_iff.1 h
  cases hpair
  obtain ⟨middle, rfl, hmiddle⟩ := readEnclosed_eq_some_iff.1 henclosed
  rcases readSeparated_sound (readEntry_sound hitem) hmiddle with
    ⟨rfl, rfl⟩ | ⟨⟨key, first⟩, parts, trailing, -, rfl, rfl⟩
  · exact ⟨.empty .curly, rfl, rfl⟩
  · refine ⟨.dict key first parts trailing, ?_, ?_⟩
    · simp [Phrase.tokens, Phrase.tokensOfEntries_eq, Phrase.tokensOfEntry]
    · rw [Phrase.expression, Phrase.entries_eq_map]; rfl

theorem sound_of_mem_alternatives (hitem : Sound item Phrase.tokens Phrase.expression)
    {alternative : Reader Expression} (h : alternative ∈ alternatives item fuel) :
    Sound alternative Phrase.tokens Phrase.expression := by
  simp only [alternatives, List.mem_cons, List.not_mem_nil, or_false] at h
  rcases h with rfl | rfl | rfl | rfl | rfl
  · intro tokens e rest h
    obtain ⟨⟨value, after⟩, hatom, hpair⟩ := Option.map_eq_some_iff.1 h
    cases hpair
    obtain ⟨a, rfl, rfl⟩ := readAtom_sound hatom
    exact ⟨.atom a, rfl, rfl⟩
  · exact readList_sound hitem
  · exact readRound_sound hitem
  · exact readDict_sound hitem
  · exact readSet_sound hitem

end

theorem readExpression_sound (fuel : Nat) :
    Sound (readExpression fuel) Phrase.tokens Phrase.expression := by
  induction fuel with
  | zero => rintro tokens e rest ⟨⟩
  | succ fuel ih =>
    intro tokens e rest h
    obtain ⟨alternative, hmem, htakes⟩ := List.exists_of_findSome?_eq_some h
    exact sound_of_mem_alternatives ih hmem htakes

/-- A reader takes every part that is written in at most so many tokens. -/
def Complete {α β : Type} (item : Reader α) (write : β → List Token) (value : β → α)
    (bound : Nat) : Prop :=
  ∀ ⦃part : β⦄, (write part).length ≤ bound → ∀ rest : List Token,
    item (write part ++ rest) = some (value part, rest)

/-- A reader fails where nothing begins. -/
def Refuses {α : Type} (item : Reader α) : Prop :=
  ∀ token : Token, token.begins = false → ∀ rest : List Token, item (token :: rest) = none

/-- Each part behind a comma is shorter than all of them. -/
theorem length_lt_of_mem {β : Type} (write : β → List Token) {parts : List β} {part : β}
    (h : part ∈ parts) : (write part).length < (commaBeforeEach write parts).length := by
  have hsub := List.sublist_flatten_of_mem
    (List.mem_map_of_mem (f := fun part => Token.comma :: write part) h)
  exact hsub.length_le

theorem length_le_commaBeforeEach {β : Type} (write : β → List Token) (parts : List β) :
    parts.length ≤ (commaBeforeEach write parts).length := by
  induction parts with
  | nil => exact Nat.le_refl 0
  | cons part parts ih =>
    rw [commaBeforeEach_cons]
    simp only [List.length_append, List.length_cons]
    omega

section

variable {α β : Type} {item : Reader α} {write : β → List Token} {value : β → α} {bound : Nat}

theorem refuses_of_sound (hitem : Sound item write value)
    (hwrite : ∀ part r token s, token.begins = false → write part ++ r ≠ token :: s) :
    Refuses item := by
  intro token htoken rest
  cases h : item (token :: rest) with
  | none => rfl
  | some result =>
    obtain ⟨part, heq, -⟩ := hitem h
    exact absurd heq.symm (hwrite _ _ _ _ htoken)

theorem readMore_complete (hitem : Complete item write value bound) (hrefuses : Refuses item)
    (allowTrailing : Bool) {fuel : Nat} {parts : List β} (hfuel : parts.length < fuel)
    (hparts : ∀ part ∈ parts, (write part).length ≤ bound) (trailing : Bool)
    (bracket : Bracket) (rest : List Token) :
    readMore item allowTrailing fuel
        (commaBeforeEach write parts ++
          (trailingComma trailing ++ .closing bracket :: rest)) =
      (parts.map value,
        trailingComma (!allowTrailing && trailing) ++ .closing bracket :: rest) := by
  induction parts generalizing fuel with
  | nil =>
    obtain ⟨fuel, rfl⟩ : ∃ n, fuel = n + 1 := ⟨fuel - 1, by simp at hfuel; omega⟩
    have hclosing := hrefuses (.closing bracket) rfl rest
    cases trailing <;> cases allowTrailing <;> simp [readMore, trailingComma, hclosing]
  | cons part parts ih =>
    obtain ⟨fuel, rfl⟩ : ∃ n, fuel = n + 1 := ⟨fuel - 1, by simp at hfuel; omega⟩
    have hmore := ih (Nat.lt_of_succ_lt_succ hfuel) fun p hp => hparts p (List.mem_cons_of_mem _ hp)
    simp only [commaBeforeEach_cons, List.append_assoc, List.cons_append, readMore]
    rw [hitem (hparts part List.mem_cons_self)]
    simp [hmore]

theorem readSeparated_of_refuses (hrefuses : Refuses item) (allowTrailing : Bool) (fuel : Nat)
    (token : Token) (h : token.begins = false) (rest : List Token) :
    readSeparated item allowTrailing fuel (token :: rest) = ([], token :: rest) := by
  rw [readSeparated, hrefuses token h]

theorem readSeparated_complete (hitem : Complete item write value bound)
    (hrefuses : Refuses item) (allowTrailing : Bool) (first : β) (parts : List β)
    (hlength : (write first).length +
      (commaBeforeEach write parts).length < bound)
    (trailing : Bool) (bracket : Bracket) (rest : List Token) :
    readSeparated item allowTrailing bound
        (write first ++ (commaBeforeEach write parts ++
          (trailingComma trailing ++ .closing bracket :: rest))) =
      (value first :: parts.map value,
        trailingComma (!allowTrailing && trailing) ++ .closing bracket :: rest) := by
  have hcount : parts.length < bound := by
    have := length_le_commaBeforeEach write parts
    omega
  have hparts : ∀ part ∈ parts, (write part).length ≤ bound := by
    intro part hpart
    have := length_lt_of_mem write hpart
    omega
  rw [readSeparated, hitem (by omega)]
  simp [readMore_complete hitem hrefuses allowTrailing hcount hparts]

end

theorem readAtom_complete (a : Atom) (rest : List Token) :
    readAtom (a.tokens ++ rest) = some (a.scalar, rest) := by
  cases a <;> rfl

theorem readExpression_refuses (fuel : Nat) : Refuses (readExpression fuel) :=
  refuses_of_sound (readExpression_sound fuel) fun p r _ s h => p.tokens_append_ne r s h

section

variable {item : Reader Expression}

theorem readEntry_refuses (hitem : Sound item Phrase.tokens Phrase.expression) :
    Refuses (readEntry item) := by
  refine refuses_of_sound (readEntry_sound hitem) fun part r token s h => ?_
  rw [Phrase.tokensOfEntry, List.append_assoc]
  exact (Phrase.atom part.1).tokens_append_ne _ s h

theorem readEntry_complete {bound : Nat}
    (hitem : Complete item Phrase.tokens Phrase.expression bound) :
    Complete (readEntry item) Phrase.tokensOfEntry Phrase.entry bound := by
  rintro ⟨key, p⟩ hlength rest
  simp only [Phrase.tokensOfEntry, List.length_append, List.length_cons] at hlength
  simp only [Phrase.tokensOfEntry, List.append_assoc, List.cons_append, readEntry,
    readAtom_complete]
  rw [hitem (by omega)]
  rfl

variable {fuel : Nat}

theorem readParts_of_readSeparated {tokens rest : List Token} {items : List Expression}
    {trailing : Bool} {bracket : Bracket}
    (h : readSeparated item false fuel tokens =
      (items, trailingComma trailing ++ .closing bracket :: rest)) :
    readParts item fuel tokens = ((items, trailing), .closing bracket :: rest) := by
  rw [readParts, h]
  cases trailing <;> rfl

theorem readDict_isSome (hsound : Sound item Phrase.tokens Phrase.expression)
    (hcomplete : Complete item Phrase.tokens Phrase.expression fuel) (key : Atom)
    (value : Phrase) (parts : List (Atom × Phrase)) (trailing : Bool)
    (hlength : (Phrase.dict key value parts trailing).tokens.length ≤ fuel + 1)
    (rest : List Token) :
    (readDict item fuel ((Phrase.dict key value parts trailing).tokens ++ rest)).isSome := by
  simp only [Phrase.tokens, Phrase.tokensOfEntries_eq, List.length_cons,
    List.length_append] at hlength
  have hentry : (Phrase.tokensOfEntry (key, value)).length =
      key.tokens.length + (value.tokens.length + 1) := by simp [Phrase.tokensOfEntry]
  have hentries := readSeparated_complete (readEntry_complete hcomplete)
    (readEntry_refuses hsound) true (key, value) parts
    (by rw [hentry]; omega) trailing .curly rest
  have henclosed := readEnclosed_eq_some_iff.2 ⟨_, rfl, hentries⟩
  have htokens : (Phrase.dict key value parts trailing).tokens ++ rest =
      .opening .curly :: (Phrase.tokensOfEntry (key, value) ++
        (commaBeforeEach Phrase.tokensOfEntry parts ++
          (trailingComma trailing ++ .closing .curly :: rest))) := by
    simp [Phrase.tokens, Phrase.tokensOfEntry, Phrase.tokensOfEntries_eq]
  rw [readDict, htokens, henclosed]
  rfl

theorem exists_alternative_of_series (hrefuses : Refuses item)
    (hcomplete : Complete item Phrase.tokens Phrase.expression fuel) (bracket : Bracket)
    (first : Phrase) (parts : List Phrase) (trailing : Bool)
    (hlength : (Phrase.series bracket first parts trailing).tokens.length ≤ fuel + 1)
    (rest : List Token) :
    ∃ alternative ∈ alternatives item fuel,
      (alternative ((Phrase.series bracket first parts trailing).tokens ++ rest)).isSome := by
  simp only [Phrase.tokens, Phrase.tokensOfRest_eq, List.length_cons,
    List.length_append] at hlength
  have hitems := fun allowTrailing => readSeparated_complete hcomplete hrefuses allowTrailing
    first parts (by omega) trailing bracket rest
  have htokens : (Phrase.series bracket first parts trailing).tokens ++ rest =
      .opening bracket :: (first.tokens ++ (commaBeforeEach Phrase.tokens parts ++
        (trailingComma trailing ++ .closing bracket :: rest))) := by
    simp [Phrase.tokens, Phrase.tokensOfRest_eq]
  rw [htokens]
  cases bracket with
  | square =>
    refine ⟨readList item fuel, by simp [alternatives], ?_⟩
    rw [readList, readEnclosed_eq_some_iff.2 ⟨_, rfl, hitems true⟩]
    rfl
  | round =>
    refine ⟨readRound item fuel, by simp [alternatives], ?_⟩
    have hparts := readParts_of_readSeparated (hitems false)
    rw [readRound, readEnclosed_eq_some_iff.2 ⟨_, rfl, hparts⟩]
    rfl
  | curly =>
    refine ⟨readSet item fuel, by simp [alternatives], ?_⟩
    rw [readSet, readEnclosed_eq_some_iff.2 ⟨_, rfl, hitems true⟩]
    rfl

/-- Some alternative takes a phrase. -/
theorem exists_alternative (hsound : Sound item Phrase.tokens Phrase.expression)
    (hrefuses : Refuses item)
    (hcomplete : Complete item Phrase.tokens Phrase.expression fuel) (p : Phrase)
    (hlength : p.tokens.length ≤ fuel + 1) (rest : List Token) :
    ∃ alternative ∈ alternatives item fuel, (alternative (p.tokens ++ rest)).isSome := by
  match p with
  | .atom a =>
    refine ⟨_, List.mem_cons_self, ?_⟩
    simp [Phrase.tokens, readAtom_complete]
  | .empty .square =>
    have hnone := readSeparated_of_refuses hrefuses true fuel (.closing .square) rfl rest
    refine ⟨readList item fuel, by simp [alternatives], ?_⟩
    simp [Phrase.tokens, readList, readEnclosed, hnone]
  | .empty .round =>
    have hnone := readSeparated_of_refuses hrefuses false fuel (.closing .round) rfl rest
    refine ⟨readRound item fuel, by simp [alternatives], ?_⟩
    simp [Phrase.tokens, readRound, readEnclosed, readParts, hnone, readComma]
  | .empty .curly =>
    have hnone := readSeparated_of_refuses (readEntry_refuses hsound) true fuel
      (.closing .curly) rfl rest
    refine ⟨readDict item fuel, by simp [alternatives], ?_⟩
    simp [Phrase.tokens, readDict, readEnclosed, hnone]
  | .comma =>
    have hnone := readSeparated_of_refuses hrefuses false fuel .comma rfl
      (.closing .round :: rest)
    refine ⟨readRound item fuel, by simp [alternatives], ?_⟩
    simp [Phrase.tokens, readRound, readEnclosed, readParts, hnone, readComma]
  | .series bracket first parts trailing =>
    exact exists_alternative_of_series hrefuses hcomplete bracket first parts trailing hlength rest
  | .dict key value parts trailing =>
    exact ⟨readDict item fuel, by simp [alternatives],
      readDict_isSome hsound hcomplete key value parts trailing hlength rest⟩

end

/-- Whichever alternative takes a phrase, it takes that phrase. -/
theorem readExpression_complete (fuel : Nat) :
    Complete (readExpression fuel) Phrase.tokens Phrase.expression fuel := by
  induction fuel with
  | zero =>
    intro p hlength
    obtain ⟨token, tokens, hp, -⟩ := p.head_begins
    simp [hp] at hlength
  | succ fuel ih =>
    intro p hlength rest
    -- An alternative before the right one may succeed as well, but what it takes is a phrase
    -- too, and no other phrase is written in the tokens at the front.
    have hsome : (readExpression (fuel + 1) (p.tokens ++ rest)).isSome :=
      List.findSome?_isSome_iff.2 (exists_alternative (readExpression_sound fuel)
        (readExpression_refuses fuel) ih p hlength rest)
    obtain ⟨⟨e, after⟩, hread⟩ := Option.isSome_iff_exists.1 hsome
    obtain ⟨q, htokens, rfl⟩ := readExpression_sound (fuel + 1) hread
    obtain ⟨rfl, rfl⟩ := Phrase.tokens_append_inj p q htokens
    exact hread

theorem readExpression_eq_some_iff {fuel : Nat} {tokens : List Token}
    (hfuel : tokens.length ≤ fuel) (e : Expression) :
    readExpression fuel tokens = some (e, []) ↔ Derives tokens e := by
  constructor
  · intro hread
    obtain ⟨p, htokens, rfl⟩ := readExpression_sound _ hread
    exact ⟨p, by rw [htokens, List.append_nil], rfl⟩
  · rintro ⟨p, rfl, rfl⟩
    have hread := readExpression_complete fuel hfuel []
    rwa [List.append_nil] at hread

/-- The order of the choices loses nothing and adds nothing. -/
theorem read_eq_some_iff (tokens : List Token) (e : Expression) :
    read tokens = some e ↔ Derives tokens e := by
  rw [← readExpression_eq_some_iff (Nat.le_refl tokens.length), read]
  split
  · rename_i hread
    simp [hread]
  · rename_i hne
    simp only [reduceCtorEq, false_iff]
    exact hne e

end Choice

end Wiring.Expression
