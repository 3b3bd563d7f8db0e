import Wiring.Proofs.Expression.Acceptance

/-!
Where commas stand in what is accepted. A comma goes on with brackets that are open and of
which at least one part is finished, and the token in front of it is the last one of that
part. Round brackets alone may also hold a comma and nothing else, which is then another way
to write the empty tuple.
-/

namespace Wiring.Expression

/-- Tokens that end with a part of brackets that are open there: an element of a series, or
an entry of a dictionary. The parts before it have a comma behind each. -/
inductive EndsInPart : List Token → Prop where
  | element (outer : List Token) (bracket : Bracket) (parts : List Phrase) (last : Phrase) :
      EndsInPart (outer ++ .opening bracket ::
        (commaAfterEach Phrase.tokens parts ++ last.tokens))
  | entry (outer : List Token) (parts : List (Atom × Phrase)) (last : Atom × Phrase) :
      EndsInPart (outer ++ .opening .curly ::
        (commaAfterEach Phrase.tokensOfEntry parts ++ Phrase.tokensOfEntry last))

/-- Whether an expression may end with a token. -/
def Token.ends : Token → Bool
  | .closing _ => true
  | token => token.scalar?.isSome

theorem Atom.last_ends (a : Atom) :
    ∃ front token, a.tokens = front ++ [token] ∧ token.ends = true := by
  cases a with
  | negativeInt n => exact ⟨[.minus], .int n, rfl, rfl⟩
  | negativeFloat x => exact ⟨[.minus], .float x, rfl, rfl⟩
  | _ => exact ⟨[], _, rfl, rfl⟩

/-- An expression ends with a scalar or a closing bracket. -/
theorem Phrase.last_ends (p : Phrase) :
    ∃ front token, p.tokens = front ++ [token] ∧ token.ends = true := by
  have hclosed (front : List Token) (bracket : Bracket) :
      ∃ init token, front ++ [Token.closing bracket] = init ++ [token] ∧ token.ends = true :=
    ⟨front, .closing bracket, rfl, rfl⟩
  cases p with
  | atom a => exact a.last_ends
  | empty bracket => exact hclosed [.opening bracket] bracket
  | comma => exact hclosed [.opening .round, .comma] .round
  | series bracket first rest trailing =>
    have htokens : (series bracket first rest trailing).tokens =
        (.opening bracket :: (first.tokens ++ (tokensOfRest rest ++ trailingComma trailing))) ++
          [.closing bracket] := by
      simp [tokens]
    rw [htokens]
    exact hclosed _ bracket
  | dict key value rest trailing =>
    have htokens : (dict key value rest trailing).tokens =
        (.opening .curly :: (key.tokens ++ .colon ::
          (value.tokens ++ (tokensOfEntries rest ++ trailingComma trailing)))) ++
          [.closing .curly] := by
      simp [tokens]
    rw [htokens]
    exact hclosed _ .curly

theorem EndsInPart.last_ends {front : List Token} {token : Token}
    (h : EndsInPart (front ++ [token])) : token.ends = true := by
  have hlast (before : List Token) (p : Phrase) (heq : front ++ [token] = before ++ p.tokens) :
      token.ends = true := by
    obtain ⟨init, last, hp, hends⟩ := p.last_ends
    rw [hp, ← List.append_assoc] at heq
    obtain ⟨-, hsame⟩ := List.append_inj' heq rfl
    rwa [List.singleton_inj.mp hsame]
  generalize htokens : front ++ [token] = tokens at h
  cases h with
  | element outer bracket parts last =>
    apply hlast (outer ++ .opening bracket :: commaAfterEach Phrase.tokens parts) last
    simp [htokens]
  | entry outer parts last =>
    apply hlast (outer ++ .opening .curly ::
      (commaAfterEach Phrase.tokensOfEntry parts ++ (last.1.tokens ++ [.colon]))) last.2
    simp [htokens, Phrase.tokensOfEntry]

/-! What a comma does to a reading. -/

/-- A comma is taken behind a part, or in round brackets that were just opened. -/
inductive TakesComma : List Token → Progress → Prop where
  | behind {front : List Token} {next : Progress} (hpart : EndsInPart front) :
      TakesComma front next
  | alone (before : List Token) (frames : List Frame) :
      TakesComma (before ++ [.opening .round]) (.emptyTuple frames)

theorem Opened.endsInPart {frames : List Frame} {tokens : List Token} (h : Opened frames tokens)
    (p : Phrase) {next : Progress}
    (hstep : Progress.stepAfter p.expression frames .comma = some next) :
    EndsInPart (tokens ++ p.tokens) := by
  cases h with
  | nil => cases hstep
  | @series frames tokens outer bracket parts =>
    have hpart := EndsInPart.element tokens bracket parts p
    simpa using hpart
  | @dict frames tokens outer parts hparts =>
    obtain ⟨part, parts, rfl⟩ := List.exists_cons_of_ne_nil hparts
    cases hstep
  | @value frames tokens outer parts key =>
    have hpart := EndsInPart.entry tokens parts (key, p)
    simpa [Phrase.tokensOfEntry] using hpart

theorem Reached.takesComma {progress next : Progress} {front : List Token}
    (h : Reached progress front) (hstep : progress.step .comma = some next) :
    TakesComma front next := by
  cases h with
  | @before frames tokens outer =>
    -- No expression begins with a comma, so it can only be the one alone in round brackets.
    change Progress.stepBefore frames .comma = some next at hstep
    match frames with
    | .round [] :: frames =>
      obtain ⟨before, -, rfl⟩ := Opened.of_hollow .round outer
      cases hstep
      exact .alone before frames
    | [] => cases hstep
    | .round (_ :: _) :: _ => cases hstep
    | .list _ :: _ => cases hstep
    | .curly :: _ => cases hstep
    | .set _ :: _ => cases hstep
    | .dict _ :: _ => cases hstep
    | .value _ _ :: _ => cases hstep
  | negative outer => cases hstep
  | @afterScalar frames tokens outer a =>
    change Progress.stepAfterScalar a.scalar frames .comma = some next at hstep
    by_cases hkey : AwaitsKey frames
    · match frames, hkey with
      | .dict _ :: _, _ => cases hstep
    · rw [Progress.stepAfterScalar_eq a.scalar hkey Token.noConfusion] at hstep
      exact .behind (outer.endsInPart (.atom a) hstep)
  | after outer p => exact .behind (outer.endsInPart p hstep)
  | emptyTuple outer => cases hstep

/-- A reading that has come to an end took the last part of its tokens from some place. -/
theorem Derives.exists_run {front back : List Token} {e : Expression}
    (h : Derives (front ++ back) e) :
    ∃ progress last, Reached progress front ∧ Progress.start.run front = some progress ∧
      progress.run back = some last ∧ last.result? = some e := by
  obtain ⟨last, hrun, hresult⟩ := (derives_iff_run _ e).1 h
  rw [Progress.run_append] at hrun
  obtain ⟨progress, hfront, hback⟩ := Option.bind_eq_some_iff.1 hrun
  exact ⟨progress, last, (Reached.before .nil).run hfront, hfront, hback, hresult⟩

theorem Derives.behind_or_alone {front back : List Token} {e : Expression}
    (h : Derives (front ++ .comma :: back) e) :
    EndsInPart front ∨
      ∃ before after, front = before ++ [.opening .round] ∧ back = .closing .round :: after := by
  obtain ⟨progress, last, hreached, -, hback, hresult⟩ := h.exists_run
  rw [Progress.run_cons] at hback
  obtain ⟨next, hstep, hrest⟩ := Option.bind_eq_some_iff.1 hback
  cases hreached.takesComma hstep with
  | behind hpart => exact Or.inl hpart
  | alone before frames =>
    -- Behind a comma alone only the closing bracket is taken.
    cases back with
    | nil =>
      cases hrest
      cases hresult
    | cons token after =>
      rw [Progress.run_cons] at hrest
      obtain ⟨third, hclose, -⟩ := Option.bind_eq_some_iff.1 hrest
      cases token
      case closing bracket =>
        cases bracket <;> cases hclose
        exact Or.inr ⟨before, after, rfl, rfl⟩
      all_goals cases hclose

/-- An opening bracket is taken only where an expression may begin, unless a key must stand
there. -/
theorem Progress.before_of_step_opening {progress next : Progress} {bracket : Bracket}
    (hstep : progress.step (.opening bracket) = some next) :
    ∃ frames, progress = .before frames ∧ ¬AwaitsKey frames := by
  have hafter (value : Expression) (frames : List Frame)
      (hstep : stepAfter value frames (.opening bracket) = some next) : False := by
    rcases stepAfter_token hstep with heq | ⟨_, heq⟩ <;> cases heq
  cases progress with
  | before frames =>
    refine ⟨frames, rfl, fun hkey => ?_⟩
    match frames, hkey with
    | .dict _ :: _, _ => cases hstep
  | negative frames => cases hstep
  | afterScalar value frames =>
    change stepAfterScalar value frames (.opening bracket) = some next at hstep
    by_cases hkey : AwaitsKey frames
    · match frames, hkey with
      | .dict _ :: _, _ => cases hstep
    · rw [stepAfterScalar_eq value hkey Token.noConfusion] at hstep
      exact (hafter _ frames hstep).elim
  | after value frames => exact (hafter value frames hstep).elim
  | emptyTuple frames => cases hstep

/-- The tokens of round brackets that hold a comma and nothing else. -/
def commaAlone : List Token := [.opening .round, .comma, .closing .round]

/-- Where such brackets stand, the empty tuple could be written without the comma. -/
theorem Derives.without_comma {front back : List Token} {e : Expression}
    (h : Derives (front ++ (commaAlone ++ back)) e) :
    Derives (front ++ (.opening .round :: .closing .round :: back)) e := by
  obtain ⟨progress, last, -, hfront, hback, hresult⟩ := h.exists_run
  have hopening := hback
  rw [commaAlone, List.cons_append, Progress.run_cons] at hopening
  obtain ⟨next, hstep, -⟩ := Option.bind_eq_some_iff.1 hopening
  obtain ⟨frames, rfl, hkey⟩ := Progress.before_of_step_opening hstep
  have halone := Phrase.comma.run_tokens hkey
  have hempty := (Phrase.empty .round).run_tokens hkey
  have hsame := Progress.run_append_of_run halone back
  have hother := Progress.run_append_of_run hempty back
  rw [derives_iff_run]
  refine ⟨last, ?_, hresult⟩
  rw [Progress.run_append_of_run hfront]
  exact hother.trans (hsame.symm.trans hback)

/-- What stands in front of a comma is neither a comma nor, unless the comma is alone, an
opening bracket. -/
theorem Derives.token_before_comma {front back : List Token} {token : Token} {e : Expression}
    (h : Derives (front ++ token :: .comma :: back) e) :
    token.ends = true ∨ token = .opening .round ∧ ∃ after, back = .closing .round :: after := by
  have hsplit : front ++ token :: .comma :: back = (front ++ [token]) ++ .comma :: back := by
    simp
  rw [hsplit] at h
  rcases h.behind_or_alone with hpart | ⟨before, after, hfront, hback⟩
  · exact Or.inl hpart.last_ends
  · obtain ⟨-, hlast⟩ := List.append_inj' hfront rfl
    exact Or.inr ⟨List.singleton_inj.mp hlast, after, hback⟩

/-- In a text that is accepted, every comma stands behind a part of the brackets it is in,
whether more parts follow or not, or else alone in round brackets. So no comma directly
follows another one, and none but that follows an opening bracket; and that one may as well
be left out. -/
theorem commas_follow_parts (text : String) (e : Expression) (h : parse text = .ok e) :
    let written := (tokens text).map SpannedToken.token
    (∀ front back, written = front ++ .comma :: back → EndsInPart front ∨
      ∃ before after, front = before ++ [.opening .round] ∧ back = .closing .round :: after) ∧
    (∀ front back, written ≠ front ++ .comma :: .comma :: back) ∧
    (∀ front bracket back, written = front ++ .opening bracket :: .comma :: back →
      bracket = .round ∧ ∃ after, back = .closing .round :: after) ∧
    ∀ front back, written = front ++ (commaAlone ++ back) →
      Derives (front ++ (.opening .round :: .closing .round :: back)) e := by
  intro written
  have hwritten : Derives written e := derives_of_parse h
  refine ⟨?_, ?_, ?_, ?_⟩
  · intro front back hsplit
    rw [hsplit] at hwritten
    exact hwritten.behind_or_alone
  · intro front back hsplit
    rw [hsplit] at hwritten
    rcases hwritten.token_before_comma with hends | ⟨hopening, -⟩
    · cases hends
    · cases hopening
  · intro front bracket back hsplit
    rw [hsplit] at hwritten
    rcases hwritten.token_before_comma with hends | ⟨hopening, hback⟩
    · cases hends
    · exact ⟨Token.opening.inj hopening, hback⟩
  · intro front back hsplit
    rw [hsplit] at hwritten
    exact hwritten.without_comma

/-- A list of an empty tuple written with a comma, and a dictionary with a set in it, where
every part has a comma behind it. -/
def commaRich : Expression :=
  .group .list [.group .tuple [], .dict [(.int 1, .group .set [.atom (.int 2)])]]

/-- The comma behind the 2 belongs to an element, and the one behind the first round bracket
may be left out. -/
theorem commas_follow_parts_commaRich :
    parse "[(,), \x7b1: \x7b2,\x7d,\x7d,]" = .ok commaRich ∧
      (tokens "[(,), \x7b1: \x7b2,\x7d,\x7d,]").map SpannedToken.token =
        [.opening .square, .opening .round, .comma, .closing .round, .comma, .opening .curly,
          .int 1, .colon, .opening .curly, .int 2, .comma, .closing .curly, .comma,
          .closing .curly, .comma, .closing .square] ∧
      EndsInPart [.opening .square, .opening .round, .comma, .closing .round, .comma,
        .opening .curly, .int 1, .colon, .opening .curly, .int 2] ∧
      Derives [.opening .square, .opening .round, .closing .round, .comma, .opening .curly,
        .int 1, .colon, .opening .curly, .int 2, .comma, .closing .curly, .comma,
        .closing .curly, .comma, .closing .square] commaRich := by
  have htokens : (tokens "[(,), \x7b1: \x7b2,\x7d,\x7d,]").map SpannedToken.token =
      [.opening .square, .opening .round, .comma, .closing .round, .comma, .opening .curly,
        .int 1, .colon, .opening .curly, .int 2, .comma, .closing .curly, .comma,
        .closing .curly, .comma, .closing .square] := by
    decide +kernel
  have hparse : parse "[(,), \x7b1: \x7b2,\x7d,\x7d,]" = .ok commaRich := by
    rw [parse, Progress.finish_ok_iff, htokens]
    exact ⟨.after commaRich [], rfl, rfl⟩
  obtain ⟨hbehind, -, -, hwithout⟩ := commas_follow_parts _ _ hparse
  refine ⟨hparse, htokens, ?_, hwithout [.opening .square] _ htokens⟩
  rcases hbehind [.opening .square, .opening .round, .comma, .closing .round, .comma,
    .opening .curly, .int 1, .colon, .opening .curly, .int 2] _ htokens with
    hpart | ⟨before, after, -, hback⟩
  · exact hpart
  · cases hback

/-- A comma alone is accepted in round brackets, right behind the opening one. -/
theorem comma_alone_accepted :
    (tokens "(,)").map SpannedToken.token = [.opening .round, .comma, .closing .round] ∧
      parse "(,)" = .ok (.group .tuple []) := by
  have htokens : (tokens "(,)").map SpannedToken.token =
      [.opening .round, .comma, .closing .round] := by
    decide +kernel
  refine ⟨htokens, ?_⟩
  rw [parse, Progress.finish_ok_iff, htokens]
  exact ⟨.after (.group .tuple []) [], rfl, rfl⟩

end Wiring.Expression
