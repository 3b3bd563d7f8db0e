import Wiring.Proofs.Expression.Choice
import Wiring.Proofs.Expression.Run

/-!
The reading accepts exactly the token sequences that the grammar derives, and gives the
expression derived. What was read up to any place is a sequence of phrases in brackets
that are still open; every step keeps that up, and where the reading may end nothing is
open any more.
-/

namespace Wiring.Expression

namespace Phrase

theorem expressions_concat (parts : List Phrase) (last : Phrase) :
    expressions (parts ++ [last]) = expressions parts ++ [last.expression] := by
  simp [expressions_eq_map]

theorem entries_concat (parts : List (Atom × Phrase)) (key : Atom) (last : Phrase) :
    entries (parts ++ [(key, last)]) = entries parts ++ [(key.scalar, last.expression)] := by
  simp [entries_eq_map, entry]

/-- Brackets closed behind a comma, or around nothing. -/
theorem exists_closed_before (bracket : Bracket) (parts : List Phrase) :
    ∃ q : Phrase,
      q.tokens = .opening bracket :: (commaAfterEach tokens parts ++ [.closing bracket]) ∧
      q.expression = bracket.enclose (expressions parts) true := by
  match parts with
  | [] => exact ⟨.empty bracket, rfl, by cases bracket <;> rfl⟩
  | first :: rest =>
    refine ⟨.series bracket first rest true, ?_, rfl⟩
    simp [tokens, trailingComma, tokensOfRest_eq, commaBeforeEach_comma, commaAfterEach_cons]

/-- Brackets closed behind a part. -/
theorem exists_closed_after (bracket : Bracket) (parts : List Phrase) (last : Phrase) :
    ∃ q : Phrase,
      q.tokens =
        .opening bracket :: (commaAfterEach tokens parts ++ (last.tokens ++ [.closing bracket])) ∧
      q.expression = bracket.enclose (expressions parts ++ [last.expression]) false := by
  match parts with
  | [] => exact ⟨.series bracket last [] false, rfl, rfl⟩
  | first :: rest =>
    refine ⟨.series bracket first (rest ++ [last]) false, ?_, ?_⟩
    · simp [tokens, trailingComma, tokensOfRest_eq, commaBeforeEach_concat, commaAfterEach_cons]
    · rw [expression, expressions_concat]; rfl

theorem exists_dict_closed_before {parts : List (Atom × Phrase)} (h : parts ≠ []) :
    ∃ q : Phrase,
      q.tokens =
        .opening .curly :: (commaAfterEach tokensOfEntry parts ++ [.closing .curly]) ∧
      q.expression = .dict (entries parts) := by
  match parts with
  | (key, value) :: rest =>
    refine ⟨.dict key value rest true, ?_, rfl⟩
    simp [tokens, trailingComma, tokensOfEntries_eq, commaBeforeEach_comma, commaAfterEach_cons,
      tokensOfEntry]

theorem exists_dict_closed_after (parts : List (Atom × Phrase)) (key : Atom) (last : Phrase) :
    ∃ q : Phrase,
      q.tokens = .opening .curly :: (commaAfterEach tokensOfEntry parts ++
        (key.tokens ++ .colon :: (last.tokens ++ [.closing .curly]))) ∧
      q.expression = .dict (entries parts ++ [(key.scalar, last.expression)]) := by
  match parts with
  | [] => exact ⟨.dict key last [] false, rfl, rfl⟩
  | (first, value) :: rest =>
    refine ⟨.dict first value (rest ++ [(key, last)]) false, ?_, ?_⟩
    · simp [tokens, trailingComma, tokensOfEntries_eq, commaBeforeEach_concat,
        commaAfterEach_cons, tokensOfEntry]
    · rw [expression, entries_concat]; rfl

end Phrase

/-- Tokens that leave brackets open, with a part of the innermost ones to come next. The
frames hold what is finished in each of them. -/
inductive Opened : List Frame → List Token → Prop where
  | nil : Opened [] []
  | series {frames : List Frame} {tokens : List Token} (outer : Opened frames tokens)
      (bracket : Bracket) (parts : List Phrase) :
      Opened (.ofItems bracket (Phrase.expressions parts) :: frames)
        (tokens ++ .opening bracket :: commaAfterEach Phrase.tokens parts)
  | dict {frames : List Frame} {tokens : List Token} (outer : Opened frames tokens)
      {parts : List (Atom × Phrase)} (hparts : parts ≠ []) :
      Opened (.ofEntries (Phrase.entries parts) :: frames)
        (tokens ++ .opening .curly :: commaAfterEach Phrase.tokensOfEntry parts)
  | value {frames : List Frame} {tokens : List Token} (outer : Opened frames tokens)
      (parts : List (Atom × Phrase)) (key : Atom) :
      Opened (.value (Phrase.entries parts) key.scalar :: frames)
        (tokens ++ .opening .curly ::
          (commaAfterEach Phrase.tokensOfEntry parts ++ (key.tokens ++ [.colon])))

/-- The tokens behind which a reading has come so far. -/
inductive Reached : Progress → List Token → Prop where
  | before {frames : List Frame} {tokens : List Token} (outer : Opened frames tokens) :
      Reached (.before frames) tokens
  | negative {frames : List Frame} {tokens : List Token} (outer : Opened frames tokens) :
      Reached (.negative frames) (tokens ++ [.minus])
  | afterScalar {frames : List Frame} {tokens : List Token} (outer : Opened frames tokens)
      (a : Atom) : Reached (.afterScalar a.scalar frames) (tokens ++ a.tokens)
  | after {frames : List Frame} {tokens : List Token} (outer : Opened frames tokens)
      (p : Phrase) : Reached (.after p.expression frames) (tokens ++ p.tokens)
  | emptyTuple {frames : List Frame} {tokens : List Token} (outer : Opened frames tokens) :
      Reached (.emptyTuple frames) (tokens ++ [.opening .round, .comma])

namespace Opened

variable {frames : List Frame} {tokens : List Token} {next : Progress}

/-- Brackets with nothing finished were just opened. -/
theorem of_hollow (bracket : Bracket) (h : Opened (.ofItems bracket [] :: frames) tokens) :
    ∃ front, Opened frames front ∧ tokens = front ++ [.opening bracket] := by
  generalize hhead : Frame.ofItems bracket [] = head at h
  cases h with
  | series outer bracket' parts =>
    obtain ⟨rfl, hparts⟩ := Frame.ofItems_inj hhead
    obtain rfl : parts = [] := by simpa [Phrase.expressions_eq_map] using hparts.symm
    exact ⟨_, outer, rfl⟩
  | @dict _ _ outer parts hparts =>
    obtain ⟨part, parts, rfl⟩ := List.exists_cons_of_ne_nil hparts
    cases bracket <;> cases hhead
  | value outer parts key => cases bracket <;> cases hhead

/-- Curly brackets where only a key can stand hold entries. -/
theorem of_dict {entries : List (Scalar × Expression)}
    (h : Opened (.dict entries :: frames) tokens) :
    ∃ front parts, Opened frames front ∧ entries = Phrase.entries parts ∧
      tokens = front ++ .opening .curly :: commaAfterEach Phrase.tokensOfEntry parts := by
  generalize hhead : Frame.dict entries = head at h
  cases h with
  | series outer bracket parts =>
    cases bracket <;> rcases parts with _ | ⟨p, parts⟩ <;> cases hhead
  | @dict _ _ outer parts hparts =>
    obtain ⟨part, parts, rfl⟩ := List.exists_cons_of_ne_nil hparts
    cases hhead
    exact ⟨_, _, outer, rfl, rfl⟩
  | value outer parts key => cases hhead

theorem openFrame (h : Opened frames tokens) {bracket : Bracket}
    (hstep : Progress.openFrame bracket frames = some next) :
    Reached next (tokens ++ [.opening bracket]) := by
  revert hstep
  fun_cases Progress.openFrame bracket frames with
  | case1 => rintro ⟨⟩
  | case2 =>
    rintro ⟨⟩
    have houter := h.series bracket []
    cases bracket <;> exact .before houter

theorem closeBefore (h : Opened frames tokens) {bracket : Bracket}
    (hstep : Progress.closeBefore bracket frames = some next) :
    Reached next (tokens ++ [.closing bracket]) := by
  cases h with
  | nil => cases bracket <;> cases hstep
  | series outer opening parts =>
    rw [Progress.closeBefore_ofItems, Option.ite_none_right_eq_some, Option.some.injEq] at hstep
    obtain ⟨rfl, rfl⟩ := hstep
    obtain ⟨q, htokens, hq⟩ := Phrase.exists_closed_before bracket parts
    rw [← hq, List.append_assoc, List.cons_append, ← htokens]
    exact .after outer q
  | dict outer hparts =>
    rw [Progress.closeBefore_ofEntries, Option.ite_none_right_eq_some, Option.some.injEq] at hstep
    obtain ⟨rfl, rfl⟩ := hstep
    obtain ⟨q, htokens, hq⟩ := Phrase.exists_dict_closed_before hparts
    rw [← hq, List.append_assoc, List.cons_append, ← htokens]
    exact .after outer q
  | value outer parts key => cases bracket <;> cases hstep

/-- A token where an expression may begin. -/
theorem stepBefore (h : Opened frames tokens) {token : Token}
    (hstep : Progress.stepBefore frames token = some next) :
    Reached next (tokens ++ [token]) := by
  revert hstep
  fun_cases Progress.stepBefore frames token with
  | case1 => rintro ⟨⟩; exact .negative h
  | case2 bracket => exact h.openFrame
  | case3 bracket => exact h.closeBefore
  | case4 outer =>
    rintro ⟨⟩
    obtain ⟨front, houter, rfl⟩ := of_hollow .round h
    rw [List.append_assoc]
    exact .emptyTuple houter
  | case5 => rintro ⟨⟩
  | case6 token =>
    intro hstep
    obtain ⟨value, hvalue, rfl⟩ := Option.map_eq_some_iff.1 hstep
    obtain ⟨a, ha, rfl⟩ := Token.exists_atom hvalue
    rw [← ha]
    exact .afterScalar h a

/-- A token behind a phrase, except for a colon behind an atom. -/
theorem stepAfter (h : Opened frames tokens) (p : Phrase) {token : Token}
    (hstep : Progress.stepAfter p.expression frames token = some next) :
    Reached next (tokens ++ (p.tokens ++ [token])) := by
  cases h with
  | nil => simp [Progress.stepAfter] at hstep
  | @series frames tokens outer bracket parts =>
    rcases Progress.stepAfter_token hstep with rfl | ⟨closing, rfl⟩
    · rw [Progress.stepAfter_comma] at hstep
      cases hstep
      have houter := outer.series bracket (parts ++ [p])
      rw [Phrase.expressions_concat] at houter
      simpa [commaAfterEach_concat] using Reached.before houter
    · rw [Progress.stepAfter_closing, Option.ite_none_right_eq_some, Option.some.injEq] at hstep
      obtain ⟨rfl, rfl⟩ := hstep
      obtain ⟨q, htokens, hq⟩ := Phrase.exists_closed_after closing parts p
      rw [← hq, List.append_assoc, List.cons_append, ← htokens]
      exact .after outer q
  | @dict frames tokens outer parts hparts =>
    obtain ⟨part, parts, rfl⟩ := List.exists_cons_of_ne_nil hparts
    rcases Progress.stepAfter_token hstep with rfl | ⟨_ | _ | _, rfl⟩ <;> cases hstep
  | @value frames tokens outer parts key =>
    rcases Progress.stepAfter_token hstep with rfl | ⟨closing, rfl⟩
    · rw [Progress.stepAfter_value_comma] at hstep
      cases hstep
      have hparts : parts ++ [(key, p)] ≠ [] := by simp
      have houter := outer.dict hparts
      rw [Phrase.entries_concat] at houter
      simpa [commaAfterEach_concat, Phrase.tokensOfEntry] using Reached.before houter
    · cases closing <;> cases hstep
      obtain ⟨q, htokens, hq⟩ := Phrase.exists_dict_closed_after parts key p
      rw [← hq]
      have hafter := Reached.after outer q
      rw [htokens] at hafter
      simpa using hafter

/-- A token behind an atom. -/
theorem stepAfterScalar (h : Opened frames tokens) (a : Atom) {token : Token}
    (hstep : Progress.stepAfterScalar a.scalar frames token = some next) :
    Reached next (tokens ++ (a.tokens ++ [token])) := by
  revert hstep
  fun_cases Progress.stepAfterScalar a.scalar frames token with
  | case1 outer =>
    rintro ⟨⟩
    obtain ⟨front, houter, rfl⟩ := of_hollow .curly h
    simpa [Phrase.entries] using Reached.before (houter.value [] a)
  | case2 outer entries =>
    rintro ⟨⟩
    obtain ⟨front, parts, houter, rfl, rfl⟩ := h.of_dict
    simpa using Reached.before (houter.value parts a)
  | case3 => rintro ⟨⟩
  | case4 => exact h.stepAfter (.atom a)

end Opened

namespace Reached

/-- What was read stays a sequence of phrases in open brackets, with one more token. -/
theorem step {progress next : Progress} {tokens : List Token} {token : Token}
    (h : Reached progress tokens) (hstep : progress.step token = some next) :
    Reached next (tokens ++ [token]) := by
  cases h with
  | before outer => exact outer.stepBefore hstep
  | negative outer =>
    obtain ⟨value, hvalue, rfl⟩ := Option.map_eq_some_iff.1 hstep
    obtain ⟨a, ha, rfl⟩ := Token.exists_negative_atom hvalue
    rw [List.append_assoc, List.cons_append, List.nil_append, ← ha]
    exact .afterScalar outer a
  | afterScalar outer a =>
    rw [List.append_assoc]
    exact outer.stepAfterScalar a hstep
  | after outer p =>
    rw [List.append_assoc]
    exact outer.stepAfter p hstep
  | emptyTuple outer =>
    cases token
    case closing bracket =>
      cases bracket <;> cases hstep
      rw [List.append_assoc]
      exact .after outer .comma
    all_goals cases hstep

theorem run {progress last : Progress} {front back : List Token} (h : Reached progress front)
    (hrun : progress.run back = some last) : Reached last (front ++ back) := by
  induction back generalizing progress front with
  | nil =>
    cases hrun
    rwa [List.append_nil]
  | cons token back ih =>
    obtain ⟨next, hstep, hback⟩ := Option.bind_eq_some_iff.1 hrun
    have hnext := ih (h.step hstep) hback
    rwa [List.append_assoc] at hnext

/-- Where an expression is complete, nothing is open, and the tokens derive it. -/
theorem derives {progress : Progress} {tokens : List Token} {e : Expression}
    (h : Reached progress tokens) (hresult : progress.result? = some e) : Derives tokens e := by
  cases h with
  | afterScalar outer a =>
    cases outer with
    | nil =>
      cases hresult
      exact ⟨.atom a, rfl, rfl⟩
    | _ => cases hresult
  | after outer p =>
    cases outer with
    | nil =>
      cases hresult
      exact ⟨p, rfl, rfl⟩
    | _ => cases hresult
  | _ => cases hresult

end Reached

/-- The reading from the start on accepts what the grammar derives. -/
theorem derives_iff_run (tokens : List Token) (e : Expression) :
    Derives tokens e ↔ ∃ last, Progress.start.run tokens = some last ∧ last.result? = some e := by
  constructor
  · rintro ⟨p, rfl, rfl⟩
    exact ⟨p.complete [], p.run_tokens id, p.result?_complete⟩
  · rintro ⟨last, hrun, hresult⟩
    exact ((Reached.before .nil).run hrun).derives hresult

theorem derives_of_parse {text : String} {e : Expression} (h : parse text = .ok e) :
    Derives ((tokens text).map SpannedToken.token) e :=
  (derives_iff_run _ e).2 ((Progress.start.finish_ok_iff (tokens text)).1 h)

/-- A text is read as an expression exactly if the grammar derives that expression from
its tokens. The grammar is unambiguous, trying its alternatives in order finds what it
derives, and it derives nothing from tokens of richer expressions. -/
theorem parse_ok_iff_derives (text : String) :
    let written := (tokens text).map SpannedToken.token
    (∀ e, parse text = .ok e ↔ Derives written e) ∧
      Function.Injective Phrase.tokens ∧
      (∀ e e', Derives written e → Derives written e' → e = e') ∧
      (∀ e, Choice.read written = some e ↔ Derives written e) ∧
      (∀ token ∈ written, token.isUnsupported = true → ∃ error, parse text = .error error) := by
  intro written
  have hparse : ∀ e, parse text = .ok e ↔ Derives written e := fun e =>
    (Progress.start.finish_ok_iff (tokens text)).trans (derives_iff_run written e).symm
  refine ⟨hparse, Phrase.tokens_injective, fun e e' => Derives.unique,
    Choice.read_eq_some_iff written, ?_⟩
  intro token htoken hunsupported
  cases h : parse text with
  | error error => exact ⟨error, rfl⟩
  | ok e =>
    obtain ⟨last, hrun, -⟩ := (derives_iff_run written e).1 ((hparse e).1 h)
    rw [Progress.run_unsupported hunsupported htoken] at hrun
    cases hrun

end Wiring.Expression
