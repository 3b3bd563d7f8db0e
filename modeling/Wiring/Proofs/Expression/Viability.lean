import Wiring.Proofs.Expression.Acceptance

/-!
Where a text that is no expression goes wrong. A reading refuses a token as early as it
can: whatever it has taken is the beginning of something that is accepted, because from
every state it reaches there is a way to the end. So it stops at the first token with
which nothing accepted begins, and what it expects is what could stand there instead.
-/

namespace Wiring.Expression

/-- Some tokens begin an accepted sequence. -/
def Viable (front : List Token) : Prop := ∃ back e, Derives (front ++ back) e

theorem Viable.of_append {front more : List Token} (h : Viable (front ++ more)) :
    Viable front := by
  obtain ⟨back, e, hderives⟩ := h
  rw [List.append_assoc] at hderives
  exact ⟨more ++ back, e, hderives⟩

/-- An expression may stand directly before each of some frames. -/
def Roomy (frames : List Frame) : Prop := ∀ entries, Frame.dict entries ∉ frames

theorem roomy_cons {frame : Frame} {frames : List Frame} (hframe : ∀ entries, frame ≠ .dict entries)
    (h : Roomy frames) : Roomy (frame :: frames) := by
  intro entries hmem
  rcases List.mem_cons.1 hmem with heq | htail
  · exact hframe entries heq.symm
  · exact h entries htail

theorem Roomy.tail {frames : List Frame} (h : Roomy frames) : Roomy frames.tail :=
  fun entries hmem => h entries (List.mem_of_mem_tail hmem)

theorem roomy_nil : Roomy [] := by
  intro entries hmem
  cases hmem

/-- Frames below the innermost one, where nothing is read at the moment. -/
theorem roomy_of_tail {frames : List Frame} (htail : Roomy frames.tail)
    (hkey : ¬AwaitsKey frames) : Roomy frames := by
  cases frames with
  | nil => exact roomy_nil
  | cons frame frames =>
    refine roomy_cons ?_ htail
    rintro entries rfl
    exact hkey trivial

namespace Progress

/-- Only the innermost brackets may stand where a key is to come, and none of them if a
finished expression comes next. -/
def Steady : Progress → Prop
  | .before frames => Roomy frames.tail
  | .negative frames => Roomy frames.tail
  | .afterScalar _ frames => Roomy frames.tail
  | .after _ frames => Roomy frames
  | .emptyTuple frames => Roomy frames

section

variable {frames : List Frame} {token : Token} {next : Progress}

theorem steady_openFrame (h : Roomy frames.tail) {bracket : Bracket}
    (hstep : openFrame bracket frames = some next) : next.Steady := by
  revert hstep
  fun_cases openFrame bracket frames with
  | case1 => rintro ⟨⟩
  | case2 frame hdict =>
    rintro ⟨⟩
    refine roomy_of_tail h ?_
    intro hkey
    cases frames with
    | nil => exact hkey
    | cons frame frames =>
      cases frame with
      | dict entries => exact hdict entries frames rfl
      | _ => exact hkey

theorem steady_closeBefore (h : Roomy frames.tail) {bracket : Bracket}
    (hstep : closeBefore bracket frames = some next) : next.Steady := by
  revert hstep
  fun_cases closeBefore bracket frames <;> rintro ⟨⟩ <;> exact h

theorem steady_stepBefore (h : Roomy frames.tail)
    (hstep : stepBefore frames token = some next) : next.Steady := by
  revert hstep
  fun_cases stepBefore frames token with
  | case1 => rintro ⟨⟩; exact h
  | case2 bracket => exact steady_openFrame h
  | case3 bracket => exact steady_closeBefore h
  | case4 outer => rintro ⟨⟩; exact h
  | case5 => rintro ⟨⟩
  | case6 token =>
    intro hstep
    obtain ⟨value, -, rfl⟩ := Option.map_eq_some_iff.1 hstep
    exact h

theorem steady_stepAfter (value : Expression) (h : Roomy frames.tail)
    (hstep : stepAfter value frames token = some next) : next.Steady := by
  revert hstep
  fun_cases stepAfter value frames token <;> rintro ⟨⟩ <;> exact h

theorem steady_stepAfterScalar (value : Scalar) (h : Roomy frames.tail)
    (hstep : stepAfterScalar value frames token = some next) : next.Steady := by
  revert hstep
  fun_cases stepAfterScalar value frames token with
  | case1 outer => rintro ⟨⟩; exact h
  | case2 outer entries => rintro ⟨⟩; exact h
  | case3 => rintro ⟨⟩
  | case4 => exact steady_stepAfter (.atom value) h

end

theorem Steady.step {progress next : Progress} {token : Token} (h : progress.Steady)
    (hstep : progress.step token = some next) : next.Steady := by
  cases progress with
  | before frames => exact steady_stepBefore h hstep
  | negative frames =>
    obtain ⟨value, -, rfl⟩ := Option.map_eq_some_iff.1 hstep
    exact h
  | afterScalar value frames => exact steady_stepAfterScalar value h hstep
  | after value frames => exact steady_stepAfter value h.tail hstep
  | emptyTuple frames =>
    cases token
    case closing bracket =>
      cases bracket <;> cases hstep
      exact h
    all_goals cases hstep

theorem Steady.run {progress last : Progress} {tokens : List Token} (h : progress.Steady)
    (hrun : progress.run tokens = some last) : last.Steady := by
  induction tokens generalizing progress with
  | nil =>
    cases hrun
    exact h
  | cons token tokens ih =>
    obtain ⟨next, hstep, hrest⟩ := Option.bind_eq_some_iff.1 hrun
    exact ih (h.step hstep) hrest

/-! From every steady state there is a way to the end. -/

/-- Some tokens make a reading complete. -/
def CanEnd (progress : Progress) : Prop :=
  ∃ back last e, progress.run back = some last ∧ last.result? = some e

theorem CanEnd.of_step {progress next : Progress} {token : Token}
    (hstep : progress.step token = some next) (h : next.CanEnd) : progress.CanEnd := by
  obtain ⟨back, last, e, hrun, hresult⟩ := h
  exact ⟨token :: back, last, e, (run_cons_of_step hstep back).trans hrun, hresult⟩

/-- The bracket that closes a frame. -/
def closingBracket : Frame → Bracket
  | .list _ => .square
  | .round _ => .round
  | _ => .curly

/-- Behind an expression the innermost brackets can be closed. -/
theorem exists_stepAfter (value : Expression) {frame : Frame} (frames : List Frame)
    (hframe : ∀ entries, frame ≠ .dict entries) :
    ∃ made, stepAfter value (frame :: frames) (.closing (closingBracket frame)) =
      some (.after made frames) := by
  cases frame with
  | list items => exact ⟨_, rfl⟩
  | round items => cases items <;> exact ⟨_, rfl⟩
  | curly => exact ⟨_, rfl⟩
  | set items => exact ⟨_, rfl⟩
  | dict entries => exact absurd rfl (hframe entries)
  | value entries key => exact ⟨_, rfl⟩

theorem canEnd_after (value : Expression) {frames : List Frame} (h : Roomy frames) :
    (after value frames).CanEnd := by
  induction frames generalizing value with
  | nil => exact ⟨[], _, value, rfl, rfl⟩
  | cons frame frames ih =>
    have hframe : ∀ entries, frame ≠ .dict entries := by
      rintro entries rfl
      exact h entries List.mem_cons_self
    obtain ⟨made, hstep⟩ := exists_stepAfter value frames hframe
    exact CanEnd.of_step hstep (ih made h.tail)

/-- A scalar where any expression may stand. -/
theorem canEnd_afterScalar_of_roomy (value : Scalar) {frames : List Frame} (h : Roomy frames) :
    (afterScalar value frames).CanEnd := by
  cases frames with
  | nil => exact ⟨[], _, .atom value, rfl, rfl⟩
  | cons frame frames =>
    have hframe : ∀ entries, frame ≠ .dict entries := by
      rintro entries rfl
      exact h entries List.mem_cons_self
    obtain ⟨made, hstep⟩ := exists_stepAfter (.atom value) frames hframe
    have hscalar : (afterScalar value (frame :: frames)).step
        (.closing (closingBracket frame)) = some (.after made frames) := by
      rw [← hstep]
      cases frame with
      | dict entries => exact absurd rfl (hframe entries)
      | _ => rfl
    exact CanEnd.of_step hscalar (canEnd_after made h.tail)

theorem canEnd_afterScalar (value : Scalar) {frames : List Frame} (h : Roomy frames.tail) :
    (afterScalar value frames).CanEnd := by
  by_cases hkey : AwaitsKey frames
  · match frames with
    | .dict entries :: frames =>
      -- The scalar is a key, and its value is still to come.
      have hcolon : (afterScalar value (.dict entries :: frames)).step .colon =
        some (.before (.value entries value :: frames)) := rfl
      have hnull : (before (.value entries value :: frames)).step .null =
        some (.afterScalar .null (.value entries value :: frames)) := rfl
      have hvalue : Roomy (.value entries value :: frames) := roomy_cons nofun h
      exact CanEnd.of_step hcolon (CanEnd.of_step hnull (canEnd_afterScalar_of_roomy .null hvalue))
  · exact canEnd_afterScalar_of_roomy value (roomy_of_tail h hkey)

theorem Steady.canEnd {progress : Progress} (h : progress.Steady) : progress.CanEnd := by
  cases progress with
  | before frames =>
    have hnull : (before frames).step .null = some (.afterScalar .null frames) := rfl
    exact CanEnd.of_step hnull (canEnd_afterScalar .null h)
  | negative frames =>
    have hint : (negative frames).step (.int 1) = some (.afterScalar (.int (-1)) frames) := rfl
    exact CanEnd.of_step hint (canEnd_afterScalar (.int (-1)) h)
  | afterScalar value frames => exact canEnd_afterScalar value h
  | after value frames => exact canEnd_after value h
  | emptyTuple frames =>
    have hclose : (emptyTuple frames).step (.closing .round) =
      some (.after (.group .tuple []) frames) := rfl
    exact CanEnd.of_step hclose (canEnd_after (.group .tuple []) h)

theorem steady_start : start.Steady := roomy_nil

end Progress

/-- Tokens begin an accepted sequence exactly if the reading takes them. -/
theorem viable_iff_run (front : List Token) :
    Viable front ↔ ∃ progress, Progress.start.run front = some progress := by
  constructor
  · rintro ⟨back, e, hderives⟩
    obtain ⟨last, hrun, -⟩ := (derives_iff_run _ e).1 hderives
    rw [Progress.run_append] at hrun
    obtain ⟨progress, hfront, -⟩ := Option.bind_eq_some_iff.1 hrun
    exact ⟨progress, hfront⟩
  · rintro ⟨progress, hfront⟩
    obtain ⟨back, last, e, hrun, hresult⟩ := (Progress.steady_start.run hfront).canEnd
    have hwhole := (Progress.run_append_of_run hfront back).trans hrun
    exact ⟨back, e, (derives_iff_run _ e).2 ⟨last, hwhole, hresult⟩⟩

/-! What is expected. -/

/-- Whether a token can stand at the beginning of a scalar. -/
def Token.beginsScalar (token : Token) : Bool := token == .minus || token.scalar?.isSome

/-- What a token is expected as: all beginnings of scalars have one name. -/
def Token.expectation (token : Token) : Expectation :=
  if token.beginsScalar then .scalar else .token token

theorem Token.expectation_of_plain {token : Token} (h : token.beginsScalar = false) :
    token.expectation = .token token := by
  simp [expectation, h]

namespace Progress

theorem stepAfterScalar_token {value : Scalar} {frames : List Frame} {token : Token}
    {next : Progress} (h : stepAfterScalar value frames token = some next) :
    token = .colon ∨ token = .comma ∨ ∃ bracket, token = .closing bracket := by
  revert h
  fun_cases stepAfterScalar value frames token with
  | case1 => exact fun _ => .inl rfl
  | case2 => exact fun _ => .inl rfl
  | case3 => rintro ⟨⟩
  | case4 => exact fun h => .inr (stepAfter_token h)

/-- A scalar begins only where an expression may begin, or goes on behind a minus sign. -/
theorem before_of_step {progress next : Progress} {token : Token}
    (h : progress.step token = some next) (htoken : token.beginsScalar = true) :
    ∃ frames, progress = .before frames ∨ progress = .negative frames := by
  cases progress with
  | before frames => exact ⟨frames, .inl rfl⟩
  | negative frames => exact ⟨frames, .inr rfl⟩
  | afterScalar value frames =>
    rcases stepAfterScalar_token h with rfl | rfl | ⟨bracket, rfl⟩ <;> cases htoken
  | after value frames =>
    rcases stepAfter_token h with rfl | ⟨bracket, rfl⟩ <;> cases htoken
  | emptyTuple frames =>
    cases token
    case closing bracket => cases htoken
    all_goals cases h

/-- A minus sign was read last exactly if the reading is behind one. -/
theorem negative_iff_of_run {progress : Progress} {front : List Token}
    (hrun : start.run front = some progress) :
    (∃ frames, progress = .negative frames) ↔ front.getLast? = some .minus := by
  constructor
  · rintro ⟨frames, rfl⟩
    have hreached := (Reached.before .nil).run hrun
    rw [List.nil_append] at hreached
    cases hreached with
    | negative outer => exact List.getLast?_concat
  · intro hlast
    obtain ⟨init, rfl⟩ := List.getLast?_eq_some_iff.1 hlast
    rw [run_append] at hrun
    obtain ⟨middle, -, hminus⟩ := Option.bind_eq_some_iff.1 hrun
    obtain ⟨next, hstep, hend⟩ := Option.bind_eq_some_iff.1 hminus
    cases hend
    obtain ⟨frames, rfl | rfl⟩ := before_of_step hstep rfl
    · cases hstep
      exact ⟨frames, rfl⟩
    · cases hstep

/-- With one more token, what was read begins an accepted sequence exactly if the token is
not refused. -/
theorem viable_concat_iff {progress : Progress} {front : List Token}
    (hrun : start.run front = some progress) (token : Token) :
    Viable (front ++ [token]) ↔ (progress.step token).isSome = true := by
  rw [viable_iff_run, run_append_of_run hrun, Option.isSome_iff_exists]
  simp [run_cons]

theorem derives_iff_result? {progress : Progress} {front : List Token}
    (hrun : start.run front = some progress) :
    (∃ e, Derives front e) ↔ progress.result?.isSome = true := by
  rw [Option.isSome_iff_exists]
  simp [derives_iff_run, hrun]

/-- Except behind a minus sign, exactly that is expected with which what was read begins an
accepted sequence, or the end where it is one. -/
theorem mem_expected_iff {progress : Progress} {front : List Token}
    (hrun : start.run front = some progress) (hminus : front.getLast? ≠ some .minus)
    (expectation : Expectation) :
    expectation ∈ progress.expected ↔
      (∃ token : Token, Viable (front ++ [token]) ∧ expectation = token.expectation) ∨
        (expectation = .endOfInput ∧ ∃ e, Derives front e) := by
  have hpositive : ∀ frames, progress ≠ .negative frames := fun frames hnegative =>
    hminus ((negative_iff_of_run hrun).1 ⟨frames, hnegative⟩)
  have hexpected : progress.expected =
      Expectation.all.filter (Expectation.holdsAt progress) := by
    cases progress with
    | negative frames => exact absurd rfl (hpositive frames)
    | _ => rfl
  rw [hexpected, List.mem_filter, derives_iff_result? hrun]
  simp only [viable_concat_iff hrun]
  constructor
  · rintro ⟨hmem, hholds⟩
    cases expectation with
    | endOfInput => exact .inr ⟨rfl, hholds⟩
    | scalar => exact .inl ⟨.minus, hholds, rfl⟩
    | token token =>
      have hplain : token.beginsScalar = false := by
        revert hmem
        cases token <;> simp [Expectation.all, Token.beginsScalar, Token.scalar?]
      exact .inl ⟨token, hholds, by simp [Token.expectation, hplain]⟩
  · rintro (⟨token, hstep, rfl⟩ | ⟨rfl, hresult⟩)
    · cases hscalar : token.beginsScalar with
      | true =>
        obtain ⟨next, hnext⟩ := Option.isSome_iff_exists.1 hstep
        obtain ⟨frames, rfl | rfl⟩ := before_of_step hnext hscalar
        · simp [Token.expectation, hscalar, Expectation.all, Expectation.holdsAt, step,
            stepBefore]
        · exact absurd rfl (hpositive frames)
      | false =>
        have hmark : Expectation.token token ∈ Expectation.all := by
          have hsupported : token.isUnsupported = false := by
            rw [Bool.eq_false_iff]
            intro hunsupported
            rw [step_unsupported hunsupported] at hstep
            cases hstep
          revert hscalar hsupported
          cases token with
          | opening bracket => cases bracket <;> decide
          | closing bracket => cases bracket <;> decide
          | _ => simp [Expectation.all, Token.beginsScalar, Token.scalar?, Token.isUnsupported]
        simpa [Token.expectation, hscalar, hmark, Expectation.holdsAt] using hstep
    · exact ⟨by decide, hresult⟩

/-- A reading that fails has taken some of the tokens and refuses the next one, or the
end. -/
theorem exists_split_of_finish {size : Nat} {error : ExpressionError} (progress : Progress)
    (tokens : List SpannedToken) (h : progress.finish size tokens = .error error) :
    ∃ front back last, tokens = front ++ back ∧
      progress.run (front.map SpannedToken.token) = some last ∧
      ((back = [] ∧ last.result? = none ∧ error = ⟨none, size, size, last.expected⟩) ∨
        ∃ token rest, back = token :: rest ∧ last.step token.token = none ∧
          error = ⟨some token.token, token.start, token.stop, last.expected⟩) := by
  induction tokens generalizing progress with
  | nil =>
    cases hresult : progress.result? with
    | some value =>
      rw [finish, hresult] at h
      cases h
    | none =>
      rw [finish, hresult] at h
      cases h
      exact ⟨[], [], progress, rfl, rfl, .inl ⟨rfl, hresult, rfl⟩⟩
  | cons token tokens ih =>
    cases hstep : progress.step token.token with
    | none =>
      rw [finish, hstep] at h
      cases h
      exact ⟨[], token :: tokens, progress, rfl, rfl, .inr ⟨token, tokens, rfl, hstep, rfl⟩⟩
    | some next =>
      rw [finish, hstep] at h
      obtain ⟨front, back, last, rfl, hrun, hend⟩ := ih next h
      refine ⟨token :: front, back, last, rfl, ?_, hend⟩
      rw [List.map_cons, run_cons_of_step hstep]
      exact hrun

end Progress

theorem Token.describe_expectation (token : Token) :
    token.expectation.describe = if token.beginsScalar then "literal" else token.describe := by
  rw [Token.expectation]
  split <;> rfl

theorem Progress.mem_expected_words_iff {progress : Progress} {front : List Token}
    (hrun : Progress.start.run front = some progress) (hminus : front.getLast? ≠ some .minus)
    (word : String) :
    word ∈ progress.expected.map Expectation.describe ↔
      (∃ token : Token, Viable (front ++ [token]) ∧
        word = if token.beginsScalar then "literal" else token.describe) ∨
      (word = "end of input" ∧ ∃ e, Derives front e) := by
  rw [List.mem_map]
  simp only [Progress.mem_expected_iff hrun hminus]
  constructor
  · rintro ⟨expectation, ⟨token, hviable, rfl⟩ | ⟨rfl, hderives⟩, rfl⟩
    · exact .inl ⟨token, hviable, token.describe_expectation⟩
    · exact .inr ⟨rfl, hderives⟩
  · rintro (⟨token, hviable, rfl⟩ | ⟨rfl, hderives⟩)
    · exact ⟨token.expectation, .inl ⟨token, hviable, rfl⟩, token.describe_expectation⟩
    · exact ⟨.endOfInput, .inr ⟨rfl, hderives⟩, rfl⟩

end Wiring.Expression
