import Wiring.Expression.Parse
import Wiring.Proofs.Expression.Grammar

/-!
What the reading of an expression does with the tokens of a phrase: it takes them from any
place where an expression may begin, and has the expression of the phrase at the end. The
lemmas go along the recursion of the phrase, with the frames around it left open.
-/

namespace Wiring.Expression

namespace Progress

/-- How far a reading comes with some more tokens, if none is refused. -/
def run (progress : Progress) (tokens : List Token) : Option Progress :=
  tokens.foldlM step progress

@[simp] theorem run_nil (progress : Progress) : progress.run [] = some progress := rfl

theorem run_cons (progress : Progress) (token : Token) (tokens : List Token) :
    progress.run (token :: tokens) = (progress.step token).bind (·.run tokens) := rfl

theorem run_cons_of_step {progress next : Progress} {token : Token}
    (h : progress.step token = some next) (tokens : List Token) :
    progress.run (token :: tokens) = next.run tokens := by
  rw [run_cons, h, Option.bind_some]

theorem run_append (progress : Progress) (front back : List Token) :
    progress.run (front ++ back) = (progress.run front).bind (·.run back) :=
  List.foldlM_append

theorem run_append_of_run {progress next : Progress} {front : List Token}
    (h : progress.run front = some next) (back : List Token) :
    progress.run (front ++ back) = next.run back := by
  rw [run_append, h, Option.bind_some]

/-- A reading succeeds if no token is refused and an expression is complete at the end. -/
theorem finish_ok_iff {size : Nat} {e : Expression} (progress : Progress)
    (tokens : List SpannedToken) :
    progress.finish size tokens = .ok e ↔
      ∃ last, progress.run (tokens.map SpannedToken.token) = some last ∧
        last.result? = some e := by
  induction tokens generalizing progress with
  | nil => cases h : progress.result? <;> simp [finish, h]
  | cons token tokens ih =>
    cases h : progress.step token.token with
    | none => simp [finish, run_cons, h]
    | some next => simp [finish, run_cons, h, ih]

end Progress

/-- The frame of brackets with some finished items. -/
def Frame.ofItems : Bracket → List Expression → Frame
  | .square, items => .list items
  | .round, items => .round items
  | .curly, [] => .curly
  | .curly, items => .set items

theorem Frame.ofItems_inj {b c : Bracket} {xs ys : List Expression}
    (h : Frame.ofItems b xs = Frame.ofItems c ys) : b = c ∧ xs = ys := by
  cases b <;> cases c <;> cases xs <;> cases ys <;> simp_all [Frame.ofItems]

/-- The frame of curly brackets with some finished entries, where a key may stand. -/
def Frame.ofEntries : List (Scalar × Expression) → Frame
  | [] => .curly
  | entries => .dict entries

/-- Whether only the key of an entry can stand at a place. -/
def AwaitsKey : List Frame → Prop
  | .dict _ :: _ => True
  | _ => False

theorem not_awaitsKey_ofItems (bracket : Bracket) (items : List Expression)
    (frames : List Frame) : ¬AwaitsKey (.ofItems bracket items :: frames) := by
  cases bracket with
  | curly => cases items <;> exact id
  | _ => exact id

namespace Progress

/-! What the tokens of series and of dictionaries do. -/

@[simp] theorem step_closing (frames : List Frame) (bracket : Bracket) :
    (before frames).step (.closing bracket) = closeBefore bracket frames := rfl

theorem step_scalar {token : Token} {value : Scalar} (h : token.scalar? = some value)
    (frames : List Frame) : (before frames).step token = some (.afterScalar value frames) := by
  cases token <;> cases h <;> rfl

theorem step_opening (bracket : Bracket) {frames : List Frame} (h : ¬AwaitsKey frames) :
    (before frames).step (.opening bracket) = some (.before (.ofItems bracket [] :: frames)) := by
  change openFrame bracket frames = _
  fun_cases openFrame bracket frames with
  | case1 => exact absurd trivial h
  | case2 => cases bracket <;> rfl

theorem stepAfter_token {value : Expression} {frames : List Frame} {token : Token}
    {next : Progress} (h : stepAfter value frames token = some next) :
    token = .comma ∨ ∃ bracket, token = .closing bracket := by
  revert h
  fun_cases stepAfter value frames token <;> simp

theorem stepAfter_comma (value : Expression) (bracket : Bracket) (items : List Expression)
    (frames : List Frame) :
    stepAfter value (.ofItems bracket items :: frames) .comma =
      some (.before (.ofItems bracket (items ++ [value]) :: frames)) := by
  cases bracket <;> cases items <;> rfl

theorem stepAfter_closing (value : Expression) (bracket closing : Bracket)
    (items : List Expression) (frames : List Frame) :
    stepAfter value (.ofItems bracket items :: frames) (.closing closing) =
      if closing = bracket then some (.after (bracket.enclose (items ++ [value]) false) frames)
      else none := by
  cases bracket <;> cases closing <;> rcases items with _ | ⟨item, _ | ⟨item', items⟩⟩ <;> rfl

theorem closeBefore_ofItems (bracket closing : Bracket) (items : List Expression)
    (frames : List Frame) :
    closeBefore closing (.ofItems bracket items :: frames) =
      if closing = bracket then some (.after (bracket.enclose items true) frames) else none := by
  cases bracket <;> cases closing <;> rcases items with _ | ⟨item, _ | ⟨item', items⟩⟩ <;> rfl

theorem step_colon (key : Scalar) (entries : List (Scalar × Expression))
    (frames : List Frame) :
    (afterScalar key (.ofEntries entries :: frames)).step .colon =
      some (.before (.value entries key :: frames)) := by
  cases entries <;> rfl

theorem stepAfter_value_comma (value : Expression) (entries : List (Scalar × Expression))
    (key : Scalar) (frames : List Frame) :
    stepAfter value (.value entries key :: frames) .comma =
      some (.before (.ofEntries (entries ++ [(key, value)]) :: frames)) := by
  cases entries <;> rfl

theorem stepAfterScalar_eq (value : Scalar) {frames : List Frame} (hframes : ¬AwaitsKey frames)
    {token : Token} (htoken : token ≠ .colon) :
    stepAfterScalar value frames token = stepAfter (.atom value) frames token := by
  fun_cases stepAfterScalar value frames token with
  | case1 => exact absurd rfl htoken
  | case2 => exact absurd rfl htoken
  | case3 => exact absurd trivial hframes
  | case4 => rfl

theorem closeBefore_ofEntries (closing : Bracket) (entries : List (Scalar × Expression))
    (frames : List Frame) :
    closeBefore closing (.ofEntries entries :: frames) =
      if closing = .curly then some (.after (.dict entries) frames) else none := by
  cases closing <;> cases entries <;> rfl

end Progress

/-- How far a reading has come when a phrase is complete. -/
def Phrase.complete (frames : List Frame) : Phrase → Progress
  | .atom a => .afterScalar a.scalar frames
  | p => .after p.expression frames

namespace Phrase

/-- Except for a colon, which makes an atom the key of an entry, any phrase is followed
by the same tokens. -/
theorem step_complete (p : Phrase) {frames : List Frame} (hframes : ¬AwaitsKey frames)
    (token : Token) (htoken : token ≠ .colon) :
    (p.complete frames).step token = Progress.stepAfter p.expression frames token := by
  cases p with
  | atom a => exact Progress.stepAfterScalar_eq a.scalar hframes htoken
  | _ => rfl

theorem run_atom (a : Atom) (frames : List Frame) :
    (Progress.before frames).run a.tokens = some (.afterScalar a.scalar frames) := by
  cases a <;> rfl

-- The recursion is that of the phrase. The parts that were read already stand in the frame, so
-- the lemmas for the further parts hold for a frame with any items or entries.
mutual

/-- A phrase is read wherever an expression may begin. -/
theorem run_tokens (p : Phrase) {frames : List Frame} (hframes : ¬AwaitsKey frames) :
    (Progress.before frames).run p.tokens = some (p.complete frames) := by
  match p with
  | .atom a => exact run_atom a frames
  | .empty bracket =>
    rw [tokens, Progress.run_cons_of_step (Progress.step_opening bracket hframes)]
    cases bracket <;> rfl
  | .comma =>
    rw [tokens, Progress.run_cons_of_step (Progress.step_opening .round hframes)]
    rfl
  | .series bracket first rest trailing =>
    rw [tokens, Progress.run_cons_of_step (Progress.step_opening bracket hframes),
      Progress.run_append_of_run (run_tokens first (not_awaitsKey_ofItems _ _ _))]
    exact run_tokensOfRest first rest trailing bracket [] frames
  | .dict key value rest trailing =>
    have hcolon : (Progress.afterScalar key.scalar (.ofItems .curly [] :: frames)).step .colon =
      some (.before (.value [] key.scalar :: frames)) := Progress.step_colon key.scalar [] frames
    rw [tokens, Progress.run_cons_of_step (Progress.step_opening .curly hframes),
      Progress.run_append_of_run (run_atom key _), Progress.run_cons_of_step hcolon,
      Progress.run_append_of_run (run_tokens value id)]
    exact run_tokensOfEntries key.scalar value rest trailing [] frames
termination_by structural p

theorem run_tokensOfRest (p : Phrase) (rest : List Phrase) (trailing : Bool)
    (bracket : Bracket) (items : List Expression) (frames : List Frame) :
    (p.complete (.ofItems bracket items :: frames)).run
        (tokensOfRest rest ++ (trailingComma trailing ++ [.closing bracket])) =
      some (.after (bracket.enclose (items ++ p.expression :: expressions rest) trailing)
        frames) := by
  have hframes := not_awaitsKey_ofItems bracket items frames
  match rest, trailing with
  | [], false =>
    simp [tokensOfRest, trailingComma, Progress.run_cons, p.step_complete hframes,
      Progress.stepAfter_closing, expressions]
  | [], true =>
    simp [tokensOfRest, trailingComma, Progress.run_cons, p.step_complete hframes,
      Progress.stepAfter_comma, Progress.closeBefore_ofItems, expressions]
  | q :: rest, trailing =>
    have hcomma := p.step_complete hframes .comma Token.noConfusion
    rw [Progress.stepAfter_comma] at hcomma
    have hrest := run_tokensOfRest q rest trailing bracket (items ++ [p.expression]) frames
    simp only [tokensOfRest, List.cons_append, List.append_assoc]
    rw [Progress.run_cons_of_step hcomma,
      Progress.run_append_of_run (run_tokens q (not_awaitsKey_ofItems _ _ _)), hrest,
      List.append_assoc]
    rfl
termination_by structural rest

theorem run_tokensOfEntries (key : Scalar) (p : Phrase) (rest : List (Atom × Phrase))
    (trailing : Bool) (done : List (Scalar × Expression)) (frames : List Frame) :
    (p.complete (.value done key :: frames)).run
        (tokensOfEntries rest ++ (trailingComma trailing ++ [.closing .curly])) =
      some (.after (.dict (done ++ (key, p.expression) :: entries rest)) frames) := by
  have hframes : ¬AwaitsKey (.value done key :: frames) := id
  match rest, trailing with
  | [], false =>
    simp [tokensOfEntries, trailingComma, Progress.run_cons, p.step_complete hframes,
      Progress.stepAfter, entries]
  | [], true =>
    simp [tokensOfEntries, trailingComma, Progress.run_cons, p.step_complete hframes,
      Progress.stepAfter_value_comma, Progress.closeBefore_ofEntries, entries]
  | (next, q) :: rest, trailing =>
    have hcomma := p.step_complete hframes .comma Token.noConfusion
    rw [Progress.stepAfter_value_comma] at hcomma
    have hrest := run_tokensOfEntries next.scalar q rest trailing
      (done ++ [(key, p.expression)]) frames
    simp only [tokensOfEntries, List.cons_append, List.append_assoc]
    rw [Progress.run_cons_of_step hcomma, Progress.run_append_of_run (run_atom next _),
      Progress.run_cons_of_step (Progress.step_colon next.scalar _ frames),
      Progress.run_append_of_run (run_tokens q id), hrest, List.append_assoc]
    rfl
termination_by structural rest

end

end Phrase

theorem Phrase.result?_complete (p : Phrase) : (p.complete []).result? = some p.expression := by
  cases p <;> rfl

namespace Progress

theorem stepAfter_unsupported {token : Token} (h : token.isUnsupported = true)
    (value : Expression) (frames : List Frame) : stepAfter value frames token = none := by
  cases hstep : stepAfter value frames token with
  | none => rfl
  | some next => rcases stepAfter_token hstep with rfl | ⟨bracket, rfl⟩ <;> cases h

theorem step_unsupported {token : Token} (h : token.isUnsupported = true)
    (progress : Progress) : progress.step token = none := by
  cases progress with
  | before frames => cases token <;> first | rfl | cases h
  | negative frames => cases token <;> first | rfl | cases h
  | afterScalar value frames =>
    change stepAfterScalar value frames token = none
    fun_cases stepAfterScalar value frames token with
    | case1 => cases h
    | case2 => cases h
    | case3 => rfl
    | case4 => exact stepAfter_unsupported h (.atom value) frames
  | after value frames => exact stepAfter_unsupported h value frames
  | emptyTuple frames => cases token <;> first | rfl | cases h

/-- No reading goes on over a name, a dot or what is no token. -/
theorem run_unsupported {token : Token} (h : token.isUnsupported = true)
    {tokens : List Token} (hmem : token ∈ tokens) (progress : Progress) :
    progress.run tokens = none := by
  induction tokens generalizing progress with
  | nil => cases hmem
  | cons first tokens ih =>
    rw [run_cons]
    rcases List.mem_cons.1 hmem with rfl | hmem
    · rw [step_unsupported h, Option.bind_none]
    · exact Option.bind_eq_none_iff.2 fun next _ => ih hmem next

end Progress

end Wiring.Expression
