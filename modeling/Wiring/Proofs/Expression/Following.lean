import Wiring.Proofs.Expression.Furthest
import Wiring.Proofs.Expression.Viability

/-!
Trials follow the reading that never goes back. Whatever a trial takes, the reading takes
too, so no trial fails at a place that the reading does not reach, and none expects there
what the reading does not expect.
-/

namespace Wiring.Expression

/-- The reading takes the tokens before a failure, and expects there what the failure
expects. -/
def Failure.OnWay (progress : Progress) (tokens : List Token) (failure : Failure) : Prop :=
  ∃ front back last, tokens = front ++ back ∧ back.length = failure.left ∧
    progress.run front = some last ∧ failure.expected ⊆ last.expected

theorem Failure.OnWay.merge {progress : Progress} {tokens : List Token} {f g : Failure}
    (hf : f.OnWay progress tokens) (hg : g.OnWay progress tokens) :
    (f.merge g).OnWay progress tokens := by
  rw [Failure.merge]
  split
  · exact hf
  · split
    · exact hg
    · obtain ⟨front, back, last, rfl, hback, hrun, hexpected⟩ := hf
      obtain ⟨front', back', last', heq, hback', hrun', hexpected'⟩ := hg
      -- Neither is further, so both are at one place, where the reading has come just as far.
      obtain ⟨rfl, rfl⟩ := List.append_inj' heq (by omega)
      obtain rfl : last = last' := Option.some.inj (hrun.symm.trans hrun')
      exact ⟨front, back, last, rfl, hback, hrun, List.append_subset.2 ⟨hexpected, hexpected'⟩⟩

/-- The same for furthest failures of which there may be none. -/
theorem onWay_of_merge {progress : Progress} {tokens : List Token}
    {earlier later : Option Failure} (hearlier : ∀ f, earlier = some f → f.OnWay progress tokens)
    (hlater : ∀ g, later = some g → g.OnWay progress tokens) {failure : Failure}
    (h : earlier.merge Failure.merge later = some failure) : failure.OnWay progress tokens := by
  match earlier, later with
  | none, none => cases h
  | none, some g => exact hlater failure h
  | some f, none => exact hearlier failure h
  | some f, some g =>
    cases h
    exact (hearlier f rfl).merge (hlater g rfl)

theorem Failure.OnWay.prepend {progress next : Progress} {front tokens : List Token}
    {f : Failure} (hrun : progress.run front = some next) (hf : f.OnWay next tokens) :
    f.OnWay progress (front ++ tokens) := by
  obtain ⟨more, back, last, rfl, hback, hmore, hexpected⟩ := hf
  exact ⟨front ++ more, back, last, (List.append_assoc ..).symm, hback,
    (Progress.run_append_of_run hrun more).trans hmore, hexpected⟩

namespace Trial

/-- A trial that begins where a reading is takes nothing that the reading refuses. Where it
fails the reading expects no less, and where it succeeds the reading has come to such a
progress as `post` says. -/
structure Follows {α : Type} (progress : Progress) (trial : Trial α) (post : Progress → Prop) :
    Prop where
  failure : ∀ ⦃tokens failure⦄, (trial.run tokens).failure? = some failure →
    failure.OnWay progress tokens
  taken : ∀ ⦃tokens x rest⦄, (trial.run tokens).outcome = some (x, rest) →
    ∃ front last, tokens = front ++ rest ∧ progress.run front = some last ∧ post last

section

variable {α β : Type} {progress : Progress} {post : Progress → Prop}

theorem Follows.mono {trial : Trial α} {mid : Progress → Prop}
    (h : Follows progress trial mid) (himp : ∀ last, mid last → post last) :
    Follows progress trial post where
  failure := h.failure
  taken tokens x rest htaken := by
    obtain ⟨front, last, heq, hrun, hmid⟩ := h.taken htaken
    exact ⟨front, last, heq, hrun, himp last hmid⟩

theorem follows_pure (x : α) (h : post progress) : Follows progress (pure x) post where
  failure := by rintro tokens failure ⟨⟩
  taken := by
    rintro tokens x rest ⟨⟩
    exact ⟨[], progress, rfl, rfl, h⟩

/-- A failure at the place where a trial begins. -/
theorem onWay_here {expected : List Expectation} (h : expected ⊆ progress.expected)
    (tokens : List Token) : Failure.OnWay progress tokens ⟨tokens.length, expected⟩ :=
  ⟨[], tokens, progress, rfl, rfl, rfl, h⟩

theorem follows_take {token : Token} {next : Progress}
    (hexpected : .token token ∈ progress.expected) (hstep : progress.step token = some next)
    (hpost : post next) : Follows progress (take token) post where
  failure tokens failure h := by
    by_cases hhead : tokens.head? = some token
    · obtain ⟨rest, rfl⟩ := List.head?_eq_some_iff.1 hhead
      simp [take, Attempt.failure?] at h
    · rw [take_run_of_ne hhead] at h
      cases h
      exact onWay_here (List.cons_subset.2 ⟨hexpected, List.nil_subset _⟩) tokens
  taken tokens x rest h := by
    obtain rfl := (outcome_take_eq_some_iff token tokens rest x).1 h
    exact ⟨[token], next, rfl, Progress.run_cons_of_step hstep [], hpost⟩

theorem Follows.bind {trial : Trial α} {next : α → Trial β} {mid : Progress → Prop}
    (h : Follows progress trial mid) (hnext : ∀ x last, mid last → Follows last (next x) post) :
    Follows progress (trial >>= next) post where
  failure tokens failure hfailure := by
    rw [failure?_bind] at hfailure
    refine onWay_of_merge (fun f hf => h.failure hf) (fun g hg => ?_) hfailure
    obtain ⟨⟨x, rest⟩, htrial, hlater⟩ := Option.bind_eq_some_iff.1 hg
    obtain ⟨front, last, rfl, hrun, hmid⟩ := h.taken htrial
    exact ((hnext x last hmid).failure hlater).prepend hrun
  taken tokens y final htaken := by
    rw [outcome_bind] at htaken
    obtain ⟨⟨x, rest⟩, htrial, hnextrun⟩ := Option.bind_eq_some_iff.1 htaken
    obtain ⟨front, last, rfl, hrun, hmid⟩ := h.taken htrial
    obtain ⟨more, after, rfl, hmore, hpost⟩ := (hnext x last hmid).taken hnextrun
    exact ⟨front ++ more, after, (List.append_assoc ..).symm,
      (Progress.run_append_of_run hrun more).trans hmore, hpost⟩

theorem Follows.orElse {first second : Trial α} (hfirst : Follows progress first post)
    (hsecond : Follows progress second post) : Follows progress (first.orElse second) post where
  failure tokens failure hfailure := by
    rw [failure?_orElse] at hfailure
    refine onWay_of_merge (fun f hf => hfirst.failure hf) (fun g hg => ?_) hfailure
    cases htrial : (first.run tokens).outcome with
    | some taken => rw [htrial] at hg; cases hg
    | none => rw [htrial] at hg; exact hsecond.failure hg
  taken tokens x rest htaken := by
    rw [outcome_orElse, Option.or_eq_some_iff] at htaken
    rcases htaken with htaken | ⟨-, htaken⟩
    · exact hfirst.taken htaken
    · exact hsecond.taken htaken

end

/-- What becomes of an atom. -/
inductive AtomRun : List Token → Attempt Scalar → Prop where
  | plain {token : Token} {value : Scalar} (rest : List Token) (h : token.scalar? = some value) :
    AtomRun (token :: rest) (.taken value rest none)
  | negative {token : Token} {value : Scalar} (rest : List Token)
      (h : token.negated? = some value) :
    AtomRun (.minus :: token :: rest) (.taken value rest (some ⟨rest.length + 2, [.scalar]⟩))
  | afterMinus (rest : List Token) (h : ∀ token ∈ rest.head?, token.negated? = none) :
    AtomRun (.minus :: rest) (.failed ⟨rest.length, []⟩)
  | refused (tokens : List Token) (h : ∀ token ∈ tokens.head?, token.beginsScalar = false) :
    AtomRun tokens (.failed ⟨tokens.length, [.scalar]⟩)

theorem atom_run (tokens : List Token) : AtomRun tokens (atom.run tokens) := by
  rcases tokens with _ | ⟨token, rest⟩
  · exact .refused [] nofun
  · cases hvalue : token.scalar? with
    | some value =>
      have hrun : atom.run (token :: rest) = .taken value rest none := by
        simp [atom, labelled, orElse, select, hvalue]
      rw [hrun]
      exact .plain rest hvalue
    | none =>
      by_cases hminus : token = .minus
      · subst hminus
        rcases rest with _ | ⟨next, rest⟩
        · exact .afterMinus [] nofun
        · cases hnext : next.negated? with
          | some value =>
            have hrun : atom.run (.minus :: next :: rest) =
                .taken value rest (some ⟨rest.length + 2, [.scalar]⟩) := by
              simp [atom, labelled, orElse, select, hvalue, bind_run, take, hnext, fail,
                Attempt.after]
            rw [hrun]
            exact .negative rest hnext
          | none =>
            have hfurther : ¬rest.length + 1 < rest.length := by omega
            have hrun : atom.run (.minus :: next :: rest) =
                .failed ⟨(next :: rest).length, []⟩ := by
              simp [atom, labelled, orElse, select, hvalue, bind_run, take, hnext, fail,
                Attempt.after, Failure.merge, hfurther]
            rw [hrun]
            refine .afterMinus _ ?_
            rintro _ ⟨⟩
            exact hnext
      · have hrun : atom.run (token :: rest) = .failed ⟨(token :: rest).length, [.scalar]⟩ := by
          simp [atom, labelled, orElse, select, hvalue, bind_run, take, hminus, fail,
            Attempt.after, Failure.merge]
        rw [hrun]
        refine .refused _ ?_
        rintro _ ⟨⟩
        simp [Token.beginsScalar, hvalue, hminus]

theorem outcome_atom_of_plain {tokens : List Token}
    (h : ∀ token ∈ tokens.head?, token.beginsScalar = false) :
    (atom.run tokens).outcome = none := by
  have hrun := atom_run tokens
  generalize atom.run tokens = attempt at hrun
  cases hrun with
  | @plain token value rest hvalue =>
    have hplain := h token rfl
    rw [Token.beginsScalar, hvalue] at hplain
    simp at hplain
  | negative rest hvalue => cases h .minus rfl
  | afterMinus rest hrest => rfl
  | refused tokens htokens => rfl

end Trial

namespace Progress

/-- An expression is complete with nothing but certain frames around it. -/
inductive Behind (frames : List Frame) : Progress → Prop where
  | scalar (value : Scalar) : Behind frames (.afterScalar value frames)
  | other (value : Expression) : Behind frames (.after value frames)

theorem Behind.exists_step {frames : List Frame} {progress : Progress}
    (h : Behind frames progress) (hframes : ¬AwaitsKey frames) :
    ∃ value, ∀ token ≠ .colon, progress.step token = stepAfter value frames token := by
  cases h with
  | scalar value =>
    exact ⟨.atom value, fun token htoken => stepAfterScalar_eq value hframes htoken⟩
  | other value => exact ⟨value, fun _ _ => rfl⟩

/-- Certain brackets can be closed. -/
def Closes (bracket : Bracket) (frames : List Frame) (progress : Progress) : Prop :=
  ∃ value, progress.step (.closing bracket) = some (.after value frames)

/-- What stands in brackets: items with commas between them, where the brackets may be closed
behind an item and wherever one may begin. -/
structure Inside (bracket : Bracket) (frames : List Frame) (begins ends : Progress → Prop) :
    Prop where
  closes_begins : ∀ progress, begins progress → Closes bracket frames progress
  closes_ends : ∀ progress, ends progress → Closes bracket frames progress
  comma : ∀ progress, ends progress →
    ∃ next, progress.step .comma = some next ∧ begins next

/-- The places in brackets where an item may begin. -/
def ItemBegins (bracket : Bracket) (frames : List Frame) (progress : Progress) : Prop :=
  ∃ items, progress = .before (.ofItems bracket items :: frames)

/-- The places in brackets behind an item. -/
def ItemEnds (bracket : Bracket) (frames : List Frame) (progress : Progress) : Prop :=
  ∃ items, Behind (.ofItems bracket items :: frames) progress

theorem inside_items (bracket : Bracket) (frames : List Frame) :
    Inside bracket frames (ItemBegins bracket frames) (ItemEnds bracket frames) where
  closes_begins := by
    rintro _ ⟨items, rfl⟩
    exact ⟨_, by rw [step_closing, closeBefore_ofItems, if_pos rfl]⟩
  closes_ends := by
    rintro progress ⟨items, hbehind⟩
    obtain ⟨value, hstep⟩ := hbehind.exists_step (not_awaitsKey_ofItems bracket items frames)
    exact ⟨_, by rw [hstep _ Token.noConfusion, stepAfter_closing, if_pos rfl]⟩
  comma := by
    rintro progress ⟨items, hbehind⟩
    obtain ⟨value, hstep⟩ := hbehind.exists_step (not_awaitsKey_ofItems bracket items frames)
    exact ⟨_, by rw [hstep _ Token.noConfusion, stepAfter_comma], _, rfl⟩

/-- The places in curly brackets where an entry may begin. -/
def EntryBegins (frames : List Frame) (progress : Progress) : Prop :=
  ∃ entries, progress = .before (.ofEntries entries :: frames)

/-- The places in curly brackets behind an entry. -/
def EntryEnds (frames : List Frame) (progress : Progress) : Prop :=
  ∃ entries key, Behind (.value entries key :: frames) progress

theorem inside_entries (frames : List Frame) :
    Inside .curly frames (EntryBegins frames) (EntryEnds frames) where
  closes_begins := by
    rintro _ ⟨entries, rfl⟩
    exact ⟨_, by rw [step_closing, closeBefore_ofEntries, if_pos rfl]⟩
  closes_ends := by
    rintro progress ⟨entries, key, hbehind⟩
    obtain ⟨value, hstep⟩ := hbehind.exists_step id
    exact ⟨_, by rw [hstep _ Token.noConfusion]; rfl⟩
  comma := by
    rintro progress ⟨entries, key, hbehind⟩
    obtain ⟨value, hstep⟩ := hbehind.exists_step id
    exact ⟨_, by rw [hstep _ Token.noConfusion, stepAfter_value_comma], _, rfl⟩

/-- A mark that a reading takes is expected. -/
theorem mem_expected_of_step {progress next : Progress} {token : Token}
    (hmark : .token token ∈ Expectation.all) (hstep : progress.step token = some next) :
    .token token ∈ progress.expected := by
  cases progress with
  | negative frames =>
    obtain ⟨value, hvalue, -⟩ := Option.map_eq_some_iff.1 hstep
    simp only [Expectation.all, List.mem_cons, Expectation.token.injEq, reduceCtorEq,
      List.not_mem_nil, or_false] at hmark
    rcases hmark with rfl | rfl | rfl | rfl | rfl | rfl | rfl | rfl <;> cases hvalue
  | _ => exact List.mem_filter.2 ⟨hmark, by simp [Expectation.holdsAt, hstep]⟩

end Progress

namespace Trial

open Progress

section

variable {α : Type} {frames : List Frame}

theorem follows_atom : Follows (.before frames) atom fun last =>
    ∃ value, last = .afterScalar value frames where
  failure tokens failure h := by
    have hscalar : [Expectation.scalar] ⊆ (before frames).expected :=
      List.cons_subset.2 ⟨List.mem_filter.2 ⟨by decide, rfl⟩, List.nil_subset _⟩
    have hrun := atom_run tokens
    generalize atom.run tokens = attempt at h hrun
    cases hrun with
    | plain rest hvalue => cases h
    | negative rest hvalue => cases h; exact onWay_here hscalar _
    | afterMinus rest hrest =>
      cases h
      exact ⟨[.minus], rest, .negative frames, rfl, rfl, rfl, List.nil_subset _⟩
    | refused tokens htokens => cases h; exact onWay_here hscalar _
  taken tokens x rest h := by
    have hrun := atom_run tokens
    generalize atom.run tokens = attempt at h hrun
    cases hrun with
    | @plain token _ rest hvalue =>
      cases h
      exact ⟨[token], _, rfl, run_cons_of_step (step_scalar hvalue frames) [], x, rfl⟩
    | @negative token _ rest hvalue =>
      cases h
      have hstep : (negative frames).step token = some (.afterScalar x frames) := by
        rw [step, hvalue, Option.map_some]
      exact ⟨[.minus, token], _, rfl, run_cons_of_step hstep [], x, rfl⟩
    | afterMinus => cases h
    | refused => cases h

theorem follows_enclosed {bracket : Bracket} {inside : Trial α} (hframes : ¬AwaitsKey frames)
    (hinside : Follows (.before (.ofItems bracket [] :: frames)) inside
      (Closes bracket frames)) :
    Follows (.before frames) (enclosed bracket inside) (Behind frames) := by
  have hopening := step_opening bracket hframes
  refine (follows_take (mem_expected_of_step (by cases bracket <;> decide) hopening) hopening
    rfl).bind ?_
  rintro - _ rfl
  refine hinside.bind ?_
  rintro x last ⟨value, hclosing⟩
  refine (follows_take (mem_expected_of_step (by cases bracket <;> decide) hclosing) hclosing
    rfl).bind ?_
  rintro - _ rfl
  exact follows_pure x (.other value)

/-- A series of items goes from one place where an item may begin to the next. -/
theorem follows_series {item : Trial α} {allowTrailing : Bool} {bracket : Bracket}
    {begins ends : Progress → Prop} (hinside : Inside bracket frames begins ends)
    (hitem : ∀ progress, begins progress → Follows progress item ends) (fuel : Nat)
    {progress : Progress} (hbegins : begins progress) :
    Follows progress (series item allowTrailing fuel) fun last =>
      ends last ∨ allowTrailing = true ∧ begins last := by
  induction fuel generalizing progress with
  | zero => exact (hitem progress hbegins).bind fun x last hlast => follows_pure _ (.inl hlast)
  | succ fuel ih =>
    refine (hitem progress hbegins).bind fun x last hends => ?_
    refine Follows.bind ?_ fun xs final hfinal => follows_pure _ hfinal
    obtain ⟨next, hstep, hnext⟩ := hinside.comma last hends
    have htake := follows_take (mem_expected_of_step (by decide) hstep) hstep rfl
    refine Follows.orElse (htake.bind ?_) (follows_pure [] (.inl hends))
    rintro - _ rfl
    cases allowTrailing with
    | false => exact ih hnext
    | true => exact (ih hnext).orElse (follows_pure [] (.inr ⟨rfl, hnext⟩))

/-- The brackets may be closed behind a series. -/
theorem follows_series_closes {item : Trial α} {bracket : Bracket}
    {begins ends : Progress → Prop} (hinside : Inside bracket frames begins ends)
    (hitem : ∀ progress, begins progress → Follows progress item ends) (allowTrailing : Bool)
    (fuel : Nat) {progress : Progress} (hbegins : begins progress) :
    Follows progress (series item allowTrailing fuel) (Closes bracket frames) :=
  (follows_series hinside hitem fuel hbegins).mono fun last hlast =>
    hlast.elim (hinside.closes_ends last) fun hbegins => hinside.closes_begins last hbegins.2

end

section

variable {item : Trial Expression}
  (hitem : ∀ frames, ¬AwaitsKey frames → Follows (.before frames) item (Behind frames))
  (fuel : Nat) {frames : List Frame}

include hitem

theorem follows_item (bracket : Bracket) (progress : Progress)
    (h : ItemBegins bracket frames progress) :
    Follows progress item (ItemEnds bracket frames) := by
  obtain ⟨items, rfl⟩ := h
  exact (hitem _ (not_awaitsKey_ofItems bracket items frames)).mono fun last hlast =>
    ⟨items, hlast⟩

theorem follows_list (hframes : ¬AwaitsKey frames) :
    Follows (.before frames) (list item fuel) (Behind frames) := by
  have hinside := inside_items .square frames
  have hbegins : ItemBegins .square frames (.before (.ofItems .square [] :: frames)) := ⟨[], rfl⟩
  have hitems := follows_series_closes hinside (follows_item hitem .square) true fuel hbegins
  have hnone := follows_pure ([] : List Expression) (hinside.closes_begins _ hbegins)
  exact (follows_enclosed hframes (hitems.orElse hnone)).bind fun items last hlast =>
    follows_pure _ hlast

theorem follows_round (hframes : ¬AwaitsKey frames) :
    Follows (.before frames) (round item fuel) (Behind frames) := by
  have hinside := inside_items .round frames
  have hbegins : ItemBegins .round frames (.before (.ofItems .round [] :: frames)) := ⟨[], rfl⟩
  have hitems : Follows (.before (.ofItems .round [] :: frames))
      ((series item false fuel).orElse (pure [])) fun last =>
        ItemEnds .round frames last ∨ last = .before (.ofItems .round [] :: frames) := by
    refine Follows.orElse ?_ (follows_pure [] (.inr rfl))
    refine (follows_series hinside (follows_item hitem .round) fuel hbegins).mono ?_
    rintro last (hends | ⟨⟨⟩, -⟩)
    exact .inl hends
  have hparts : Follows (.before (.ofItems .round [] :: frames)) (parts item fuel)
      (Closes .round frames) := by
    refine hitems.bind fun items last hlast => ?_
    -- Behind an item the comma leads on, and without items it makes the empty tuple.
    have hcomma : ∃ next, last.step .comma = some next ∧ Closes .round frames next := by
      rcases hlast with hends | rfl
      · obtain ⟨next, hstep, hnext⟩ := hinside.comma last hends
        exact ⟨next, hstep, hinside.closes_begins next hnext⟩
      · exact ⟨.emptyTuple frames, rfl, _, rfl⟩
    have hcloses : Closes .round frames last := by
      rcases hlast with hends | rfl
      · exact hinside.closes_ends last hends
      · exact hinside.closes_begins _ hbegins
    obtain ⟨next, hstep, hnext⟩ := hcomma
    have htake := follows_take (mem_expected_of_step (by decide) hstep) hstep hnext
    refine Follows.bind ?_ fun trailing last hlast => follows_pure _ hlast
    exact Follows.orElse (htake.bind fun _ last hlast => follows_pure true hlast)
      (follows_pure false hcloses)
  exact (follows_enclosed hframes hparts).bind fun items last hlast => follows_pure _ hlast

theorem follows_entry (progress : Progress) (h : EntryBegins frames progress) :
    Follows progress (entry item) (EntryEnds frames) := by
  obtain ⟨entries, rfl⟩ := h
  refine follows_atom.bind ?_
  rintro key _ ⟨value, rfl⟩
  have hcolon := step_colon value entries frames
  refine (follows_take (mem_expected_of_step (by decide) hcolon) hcolon rfl).bind ?_
  rintro - _ rfl
  exact (hitem _ id).bind fun x last hlast => follows_pure _ ⟨entries, value, hlast⟩

theorem follows_dict (hframes : ¬AwaitsKey frames) :
    Follows (.before frames) (dict item fuel) (Behind frames) := by
  have hinside := inside_entries frames
  have hbegins : EntryBegins frames (.before (.ofItems .curly [] :: frames)) := ⟨[], rfl⟩
  have hentries := follows_series_closes hinside (follows_entry hitem) true fuel hbegins
  have hnone := follows_pure ([] : List (Scalar × Expression)) (hinside.closes_begins _ hbegins)
  exact (follows_enclosed hframes (hentries.orElse hnone)).bind fun items last hlast =>
    follows_pure _ hlast

theorem follows_set (hframes : ¬AwaitsKey frames) :
    Follows (.before frames) (set item fuel) (Behind frames) :=
  (follows_enclosed hframes (follows_series_closes (inside_items .curly frames)
    (follows_item hitem .curly) true fuel ⟨[], rfl⟩)).bind fun _ _ hlast =>
      follows_pure _ hlast

theorem follows_alternatives (hframes : ¬AwaitsKey frames) :
    Follows (.before frames) (alternatives item fuel) (Behind frames) := by
  have hatom : Follows (.before frames)
      (do let value ← atom; pure (.atom value) : Trial Expression) (Behind frames) := by
    refine follows_atom.bind ?_
    rintro x _ ⟨value, rfl⟩
    exact follows_pure _ (.scalar value)
  exact hatom.orElse <| (follows_list hitem fuel hframes).orElse <|
    (follows_round hitem fuel hframes).orElse <| (follows_dict hitem fuel hframes).orElse <|
    follows_set hitem fuel hframes

end

theorem follows_expression (fuel : Nat) {frames : List Frame} (hframes : ¬AwaitsKey frames) :
    Follows (.before frames) (expression fuel) (Behind frames) := by
  induction fuel generalizing frames with
  | zero =>
    refine ⟨fun tokens failure h => ?_, fun tokens x rest h => ?_⟩
    · cases h
      exact onWay_here (List.nil_subset _) tokens
    · cases h
  | succ fuel ih => exact follows_alternatives (fun _ => ih) fuel hframes

theorem follows_atEnd {progress : Progress}
    (hexpected : Expectation.endOfInput ∈ progress.expected) :
    Follows progress atEnd fun last => last = progress where
  failure tokens failure h := by
    cases tokens with
    | nil => cases h
    | cons token rest =>
      cases h
      exact onWay_here (List.cons_subset.2 ⟨hexpected, List.nil_subset _⟩) _
  taken tokens x rest h := by
    cases tokens with
    | nil => cases h; exact ⟨[], progress, rfl, rfl, rfl⟩
    | cons token rest => cases h

theorem follows_whole (fuel : Nat) :
    Follows .start (whole fuel) fun last => ∃ e, last.result? = some e := by
  refine (follows_expression fuel id).bind fun e last hlast => ?_
  have hresult : ∃ e, last.result? = some e := by cases hlast <;> exact ⟨_, rfl⟩
  have hend : Expectation.endOfInput ∈ last.expected := by
    cases hlast <;> exact List.mem_filter.2 ⟨by decide, rfl⟩
  refine (follows_atEnd hend).bind ?_
  rintro - _ rfl
  exact follows_pure _ hresult

end Trial

end Wiring.Expression
