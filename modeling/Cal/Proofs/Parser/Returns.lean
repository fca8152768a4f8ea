import Cal.Proofs.Parser.Stage

/-!
# What a parse comes to

On a source that settles every parse comes to an outcome. On other sources it may go on for ever, but if
it comes to an outcome there is just one.

* `returns_iff`: a parse comes to the result of its last stage.
* `Parser.Returns.failure`: if it fails, then in the step from there.
* `returns_program`: on a source that settles it comes to what `program` says.
-/

namespace Cal

variable {σ : Type} [Source σ] {parser after last : Parser σ} {outcome : Outcome} {start stage : Stage σ}
  {result : EStateM.Result ParseError (Parser σ) Unit} {n : Nat}

/-- A run has the result of its last stage. -/
theorem Stage.run_of_result (hstage : start.after n = some stage) (hresult : stage.result? = some result) :
    Parser.run (n + 1) start.agenda start.parser = some result := by
  induction n generalizing start with
  | zero =>
    cases hstage
    obtain ⟨agenda, parser⟩ := stage
    cases agenda with
    | nil => exact hresult
    | cons goal rest =>
      cases hstep : goal.step parser with
      | ok goals after => simp [result?, hstep] at hresult
      | error error after => simpa [Parser.run, result?, hstep] using hresult
  | succ n ih =>
    obtain ⟨second, hsecond⟩ := Stage.exists_after hstage (Nat.succ_pos n)
    have hnext : start.next? = some second := hsecond
    rw [Stage.after_of_next hnext] at hstage
    have hrun := ih hstage
    obtain ⟨agenda, parser⟩ := start
    obtain ⟨goal, rest, goals, rfl, hstep, hagenda⟩ := Stage.next?_eq_some.1 hnext
    simp only at hstep
    rw [Parser.run, hstep]
    rwa [hagenda] at hrun

/-- Nothing comes after a stage that has a result. -/
theorem Stage.next?_of_result (h : stage.result? = some result) : stage.next? = none := by
  obtain ⟨agenda, parser⟩ := stage
  cases agenda with
  | nil => rfl
  | cons goal rest =>
    cases hstep : goal.step parser with
    | ok goals after => simp [result?, hstep] at h
    | error error after => simp [next?, hstep]

/-- **How a run ends**: no goal is left, or the first goal cannot see, or its plan fails. -/
theorem Stage.result_cases (h : stage.result? = some result) :
    (stage.agenda = [] ∧ result = .ok () stage.parser) ∨
      ∃ goal rest error after, stage.agenda = goal :: rest ∧ result = .error error after ∧
        goal.step stage.parser = .error error after ∧
        ((∃ unseen, goal.sight stage.parser.buffer.view = .error unseen ∧ error = .lexical unseen) ∨
          ∃ sight, goal.sight stage.parser.buffer.view = .ok sight ∧
            (goal.plan sight.next.kind sight.hit).carryOut sight.next stage.parser.standing =
              .error error after.standing) := by
  obtain ⟨agenda, parser⟩ := stage
  cases agenda with
  | nil =>
    cases h
    exact .inl ⟨rfl, rfl⟩
  | cons goal rest =>
    cases hstep : goal.step parser with
    | ok goals after => simp [result?, hstep] at h
    | error error after =>
      simp only [result?, hstep, Option.some.injEq] at h
      refine .inr ⟨goal, rest, error, after, rfl, h.symm, hstep, ?_⟩
      obtain ⟨hact, -⟩ := act_of_step_error hstep
      rcases Goal.act_error_cases hact with ⟨unseen, hsight, herror, -⟩ | hplan
      · exact .inl ⟨unseen, hsight, herror⟩
      · exact .inr hplan

/-- A stage has a next one, or a result. -/
theorem Stage.next?_or_result? (stage : Stage σ) :
    (∃ later, stage.next? = some later) ∨ ∃ result, stage.result? = some result := by
  obtain ⟨agenda, parser⟩ := stage
  cases agenda with
  | nil => exact .inr ⟨_, rfl⟩
  | cons goal rest =>
    cases hstep : goal.step parser with
    | ok goals after => exact .inl ⟨⟨goals ++ rest, after⟩, by simp [next?, hstep]⟩
    | error error after => exact .inr ⟨.error error after, by simp [result?, hstep]⟩

/-- What a run leaves: its outcome, and the parser, with all bodies closed if it has failed. -/
def Parser.finish : EStateM.Result ParseError (Parser σ) Unit → Outcome × Parser σ
  | .ok _ after => (.ok (), after)
  | .error error after => (.error error, after.abandon)

/-- A parse of a program comes to an outcome, and the parser to a state, after some number of steps. On
a source that does not settle it need not come to any. -/
def Parser.Returns (parser : Parser σ) (outcome : Outcome) (after : Parser σ) : Prop :=
  ∃ n, (Parser.run n Goal.program parser).map Parser.finish = some (outcome, after)

theorem returns_iff : parser.Returns outcome after ↔
    ∃ n stage result, (Stage.mk Goal.program parser).after n = some stage ∧
      stage.result? = some result ∧ Parser.finish result = (outcome, after) := by
  constructor
  · rintro ⟨n, h⟩
    obtain ⟨result, hrun, hfinish⟩ := Option.map_eq_some_iff.1 h
    obtain ⟨m, stage, hstage, hresult⟩ := Stage.run_ends hrun
    exact ⟨m, stage, result, hstage, hresult, hfinish⟩
  · rintro ⟨n, stage, result, hstage, hresult, hfinish⟩
    have hrun := Stage.run_of_result hstage hresult
    exact ⟨n + 1, by rw [hrun, Option.map_some, hfinish]⟩

theorem returns_of_nil (hstage : (Stage.mk Goal.program parser).after n = some ⟨[], after⟩) :
    parser.Returns (.ok ()) after :=
  returns_iff.2 ⟨n, _, _, hstage, rfl, rfl⟩

theorem returns_of_error {goal : Goal} {rest : List Goal} {error : ParseError}
    (hstage : (Stage.mk Goal.program parser).after n = some ⟨goal :: rest, last⟩)
    (hstep : goal.step last = .error error after) : parser.Returns (.error error) after.abandon := by
  have hresult : Stage.result? ⟨goal :: rest, last⟩ = some (.error error after) := by
    simp only [Stage.result?, hstep]
  exact returns_iff.2 ⟨n, _, _, hstage, hresult, rfl⟩

/-- **Where a parse fails**: in the step from its last stage. -/
theorem Parser.Returns.failure {error : ParseError} (h : parser.Returns (.error error) after) :
    ∃ n stage goal rest failed, (Stage.mk Goal.program parser).after n = some stage ∧ stage.next? = none ∧
      stage.agenda = goal :: rest ∧ goal.step stage.parser = .error error failed ∧ after = failed.abandon ∧
      ((∃ unseen, goal.sight stage.parser.buffer.view = .error unseen ∧ error = .lexical unseen) ∨
        ∃ sight, goal.sight stage.parser.buffer.view = .ok sight ∧
          (goal.plan sight.next.kind sight.hit).carryOut sight.next stage.parser.standing =
            .error error failed.standing) := by
  obtain ⟨n, stage, result, hstage, hresult, hfinish⟩ := returns_iff.1 h
  have hend := Stage.next?_of_result hresult
  rcases Stage.result_cases hresult with ⟨-, rfl⟩ | ⟨goal, rest, _, failed, hagenda, rfl, hstep, hfails⟩
  · cases hfinish
  · cases hfinish
    exact ⟨n, stage, goal, rest, failed, hstage, hend, hagenda, hstep, rfl, hfails⟩

/-- **A parse comes to one outcome at most.** -/
theorem Parser.Returns.unique {outcome' : Outcome} {after' : Parser σ} (h : parser.Returns outcome after)
    (hother : parser.Returns outcome' after') : outcome' = outcome ∧ after' = after := by
  obtain ⟨n, stage, result, hstage, hresult, hfinish⟩ := returns_iff.1 h
  obtain ⟨m, stage', result', hstage', hresult', hfinish'⟩ := returns_iff.1 hother
  obtain rfl := Stage.ends_once hstage (Stage.next?_of_result hresult) hstage'
    (Stage.next?_of_result hresult')
  rw [hresult] at hresult'
  cases hresult'
  rw [hfinish] at hfinish'
  cases hfinish'
  exact ⟨rfl, rfl⟩

/-- On a source that settles a parse comes to what `program` says. -/
theorem returns_program {σ : Type} [FiniteSource σ] (parser : Parser σ) :
    parser.Returns (replyOf parser.program).1 (replyOf parser.program).2 := by
  obtain ⟨result, hrun⟩ := Option.isSome_iff_exists.1 parser.run_program_isSome
  refine ⟨parser.steps, ?_⟩
  rw [hrun, Option.map_some]
  unfold Parser.program
  simp only [hrun, Option.get_some]
  cases result <;> rfl

end Cal
