import Cal.Proofs.Parser.Stage

/-!
# How a parse ends

A parse ends at a stage where no goal is left, where the plan of the first goal is to refuse the next
token, or where it is to open a body and too many are open.

* `program_ends`: a parse ends at a stage that decides its outcome, and what it has consumed are the
  first tokens of its stream.
* `outcome_of_ends`: whatever stage of a parse is an end, it decides the outcome.
-/

namespace Cal

variable {σ : Type} {stream : Nat → Token} {n : Nat}

/-- What comes of a parse. -/
def Parser.outcome [FiniteSource σ] (parser : Parser σ) : Outcome :=
  match parser.program with
  | .ok _ _ => .ok ()
  | .error error _ => .error error

/-- The tokens that a parse has consumed when it ends. -/
def Parser.consumed [FiniteSource σ] (parser : Parser σ) : List Token :=
  match parser.program with
  | .ok _ after => after.buffer.past.reverse
  | .error _ after => after.buffer.past.reverse

namespace Stage

/-- How a parse of a stream ends at a stage. -/
inductive Ends (stream : Nat → Token) (stage : Stage σ) : Outcome → Prop
  | accepted : stage.agenda = [] → Ends stream stage (.ok ())
  | refused {goal rest missed wanted} : stage.agenda = goal :: rest →
    goal.planAt stream stage.parser.generation = .refuse missed wanted →
      Ends stream stage (.error (.unexpected ⟨stream stage.parser.generation,
        (stage.parser.standing.miss missed).expected wanted⟩))
  | tooDeep {goal rest missed goals limit} : stage.agenda = goal :: rest →
    goal.planAt stream stage.parser.generation = .go missed true goals →
      stage.parser.standing.exhausted? = some limit →
        Ends stream stage (.error (.tooDeep limit (stream stage.parser.generation).position))

end Stage

theorem pastOf_reverse (n : Nat) : (pastOf stream n).reverse = (List.range n).map stream :=
  List.reverse_reverse _

/-- A step that fails is the end of a parse. -/
theorem ends_of_error [Source σ] {goal : Goal} {rest : List Goal} {parser : Parser σ} {error : ParseError}
    {reached : Standing}
    (h : (goal.planAt stream parser.generation).carryOut (stream parser.generation) parser.standing =
      .error error reached) :
    Stage.Ends stream ⟨goal :: rest, parser⟩ (.error error) := by
  rcases Plan.error_cases h with ⟨missed, inner, limit, hplan, hlimit, rfl, -⟩ | ⟨missed, wanted, hplan, rfl, -⟩
  · exact .tooDeep rfl hplan hlimit
  · exact .refused rfl hplan

/-- Nothing comes after the end of a parse. -/
theorem Stage.next?_of_ends [Source σ] {stage : Stage σ} {outcome : Outcome}
    (hreads : At stream stage.parser.standing stage.parser) (h : stage.Ends stream outcome) :
    stage.next? = none := by
  obtain ⟨agenda, parser⟩ := stage
  have hfails : ∀ (goal : Goal) (error : ParseError) (reached : Standing),
      (goal.planAt stream parser.generation).carryOut (stream parser.generation) parser.standing =
        .error error reached → ∃ after, goal.step parser = .error error after := by
    intro goal error reached hplan
    have hcarries := carries_step goal hreads
    have hstep : Carries stream goal.step parser (.error error reached) := hplan ▸ hcarries
    obtain ⟨after, hafter, -⟩ := hstep.exists_error
    exact ⟨after, hafter⟩
  cases h with
  | accepted hagenda =>
    obtain rfl : agenda = [] := hagenda
    rfl
  | refused hagenda hplan =>
    obtain rfl : agenda = _ := hagenda
    obtain ⟨after, hafter⟩ := hfails _ _ _ (by rw [hplan]; rfl)
    simp [next?, hafter]
  | tooDeep hagenda hplan hlimit =>
    obtain rfl : agenda = _ := hagenda
    obtain ⟨after, hafter⟩ := hfails _ _ _ (by rw [hplan]; simp only [Plan.carryOut, hlimit]; rfl)
    simp [next?, hafter]

/-- **How a parse ends.** -/
theorem program_ends [FiniteSource σ] {parser : Parser σ} {limit : Option Nat}
    (hreads : At stream ⟨0, .empty, 0, limit⟩ parser) :
    ∃ n stage, (Stage.mk Goal.program parser).after n = some stage ∧ stage.Ends stream parser.outcome ∧
      parser.consumed = (List.range stage.parser.generation).map stream := by
  obtain ⟨result, hrun⟩ := Option.isSome_iff_exists.1 parser.run_program_isSome
  obtain ⟨n, stage, hafter, hresult⟩ := Stage.run_ends hrun
  refine ⟨n, stage, hafter, ?_⟩
  have hsound := Stage.sound_after rfl hreads hafter
  obtain ⟨agenda, last⟩ := stage
  unfold Parser.outcome Parser.consumed Parser.program
  simp only [hrun, Option.get_some]
  cases agenda with
  | nil =>
    cases hresult
    refine ⟨.accepted rfl, ?_⟩
    rw [← pastOf_reverse]
    exact congrArg List.reverse hsound.reads.shows.2
  | cons goal rest =>
    cases hstep : goal.step last with
    | ok goals after =>
      simp only [Stage.result?, hstep] at hresult
      cases hresult
    | error error after =>
      simp only [Stage.result?, hstep] at hresult
      cases hresult
      -- the step that fails takes nothing, so that the past is still that of the stage
      obtain ⟨hcarried, hstopped⟩ := (carries_step goal hsound.reads).of_error hstep
      refine ⟨ends_of_error hcarried, ?_⟩
      have hgeneration : after.generation = last.generation := Plan.generation_of_error hcarried
      rw [← pastOf_reverse, ← hgeneration]
      exact congrArg List.reverse hstopped.shows.2

theorem Stage.Ends.unique {stage : Stage σ} {outcome other : Outcome} (h : stage.Ends stream outcome)
    (hother : stage.Ends stream other) : outcome = other := by
  cases h with
  | accepted hagenda =>
    cases hother with
    | accepted => rfl
    | refused hagenda' => rw [hagenda] at hagenda'; cases hagenda'
    | tooDeep hagenda' => rw [hagenda] at hagenda'; cases hagenda'
  | refused hagenda hplan =>
    cases hother with
    | accepted hagenda' => rw [hagenda] at hagenda'; cases hagenda'
    | refused hagenda' hplan' =>
      rw [hagenda] at hagenda'
      cases hagenda'
      rw [hplan] at hplan'
      cases hplan'
      rfl
    | tooDeep hagenda' hplan' =>
      rw [hagenda] at hagenda'
      cases hagenda'
      rw [hplan] at hplan'
      cases hplan'
  | tooDeep hagenda hplan hlimit =>
    cases hother with
    | accepted hagenda' => rw [hagenda] at hagenda'; cases hagenda'
    | refused hagenda' hplan' =>
      rw [hagenda] at hagenda'
      cases hagenda'
      rw [hplan] at hplan'
      cases hplan'
    | tooDeep hagenda' hplan' hlimit' =>
      rw [hlimit] at hlimit'
      cases hlimit'
      rfl

/-- The stage at which a parse ends decides its outcome. -/
theorem outcome_of_ends [FiniteSource σ] {parser : Parser σ} {limit : Option Nat} {stage : Stage σ}
    {outcome : Outcome} (hreads : At stream ⟨0, .empty, 0, limit⟩ parser)
    (hstage : (Stage.mk Goal.program parser).after n = some stage) (hends : stage.Ends stream outcome) :
    parser.outcome = outcome := by
  obtain ⟨m, last, hlast, hended, -⟩ := program_ends hreads
  have hnone : ∀ {m stage outcome}, (Stage.mk Goal.program parser).after m = some stage →
      stage.Ends stream outcome → stage.next? = none := by
    intro m stage outcome hstage hends
    exact Stage.next?_of_ends (Stage.sound_after rfl hreads hstage).reads hends
  obtain rfl := Stage.ends_once hlast (hnone hlast hended) hstage (hnone hstage hends)
  exact hended.unique hends

/-- The first stage of a parse of tokens. -/
def Stage.ofTokens (tokens : List Token) : Stage TokenList :=
  ⟨Goal.program, .ofSource (TokenList.ofList tokens)⟩

/-- A parser of tokens before the first. -/
theorem reads_ofList (tokens : List Token) :
    At (streamOf tokens) ⟨0, .empty, 0, some nestingLimit⟩ (.ofSource (TokenList.ofList tokens)) := by
  have hshows := Buffer.shows_ofList tokens
  refine ⟨?_, rfl⟩
  show Buffer.Shows (fun k => .ok (streamOf tokens (0 + k))) [] (Buffer.ofSource (TokenList.ofList tokens))
  simpa only [Nat.zero_add] using hshows

end Cal
