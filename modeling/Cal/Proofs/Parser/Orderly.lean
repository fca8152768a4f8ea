import Cal.Proofs.Lookahead.Leftover
import Cal.Proofs.Parser.Returns

/-!
# What every parse leaves in order

A parser can be used again after any outcome: no body is open, what is stamped was missed by now, and no
decision point that is live would have accepted the token that is next.

* `Standing.Orderly`: the invariant, with a given number of bodies open.
* `Parser.Orderly.step`, `Parser.Orderly.fail`: every step keeps it, also one that fails.
* `orderly_of_calls`: it holds after any number of parses, whatever came of them.
-/

namespace Cal

/-- What is known of a parser at any time: its limit, how many bodies are open, that the stamps are of
the past, and that the points live now would not have accepted the next token. -/
structure Standing.Orderly (bodies : Nat) (view : Nat → Except LexError Token) (standing : Standing) :
    Prop where
  depth : standing.depth = bodies
  limit : standing.limit = some nestingLimit
  past (point : Decision) (n : Nat) : standing.decisions.stamp? point = some n → n ≤ standing.generation
  unfit (point : Decision) : standing.decisions.stamp? point = some standing.generation →
    ∃ next, view 0 = .ok next ∧ next.kind ∉ point.firstKinds
  closed : Closed view

namespace Standing.Orderly

variable {bodies : Nat} {view view' : Nat → Except LexError Token} {standing : Standing}
  {missed : List Decision}

theorem miss (h : Orderly bodies view standing)
    (hmissed : ∀ point ∈ missed, ∃ next, view 0 = .ok next ∧ next.kind ∉ point.firstKinds) :
    Orderly bodies view (standing.miss missed) := by
  refine ⟨h.depth, h.limit, fun point n => le_of_stamp?_miss h.past, fun point hlive => ?_, h.closed⟩
  have hgeneration : (standing.miss missed).generation = standing.generation := rfl
  rw [stamp?_miss, hgeneration] at hlive
  by_cases hpoint : point ∈ missed
  · exact hmissed point hpoint
  · rw [if_neg hpoint] at hlive
    exact h.unfit point hlive

/-- Once the next token is taken, no point is live. -/
theorem not_live (h : Orderly bodies view standing) (point : Decision) :
    standing.decisions.stamp? point ≠ some (standing.generation + 1) := by
  intro hlive
  have hle := h.past point _ hlive
  omega

theorem take (h : Orderly bodies view standing) :
    Orderly bodies (fun k => view (k + 1)) { standing with generation := standing.generation + 1 } := by
  refine ⟨h.depth, h.limit, fun point n hstamp => ?_, fun point hlive => ?_, h.closed.shift⟩
  · have hle := h.past point n hstamp
    exact Nat.le_succ_of_le hle
  · exact absurd hlive (h.not_live point)

theorem enter (h : Orderly bodies view standing) :
    Orderly (bodies + 1) view { standing with depth := standing.depth + 1 } :=
  ⟨congrArg (· + 1) h.depth, h.limit, h.past, h.unfit, h.closed⟩

theorem leave (h : Orderly (bodies + 1) view standing) :
    Orderly bodies view { standing with depth := standing.depth - 1 } :=
  ⟨congrArg (· - 1) h.depth, h.limit, h.past, h.unfit, h.closed⟩

/-- After a failure all bodies are closed, and the next token is still in view if it was. -/
theorem abandon (h : Orderly bodies view standing) (hclosed : Closed view')
    (hview : ∀ next, view 0 = .ok next → view' 0 = .ok next) :
    Orderly 0 view' { standing with depth := 0 } := by
  refine ⟨rfl, h.limit, h.past, fun point hlive => ?_, hclosed⟩
  obtain ⟨next, hnext, hunfit⟩ := h.unfit point hlive
  exact ⟨next, hview next hnext, hunfit⟩

/-- What is expected is not next, as long as no other kind is wanted. -/
theorem not_expected {next : Token} {wanted : Option TokenKind} (h : Orderly bodies view standing)
    (hnext : view 0 = .ok next) (hwanted : wanted ≠ some next.kind) :
    next.kind ∉ standing.expected wanted := by
  intro hmem
  rcases mem_expected.1 hmem with ⟨point, hlive, hkind⟩ | hkind
  · obtain ⟨same, hsame, hunfit⟩ := h.unfit point hlive
    rw [hnext] at hsame
    cases hsame
    exact hunfit hkind
  · exact hwanted hkind

end Standing.Orderly

/-- A parser is in order, with so many bodies open. -/
def Parser.Orderly {σ : Type} [Source σ] (bodies : Nat) (parser : Parser σ) : Prop :=
  parser.standing.Orderly bodies parser.buffer.view

/-- Some number of parses, one after the other on the same parser. -/
inductive Parser.Calls {σ : Type} [Source σ] (parser : Parser σ) : Nat → Parser σ → Prop
  | none : Calls parser 0 parser
  | again {n : Nat} {before after : Parser σ} {outcome : Outcome} :
    Calls parser n before → before.Returns outcome after → Calls parser (n + 1) after

variable {σ : Type} [Source σ] {parser after : Parser σ} {goal : Goal} {goals rest : List Goal}
  {bodies n : Nat} {error : ParseError} {outcome : Outcome} {stage : Stage σ}

theorem orderly_ofSource (source : σ) : (Parser.ofSource source).Orderly 0 := by
  have hview : (Parser.ofSource source).buffer.view = Source.outlook source := Buffer.view_ofSource source
  have hnone (point : Decision) : (Parser.ofSource source).standing.decisions.stamp? point = none :=
    Decision.Log.stamp?_empty point
  refine ⟨rfl, rfl, fun point n hstamp => ?_, fun point hlive => ?_, hview ▸ Closed.outlook source⟩
  · rw [hnone] at hstamp
    cases hstamp
  · rw [hnone] at hlive
    cases hlive

/-- The bodies that an agenda closes, where its first goal is met as planned. -/
theorem count_endBody {plan : Plan} {kind : TokenKind} {hit : Bool} (hplan : goal.plan kind hit = plan)
    (hmet : plan ≠ .leave) (rest : List Goal) :
    (plan.goals ++ rest).count .endBody = (goal :: rest).count .endBody := by
  have hgoal : goal ≠ .endBody := by
    rintro rfl
    exact hmet hplan.symm
  have hnone : Goal.endBody ∉ plan.goals := by
    rw [← hplan]
    exact Goal.endBody_not_mem_plan
  rw [List.count_append, List.count_eq_zero_of_not_mem hnone, Nat.zero_add, List.count_cons_of_ne hgoal]

namespace Parser.Orderly

/-- **A step leaves a parser in order**, with the bodies open that are still to be closed. -/
theorem step (h : parser.Orderly ((goal :: rest).count .endBody)) (hstep : goal.step parser = .ok goals after) :
    after.Orderly ((goals ++ rest).count .endBody) := by
  obtain ⟨hact, hfollows⟩ := act_of_step hstep
  obtain ⟨seen, hsight, hplanned⟩ := Goal.act_ok_cases hact
  have hgeneration : after.standing.generation = after.generation := rfl
  -- only a step that takes a token moves the view
  have hkept (hsame : after.standing.generation = parser.standing.generation) :
      after.buffer.view = parser.buffer.view := by
    rcases hfollows with ⟨-, hshows⟩ | ⟨hsucc, -⟩
    · exact hshows.1
    · have hsame : after.generation = parser.generation := hsame
      omega
  have hmissed : ∀ point ∈ (goal.plan seen.next.kind seen.hit).missed,
      ∃ next, parser.buffer.view 0 = .ok next ∧ next.kind ∉ point.firstKinds :=
    fun point => Goal.unfit_of_missed hsight
  unfold Parser.Orderly
  rcases Plan.ok_cases hplanned with ⟨hplan, rfl, hreached⟩ | ⟨missed, hplan, hreached⟩ |
    ⟨missed, inner, hplan, -, rfl, hreached⟩ | ⟨hplan, rfl, hreached⟩
  · have hmoved : after.buffer.view = fun k => parser.buffer.view (k + 1) := by
      rcases hfollows with ⟨hsame, -⟩ | ⟨-, next, -, hshows⟩
      · rw [← hgeneration, hreached] at hsame
        have hsame : parser.generation + 1 = parser.generation := hsame
        omega
      · exact hshows.1
    have hcount : ([] ++ rest).count Goal.endBody = (goal :: rest).count .endBody :=
      count_endBody hplan nofun rest
    rw [hmoved, hreached, hcount]
    exact h.take
  · have hcount : (goals ++ rest).count Goal.endBody = (goal :: rest).count .endBody :=
      count_endBody hplan nofun rest
    rw [hplan] at hmissed
    rw [hkept (by rw [hreached]; rfl), hreached, hcount]
    exact h.miss hmissed
  · have hinner : (inner ++ rest).count Goal.endBody = (goal :: rest).count .endBody :=
      count_endBody hplan nofun rest
    have hcount : (inner ++ [Goal.endBody] ++ rest).count .endBody = (goal :: rest).count .endBody + 1 := by
      rw [← hinner]
      simp only [List.count_append, List.count_singleton_self]
      omega
    rw [hplan] at hmissed
    rw [hkept (by rw [hreached]; rfl), hreached, hcount]
    exact (h.miss hmissed).enter
  · obtain rfl := Goal.eq_endBody_of_leave hplan
    rw [List.count_cons_self] at h
    rw [hkept (by rw [hreached]), hreached]
    exact h.leave

/-- **A step that fails leaves a parser in order** once all bodies are closed, and the kind of the token
that it refuses is not expected. -/
theorem fail (h : parser.Orderly bodies) (hstep : goal.step parser = .error error after) :
    after.abandon.Orderly 0 ∧ ∀ refused, error = .unexpected refused →
      parser.buffer.view 0 = .ok refused.unexpected ∧ refused.unexpected.kind ∉ refused.expected := by
  obtain ⟨hact, hrecalls⟩ := act_of_step_error hstep
  have hclosed := h.closed.recalls hrecalls
  have habandon (hreached : after.standing.Orderly bodies parser.buffer.view) : after.abandon.Orderly 0 :=
    hreached.abandon hclosed fun next => hrecalls.shown
  rcases Goal.act_error_cases hact with ⟨unseen, hsight, rfl, hreached⟩ | ⟨seen, hsight, hplanned⟩
  · refine ⟨habandon ?_, nofun⟩
    rw [hreached]
    exact h.miss fun point => Goal.unfit_of_missedBefore hsight
  · have hmissed : ∀ point ∈ (goal.plan seen.next.kind seen.hit).missed,
        ∃ next, parser.buffer.view 0 = .ok next ∧ next.kind ∉ point.firstKinds :=
      fun point => Goal.unfit_of_missed hsight
    rcases Plan.error_cases hplanned with ⟨missed, inner, limit, hplan, -, rfl, hreached⟩ |
      ⟨missed, wanted, hplan, rfl, hreached⟩
    · rw [hplan] at hmissed
      exact ⟨habandon (hreached ▸ h.miss hmissed), nofun⟩
    · rw [hplan] at hmissed
      have hafter := h.miss hmissed
      obtain ⟨hnext, -⟩ := Goal.sight_ok_cases (Goal.blind_of_refuse hplan) hsight
      refine ⟨habandon (hreached ▸ hafter), ?_⟩
      rintro refused ⟨rfl⟩
      refine ⟨hnext, hafter.not_expected hnext fun hwanted => ?_⟩
      have hoffered : seen.next.kind ∉ (goal.plan seen.next.kind seen.hit).offered := Goal.next_not_mem_offered
      rw [hplan, hwanted] at hoffered
      exact hoffered (List.mem_append_right _ (List.mem_singleton.2 rfl))

end Parser.Orderly

theorem orderly_after {agenda : List Goal} (h : parser.Orderly (agenda.count .endBody))
    (hstage : (Stage.mk agenda parser).after n = some stage) :
    stage.parser.Orderly (stage.agenda.count .endBody) := by
  induction n generalizing stage with
  | zero =>
    cases hstage
    exact h
  | succ n ih =>
    obtain ⟨before, hbefore, hnext⟩ := Stage.after_succ.1 hstage
    obtain ⟨goal, rest, goals, hagenda, hstep, hlater⟩ := Stage.next?_eq_some.1 hnext
    have horderly := ih hbefore
    rw [hagenda] at horderly
    rw [hlater]
    exact horderly.step hstep

/-- **A parse leaves a parser in order**, whatever comes of it. -/
theorem Parser.Orderly.returns (h : parser.Orderly 0) (hreturns : parser.Returns outcome after) :
    after.Orderly 0 ∧ ∀ refused, outcome = .error (.unexpected refused) →
      refused.unexpected.kind ∉ refused.expected := by
  obtain ⟨n, stage, result, hstage, hresult, hfinish⟩ := returns_iff.1 hreturns
  have hnone : Goal.program.count .endBody = 0 := rfl
  have horderly := orderly_after (hnone ▸ h) hstage
  rcases Stage.result_cases hresult with ⟨hagenda, rfl⟩ | ⟨goal, rest, error, failed, -, rfl, hstep, -⟩
  · cases hfinish
    rw [hagenda] at horderly
    exact ⟨horderly, nofun⟩
  · cases hfinish
    obtain ⟨hafter, hrefused⟩ := horderly.fail hstep
    refine ⟨hafter, fun refused houtcome => ?_⟩
    exact (hrefused refused (Except.error.inj houtcome)).2

/-- **Every parser is in order between parses.** -/
theorem orderly_of_calls (h : parser.Orderly 0) (hcalls : parser.Calls n after) : after.Orderly 0 := by
  induction hcalls with
  | none => exact h
  | again _ hreturns ih => exact (ih.returns hreturns).1

end Cal
