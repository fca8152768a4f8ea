import Cal.Proofs.Parser.Stage

/-!
# Progress within a goal

What is done towards a goal does not depend on the goals behind it, so that a goal can be studied as if
it were the only one. As long as no token is taken each step leaves goals that weigh less, and only the
first of them may weigh less than nothing. So a goal does not come up again before a token is taken, be
it in the next round of a loop or within itself.

* `after_append`, `after_alone`: goals in front of others go as they go alone.
* `lighter_step`: what is left by a step that takes no token.
* `advances_again`, `advances_within`: between a goal and the same goal within it a token is taken.
* `advances_met`, `advances_past`: goals that not all may be left out take a token when they are met.
* `Goal.round?`: what a round of a loop has to meet.
-/

namespace Cal

variable {σ : Type} [Source σ] {parser later after : Parser σ} {stage : Stage σ} {goal loop : Goal}
  {goals agenda inner rest more round : List Goal} {next : TokenKind} {hit : Bool} {n : Nat}

namespace Stage

/-- **Goals in front of others go as they go alone.** -/
theorem after_append (h : (Stage.mk agenda parser).after n = some ⟨inner, later⟩) (rest : List Goal) :
    (Stage.mk (agenda ++ rest) parser).after n = some ⟨inner ++ rest, later⟩ := by
  induction n generalizing inner later with
  | zero =>
    cases h
    rfl
  | succ n ih =>
    obtain ⟨⟨before, parser'⟩, hbefore, hnext⟩ := after_succ.1 h
    obtain ⟨goal, tail, goals, hagenda, hstep, hinner⟩ := next?_eq_some.1 hnext
    obtain rfl : before = goal :: tail := hagenda
    obtain rfl : inner = goals ++ tail := hinner
    refine after_succ.2 ⟨_, ih hbefore, next?_eq_some.2 ⟨goal, tail ++ rest, goals, rfl, hstep, ?_⟩⟩
    exact List.append_assoc goals tail rest

/-- In front of others goals go as they go alone, until they are met. -/
theorem after_alone (h : (Stage.mk (agenda ++ rest) parser).after n = some stage) :
    (∃ inner, (Stage.mk agenda parser).after n = some ⟨inner, stage.parser⟩ ∧
      stage.agenda = inner ++ rest) ∨
    ∃ m < n, ∃ met, (Stage.mk agenda parser).after m = some ⟨[], met⟩ := by
  induction n generalizing stage with
  | zero =>
    cases h
    exact .inl ⟨agenda, rfl, rfl⟩
  | succ n ih =>
    obtain ⟨before, hbefore, hnext⟩ := after_succ.1 h
    rcases ih hbefore with ⟨inner, halone, hinner⟩ | ⟨m, hm, hmet⟩
    · cases inner with
      | nil => exact .inr ⟨n, Nat.lt_succ_self n, before.parser, halone⟩
      | cons goal tail =>
        obtain ⟨goal', tail', goals, hagenda, hstep, hlater⟩ := next?_eq_some.1 hnext
        obtain ⟨rfl, rfl⟩ : goal = goal' ∧ tail ++ rest = tail' := List.cons.inj (hinner.symm.trans hagenda)
        refine .inl ⟨goals ++ tail, after_succ.2 ⟨_, halone, ?_⟩, ?_⟩
        · exact next?_eq_some.2 ⟨goal, tail, goals, rfl, hstep, rfl⟩
        · rw [hlater, List.append_assoc]
    · exact .inr ⟨m, Nat.lt_succ_of_lt hm, hmet⟩

end Stage

/-- What a plan leaves that takes no token: goals that weigh less than the one before, the first of which at
most is urgent, and not all of which may be left out if the one before may not. -/
structure Goal.Lightened (goal : Goal) (goals : List Goal) : Prop where
  lighter : Goal.totalWeight goals < goal.weight
  calm : ∀ other ∈ goals.tail, other.urgent = false
  kept : goal.form.nullable = false → ∃ other ∈ goals, other.form.nullable = false

instance (goal : Goal) (goals : List Goal) : Decidable (goal.Lightened goals) :=
  decidable_of_iff
    (Goal.totalWeight goals < goal.weight ∧ (∀ other ∈ goals.tail, other.urgent = false) ∧
      (goal.form.nullable = false → ∃ other ∈ goals, other.form.nullable = false))
    ⟨fun ⟨hlighter, hcalm, hkept⟩ => ⟨hlighter, hcalm, hkept⟩, fun h => ⟨h.lighter, h.calm, h.kept⟩⟩

/-- **Every plan leaves lighter goals**, entry by entry of the table, also with the end of a body behind
them. -/
theorem Goal.lightened_plan (hgoes : (goal.plan next hit).goes = true) :
    goal.Lightened ((goal.plan next hit).goals ++ if (goal.plan next hit).opens then [.endBody] else []) := by
  revert next hit
  cases goal with
  | token kind | seen kind => simp [plan_token]
  | _ => decide +kernel

/-- **A step takes the next token, or leaves lighter goals.** -/
theorem lighter_step (hstep : goal.step parser = .ok goals after) :
    (after.generation = parser.generation + 1 ∧ goals = []) ∨
      (after.generation = parser.generation ∧ goal.Lightened goals) := by
  obtain ⟨seen, -, hrun⟩ := Goal.act_ok_cases (act_of_step hstep).1
  have hgeneration : after.generation = after.standing.generation := rfl
  rcases Plan.ok_cases hrun with ⟨-, rfl, hreached⟩ | ⟨missed, hplan, hreached⟩ |
    ⟨missed, inner, hplan, -, rfl, hreached⟩ | ⟨hplan, rfl, hreached⟩
  · rw [hgeneration, hreached]
    exact .inl ⟨rfl, rfl⟩
  · rw [hgeneration, hreached]
    have hlightened : goal.Lightened (_ ++ _) := Goal.lightened_plan (congrArg Plan.goes hplan)
    simp only [hplan, Plan.goals, Plan.opens, Bool.false_eq_true, if_false, List.append_nil] at hlightened
    exact .inr ⟨rfl, hlightened⟩
  · rw [hgeneration, hreached]
    have hlightened : goal.Lightened (_ ++ _) := Goal.lightened_plan (congrArg Plan.goes hplan)
    rw [hplan] at hlightened
    exact .inr ⟨rfl, hlightened⟩
  · obtain rfl := Goal.eq_endBody_of_leave hplan
    rw [hgeneration, hreached]
    exact .inr ⟨rfl, by decide⟩

/-- No token is given back. -/
theorem generation_le_after (h : (Stage.mk agenda parser).after n = some stage) :
    parser.generation ≤ stage.parser.generation := by
  obtain ⟨tokens, htook⟩ := Stage.took_after h
  have hgeneration : stage.parser.generation = parser.generation + tokens.length := htook.generation
  omega

/-- A step of a run in which no token is taken. -/
theorem still_step (h : (Stage.mk agenda parser).after (n + 1) = some ⟨inner, later⟩)
    (hstill : later.generation = parser.generation) :
    ∃ goal goals rest before, (Stage.mk agenda parser).after n = some ⟨goal :: rest, before⟩ ∧
      before.generation = parser.generation ∧ inner = goals ++ rest ∧ goal.Lightened goals := by
  obtain ⟨⟨between, before⟩, hbefore, hnext⟩ := Stage.after_succ.1 h
  obtain ⟨goal, rest, goals, hagenda, hstep, hinner⟩ := Stage.next?_eq_some.1 hnext
  obtain rfl : between = goal :: rest := hagenda
  have hle : parser.generation ≤ before.generation := generation_le_after hbefore
  rcases lighter_step hstep with ⟨hmoved, -⟩ | ⟨hsame, hlightened⟩
  · have hmoved : later.generation = before.generation + 1 := hmoved
    omega
  · exact ⟨goal, goals, rest, before, hbefore, hsame.symm.trans hstill, hinner, hlightened⟩

/-- **As long as no token is taken, every step leaves less weight**, and only the first goal is urgent. -/
theorem lighter_after (hcalm : ∀ other ∈ agenda.tail, other.urgent = false)
    (h : (Stage.mk agenda parser).after n = some ⟨inner, later⟩)
    (hstill : later.generation = parser.generation) :
    Goal.totalWeight inner + n ≤ Goal.totalWeight agenda ∧ ∀ other ∈ inner.tail, other.urgent = false := by
  induction n generalizing inner later with
  | zero =>
    cases h
    exact ⟨by simp, hcalm⟩
  | succ n ih =>
    obtain ⟨goal, goals, rest, before, hbefore, hsame, rfl, hlightened⟩ := still_step h hstill
    obtain ⟨hweight, hrest⟩ := ih hbefore hsame
    have hlighter := hlightened.lighter
    rw [Goal.totalWeight] at hweight
    refine ⟨by rw [Goal.totalWeight_append]; push_cast; omega, fun other hother => ?_⟩
    cases goals with
    | nil => exact hrest other (List.mem_of_mem_tail hother)
    | cons first goals =>
      rcases List.mem_append.1 hother with hinner | hbehind
      · exact hlightened.calm other hinner
      · exact hrest other hbehind

/-- As long as no token is taken, not all goals that are left may be left out if not all could at first. -/
theorem kept_after (hkept : ∃ other ∈ agenda, other.form.nullable = false)
    (h : (Stage.mk agenda parser).after n = some ⟨inner, later⟩)
    (hstill : later.generation = parser.generation) : ∃ other ∈ inner, other.form.nullable = false := by
  induction n generalizing inner later with
  | zero =>
    cases h
    exact hkept
  | succ n ih =>
    obtain ⟨goal, goals, rest, before, hbefore, hsame, rfl, hlightened⟩ := still_step h hstill
    obtain ⟨other, hother, hneeded⟩ := ih hbefore hsame
    rcases List.mem_cons.1 hother with rfl | hrest
    · obtain ⟨next, hnext, hneeded⟩ := hlightened.kept hneeded
      exact ⟨next, List.mem_append_left _ hnext, hneeded⟩
    · exact ⟨other, List.mem_append_right _ hrest, hneeded⟩

/-- What has been taken since has been consumed. -/
theorem consumed_eq (h : (Stage.mk agenda parser).after n = some ⟨inner, later⟩) :
    ∃ k, later.generation = parser.generation + k ∧ later.buffer.consumed = parser.buffer.consumed + k := by
  obtain ⟨tokens, htook⟩ := Stage.took_after h
  have hpast : later.buffer.past = tokens.reverse ++ parser.buffer.past := htook.past
  refine ⟨tokens.length, htook.generation, ?_⟩
  rw [Buffer.consumed, Buffer.consumed, hpast, List.length_append, List.length_reverse, Nat.add_comm]

theorem consumed_lt (h : (Stage.mk agenda parser).after n = some ⟨inner, later⟩)
    (hmoved : later.generation ≠ parser.generation) : parser.buffer.consumed < later.buffer.consumed := by
  obtain ⟨k, hgeneration, hconsumed⟩ := consumed_eq h
  omega

/-- **A goal does not come up again before a token is taken**, whatever then stands behind it. -/
theorem advances_again (hn : 0 < n) (h : (Stage.mk [goal] parser).after n = some ⟨goal :: more, later⟩) :
    parser.buffer.consumed < later.buffer.consumed := by
  refine consumed_lt h fun hstill => ?_
  obtain ⟨hweight, hcalm⟩ := lighter_after (by simp) h hstill
  have hmore : 0 ≤ Goal.totalWeight more := Parser.totalWeight_nonneg hcalm
  simp only [Goal.totalWeight] at hweight
  omega

/-- **Goals that not all may be left out take a token** when they are met. -/
theorem advances_met (hneeded : ∃ goal ∈ goals, goal.form.nullable = false)
    (h : (Stage.mk goals parser).after n = some ⟨[], later⟩) :
    parser.buffer.consumed < later.buffer.consumed := by
  refine consumed_lt h fun hstill => ?_
  obtain ⟨other, hother, -⟩ := kept_after hneeded h hstill
  cases hother

section Within

variable {start : Stage σ} {m : Nat}

/-- **No goal comes up again within itself before a token is taken**, nor as the next round of a loop. The goal
has not been met as long as something stands in front of the goals behind it. -/
theorem advances_within (hn : 0 < n) (hstage : start.after m = some ⟨goal :: rest, parser⟩)
    (hlater : start.after (m + n) = some ⟨goal :: (more ++ rest), later⟩)
    (hunmet : ∀ k < n, ∀ stage, start.after (m + k) = some stage →
      ∃ inner, inner ≠ [] ∧ stage.agenda = inner ++ rest) :
    parser.buffer.consumed < later.buffer.consumed := by
  have hrun : ∀ k, start.after (m + k) = (Stage.mk ([goal] ++ rest) parser).after k := Stage.after_add hstage
  rw [hrun] at hlater
  rcases Stage.after_alone hlater with ⟨inner, halone, hinner⟩ | ⟨k, hk, met, halone⟩
  · obtain rfl : goal :: more = inner := List.append_cancel_right hinner
    exact advances_again hn halone
  · -- the goal would have been met on the way
    have hmet := Stage.after_append halone rest
    rw [← hrun] at hmet
    obtain ⟨inner, hinner, hagenda⟩ := hunmet k hk _ hmet
    exact absurd (List.append_cancel_right hagenda).symm hinner

/-- **Goals that not all may be left out have taken a token** once only the goals behind them are left. -/
theorem advances_past (hneeded : ∃ goal ∈ goals, goal.form.nullable = false)
    (hstage : start.after m = some ⟨goals ++ rest, parser⟩)
    (hlater : start.after (m + n) = some ⟨rest, later⟩) : parser.buffer.consumed < later.buffer.consumed := by
  have hrun : ∀ k, start.after (m + k) = (Stage.mk (goals ++ rest) parser).after k := Stage.after_add hstage
  rw [hrun] at hlater
  rcases Stage.after_alone hlater with ⟨inner, halone, hinner⟩ | ⟨k, hk, met, halone⟩
  · obtain rfl : inner = [] := List.append_left_eq_self.1 hinner.symm
    exact advances_met hneeded halone
  · -- what was taken by then is not given back
    have hmet := advances_met hneeded halone
    have hbetween := Stage.after_append halone rest
    rw [show n = k + (n - k) by omega, Stage.after_add hbetween] at hlater
    obtain ⟨k, -, hconsumed⟩ := consumed_eq hlater
    omega

end Within

/-- What one round of a loop has to meet. The goals that are loops are the lists of declarations and of
functions, blocks, the lists of parameters and of arguments, and conditions with their connectives. -/
def Goal.round? : Goal → Option (List Goal)
  | declList => some [decl, token .semicolon]
  | functionList => some [function]
  | nempParameterList => some [token .identifier, token .colon, type]
  | statementBlock => some [statement]
  | condition => some [conditionSimple]
  | nempArgList => some [token .identifier]
  | _ => none

/-- What all entries of the table for a loop have in common: they open no body, and they end the loop or begin
a round. -/
theorem Goal.round_plan : ∀ round ∈ loop.round?, (loop.plan next hit).opens = false ∧
    ((loop.plan next hit).goals = [] ∨ round <+: (loop.plan next hit).goals) := by
  revert next hit
  cases loop with
  | token kind | seen kind => simp [round?]
  | _ => decide +kernel

/-- A step towards a loop ends it, or begins a round. -/
theorem round_of_step (hround : loop.round? = some round) (hstep : loop.step parser = .ok goals after) :
    goals = [] ∨ round <+: goals := by
  obtain ⟨seen, -, hrun⟩ := Goal.act_ok_cases (act_of_step hstep).1
  obtain ⟨hopens, hgoals⟩ := @Goal.round_plan loop seen.next.kind seen.hit round hround
  rcases Plan.ok_cases hrun with ⟨-, rfl, -⟩ | ⟨missed, hplan, -⟩ | ⟨missed, inner, hplan, -⟩ | ⟨-, rfl, -⟩
  · exact .inl rfl
  · rw [hplan] at hgoals
    exact hgoals
  · rw [hplan] at hopens
    cases hopens
  · exact .inl rfl

/-- No round of a loop can be met by nothing. -/
theorem round_needed (hround : loop.round? = some round) : ∃ goal ∈ round, goal.form.nullable = false := by
  have htable : ∀ round ∈ loop.round?, ∃ goal ∈ round, goal.form.nullable = false := by
    cases loop with
    | token kind | seen kind => simp [Goal.round?]
    | _ => decide
  exact htable round hround

end Cal
