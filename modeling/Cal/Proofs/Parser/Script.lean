import Cal.Proofs.Parser.Step

/-!
# The script of a step

A plan says what a step does to a standing. Here it is a program on the parser itself: a step looks at the
next kind, asks the probe of its goal if no point before it selects an alternative, and performs the plan
of its goal. So what a step does to the buffer and what it reports need not be looked up goal by goal.

* `step_eq_script`: a step is its script, on every parser.
-/

namespace Cal

open ParseM Buffer

/-- Stamping a point twice is stamping it once. -/
theorem Decision.Log.record_record (log : Decision.Log) (point : Decision) (generation : Nat) :
    (log.record point generation).record point generation = log.record point generation := by
  simp only [record, Vector.set_set]

variable {σ : Type} [Source σ]

namespace ParseM

/-- Stamps decision points that found no alternative. -/
def missAll (missed : List Decision) : ParseM σ Unit :=
  modify fun parser =>
    { parser with
      decisions := missed.foldl (fun log point => log.record point parser.generation) parser.decisions }

end ParseM

/-- Does what a plan says. The goals that come with a body of their own are left when it is open. -/
def Plan.perform : Plan → ParseM σ (List Goal)
  | take => do
    let _ ← onBuffer Buffer.advance
    modify fun parser => { parser with generation := parser.generation + 1 }
    return []
  | go missed opens goals => do
    missAll missed
    if opens then Goal.withBody goals else return goals
  | leave => do
    closeBody
    return []
  | refuse missed wanted => do
    missAll missed
    ParseM.refuse wanted

namespace Goal

/-- The probe that a step towards a goal asks, by the next kind: none if a point before it selects an
alternative. -/
def asks? (next : TokenKind) (goal : Goal) : Option Probe :=
  if goal.missedBefore.any fun point => (point.select next).isSome then none else goal.probe?

/-- A goal without a probe asks none. -/
theorem asks?_of_probe {goal : Goal} (h : goal.probe? = none) (next : TokenKind) : goal.asks? next = none := by
  unfold asks?
  split
  · rfl
  · exact h

/-- A step towards a goal. -/
def script (goal : Goal) : ParseM σ (List Goal) :=
  if goal.blind then (goal.plan .eof false).perform
  else do
    let next ← nextKind
    match goal.asks? next with
    | none => (goal.plan next false).perform
    | some probe =>
      missAll goal.missedBefore
      let hit ← tries probe
      (goal.plan next hit).perform

/-- After a look at the next kind, what follows may be told apart only with that token in front. -/
theorem bind_nextKind_ext {α : Type} {first second : TokenKind → ParseM σ α}
    (h : ∀ (token : Token) (parser : Parser σ), parser.buffer.ahead.head? = some token →
      first token.kind parser = second token.kind parser) :
    nextKind >>= first = nextKind >>= second := by
  funext parser
  simp only [nextKind, nextToken, onBuffer, bind, EStateM.bind, pure, EStateM.pure]
  cases hpeek : peek 0 parser.buffer with
  | error error buffer => rfl
  | ok token buffer => exact h token _ (head_of_peek hpeek)

theorem nextKind_of_head {token : Token} {parser : Parser σ}
    (h : parser.buffer.ahead.head? = some token) : nextKind parser = .ok token.kind parser := by
  simp only [nextKind, nextToken, onBuffer, bind, EStateM.bind, pure, EStateM.pure, peek_of_head h]

theorem bind_nextKind_of_head {α : Type} {token : Token} {parser : Parser σ}
    (h : parser.buffer.ahead.head? = some token) (more : TokenKind → ParseM σ α) :
    (nextKind >>= more) parser = more token.kind parser := by
  show EStateM.bind nextKind more parser = more token.kind parser
  rw [EStateM.bind, nextKind_of_head h]

/-- A probe looks at the next token first. -/
theorem tries_eq_bind (probe : Probe) :
    tries (σ := σ) probe = nextKind >>= fun _ => tries probe := by
  funext parser
  simp only [tries, nextKind, nextToken, onBuffer, bind, EStateM.bind, pure, EStateM.pure,
    Probe.run_eq_glance, Probe.glance]
  cases hpeek : peek 0 parser.buffer with
  | error error buffer => rfl
  | ok token buffer => simp only [peek_again hpeek]

omit [Source σ] in
/-- A point that has been missed may be missed again. -/
theorem bind_missAll_again {α : Type} {point : Decision} {parser : Parser σ}
    (h : parser.decisions.record point parser.generation = parser.decisions)
    (more : Unit → ParseM σ α) : (missAll [point] >>= more) parser = more ⟨⟩ parser := by
  show more ⟨⟩ { parser with decisions := parser.decisions.record point parser.generation } = more ⟨⟩ parser
  rw [h]

/-- After a probe the next token is still in front, and nothing has been missed or taken. -/
theorem bind_tries_ext {α : Type} {probe : Probe} {token : Token} {parser : Parser σ}
    {first second : Bool → ParseM σ α} (hhead : parser.buffer.ahead.head? = some token)
    (h : ∀ hit (after : Parser σ), after.buffer.ahead.head? = some token →
      after.decisions = parser.decisions → after.generation = parser.generation →
        first hit after = second hit after) :
    (tries probe >>= first) parser = (tries probe >>= second) parser := by
  simp only [tries, onBuffer, bind, EStateM.bind, pure, EStateM.pure]
  cases hrun : probe.run parser.buffer with
  | error error buffer => rfl
  | ok sighting buffer => exact h sighting.hit _ (Probe.keeps_run (head_lasting token) hhead hrun) rfl rfl

/-- A decision point goes by the next kind. -/
theorem bind_selects {α : Type} (point : Decision) (choose : Bool → ParseM σ α) :
    selects point >>= choose = nextKind >>= fun next =>
      if (point.select next).isSome then choose true else missAll [point] >>= fun _ => choose false := by
  unfold selects
  rw [bind_assoc]
  congr 1
  funext next
  split
  · rfl
  · rfl

/-- Nothing comes behind a refusal. -/
theorem bind_refuse {α β : Type} (wanted : Option TokenKind) (more : α → ParseM σ β) :
    ParseM.refuse wanted >>= more = ParseM.refuse wanted := by
  unfold ParseM.refuse
  simp only [bind_assoc]
  rfl

theorem bind_refuseAt {α β : Type} (point : Decision) (more : α → ParseM σ β) :
    refuseAt point >>= more = refuseAt point := by
  unfold refuseAt
  rw [bind_assoc, funext fun _ => bind_refuse none more]

/-- The script of a goal without a probe. -/
theorem script_of_next {goal : Goal} (hblind : goal.blind = false) (hprobe : goal.probe? = none) :
    goal.script (σ := σ) = nextKind >>= fun next => (goal.plan next false).perform := by
  simp only [script, hblind, asks?_of_probe hprobe]
  rfl

/-- A step that goes by the next kind alone: what it does for each kind is to be shown. -/
theorem script_of_choice {goal : Goal} {choose : TokenKind → ParseM σ (List Goal)}
    (hblind : goal.blind = false) (hprobe : goal.probe? = none)
    (h : ∀ next, choose next = (goal.plan next false).perform) :
    nextKind >>= choose = goal.script := by
  rw [script_of_next hblind hprobe, funext h]

theorem script_of_option {goal : Goal} {goals : List Goal} {point : Decision}
    (hblind : goal.blind = false) (hprobe : goal.probe? = none)
    (hplan : ∀ next, goal.plan next false = .option point next goals) :
    (do if ← selects point then return goals else return []) = goal.script (σ := σ) := by
  rw [bind_selects]
  refine script_of_choice hblind hprobe fun next => ?_
  rw [hplan, Plan.option]
  split <;> rfl

theorem script_of_expect {goal : Goal} {kind : TokenKind} (hblind : goal.blind = false)
    (hprobe : goal.probe? = none)
    (hplan : ∀ next, goal.plan next false = if next = kind then .take else .refuse [] (some kind)) :
    (do expect kind; return []) = goal.script (σ := σ) := by
  unfold expect
  rw [bind_assoc]
  refine script_of_choice hblind hprobe fun next => ?_
  rw [hplan]
  split
  · simp only [bind_assoc]
    rfl
  · rw [bind_refuse]
    rfl

/-- **A step follows its script.** -/
theorem step_eq_script (goal : Goal) : goal.step (σ := σ) = goal.script := by
  cases goal with
  | nempParameterList | main | expression | condition | nempArgList | endBody => rfl
  | token kind | seen kind => exact script_of_expect rfl rfl fun _ => rfl
  | declList | functionList | statementBlock | parameterList | parameterListTail | returnValue
  | expressionTail | argList | argListTail => exact script_of_option rfl rfl fun _ => rfl
  -- one alternative for each of some kinds, and a refusal for all others
  | type | decl | statementChoice | binaryArithOp | compOp | statement | fragment =>
    refine script_of_choice rfl rfl fun next => ?_
    cases next <;> rfl
  | function =>
    refine (bind_assoc _ _ _).trans (script_of_choice rfl rfl fun next => ?_)
    cases next <;> first | rfl | exact bind_refuseAt _ _
  | callSuffix =>
    have htries : callSuffix.step (σ := σ) = nextKind >>= fun _ => callSuffix.step := by
      simp only [step]
      conv_lhs => rw [tries_eq_bind, bind_assoc]
    rw [htries]
    refine bind_nextKind_ext fun token parser hhead => ?_
    -- no point is missed before this probe
    show callSuffix.step parser = (tries .callSuffix >>= fun hit => (plan token.kind hit callSuffix).perform) parser
    refine bind_tries_ext hhead fun hit after _ _ _ => ?_
    cases hit <;> rfl
  | conditionChoice =>
    refine (bind_selects _ _).trans ?_
    rw [script_of_next rfl rfl]
    refine bind_nextKind_ext fun token parser hhead => ?_
    simp only [plan, Plan.option]
    cases hselect : (Decision.conditionChoice.select token.kind).isSome with
    | true => exact bind_nextKind_of_head hhead fun next => pure [seen next, condition]
    | false => rfl
  | conditionSimple =>
    refine (bind_selects _ _).trans (bind_nextKind_ext fun token parser hhead => ?_)
    cases hnegated : (Decision.negation.select token.kind).isSome with
    | true =>
      have hplan (hit : Bool) : plan token.kind hit conditionSimple = .go [] true [seen .notKw, condition] := by
        simp only [plan, hnegated, if_true]
      have hasks : conditionSimple.asks? token.kind = none := by
        simp [asks?, missedBefore, hnegated]
      simp only [hasks, hplan]
      rfl
    | false =>
      have hasks : conditionSimple.asks? token.kind = some .parenCondition := by
        simp [asks?, missedBefore, hnegated, probe?]
      simp only [hasks]
      let missing : Parser σ :=
        { parser with decisions := parser.decisions.record .negation parser.generation }
      have hfront : missing.buffer.ahead.head? = some token := hhead
      refine bind_tries_ext hfront fun hit after hafter hdecisions hgeneration => ?_
      -- the miss that the plan names was stamped before the probe
      have hmissed {α : Type} (more : Unit → ParseM σ α) :
          (missAll [.negation] >>= more) after = more ⟨⟩ after := by
        refine bind_missAll_again ?_ more
        rw [hdecisions, hgeneration]
        exact Decision.Log.record_record _ _ _
      cases hit with
      | true =>
        simp only [plan, hnegated, Bool.false_eq_true, if_false, if_true]
        exact (hmissed fun _ => withBody [seen .leftParen, condition, .token .rightParen]).symm
      | false =>
        simp only [Bool.false_eq_true, if_false, bind_selects]
        rw [bind_nextKind_of_head hafter]
        simp only [plan, hnegated, Bool.false_eq_true, if_false]
        cases hcompared : (Decision.comparison.select token.kind).isSome with
        | true => exact (hmissed fun _ => pure [expression, compOp, expression]).symm
        | false => exact (hmissed fun _ => missAll [.comparison] >>= fun _ => ParseM.refuse none).symm

end Goal

end Cal
