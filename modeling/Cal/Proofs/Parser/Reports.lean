import Cal.Proofs.Parser.OnDemand
import Cal.Proofs.Parser.Script

/-!
# What a parser reports

A step reports the probe that it asks, once that comes to an answer, and a syntax error where it refuses a
token. What it reports is a matter of what it has in view.

* `reports_step`: what one step adds to the events.
* `events_after`: what a parse has reported by each of its stages.
* `reported_of_returns`: what a whole parse has reported.
-/

namespace Cal

open Buffer ParseM

/-- What a step towards a goal reports about its probe, in view of the tokens to come: nothing if it asks
none, or if one of the tokens that the probe looks at cannot be seen. -/
def Goal.reports (view : Nat → Except LexError Token) (goal : Goal) : List Event :=
  match view 0 with
  | .error _ => []
  | .ok next =>
    match goal.asks? next.kind with
    | none => []
    | some probe =>
      match probe.sight view next.kind with
      | .error _ => []
      | .ok hit => [.probed probe hit (Probe.reach next.kind)]

namespace Goal

variable {view : Nat → Except LexError Token} {goal : Goal} {next : Token} {probe : Probe} {unseen : LexError}
  {hit : Bool}

theorem reports_of_hidden (hview : view 0 = .error unseen) : goal.reports view = [] := by
  simp only [reports, hview]

theorem reports_of_none (hview : view 0 = .ok next) (hasks : goal.asks? next.kind = none) :
    goal.reports view = [] := by
  simp only [reports, hview, hasks]

theorem reports_of_ok (hview : view 0 = .ok next) (hasks : goal.asks? next.kind = some probe)
    (hsight : probe.sight view next.kind = .ok hit) :
    goal.reports view = [.probed probe hit (Probe.reach next.kind)] := by
  simp only [reports, hview, hasks, hsight]

theorem reports_of_error (hview : view 0 = .ok next) (hasks : goal.asks? next.kind = some probe)
    (hsight : probe.sight view next.kind = .error unseen) : goal.reports view = [] := by
  simp only [reports, hview, hasks, hsight]

theorem reports_blind (h : goal.blind = true) : goal.reports view = [] := by
  cases hview : view 0 with
  | error unseen => exact reports_of_hidden hview
  | ok next =>
    refine reports_of_none hview ?_
    cases goal <;> first | rfl | cases h

end Goal

namespace Parser

variable {σ : Type}

/-- What a parser reports of the outcome that it comes to. -/
def closing (parser : Parser σ) : Outcome → List Event
  | .error (.unexpected error) => [parser.diagnosisEvent error]
  | _ => []

/-- A parser has failed: it has reported the error if that refuses a token, and has told there what is live
and what else was wanted. -/
structure Closes (events : List Event) (error : ParseError) (parser : Parser σ) : Prop where
  events : parser.events = parser.closing (.error error) ++ events
  diagnosed (refused : SyntaxError) : error = .unexpected refused →
    ∃ wanted, refused = parser.diagnose refused.unexpected wanted

end Parser

/-- What a parser has in view, and what it has reported. -/
structure Heard {σ : Type} [Source σ] (view : Nat → Except LexError Token) (events : List Event)
    (parser : Parser σ) : Prop where
  view : parser.buffer.view = view
  events : parser.events = events

section Step

variable {σ α : Type} [Source σ] {view : Nat → Except LexError Token} {events : List Event}
  {parser : Parser σ} {next : Token} {goal : Goal}

omit [Source σ] in
theorem closes_unseen {unseen : LexError} (h : parser.events = events) :
    parser.Closes events (.lexical unseen) :=
  ⟨h, nofun⟩

omit [Source σ] in
theorem closes_tooDeep {limit : Nat} {position : Position} (h : parser.events = events) :
    parser.Closes events (.tooDeep limit position) :=
  ⟨h, nofun⟩

namespace Heard

/-- A look at the next token reports nothing. -/
theorem leads_nextToken (h : Heard view events parser) :
    Leads nextToken parser (fun next after => view 0 = .ok next ∧ Heard view events after)
      fun error after => (∃ unseen, view 0 = .error unseen) ∧ after.Closes events error := by
  obtain ⟨hview, hevents⟩ := h
  cases hnext : view 0 with
  | ok next =>
    obtain ⟨after, hpeek, hafter⟩ := peek_of_shows ⟨hview, rfl⟩ hnext
    exact leads_onBuffer_ok hpeek ⟨rfl, hafter.1, hevents⟩
  | error unseen =>
    obtain ⟨after, hpeek, -⟩ := peek_of_hidden ⟨hview, rfl⟩ hnext
    exact leads_onBuffer_error hpeek ⟨⟨unseen, rfl⟩, closes_unseen hevents⟩

theorem leads_nextKind (h : Heard view events parser) :
    Leads nextKind parser (fun kind after => ∃ next, view 0 = .ok next ∧ next.kind = kind ∧
        Heard view events after)
      fun error after => (∃ unseen, view 0 = .error unseen) ∧ after.Closes events error :=
  h.leads_nextToken.bind fun next _ h => leads_pure ⟨next, h.1, rfl, h.2⟩

/-- A probe reports what it found and how far it has looked, unless it cannot see. -/
theorem leads_tries {probe : Probe} (h : Heard view events parser) (hnext : view 0 = .ok next) :
    Leads (tries probe) parser
      (fun hit after => probe.sight view next.kind = .ok hit ∧
        Heard view (.probed probe hit (Probe.reach next.kind) :: events) after)
      fun error after => (∃ unseen, probe.sight view next.kind = .error unseen) ∧
        after.Closes events error := by
  obtain ⟨hview, hevents⟩ := h
  cases hsight : probe.sight view next.kind with
  | ok hit =>
    obtain ⟨after, hrun, hafter⟩ := Probe.run_of_shows ⟨hview, rfl⟩ hnext hsight
    refine leads_bind (leads_onBuffer_ok hrun (leads_bind (leads_modify (leads_pure ⟨rfl, hafter.1, ?_⟩))))
    exact congrArg _ hevents
  | error unseen =>
    obtain ⟨after, hrun, -⟩ := Probe.run_of_hidden ⟨hview, rfl⟩ hnext hsight
    exact leads_bind (leads_onBuffer_error hrun ⟨⟨unseen, rfl⟩, closes_unseen hevents⟩)

theorem leads_missAll {bad : ParseError → Parser σ → Prop} (h : Heard view events parser)
    (missed : List Decision) : Leads (missAll missed) parser (fun _ after => Heard view events after) bad :=
  leads_modify ⟨h.view, h.events⟩

/-- A refusal is reported with what is live, and says besides that what was wanted. -/
theorem leads_refuse {good : α → Parser σ → Prop} (h : Heard view events parser)
    (wanted : Option TokenKind) :
    Leads (refuse wanted) parser good fun error after => after.Closes events error := by
  refine leads_bind (h.leads_nextToken.imp (fun next after h => ?_) fun _ _ h => h.2)
  refine leads_bind (leads_get (leads_bind (leads_set (leads_throw ⟨?_, ?_⟩))))
  · exact congrArg _ h.2.events
  · rintro refused ⟨⟩
    exact ⟨wanted, rfl⟩

theorem leads_withBody (h : Heard view events parser) (goals : List Goal) :
    Leads (Goal.withBody goals) parser (fun _ after => after.events = events)
      fun error after => after.Closes events error := by
  refine leads_bind (leads_bind (leads_get ?_))
  cases parser.exhausted? with
  | some limit =>
    refine leads_bind (h.leads_nextToken.imp (fun next after h => ?_) fun _ _ h => h.2)
    exact leads_throw (closes_tooDeep h.2.events)
  | none => exact leads_set (leads_pure h.events)

/-- What a plan does is not reported, unless it is a refusal. -/
theorem leads_perform (h : Heard view events parser) (plan : Plan) :
    Leads plan.perform parser (fun _ after => after.events = events)
      fun error after => after.Closes events error := by
  cases plan with
  | take =>
    cases hadvance : advance parser.buffer with
    | ok token after =>
      exact leads_bind (leads_onBuffer_ok hadvance (leads_bind (leads_modify (leads_pure h.events))))
    | error error after => exact leads_bind (leads_onBuffer_error hadvance (closes_unseen h.events))
  | go missed opens goals =>
    refine (h.leads_missAll missed).bind fun _ after h => ?_
    cases opens with
    | true => exact h.leads_withBody goals
    | false => exact leads_pure h.events
  | leave => exact leads_bind (leads_modify (leads_pure h.events))
  | refuse missed wanted => exact (h.leads_missAll missed).bind fun _ after h => h.leads_refuse wanted

end Heard

/-- **What a step reports**: the probe that it asks, if that can see, and then a refusal. -/
theorem reports_step (goal : Goal) (parser : Parser σ) :
    Leads goal.step parser
      (fun _ after => after.events = goal.reports parser.buffer.view ++ parser.events)
      fun error after => after.Closes (goal.reports parser.buffer.view ++ parser.events) error := by
  have h : Heard parser.buffer.view parser.events parser := ⟨rfl, rfl⟩
  rw [Goal.step_eq_script]
  unfold Goal.script
  split
  · rename_i hblind
    rw [Goal.reports_blind hblind]
    exact h.leads_perform _
  refine leads_bind (h.leads_nextKind.imp ?_ ?_)
  · rintro kind after ⟨next, hnext, rfl, h⟩
    cases hasks : goal.asks? next.kind with
    | none =>
      rw [Goal.reports_of_none hnext hasks]
      exact h.leads_perform _
    | some probe =>
      refine (h.leads_missAll _).bind fun _ missing h => leads_bind ((h.leads_tries hnext).imp ?_ ?_)
      · rintro hit tried ⟨hsight, h⟩
        rw [Goal.reports_of_ok hnext hasks hsight]
        exact h.leads_perform _
      · rintro error failed ⟨⟨unseen, hsight⟩, h⟩
        rw [Goal.reports_of_error hnext hasks hsight]
        exact h
  · rintro error failed ⟨⟨unseen, hnext⟩, h⟩
    rw [Goal.reports_of_hidden hnext]
    exact h

end Step

section Run

variable {σ : Type} [Source σ] {source : σ} {stage : Stage σ} {n : Nat}

/-- What the step from a stage reports of a probe. -/
def Stage.reports (stage : Stage σ) : List Event :=
  stage.agenda.head?.elim [] (Goal.reports stage.parser.buffer.view)

theorem Stage.reports_of_agenda {goal : Goal} {rest : List Goal} (h : stage.agenda = goal :: rest) :
    stage.reports = goal.reports stage.parser.buffer.view := by
  rw [reports, h]
  rfl

/-- What the first `n` steps of a run report of their probes, in the order of the run. -/
def Stage.reported (start : Stage σ) (n : Nat) : List Event :=
  (List.range n).flatMap fun m => (start.after m).elim [] Stage.reports

theorem Stage.reported_succ {start : Stage σ} (h : start.after n = some stage) :
    start.reported (n + 1) = start.reported n ++ stage.reports := by
  simp [reported, List.range_succ, h]

theorem Goal.reverse_reports (view : Nat → Except LexError Token) (goal : Goal) :
    (goal.reports view).reverse = goal.reports view := by
  unfold reports
  repeat' split
  all_goals rfl

/-- **What a parse has reported** by each of its stages. -/
theorem events_after (h : (Stage.ofSource source).after n = some stage) :
    stage.parser.events.reverse = (Stage.ofSource source).reported n := by
  induction n generalizing stage with
  | zero =>
    cases h
    rfl
  | succ n ih =>
    obtain ⟨before, hbefore, hnext⟩ := Stage.after_succ.1 h
    obtain ⟨goal, rest, goals, hagenda, hstep, -⟩ := Stage.next?_eq_some.1 hnext
    have hreports := (reports_step goal before.parser).of_ok hstep
    rw [Stage.reported_succ hbefore, ← ih hbefore, Stage.reports_of_agenda hagenda, hreports,
      List.reverse_append, Goal.reverse_reports]

/-- **What a whole parse has reported**: the probes of its steps, and then the refusal, if it ends with one.
That tells what is live and what else was wanted. -/
theorem reported_of_returns {outcome : Outcome} {after : Parser σ}
    (hreturns : (Parser.ofSource source).Returns outcome after) :
    ∃ n last, (Stage.ofSource source).after n = some last ∧ last.next? = none ∧
      after.events.reverse = (Stage.ofSource source).reported (n + 1) ++ after.closing outcome ∧
      ∀ refused, outcome = .error (.unexpected refused) →
        ∃ wanted, refused = after.diagnose refused.unexpected wanted := by
  obtain ⟨n, last, result, hstage, hresult, hfinish⟩ := returns_iff.1 hreturns
  have hstart : (Stage.ofSource source).after n = some last := hstage
  refine ⟨n, last, hstart, Stage.next?_of_result hresult, ?_⟩
  rw [Stage.reported_succ hstart, ← events_after hstart]
  rcases Stage.result_cases hresult with ⟨hagenda, rfl⟩ | ⟨goal, rest, error, failed, hagenda, rfl, hstep, -⟩
  · cases hfinish
    simp [Stage.reports, hagenda, Parser.closing]
  · have hcloses := (reports_step goal last.parser).of_error hstep
    cases hfinish
    refine ⟨?_, fun refused hrefused => hcloses.diagnosed refused (Except.error.inj hrefused)⟩
    have hevents : failed.abandon.events = failed.abandon.closing (.error error) ++
        (goal.reports last.parser.buffer.view ++ last.parser.events) := hcloses.events
    have hclosing : (failed.abandon.closing (.error error)).reverse = failed.abandon.closing (.error error) := by
      cases error <;> rfl
    rw [hevents, Stage.reports_of_agenda hagenda, List.reverse_append, List.reverse_append, Goal.reverse_reports, hclosing]

end Run

end Cal
