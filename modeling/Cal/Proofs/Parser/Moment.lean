import Cal.Proofs.Parser.Orderly
import Cal.Proofs.Parser.Routine

/-!
# The moments of a parser

One parser may be called any number of times. At any moment it is idle, or a call is between two steps, or a step
comes to an operation of its routine, or the call has failed and leaves its goals behind, closing the bodies that
are open. So whatever is kept from each moment to the next holds at every point of every call, also of one that
goes on for ever.

* `Moment.Next`: what a parser may do next, with the decision points it misses meanwhile.
* `reaches_run`: a routine goes through the moments of its operations, to what it comes to or to a failure.
* `reaches_stage`: the stages of a call are moments.
* `reaches_idle`: after a failure all bodies are closed.
-/

namespace Cal

open ParseM Relation

/-- An action leads to what comes of it. -/
theorem leads_self {ε σ α : Type} {action : EStateM ε σ α} {state : σ} :
    Leads action state (fun value after => action state = .ok value after)
      fun error after => action state = .error error after := by
  unfold Leads
  split
  · assumption
  · assumption

/-- Where an action comes to a value, that is what comes behind it. -/
theorem bind_of_ok {ε σ α β : Type} {action : EStateM ε σ α} {state after : σ} {value : α}
    (h : action state = .ok value after) (next : α → EStateM ε σ β) :
    (action >>= next) state = next value after := by
  simp only [bind, EStateM.bind, h]

/-- Where an action fails, nothing comes behind it. -/
theorem bind_of_error {ε σ α β : Type} {action : EStateM ε σ α} {state after : σ} {error : ε}
    (h : action state = .error error after) (next : α → EStateM ε σ β) :
    (action >>= next) state = .error error after := by
  simp only [bind, EStateM.bind, h]

/-- What a parser is doing. -/
inductive Activity
  /-- No call is going on. -/
  | idle
  /-- A call is between two steps, with these goals left. -/
  | between (agenda : List Goal)
  /-- A step towards a goal comes to the first operation of a routine, with the other goals left behind it. -/
  | stepping (goal : Goal) (routine : Routine) (rest : List Goal)
  /-- A call has failed, and has these goals to leave. -/
  | failing (error : ParseError) (rest : List Goal)

namespace Activity

/-- A step goes on with what is left of its routine, until nothing is. -/
def resume (goal : Goal) (rest : List Goal) : Routine → Activity
  | .done goals => between (goals ++ rest)
  | routine => stepping goal routine rest

/-- The goals that have not been met or left. -/
def agenda : Activity → List Goal
  | idle => []
  | between agenda => agenda
  | stepping goal _ rest => goal :: rest
  | failing _ rest => rest

/-- The bodies that are open: those whose end is still to come. -/
def bodies (activity : Activity) : Nat := activity.agenda.count .endBody

end Activity

/-- The decision point, if any, at which a routine refuses the next token. -/
def Routine.refusesAt : Routine → List Decision
  | refuseAt point => [point]
  | _ => []

/-- What a parser is doing, in which state, and the decision points it has missed since it last took a token. -/
structure Moment (σ : Type) where
  activity : Activity
  parser : Parser σ
  missed : List Decision

variable {σ : Type} [Source σ]

/-- What may come after a moment. -/
inductive Moment.Next : Moment σ → Moment σ → Prop
  | call {parser missed} : Next ⟨.idle, parser, missed⟩ ⟨.between Goal.program, parser, missed⟩
  | step {goal rest parser missed} :
    Next ⟨.between (goal :: rest), parser, missed⟩ ⟨.resume goal rest goal.routine, parser, missed⟩
  | succeed {parser missed} : Next ⟨.between [], parser, missed⟩ ⟨.idle, parser, missed⟩
  | look {goal next rest parser missed kind after} : nextKind parser = .ok kind after →
    Next ⟨.stepping goal (.look next) rest, parser, missed⟩ ⟨.resume goal rest (next kind), after, missed⟩
  | enter {goal point next rest parser missed after} : selects point parser = .ok true after →
    Next ⟨.stepping goal (.select point next) rest, parser, missed⟩
      ⟨.resume goal rest (next true), after, missed⟩
  | miss {goal point next rest parser missed after} : selects point parser = .ok false after →
    Next ⟨.stepping goal (.select point next) rest, parser, missed⟩
      ⟨.resume goal rest (next false), after, point :: missed⟩
  | ask {goal probe next rest parser missed hit after} : tries probe parser = .ok hit after →
    Next ⟨.stepping goal (.ask probe next) rest, parser, missed⟩ ⟨.resume goal rest (next hit), after, missed⟩
  | take {goal kind rest parser missed after} : expect kind parser = .ok () after →
    Next ⟨.stepping goal (.expect kind) rest, parser, missed⟩ ⟨.between rest, after, []⟩
  | openBody {goal goals inner rest parser missed after} : Goal.withBody goals parser = .ok inner after →
    Next ⟨.stepping goal (.openBody goals) rest, parser, missed⟩ ⟨.between (inner ++ rest), after, missed⟩
  | closeBody {goal rest parser missed after} : closeBody parser = .ok () after →
    Next ⟨.stepping goal .closeBody rest, parser, missed⟩ ⟨.between rest, after, missed⟩
  | fail {goal routine rest parser missed error after} : routine.operate parser = .error error after →
    Next ⟨.stepping goal routine rest, parser, missed⟩
      ⟨.failing error rest, after, routine.refusesAt ++ missed⟩
  | pass {goal rest error parser missed} : goal ≠ .endBody →
    Next ⟨.failing error (goal :: rest), parser, missed⟩ ⟨.failing error rest, parser, missed⟩
  | leave {rest error parser missed after} : ParseM.closeBody parser = .ok () after →
    Next ⟨.failing error (.endBody :: rest), parser, missed⟩ ⟨.failing error rest, after, missed⟩
  | report {error parser missed} : Next ⟨.failing error [], parser, missed⟩ ⟨.idle, parser, missed⟩

namespace Moment

/-- The moments of a new parser, however often it is called. -/
abbrev Reachable (source : σ) : Moment σ → Prop := ReflTransGen Next ⟨.idle, .ofSource source, []⟩

variable {goal : Goal} {rest : List Goal} {parser : Parser σ} {missed : List Decision} {error : ParseError}
  {routine : Routine} {start : Moment σ}

/-- A moment comes some time later. -/
abbrev Comes (start : Moment σ) (activity : Activity) (parser : Parser σ) : Prop :=
  ∃ missed, ReflTransGen Next start ⟨activity, parser, missed⟩

/-- What is reached from the next moment is reached from this one. -/
theorem leads_behind {α : Type} {action : ParseM σ α} {next : Moment σ} {good : α → Activity}
    {bad : ParseError → Activity} (hnext : Next start next)
    (h : Leads action parser (fun value after => Comes next (good value) after)
      fun error after => Comes next (bad error) after) :
    Leads action parser (fun value after => Comes start (good value) after)
      fun error after => Comes start (bad error) after :=
  h.imp (fun _ _ ⟨later, hpath⟩ => ⟨later, .head hnext hpath⟩)
    fun _ _ ⟨later, hpath⟩ => ⟨later, .head hnext hpath⟩

/-- The first operation of a routine comes first, and if it fails the step does. -/
theorem leads_operation {α : Type} {action : ParseM σ α} {next : α → ParseM σ (List Goal)} {goal : Goal}
    {good : List Goal → Parser σ → Prop}
    (herror : ∀ error after, action parser = .error error after → routine.operate parser = .error error after)
    (hok : ∀ value after, action parser = .ok value after → Leads (next value) after good fun error after =>
      Comes ⟨.stepping goal routine rest, parser, missed⟩ (.failing error rest) after) :
    Leads (action >>= next) parser good fun error after =>
      Comes ⟨.stepping goal routine rest, parser, missed⟩ (.failing error rest) after :=
  leads_bind (leads_self.imp hok fun error after hrun => ⟨_, .single (.fail (herror error after hrun))⟩)

/-- A refusal is the last operation of a step. -/
theorem reaches_refusal {goal : Goal} {good : List Goal → Parser σ → Prop}
    (h : Leads routine.operate parser (fun _ _ => False) Parser.Fails) :
    Leads routine.run parser good fun error after =>
      Comes ⟨.stepping goal routine rest, parser, missed⟩ (.failing error rest) after := by
  rw [Routine.run_eq_operate]
  exact leads_operation (fun _ _ hrun => hrun) fun _ _ hrun => (h.of_ok hrun).elim

/-- **A routine goes through the moments of its operations**, and comes to a moment between two steps, or to
one at which the call has failed. -/
theorem reaches_run (goal : Goal) (rest : List Goal) (routine : Routine) (parser : Parser σ)
    (missed : List Decision) :
    Leads routine.run parser
      (fun goals after => Comes ⟨.resume goal rest routine, parser, missed⟩ (.between (goals ++ rest)) after)
      fun error after => Comes ⟨.resume goal rest routine, parser, missed⟩ (.failing error rest) after := by
  -- on the routine: after one operation, what is left of it goes on in the same way
  induction routine generalizing parser missed with
  | done goals => exact leads_pure ⟨missed, .refl⟩
  | look next ih =>
    refine leads_operation (fun _ _ hrun => bind_of_error hrun _) fun kind after hlook => ?_
    exact leads_behind (.look hlook) (ih kind after missed)
  | select point next ih =>
    refine leads_operation (fun _ _ hrun => bind_of_error hrun _) fun selected after hselect => ?_
    cases selected with
    | true => exact leads_behind (.enter hselect) (ih true after missed)
    | false => exact leads_behind (.miss hselect) (ih false after (point :: missed))
  | ask probe next ih =>
    refine leads_operation (fun _ _ hrun => bind_of_error hrun _) fun hit after hask => ?_
    exact leads_behind (.ask hask) (ih hit after missed)
  | expect kind =>
    refine leads_operation (fun _ _ hrun => bind_of_error hrun _) fun _ after htake => ?_
    exact leads_pure ⟨[], .single (.take htake)⟩
  | openBody goals =>
    exact leads_self.imp (fun inner after hopen => ⟨missed, .single (.openBody hopen)⟩)
      fun error after hrun => ⟨_, .single (.fail (bind_of_error hrun _))⟩
  | closeBody =>
    refine leads_operation (fun _ _ hrun => bind_of_error hrun _) fun _ after hclose => ?_
    exact leads_pure ⟨missed, .single (.closeBody hclose)⟩
  | refuseAt point => exact reaches_refusal Parser.leads_refuseAt
  | refuse => exact reaches_refusal Parser.leads_refuse

/-- **A step goes through the moments of its routine.** -/
theorem reaches_step (goal : Goal) (rest : List Goal) (parser : Parser σ) (missed : List Decision) :
    Leads goal.step parser
      (fun goals after => Comes ⟨.between (goal :: rest), parser, missed⟩ (.between (goals ++ rest)) after)
      fun error after => Comes ⟨.between (goal :: rest), parser, missed⟩ (.failing error rest) after := by
  rw [← Goal.run_routine]
  exact leads_behind .step (reaches_run goal rest goal.routine parser missed)

/-- **The stages of a run are moments.** -/
theorem reaches_stage {stage later : Stage σ} {n : Nat}
    (hstart : Comes start (.between stage.agenda) stage.parser) (h : stage.after n = some later) :
    Comes start (.between later.agenda) later.parser := by
  induction n generalizing later with
  | zero =>
    cases h
    exact hstart
  | succ n ih =>
    obtain ⟨before, hbefore, hnext⟩ := Stage.after_succ.1 h
    obtain ⟨goal, rest, goals, hagenda, hstep, hlater⟩ := Stage.next?_eq_some.1 hnext
    obtain ⟨missed, hpath⟩ := ih hbefore
    rw [hagenda] at hpath
    obtain ⟨more, hmore⟩ := (reaches_step goal rest before.parser missed).of_ok hstep
    rw [hlater]
    exact ⟨more, hpath.trans hmore⟩

/-- **A call that has failed leaves all its goals**, and closes the bodies that are open. -/
theorem reaches_idle (error : ParseError) (rest : List Goal) (parser : Parser σ) (missed : List Decision) :
    ReflTransGen Next ⟨.failing error rest, parser, missed⟩
      ⟨.idle, { parser with depth := parser.depth - rest.count .endBody }, missed⟩ := by
  induction rest generalizing parser with
  | nil => exact .single .report
  | cons goal rest ih =>
    by_cases hgoal : goal = .endBody
    · subst hgoal
      have hrest := ih { parser with depth := parser.depth - 1 }
      rw [List.count_cons_self, Nat.add_comm, Nat.sub_add_eq]
      exact .head (.leave rfl) hrest
    · rw [List.count_cons_of_ne hgoal]
      exact .head (.pass hgoal) (ih parser)

end Moment

end Cal
