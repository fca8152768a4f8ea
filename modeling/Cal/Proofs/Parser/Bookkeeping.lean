import Cal.Proofs.Parser.Upkeep

/-!
# The books of a parser

A parser keeps count of the tokens it has taken and of the bodies that are open, and stamps the decision points
that it has missed. At every moment of every call these agree with what has happened, also while a call fails and
in the calls after it.

* `Moment.Kept`: the invariant, with what is known of the next token where an operation relies on it.
* `kept_next`: it holds at the next moment.
* `kept_of_reachable`: it holds at every moment.
* `trace_moments`: moments are what calls go through.
* `books_agree`: the books of a parser, at every moment.
-/

namespace Cal

open ParseM Relation Routine

variable {σ : Type} [Source σ]

/-! ## The invariant -/

/-- What is known of the next token is enough for the first goal of an agenda, and the others ask for nothing. -/
def Parser.Heeds (agenda : List Goal) (parser : Parser σ) : Prop :=
  (∀ goal ∈ agenda.head?, ∃ known ∈ goal.heralds, parser.Knows known) ∧ ∀ goal ∈ agenda.tail, none ∈ goal.heralds

/-- Enough is known of the next token for what a parser is doing. -/
def Activity.Ready (parser : Parser σ) (missed : List Decision) : Activity → Prop
  | idle => True
  | between agenda => parser.Heeds agenda
  | stepping goal routine rest => (∀ other ∈ rest, none ∈ other.heralds) ∧
    (goal = .endBody ∧ routine = .closeBody ∨
      goal ≠ .endBody ∧ ∃ known missing, parser.Knows known ∧ (missing = true → missed ≠ []) ∧
        routine.Sound goal known missing)
  | failing error _ => error.Telling

/-- The invariant of all moments. -/
structure Moment.Kept (moment : Moment σ) : Prop where
  parser : moment.parser.Kept moment.activity.bodies moment.missed
  ready : moment.activity.Ready moment.parser moment.missed

variable {parser after : Parser σ} {known : Option TokenKind} {missing : Bool} {missed : List Decision}
  {goal : Goal} {goals rest : List Goal} {routine : Routine} {error : ParseError} {bodies n : Nat}
  {moment later : Moment σ} {source : σ}

theorem Activity.bodies_stepping (hgoal : goal ≠ .endBody) :
    (stepping goal routine rest).bodies = rest.count .endBody :=
  List.count_cons_of_ne hgoal

omit [Source σ] in
theorem Parser.heeds_of_calm (hcalm : ∀ goal ∈ rest, none ∈ goal.heralds) : parser.Heeds rest :=
  ⟨fun goal hgoal => ⟨none, hcalm goal (List.mem_of_mem_head? hgoal), parser.knows_none⟩,
    fun goal hgoal => hcalm goal (List.mem_of_mem_tail hgoal)⟩

omit [Source σ] in
theorem Parser.heeds_append (h : Heralds known goals) (hknows : parser.Knows known)
    (hcalm : ∀ goal ∈ rest, none ∈ goal.heralds) : parser.Heeds (goals ++ rest) := by
  cases goals with
  | nil => exact heeds_of_calm hcalm
  | cons first goals =>
    obtain ⟨-, hfirst, htail⟩ := h
    refine ⟨?_, fun goal hgoal => ?_⟩
    · rintro goal ⟨⟩
      rcases hfirst first rfl with hherald | hherald
      · exact ⟨known, hherald, hknows⟩
      · exact ⟨none, hherald, parser.knows_none⟩
    · rcases List.mem_append.1 hgoal with hgoal | hgoal
      · exact htail goal hgoal
      · exact hcalm goal hgoal

/-- What is left of a sound routine may go on, and the goals that come of it may. -/
theorem Moment.kept_resume (hgoal : goal ≠ .endBody) (hcalm : ∀ other ∈ rest, none ∈ other.heralds)
    (hkept : parser.Kept ((goal :: rest).count .endBody) missed) (hknows : parser.Knows known)
    (hmissing : missing = true → missed ≠ []) (hsound : routine.Sound goal known missing) :
    Kept ⟨.resume goal rest routine, parser, missed⟩ := by
  have hstepping : Kept ⟨.stepping goal routine rest, parser, missed⟩ :=
    ⟨hkept, hcalm, .inr ⟨hgoal, known, missing, hknows, hmissing, hsound⟩⟩
  cases routine with
  | done goals =>
    have hheralds : Heralds known goals := hsound
    have hcount : (goals ++ rest).count .endBody = (goal :: rest).count .endBody := by
      rw [List.count_append, List.count_eq_zero_of_not_mem hheralds.1, Nat.zero_add,
        List.count_cons_of_ne hgoal]
    rw [← hcount] at hkept
    exact ⟨hkept, Parser.heeds_append hheralds hknows hcalm⟩
  | look | select | ask | expect | openBody | closeBody | refuseAt | refuse => exact hstepping

/-- What is known at an operation that does not close a body. -/
theorem Moment.Kept.sound (h : moment.Kept) (hstepping : moment.activity = .stepping goal routine rest)
    (hroutine : routine ≠ .closeBody) :
    goal ≠ .endBody ∧ (∀ other ∈ rest, none ∈ other.heralds) ∧ ∃ known missing, moment.parser.Knows known ∧
      (missing = true → moment.missed ≠ []) ∧ routine.Sound goal known missing := by
  have hready := h.ready
  rw [hstepping] at hready
  obtain ⟨hcalm, ⟨-, hclose⟩ | ⟨hgoal, hsound⟩⟩ := hready
  · exact absurd hclose hroutine
  · exact ⟨hgoal, hcalm, hsound⟩

/-- **How the operations of a sound routine fail**: nothing is taken, and what a syntax error says is something. -/
theorem leads_failure (hkept : parser.Kept bodies missed) (hknows : parser.Knows known)
    (hmissing : missing = true → missed ≠ []) (hsound : routine.Sound goal known missing) :
    Leads routine.operate parser (fun _ _ => True)
      fun error after => after.Kept bodies (routine.refusesAt ++ missed) ∧ error.Telling := by
  have hplace (error : ParseError) (after : Parser σ) (h : FailsInPlace parser error after) :
      after.Kept bodies missed ∧ error.Telling := ⟨hkept.look h.1, h.2⟩
  have hfirst {α : Type} {action : ParseM σ α} {good : α → Parser σ → Prop} {left : α → Routine}
      (h : Leads action parser good (FailsInPlace parser)) :
      Leads (action >>= fun value => pure (left value)) parser (fun _ _ => True)
        fun error after => after.Kept bodies missed ∧ error.Telling :=
    leads_bind (h.imp (fun _ _ _ => leads_pure trivial) hplace)
  cases routine with
  | done => exact leads_pure trivial
  | look => exact hfirst (leads_nextKind_known hknows)
  | select point => exact hfirst (leads_selects_known hknows point)
  | ask probe => exact hfirst (leads_tries_known hknows probe)
  | expect kind => exact hfirst (leads_expect_known kind)
  | openBody goals => exact hfirst (leads_withBody_known goals)
  | closeBody => exact hsound.elim
  | refuseAt point =>
    obtain ⟨hpoint, kind, hkind, hunfit⟩ := hsound
    cases hkind
    exact (leads_refuseAt_known point).imp (fun _ _ _ => trivial)
      fun _ _ ⟨hlooked, htelling⟩ => ⟨(hkept.miss hknows hunfit hpoint).look hlooked, htelling⟩
  | refuse =>
    obtain ⟨point, hpoint⟩ := List.exists_mem_of_ne_nil _ (hmissing hsound.2)
    exact (leads_refuse_known (.inr ⟨point, (hkept.live point).2 hpoint⟩)).imp (fun _ _ _ => trivial) hplace

/-- **The invariant holds at the next moment.** -/
theorem kept_next (h : moment.Kept) (hnext : moment.Next later) : later.Kept := by
  have hkept := h.parser
  have hready := h.ready
  cases hnext with
  | call => exact ⟨hkept, Parser.heeds_of_calm (by decide)⟩
  | @step goal rest =>
    obtain ⟨hhead, hcalm⟩ := hready
    obtain ⟨known, hknown, hknows⟩ := hhead goal rfl
    by_cases hgoal : goal = .endBody
    · subst hgoal
      exact ⟨hkept, hcalm, .inl ⟨rfl, rfl⟩⟩
    · have hmissing {missed : List Decision} : false = true → missed ≠ [] := nofun
      exact Moment.kept_resume hgoal hcalm hkept hknows hmissing (sound_routine hgoal hknown)
  | succeed => exact ⟨hkept, trivial⟩
  | look hlook =>
    obtain ⟨hgoal, hcalm, known, missing, hknows, hmissing, hsound⟩ := h.sound rfl nofun
    obtain ⟨hlooked, hknows, hfits⟩ := (leads_nextKind_known hknows).of_ok hlook
    exact Moment.kept_resume hgoal hcalm (hkept.look hlooked) hknows hmissing (hsound _ hfits)
  | enter hselect =>
    obtain ⟨hgoal, hcalm, known, missing, hknows, hmissing, hsound⟩ := h.sound rfl nofun
    obtain ⟨kind, seen, hlooked, hknows, hfits, ⟨-, hfirst, rfl⟩ | ⟨⟨⟩, -⟩⟩ :=
      (leads_selects_known hknows _).of_ok hselect
    exact Moment.kept_resume hgoal hcalm (hkept.look hlooked) hknows hmissing ((hsound kind hfits).1 hfirst)
  | miss hselect =>
    obtain ⟨hgoal, hcalm, known, missing, hknows, hmissing, hsound⟩ := h.sound rfl nofun
    obtain ⟨kind, seen, hlooked, hknows, hfits, ⟨⟨⟩, -⟩ | ⟨-, hunfit, rfl⟩⟩ :=
      (leads_selects_known hknows _).of_ok hselect
    obtain ⟨hpoint, hsound⟩ := (hsound kind hfits).2 hunfit
    exact Moment.kept_resume hgoal hcalm ((hkept.look hlooked).miss hknows hunfit hpoint) hknows
      (fun _ => List.cons_ne_nil _ _) hsound
  | @ask goal probe next rest _ _ hit after hask =>
    obtain ⟨hgoal, hcalm, known, missing, hknows, hmissing, hsound⟩ := h.sound rfl nofun
    obtain ⟨kind, hlooked, hknows, hfits, hparen⟩ := (leads_tries_known hknows _).of_ok hask
    refine Moment.kept_resume hgoal hcalm (hkept.look hlooked) hknows hmissing ?_
    cases hit with
    | true => exact (hsound kind hfits).1 (hparen rfl)
    | false => exact (hsound kind hfits).2
  | take htake =>
    obtain ⟨hgoal, hcalm, -⟩ := h.sound rfl nofun
    obtain ⟨seen, next, hlooked, -, rfl⟩ := (leads_expect_known _).of_ok htake
    rw [Activity.bodies_stepping hgoal] at hkept
    exact ⟨(hkept.look hlooked).take, Parser.heeds_of_calm hcalm⟩
  | @openBody goal inner _ rest parser missed after hopen =>
    obtain ⟨hgoal, hcalm, known, missing, hknows, -, -, hheralds⟩ := h.sound rfl nofun
    obtain ⟨rfl, hroom, rfl⟩ := (leads_withBody_known _).of_ok hopen
    have hcount : (Activity.between (inner ++ [.endBody] ++ rest)).bodies = rest.count .endBody + 1 := by
      simp only [Activity.bodies, Activity.agenda, List.count_append, List.count_singleton_self,
        List.count_eq_zero_of_not_mem hheralds.1, Nat.zero_add, Nat.add_comm 1]
    rw [Activity.bodies_stepping hgoal] at hkept
    refine ⟨hcount ▸ hkept.enter hroom, ?_⟩
    have hbehind : ∀ other ∈ .endBody :: rest, none ∈ other.heralds := List.forall_mem_cons.2 ⟨by decide, hcalm⟩
    have hheeds := parser.heeds_append hheralds hknows hbehind
    rwa [List.append_cons] at hheeds
  | @closeBody goal rest parser missed after hclose =>
    obtain ⟨hcalm, ⟨rfl, -⟩ | ⟨-, known, missing, -, -, ⟨⟩⟩⟩ := hready
    cases hclose
    rw [Activity.bodies, Activity.agenda, List.count_cons_self] at hkept
    exact ⟨hkept.leave, Parser.heeds_of_calm hcalm⟩
  | @fail goal routine rest parser missed error after hfail =>
    obtain ⟨hcalm, ⟨rfl, rfl⟩ | ⟨hgoal, known, missing, hknows, hmissing, hsound⟩⟩ := hready
    · cases hfail
    · obtain ⟨hafter, htelling⟩ := (leads_failure hkept hknows hmissing hsound).of_error hfail
      rw [Activity.bodies_stepping hgoal] at hafter
      exact ⟨hafter, htelling⟩
  | pass hgoal =>
    rw [Activity.bodies, Activity.agenda, List.count_cons_of_ne hgoal] at hkept
    exact ⟨hkept, hready⟩
  | @leave rest error parser missed after hclose =>
    cases hclose
    rw [Activity.bodies, Activity.agenda, List.count_cons_self] at hkept
    exact ⟨hkept.leave, hready⟩
  | report => exact ⟨hkept, trivial⟩

/-- **The invariant holds at every moment.** -/
theorem kept_of_reachable (h : Moment.Reachable source moment) : moment.Kept := by
  induction h with
  | refl =>
    have hnone (point : Decision) : (Parser.ofSource source).decisions.stamp? point = none :=
      Decision.Log.stamp?_empty point
    refine ⟨⟨rfl, rfl, rfl, Nat.zero_le _, fun point n hstamp => ?_, fun point => ?_, nofun,
      fun point _ => hnone point⟩, trivial⟩
    · rw [hnone] at hstamp
      cases hstamp
    · rw [hnone]
      simp
  | tail _ hnext ih => exact kept_next ih hnext

/-! ## Moments and calls -/

/-- A stage of some call of a new parser. -/
def Staged (source : σ) (stage : Stage σ) : Prop :=
  ∃ n parser k, (Parser.ofSource source).Calls n parser ∧ (Stage.mk Goal.program parser).after k = some stage

/-- Moments are what the calls of a new parser go through: it is idle after calls, and it is between two steps at
their stages. Where a step fails, its call fails. -/
structure Moment.Trace (source : σ) : Prop where
  idle (parser : Parser σ) : (∃ missed, Reachable source ⟨.idle, parser, missed⟩) ↔
    ∃ n, (Parser.ofSource source).Calls n parser
  stage (stage : Stage σ) : (∃ missed, Reachable source ⟨.between stage.agenda, stage.parser, missed⟩) ↔
    Staged source stage
  failure {goal : Goal} {rest : List Goal} {before after : Parser σ} {error : ParseError}
    (hstage : Staged source ⟨goal :: rest, before⟩) (hstep : goal.step before = .error error after) :
    ∃ missed, Reachable source ⟨.failing error rest, after, missed⟩

theorem reachable_of_stage {stage : Stage σ} (hstart : Moment.Reachable source ⟨.idle, parser, missed⟩)
    (h : (Stage.mk Goal.program parser).after n = some stage) :
    ∃ missed, Moment.Reachable source ⟨.between stage.agenda, stage.parser, missed⟩ :=
  Moment.reaches_stage ⟨missed, hstart.tail .call⟩ h

/-- A step that fails comes to the moment at which its call has failed. -/
theorem reachable_of_failure (h : Moment.Reachable source ⟨.between (goal :: rest), parser, missed⟩)
    (hstep : goal.step parser = .error error after) :
    ∃ missed, Moment.Reachable source ⟨.failing error rest, after, missed⟩ := by
  obtain ⟨more, hpath⟩ := (Moment.reaches_step goal rest parser missed).of_error hstep
  exact ⟨more, h.trans hpath⟩

/-- **What calls leave is a moment**, whatever came of them. -/
theorem reachable_of_calls (h : (Parser.ofSource source).Calls n parser) :
    ∃ missed, Moment.Reachable source ⟨.idle, parser, missed⟩ := by
  induction h with
  | none => exact ⟨[], .refl⟩
  | @again n before after outcome _ hreturns ih =>
    obtain ⟨missed, hbefore⟩ := ih
    obtain ⟨k, ⟨agenda, last⟩, result, hstage, hresult, hfinish⟩ := returns_iff.1 hreturns
    obtain ⟨missed, hmoment⟩ := reachable_of_stage hbefore hstage
    rcases Stage.result_cases hresult with ⟨rfl, rfl⟩ | ⟨goal, rest, error, failed, rfl, rfl, hstep, -⟩
    · cases hfinish
      exact ⟨missed, hmoment.tail .succeed⟩
    · cases hfinish
      obtain ⟨missed, hfailing⟩ := reachable_of_failure hmoment hstep
      have hidle := hfailing.trans (Moment.reaches_idle error rest failed missed)
      -- as many bodies are open as have their end among the goals that are left behind
      have hdepth : failed.depth = rest.count .endBody := (kept_of_reachable hfailing).parser.depth
      rw [hdepth, Nat.sub_self] at hidle
      exact ⟨missed, hidle⟩

theorem reachable_of_staged {stage : Stage σ} (h : Staged source stage) :
    ∃ missed, Moment.Reachable source ⟨.between stage.agenda, stage.parser, missed⟩ := by
  obtain ⟨n, parser, k, hcalls, hstage⟩ := h
  obtain ⟨missed, hidle⟩ := reachable_of_calls hcalls
  exact reachable_of_stage hidle hstage

/-- Where a moment comes in the calls of a new parser. -/
def Moment.Placed (source : σ) : Moment σ → Prop
  | ⟨.idle, parser, _⟩ => ∃ n, (Parser.ofSource source).Calls n parser
  | ⟨.between agenda, parser, _⟩ => Staged source ⟨agenda, parser⟩
  | ⟨.stepping goal routine rest, parser, _⟩ =>
    ∃ before, Staged source ⟨goal :: rest, before⟩ ∧ goal.step before = routine.run parser
  | ⟨.failing error _, parser, _⟩ => ∃ goal rest before failed, Staged source ⟨goal :: rest, before⟩ ∧
    goal.step before = .error error failed ∧ parser.abandon = failed.abandon

/-- A step that runs what is left of a routine goes on with it. -/
theorem Moment.placed_resume {before : Parser σ} (hstaged : Staged source ⟨goal :: rest, before⟩)
    (hrun : goal.step before = routine.run parser) :
    Placed source ⟨.resume goal rest routine, parser, missed⟩ := by
  cases routine with
  | done goals =>
    obtain ⟨n, start, k, hcalls, hstage⟩ := hstaged
    refine ⟨n, start, k + 1, hcalls, Stage.after_succ.2 ⟨_, hstage, ?_⟩⟩
    exact Stage.next?_eq_some.2 ⟨goal, rest, goals, rfl, hrun, rfl⟩
  | look | select | ask | expect | openBody | closeBody | refuseAt | refuse => exact ⟨before, hstaged, hrun⟩

/-- **Each moment has its place in the calls**, if the one before has. -/
theorem placed_next (hkept : moment.Kept) (h : moment.Placed source) (hnext : moment.Next later) :
    later.Placed source := by
  cases hnext with
  | @call parser missed =>
    obtain ⟨n, hcalls⟩ := h
    exact ⟨n, parser, 0, hcalls, rfl⟩
  | step => exact Moment.placed_resume h (congrFun (Goal.run_routine _).symm _)
  | succeed =>
    obtain ⟨n, start, k, hcalls, hstage⟩ := h
    exact ⟨n + 1, hcalls.again (returns_of_nil hstage)⟩
  | look hlook =>
    obtain ⟨before, hstaged, hrun⟩ := h
    exact Moment.placed_resume hstaged (hrun.trans (bind_of_ok hlook _))
  | enter hselect =>
    obtain ⟨before, hstaged, hrun⟩ := h
    exact Moment.placed_resume hstaged (hrun.trans (bind_of_ok hselect _))
  | miss hselect =>
    obtain ⟨before, hstaged, hrun⟩ := h
    exact Moment.placed_resume hstaged (hrun.trans (bind_of_ok hselect _))
  | ask hask =>
    obtain ⟨before, hstaged, hrun⟩ := h
    exact Moment.placed_resume hstaged (hrun.trans (bind_of_ok hask _))
  | take htake =>
    obtain ⟨before, hstaged, hrun⟩ := h
    have hdone : _ = (Routine.done []).run _ := hrun.trans (bind_of_ok htake _)
    exact Moment.placed_resume hstaged hdone
  | @openBody goal goals inner rest parser missed after hopen =>
    obtain ⟨before, hstaged, hrun⟩ := h
    have hdone : _ = (Routine.done inner).run after := hrun.trans hopen
    exact Moment.placed_resume hstaged hdone
  | closeBody hclose =>
    obtain ⟨before, hstaged, hrun⟩ := h
    have hdone : _ = (Routine.done []).run _ := hrun.trans (bind_of_ok hclose _)
    exact Moment.placed_resume hstaged hdone
  | @fail goal routine rest parser missed error after hfail =>
    obtain ⟨before, hstaged, hrun⟩ := h
    have hfailed : routine.run parser = .error error after := by
      rw [Routine.run_eq_operate]
      exact bind_of_error hfail _
    exact ⟨goal, rest, before, after, hstaged, hrun.trans hfailed, rfl⟩
  | pass => exact h
  | leave hclose =>
    cases hclose
    exact h
  | @report error parser missed =>
    obtain ⟨goal, rest, before, failed, ⟨n, start, k, hcalls, hstage⟩, hstep, hsame⟩ := h
    -- no body is left open when all goals are left
    have hdepth : parser.depth = 0 := hkept.parser.depth
    have hclosed : parser.abandon = parser := by
      unfold Parser.abandon
      rw [← hdepth]
    rw [hclosed] at hsame
    exact ⟨n + 1, hcalls.again (hsame ▸ returns_of_error hstage hstep)⟩

theorem placed_of_reachable (h : Moment.Reachable source moment) : moment.Placed source := by
  induction h with
  | refl => exact ⟨0, .none⟩
  | tail hbefore hnext ih => exact placed_next (kept_of_reachable hbefore) ih hnext

/-- **Moments are what calls go through.** -/
theorem trace_moments (source : σ) : Moment.Trace source where
  idle parser := ⟨fun ⟨missed, h⟩ => placed_of_reachable h, fun ⟨n, hcalls⟩ => reachable_of_calls hcalls⟩
  stage stage := ⟨fun ⟨missed, h⟩ => placed_of_reachable h, reachable_of_staged⟩
  failure hstage hstep := by
    obtain ⟨missed, hmoment⟩ := reachable_of_staged hstage
    exact reachable_of_failure hmoment hstep

/-! ## The books -/

/-- The books of a parser agree with what has happened: how many tokens its buffer has given away, how many bodies
are open, and which decision points have been missed since. -/
structure Moment.Agree (moment : Moment σ) : Prop where
  generation : moment.parser.generation = moment.parser.buffer.consumed
  depth : moment.parser.depth = moment.activity.bodies
  shallow : moment.parser.depth ≤ 256
  idle : moment.activity = .idle → moment.parser.depth = 0
  past (point : Decision) (n : Nat) :
    moment.parser.decisions.stamp? point = some n → n ≤ moment.parser.generation
  live (point : Decision) : point ∈ moment.parser.live ↔ point ∈ moment.missed
  unfit (point : Decision) : point ∈ moment.missed →
    ∃ next buffer, Buffer.peek 0 moment.parser.buffer = .ok next buffer ∧ next.kind ∉ point.firstKinds

theorem Moment.Kept.agree (h : moment.Kept) : moment.Agree where
  generation := h.parser.generation
  depth := h.parser.depth
  shallow := h.parser.shallow
  idle hidle := by
    rw [h.parser.depth, hidle]
    rfl
  past := h.parser.past
  live point := Decision.Log.mem_live.trans (h.parser.live point)
  unfit point hpoint := by
    obtain ⟨next, hview, hunfit⟩ := h.parser.unfit point hpoint
    obtain ⟨buffer, hpeek, -⟩ := Buffer.peek_of_shows ⟨rfl, rfl⟩ hview
    exact ⟨next, buffer, hpeek, hunfit⟩

/-- **The books of a parser agree with what has happened**, at every moment of any number of calls, whatever comes
of them; and a probe leaves them as they are, whether it comes to an answer or fails. -/
theorem books_agree (source : σ) :
    Moment.Trace source ∧ (∀ moment, Moment.Reachable source moment → moment.Agree) ∧
      ∀ (probe : Probe) (parser : Parser σ),
        Leads (tries probe) parser (fun _ after => after.standing = parser.standing)
          fun _ after => after.standing = parser.standing := by
  refine ⟨trace_moments source, fun moment h => (kept_of_reachable h).agree, fun probe parser => ?_⟩
  exact (leads_tries_known parser.knows_none probe).imp (fun _ _ ⟨_, hlooked, _⟩ => hlooked.standing)
    fun _ _ ⟨hlooked, _⟩ => hlooked.standing

end Cal
