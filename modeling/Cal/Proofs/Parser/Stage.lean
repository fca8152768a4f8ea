import Cal.Parse
import Cal.Proofs.Lookahead.TokenList
import Cal.Proofs.Parser.Faithful
import Cal.Proofs.Parser.Step

/-!
# Stages of a run

A run goes through stages, one after each step. What holds at the first stage and is kept by every
step holds at all of them.

* `run_ends`: the result of a run is that of the stage at which it ends.
* `ends_once`: a run has one last stage.
* `sound_after`: the agenda is faithful at every stage of a parse, and every step goes as planned.
-/

namespace Cal

/-- A place in a run: the goals that are left, and the parser. -/
structure Stage (σ : Type) where
  agenda : List Goal
  parser : Parser σ

namespace Stage

variable {σ : Type} [Source σ] {start stage later : Stage σ} {n m : Nat}

/-- The stage that comes of one step, if a goal is left and the step does not fail. -/
def next? : Stage σ → Option (Stage σ)
  | ⟨[], _⟩ => none
  | ⟨goal :: rest, parser⟩ =>
    match goal.step parser with
    | .ok goals after => some ⟨goals ++ rest, after⟩
    | .error _ _ => none

/-- The result of a run that ends at this stage. -/
def result? : Stage σ → Option (EStateM.Result ParseError (Parser σ) Unit)
  | ⟨[], parser⟩ => some (.ok () parser)
  | ⟨goal :: _, parser⟩ =>
    match goal.step parser with
    | .ok _ _ => none
    | .error error after => some (.error error after)

/-- The stage after `n` steps. -/
def after (start : Stage σ) : Nat → Option (Stage σ)
  | 0 => some start
  | n + 1 => (start.after n).bind next?

theorem after_succ :
    start.after (n + 1) = some later ↔ ∃ stage, start.after n = some stage ∧ stage.next? = some later :=
  Option.bind_eq_some_iff

/-- The stage after one step more is the next one. -/
theorem next?_of_after (h : start.after n = some stage) (hlater : start.after (n + 1) = some later) :
    stage.next? = some later := by
  rw [after, h, Option.bind_some] at hlater
  exact hlater

theorem next?_eq_some :
    stage.next? = some later ↔ ∃ goal rest goals, stage.agenda = goal :: rest ∧
      goal.step stage.parser = .ok goals later.parser ∧ later.agenda = goals ++ rest := by
  obtain ⟨agenda, parser⟩ := stage
  cases agenda with
  | nil => simp [next?]
  | cons goal rest =>
    constructor
    · intro h
      cases hstep : goal.step parser with
      | ok goals after =>
        simp only [next?, hstep, Option.some.injEq] at h
        rw [← h]
        exact ⟨goal, rest, goals, rfl, hstep, rfl⟩
      | error error after =>
        simp only [next?, hstep] at h
        cases h
    · rintro ⟨_, _, goals, ⟨⟩, hstep, hagenda⟩
      simp only at hstep
      simp only [next?, hstep, ← hagenda]

/-- One step first, and then the others. -/
theorem after_of_next (h : start.next? = some later) : start.after (n + 1) = later.after n := by
  induction n with
  | zero => simp [after, h]
  | succ n ih => rw [after, ih, after]

/-- Some steps first, and then the others. -/
theorem after_add (h : start.after m = some stage) (n : Nat) : start.after (m + n) = stage.after n := by
  induction n with
  | zero => exact h
  | succ n ih => rw [← Nat.add_assoc, after, ih, after]

/-- There is a stage after any smaller number of steps. -/
theorem exists_after (h : start.after n = some stage) (hm : m ≤ n) :
    ∃ before, start.after m = some before := by
  induction n generalizing stage with
  | zero =>
    obtain rfl : m = 0 := by omega
    exact ⟨stage, h⟩
  | succ n ih =>
    by_cases hn : m = n + 1
    · rw [hn]
      exact ⟨stage, h⟩
    · obtain ⟨before, hbefore, -⟩ := after_succ.1 h
      exact ih hbefore (by omega)

/-- Behind a stage without a next one there is none. -/
theorem le_of_last {other : Stage σ} (hstage : start.after n = some stage) (hlast : stage.next? = none)
    (hother : start.after m = some other) : m ≤ n := by
  by_contra hlt
  obtain ⟨beyond, hbeyond⟩ := exists_after hother (m := n + 1) (by omega)
  have hnext := next?_of_after hstage hbeyond
  rw [hlast] at hnext
  cases hnext

/-- A run that does not go on for ever has a last stage. -/
theorem exists_last (h : start.after n = none) :
    ∃ m stage, start.after m = some stage ∧ stage.next? = none := by
  induction n with
  | zero => cases h
  | succ n ih =>
    cases hstage : start.after n with
    | none => exact ih hstage
    | some stage =>
      rw [after, hstage, Option.bind_some] at h
      exact ⟨n, stage, hstage, h⟩

/-- **A run ends only once.** -/
theorem ends_once {other : Stage σ} (hstage : start.after n = some stage) (hlast : stage.next? = none)
    (hother : start.after m = some other) (hlast' : other.next? = none) : stage = other := by
  obtain rfl : n = m := Nat.le_antisymm (le_of_last hother hlast' hstage) (le_of_last hstage hlast hother)
  rw [hstage] at hother
  exact Option.some.inj hother

/-- **A run ends at a stage** with the result of that stage. -/
theorem run_ends {fuel : Nat} {agenda : List Goal} {parser : Parser σ}
    {result : EStateM.Result ParseError (Parser σ) Unit} (h : Parser.run fuel agenda parser = some result) :
    ∃ n stage, (Stage.mk agenda parser).after n = some stage ∧ stage.result? = some result := by
  induction fuel generalizing agenda parser with
  | zero =>
    cases agenda with
    | nil => exact ⟨0, _, rfl, h⟩
    | cons goal rest => cases h
  | succ fuel ih =>
    cases agenda with
    | nil => exact ⟨0, _, rfl, h⟩
    | cons goal rest =>
      unfold Parser.run at h
      split at h
      · rename_i goals after hstep
        obtain ⟨n, stage, hafter, hresult⟩ := ih h
        have hnext : (Stage.mk (goal :: rest) parser).next? = some ⟨goals ++ rest, after⟩ := by
          simp [next?, hstep]
        exact ⟨n + 1, stage, (after_of_next hnext).trans hafter, hresult⟩
      · rename_i error after hstep
        refine ⟨0, _, rfl, ?_⟩
        simp only [result?, hstep]
        exact h

/-- No step gives a token back. -/
theorem generation_le (h : stage.next? = some later) : stage.parser.generation ≤ later.parser.generation := by
  obtain ⟨goal, rest, goals, -, hstep, -⟩ := next?_eq_some.1 h
  rcases (act_of_step hstep).2 with ⟨hsame, -⟩ | ⟨hsucc, -⟩
  · exact Nat.le_of_eq hsame.symm
  · rw [hsucc]
    exact Nat.le_succ _

/-- **A run takes the tokens that are in view**, one after the other. -/
theorem took_after (h : start.after n = some stage) : ∃ tokens, start.parser.Took tokens stage.parser := by
  induction n generalizing stage with
  | zero =>
    cases h
    exact ⟨[], .refl _⟩
  | succ n ih =>
    obtain ⟨before, hbefore, hnext⟩ := after_succ.1 h
    obtain ⟨tokens, htook⟩ := ih hbefore
    obtain ⟨goal, rest, goals, -, hstep, -⟩ := next?_eq_some.1 hnext
    rcases htook.step hstep with ⟨-, hsame⟩ | ⟨next, -, -, hmore⟩
    · exact ⟨tokens, hsame⟩
    · exact ⟨tokens ++ [next], hmore⟩

/-- Within its first `n` steps a run asks a probe when it has taken so many tokens. -/
def Asks (start : Stage σ) (n generation : Nat) : Prop :=
  ∃ m < n, ∃ goal rest parser, start.after m = some ⟨goal :: rest, parser⟩ ∧
    goal.probe?.isSome = true ∧ parser.generation = generation

/-- One more step asks one more probe at most. -/
theorem asks_succ {goal : Goal} {rest : List Goal} {generation : Nat} (h : start.after n = some stage)
    (hagenda : stage.agenda = goal :: rest) :
    Asks start (n + 1) generation ↔
      Asks start n generation ∨ goal.probe?.isSome = true ∧ stage.parser.generation = generation := by
  constructor
  · rintro ⟨m, hm, other, more, parser, hafter, hprobe, hgeneration⟩
    by_cases hn : m = n
    · rw [hn, h] at hafter
      cases hafter
      cases hagenda
      exact .inr ⟨hprobe, hgeneration⟩
    · exact .inl ⟨m, by omega, other, more, parser, hafter, hprobe, hgeneration⟩
  · rintro (⟨m, hm, hasks⟩ | ⟨hprobe, hgeneration⟩)
    · exact ⟨m, by omega, hasks⟩
    · refine ⟨n, by omega, goal, rest, stage.parser, ?_, hprobe, hgeneration⟩
      rw [h, ← hagenda]

/-- What holds at every stage of a parse: the parser reads the stream, the agenda is faithful, no
token has been given back, and the limit is still the same. -/
structure Sound (stream : Nat → Token) (start : Stage σ) (n : Nat) (stage : Stage σ) : Prop where
  reads : At stream stage.parser.standing stage.parser
  faithful : Faithful stream (Asks start n stage.parser.generation) stage.agenda stage.parser.standing
  earlier (m : Nat) (before : Stage σ) : m ≤ n → start.after m = some before →
    before.parser.generation ≤ stage.parser.generation
  limit : stage.parser.limit = start.parser.limit

/-- Where a plan can be carried out, a step is taken. -/
theorem exists_next {stream : Nat → Token} {goal : Goal} {rest goals : List Goal} {parser : Parser σ}
    {reached : Standing} (h : start.after n = some ⟨goal :: rest, parser⟩)
    (hreads : At stream parser.standing parser)
    (hplan : (goal.planAt stream parser.generation).carryOut (stream parser.generation) parser.standing =
      .ok goals reached) :
    ∃ after, start.after (n + 1) = some ⟨goals ++ rest, after⟩ ∧ At stream reached after := by
  have hcarries := carries_step goal hreads
  have hstep : Carries stream goal.step parser (.ok goals reached) := hplan ▸ hcarries
  obtain ⟨after, hafter, hreached⟩ := hstep.exists_ok
  refine ⟨after, after_succ.2 ⟨_, h, ?_⟩, hreached⟩
  exact next?_eq_some.2 ⟨goal, rest, goals, rfl, hafter, rfl⟩

/-- A step that is taken goes as planned. -/
theorem Sound.planned {stream : Nat → Token} (h : Sound stream start n stage)
    (hnext : stage.next? = some later) :
    ∃ goal rest goals, stage.agenda = goal :: rest ∧ later.agenda = goals ++ rest ∧
      (goal.planAt stream stage.parser.generation).carryOut (stream stage.parser.generation)
        stage.parser.standing = .ok goals later.parser.standing ∧
      At stream later.parser.standing later.parser := by
  obtain ⟨goal, rest, goals, hagenda, hstep, hlater⟩ := next?_eq_some.1 hnext
  obtain ⟨hplan, hreads⟩ := (carries_step goal h.reads).of_ok hstep
  exact ⟨goal, rest, goals, hagenda, hlater, hplan, hreads⟩

theorem Sound.step {stream : Nat → Token} (h : Sound stream start n stage)
    (hstage : start.after n = some stage) (hnext : stage.next? = some later) :
    Sound stream start (n + 1) later := by
  obtain ⟨goal, rest, goals, hagenda, hlater, hrun, hreads⟩ := h.planned hnext
  have hasks (generation : Nat) : Asks start (n + 1) generation ↔
      Asks start n generation ∨ goal.probe?.isSome = true ∧ stage.parser.generation = generation :=
    asks_succ hstage hagenda
  have hfaithful := h.faithful
  rw [hagenda] at hfaithful
  have hkept := hfaithful.step hrun
  have hle : stage.parser.generation ≤ later.parser.generation := generation_le hnext
  refine ⟨hreads, ?_, ?_, (Plan.limit_of_ok hrun).trans h.limit⟩
  · rw [hlater]
    rcases hkept with ⟨hgeneration, hfaithful⟩ | ⟨hgeneration, hfaithful⟩
    · -- a token has been taken: no earlier stage had taken as many
      have hnone : Asks start (n + 1) later.parser.generation = False := by
        rw [eq_iff_iff, iff_false]
        rintro ⟨m, hm, other, more, parser, hafter, -, hsame⟩
        have hbefore := h.earlier m _ (by omega) hafter
        have hsucc : later.parser.generation = stage.parser.generation + 1 := hgeneration
        simp only at hbefore
        omega
      rw [hnone]
      exact hfaithful
    · -- no token has been taken: the probe of the goal is the only one asked in addition
      have hsame : later.parser.generation = stage.parser.generation := hgeneration
      have hasked : Asks start (n + 1) later.parser.generation =
          (Asks start n stage.parser.generation ∨ goal.probe?.isSome = true) := by
        rw [hsame, eq_iff_iff, hasks]
        simp
      rw [hasked]
      exact hfaithful
  · intro m before hm hbefore
    by_cases hn : m = n + 1
    · rw [hn, after_succ] at hbefore
      obtain ⟨same, hsame, hnext'⟩ := hbefore
      rw [hstage] at hsame
      cases hsame
      rw [hnext] at hnext'
      cases hnext'
      exact Nat.le_refl _
    · exact (h.earlier m before (by omega) hbefore).trans hle

/-- **The agenda is faithful at every stage** of a parse. -/
theorem sound_after {stream : Nat → Token} {limit : Option Nat} (hagenda : start.agenda = Goal.program)
    (hreads : At stream ⟨0, .empty, 0, limit⟩ start.parser) (h : start.after n = some stage) :
    Sound stream start n stage := by
  induction n generalizing stage with
  | zero =>
    cases h
    have hstands := hreads.stands
    refine ⟨hstands ▸ hreads, ?_, ?_, rfl⟩
    · have hnone : Asks start 0 start.parser.generation = False := by
        rw [eq_iff_iff, iff_false]
        rintro ⟨m, hm, -⟩
        omega
      rw [hnone, hagenda, hstands]
      exact Faithful.init stream limit
    · intro m before hm hbefore
      obtain rfl : m = 0 := by omega
      cases hbefore
      exact Nat.le_refl _
  | succ n ih =>
    obtain ⟨before, hbefore, hnext⟩ := after_succ.1 h
    exact (ih hbefore).step hbefore hnext

end Stage

end Cal
