import Cal.Proofs.Grammar.Sentential
import Cal.Proofs.Parser.Stage

/-!
# Forced choices

At ten of the decision points a construct may be left out: a step that finds no alternative there
leaves nothing in the place of its goal. Whether the construct is left out is decided by the next
kind alone.

* `Goal.passes_iff`: the goals that pass a point, read off the table of steps.
* `Goal.Forced`: what makes the next kind decide rightly.
* `tables_exact`: the tables of the rules say what the productions derive, and every choice to leave
  a construct out is forced, that of a connective apart.
-/

namespace Cal

/-- The points at which a construct may be left out. -/
def Decision.optional : List Decision :=
  [declList, functionList, returnValue, parameterList, parameterListTail, statementBlock, expressionTail,
    conditionChoice, argList, argListTail]

/-- The points that are missed where nothing is left in the place of a goal. -/
def Plan.passed : Plan → List Decision
  | go missed false [] => missed
  | _ => []

namespace Goal

/-- Somewhere a step towards the goal passes the point: it misses the point, takes no token, and leaves
nothing in the place of the goal. -/
def Passes (goal : Goal) (point : Decision) : Prop :=
  ∃ (σ : Type) (_ : Source σ) (parser after : Parser σ), goal.step parser = .ok [] after ∧
    after.generation = parser.generation ∧ point ∉ parser.live ∧ point ∈ after.live

variable {goal : Goal} {point : Decision} {next : TokenKind} {hit : Bool}

/-- What a goal that passes a point is like: it looks at the next token and asks no probe. -/
structure Optional (goal : Goal) (point : Decision) : Prop where
  listed : point ∈ Decision.optional
  found : goal.form.foundWithin 8 .program = true
  blind : goal.blind = false
  probe : goal.probe? = none
  nullable : goal.form.nullable = true
  firsts : goal.form.firsts ⊆ point.firstKinds
  offered : point.firstKinds ⊆ goal.form.firsts
  shuns : point ≠ .conditionChoice → point.firstKinds ⊆ goal.form.shuns
  connective : point ≠ .conditionChoice → .andKw ∉ point.firstKinds ∧ .orKw ∉ point.firstKinds

instance (goal : Goal) (point : Decision) : Decidable (goal.Optional point) :=
  decidable_of_iff
    (point ∈ Decision.optional ∧ goal.form.foundWithin 8 .program = true ∧ goal.blind = false ∧
      goal.probe? = none ∧ goal.form.nullable = true ∧
      goal.form.firsts ⊆ point.firstKinds ∧ point.firstKinds ⊆ goal.form.firsts ∧
      (point ≠ .conditionChoice → point.firstKinds ⊆ goal.form.shuns) ∧
      (point ≠ .conditionChoice → .andKw ∉ point.firstKinds ∧ .orKw ∉ point.firstKinds))
    ⟨fun ⟨hlisted, hfound, hblind, hprobe, hnullable, hfirsts, hoffered, hshuns, hconnective⟩ =>
      ⟨hlisted, hfound, hblind, hprobe, hnullable, hfirsts, hoffered, hshuns, hconnective⟩,
    fun h => ⟨h.listed, h.found, h.blind, h.probe, h.nullable, h.firsts, h.offered, h.shuns, h.connective⟩⟩

/-- **Whatever passes a point is optional**, entry by entry of the table. -/
theorem optional_of_passed : ∀ point ∈ (goal.plan next hit).passed, goal.Optional point := by
  revert next hit
  cases goal with
  | token kind | seen kind =>
    intro next hit point h
    by_cases hnext : next = kind <;> simp [plan, hnext, Plan.passed] at h
  | _ => decide +kernel

/-- A goal without a probe does not depend on one. -/
theorem plan_unprobed (h : goal.probe? = none) (hit : Bool) : goal.plan next hit = goal.plan next false := by
  cases goal with
  | callSuffix | conditionSimple => cases h
  | _ => rfl

theorem plan_of_passed (h : point ∈ (goal.plan next hit).passed) :
    ∃ missed, point ∈ missed ∧ goal.plan next hit = .go missed false [] := by
  unfold Plan.passed at h
  split at h
  · rename_i missed hplan
    exact ⟨missed, h, hplan⟩
  · cases h

/-- **A goal passes a point exactly where the table says so.** -/
theorem passes_iff : goal.Passes point ↔ ∃ next hit, point ∈ (goal.plan next hit).passed := by
  constructor
  · rintro ⟨σ, _, parser, after, hstep, hgeneration, hbefore, hafter⟩
    obtain ⟨seen, -, hrun⟩ := act_ok_cases (act_of_step hstep).1
    refine ⟨seen.next.kind, seen.hit, ?_⟩
    have hsame : after.standing.generation = parser.standing.generation := hgeneration
    rw [Parser.live, Decision.Log.mem_live] at hbefore hafter
    rcases Plan.ok_cases hrun with ⟨-, -, htaken⟩ | ⟨missed, hplan, hmissed⟩ |
      ⟨missed, inner, -, -, hgoals, -⟩ | ⟨-, -, hleft⟩
    · -- a token would have been taken
      rw [htaken] at hsame
      exact absurd hsame (Nat.succ_ne_self _)
    · -- the point became live by being missed
      have hstamp : (parser.standing.miss missed).decisions.stamp? point = some parser.generation := by
        rw [← hmissed, ← hgeneration]
        exact hafter
      rw [Standing.stamp?_miss] at hstamp
      by_cases hpoint : point ∈ missed
      · rw [hplan]
        exact hpoint
      · rw [if_neg hpoint] at hstamp
        exact absurd hstamp hbefore
    · simp at hgoals
    · -- the end of a body misses nothing
      have hdecisions : after.decisions = parser.decisions := congrArg Standing.decisions hleft
      rw [hdecisions, hgeneration] at hafter
      exact absurd hafter hbefore
  · rintro ⟨next, hit, hpassed⟩
    obtain ⟨missed, hpoint, hplan⟩ := plan_of_passed hpassed
    have hoptional := optional_of_passed point hpassed
    -- a parser that has the next token before it, and has missed nothing so far
    let parser := Parser.ofSource (TokenList.ofList [⟨next, "", .start⟩])
    have hview : parser.buffer.view 0 = .ok ⟨next, "", .start⟩ := congrFun (Buffer.shows_ofList _).1 0
    have hact : goal.act parser.buffer.view parser.standing = .ok [] (parser.standing.miss missed) := by
      rw [act_of_next hoptional.blind hoptional.probe hview, ← plan_unprobed hoptional.probe hit, hplan]
      rfl
    obtain ⟨after, hstep, hreached, -⟩ := step_of_act hact
    have hgeneration : after.generation = 0 := congrArg Standing.generation hreached
    have hdecisions : after.decisions = (parser.standing.miss missed).decisions :=
      congrArg Standing.decisions hreached
    refine ⟨TokenList, inferInstance, parser, after, hstep, hgeneration, ?_, ?_⟩
    · simp [Parser.live, Decision.Log.mem_live, parser, Parser.ofSource]
    · rw [Parser.live, Decision.Log.mem_live, hdecisions, Standing.stamp?_miss, if_pos hpoint, hgeneration]
      rfl

/-- The choice whether to leave out what meets a goal is forced at a point: the point lists the kinds that
can begin what meets the goal, nothing at all meets it too, and none of these kinds can follow in any
sentential form in which it occurs. -/
structure Forced (goal : Goal) (point : Decision) : Prop where
  occurs : Occurs goal.form
  begins (kind : TokenKind) : kind ∈ point.firstKinds ↔ Begins [goal.form] kind
  empty : Derives [goal.form] []
  follows (before after : List Form) : Sentential (before ++ goal.form :: after) →
    ∀ kind ∈ point.firstKinds, ¬ Begins after kind

theorem begins_iff {form : Form} {kind : TokenKind} : Begins [form] kind ↔ kind ∈ form.firsts := by
  constructor
  · rintro ⟨rest, hrest⟩
    simpa [mem_firstsOf_cons, firstsOf] using mem_firstsOf_of_derives hrest
  · exact fun h => begins_of_mem_firsts h []

theorem Optional.forced (h : goal.Optional point) (hpoint : point ≠ .conditionChoice) : goal.Forced point where
  occurs := occurs_of_program h.found
  begins kind := begins_iff.trans ⟨@h.firsts kind, @h.offered kind⟩ |>.symm
  empty := derives_of_nullable h.nullable .nil
  follows before after hsentential kind hkind := by
    obtain ⟨hand, hor⟩ := h.connective hpoint
    have hother : kind ≠ .andKw ∧ kind ≠ .orKw := ⟨fun h => hand (h ▸ hkind), fun h => hor (h ▸ hkind)⟩
    exact hsentential.not_begins hother.1 hother.2 (h.shuns hpoint hkind)

end Goal

/-- Some goal passes a point exactly if the point is one of those. -/
theorem mem_optional {point : Decision} : point ∈ Decision.optional ↔ ∃ goal : Goal, goal.Passes point := by
  constructor
  · intro h
    have htable : ∃ goal : Goal, point ∈ (goal.plan .eof false).passed := by
      revert point
      simp only [Decision.optional, List.forall_mem_cons]
      refine ⟨⟨.declList, ?_⟩, ⟨.functionList, ?_⟩, ⟨.returnValue, ?_⟩, ⟨.parameterList, ?_⟩,
        ⟨.parameterListTail, ?_⟩, ⟨.statementBlock, ?_⟩, ⟨.expressionTail, ?_⟩, ⟨.conditionChoice, ?_⟩,
        ⟨.argList, ?_⟩, ⟨.argListTail, ?_⟩, by simp⟩
      all_goals decide
    obtain ⟨goal, hgoal⟩ := htable
    exact ⟨goal, Goal.passes_iff.2 ⟨_, _, hgoal⟩⟩
  · rintro ⟨goal, hpasses⟩
    obtain ⟨next, hit, hpassed⟩ := Goal.passes_iff.1 hpasses
    exact (Goal.optional_of_passed point hpassed).listed

/-- **The tables are exact and the choices forced.** For every rule, the table of first kinds holds the
kinds that begin what the rule derives, and the rule is nullable exactly if it derives nothing at all. A
construct may be left out at ten points, and at all of them but the choice of a connective the next kind
forces what is done. The choice of a connective is a true exception: in some sentential form the kinds that
it lists can also follow it. -/
theorem tables_exact :
    (∀ rule : Rule,
      (∀ kind, kind ∈ rule.firstSet ↔ ∃ rest, Derives [.rule rule] (kind :: rest)) ∧
        (rule.nullable = true ↔ Derives [.rule rule] [])) ∧
    (∀ point, (point ∈ Decision.optional ↔ ∃ goal : Goal, goal.Passes point) ∧
      ∀ goal : Goal, goal.Passes point → point ≠ .conditionChoice → goal.Forced point) ∧
    ∃ before after, Sentential (before ++ Goal.conditionChoice.form :: after) ∧
      ∀ kind ∈ Decision.conditionChoice.firstKinds, Begins after kind := by
  refine ⟨fun rule => ⟨fun kind => ?_, ?_⟩, fun point => ⟨mem_optional, fun goal hpasses hpoint => ?_⟩, ?_⟩
  · have hbegins : Begins [.rule rule] kind ↔ kind ∈ (Form.rule rule).firsts := Goal.begins_iff
    exact hbegins.symm
  · constructor
    · exact fun (h : (Form.rule rule).nullable = true) => derives_of_nullable h .nil
    · exact fun h => nullable_of_derives h (.rule rule) (by simp)
  · obtain ⟨next, hit, hpassed⟩ := Goal.passes_iff.1 hpasses
    exact (Goal.optional_of_passed point hpassed).forced hpoint
  · obtain ⟨before, after, h⟩ := exists_both_choices
    have hfirsts : Decision.conditionChoice.firstKinds ⊆ (Form.rule .conditionChoice).firsts := by decide
    exact ⟨before, _, h, fun kind hkind => begins_of_mem_firsts (hfirsts hkind) after⟩

end Cal
