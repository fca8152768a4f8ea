import Cal.Proofs.Parser.Bookkeeping

/-!
# What cannot go wrong in a step

A step is written with care for what cannot happen: it refuses the next token at points that are only come to with
a token of their first kinds, it looks again at a token that it has seen, and it expects a kind that it has just
matched. None of this fails, on any source and after any number of calls, because the token that was looked at is
held in the buffer.

* `matched_of_step`: a step that has matched a kind leaves it as the first goal.
* `Moment.Kept.safe`: what the invariant says about the operation that comes next.
* `defences_unreached`: all of it, at every moment of every call.
-/

namespace Cal

open ParseM Buffer Relation Routine

variable {σ : Type} [Source σ] {parser after : Parser σ} {next : Token} {kind : TokenKind} {source : σ}
  {moment : Moment σ} {goal : Goal} {goals : List Goal} {routine : Routine} {P : List Goal → Prop}

namespace Routine

/-- Whatever a routine comes to, the goals it leaves have a property. -/
def Leaves (P : List Goal → Prop) : Routine → Prop
  | done goals => P goals
  | look next => ∀ kind, (next kind).Leaves P
  | select _ next | ask _ next => ∀ answer, (next answer).Leaves P
  | expect _ | closeBody => P []
  | openBody goals => P (goals ++ [.endBody])
  | refuseAt _ | refuse => True

theorem leads_leaves (h : routine.Leaves P) (parser : Parser σ) :
    Leads routine.run parser (fun goals _ => P goals) Parser.Fails := by
  induction routine generalizing parser with
  | done => exact leads_pure h
  | look next ih => exact leads_trivial.bind fun kind after _ => ih kind (h kind) after
  | select point next ih => exact leads_trivial.bind fun selected after _ => ih selected (h selected) after
  | ask probe next ih => exact leads_trivial.bind fun hit after _ => ih hit (h hit) after
  | expect | closeBody => exact leads_trivial.bind fun _ _ _ => leads_pure h
  | openBody => exact leads_trivial.bind fun _ _ _ => leads_pure h
  | refuseAt => exact Parser.leads_refuseAt
  | refuse => exact Parser.leads_refuse

/-- The operations that look at the next token once more, when it has been seen. -/
def looksAgain : Routine → Bool
  | openBody _ | refuseAt _ | refuse => true
  | _ => false

end Routine

/-- The first of some goals is a token whose kind has been seen. -/
def Goal.Matched (goals : List Goal) : Prop := ∃ kind more, goals = .seen kind :: more

/-- **What a step has matched is the first goal that it leaves.** -/
theorem matched_of_step (hstep : goal.step parser = .ok goals after) :
    (goal ∈ [.decl, .function, .type, .statement, .statementChoice, .binaryArithOp, .fragment, .compOp] →
      Goal.Matched goals) ∧
    (goal ∈ [.callSuffix, .conditionChoice, .parameterListTail, .argListTail] →
      goals = [] ∨ Goal.Matched goals) ∧
    (goal = .conditionSimple → goals = [.expression, .compOp, .expression] ∨ Goal.Matched goals) := by
  rw [← Goal.run_routine] at hstep
  have hleaves (P : List Goal → Prop) (h : goal.routine.Leaves P) : P goals :=
    (leads_leaves h parser).of_ok hstep
  refine ⟨fun hgoal => hleaves Goal.Matched ?_,
    fun hgoal => hleaves (fun goals => goals = [] ∨ Goal.Matched goals) ?_,
    fun hgoal => hleaves (fun goals => goals = [.expression, .compOp, .expression] ∨ Goal.Matched goals) ?_⟩
  · simp only [List.mem_cons, List.not_mem_nil, or_false] at hgoal
    rcases hgoal with rfl | rfl | rfl | rfl | rfl | rfl | rfl | rfl <;> intro kind <;> cases kind <;>
      first | exact trivial | exact ⟨_, _, rfl⟩
  · simp only [List.mem_cons, List.not_mem_nil, or_false] at hgoal
    rcases hgoal with rfl | rfl | rfl | rfl <;> intro answer <;> cases answer <;>
      first | exact .inl rfl | exact .inr ⟨_, _, rfl⟩ | exact fun kind => .inr ⟨_, _, rfl⟩
  · subst hgoal
    rintro (_ | _)
    · rintro (_ | _)
      · rintro (_ | _)
        · exact trivial
        · exact .inl rfl
      · exact .inr ⟨_, _, rfl⟩
    · exact .inr ⟨_, _, rfl⟩

/-- A kind is taken where the next token has been seen to be of it. -/
theorem expect_of_head (hhead : parser.buffer.ahead.head? = some next) (hkind : next.kind = kind) :
    ∃ after, expect kind parser = .ok () after := by
  unfold ParseM.expect
  rw [Goal.bind_nextKind_of_head hhead, if_pos hkind]
  simp only [bind, EStateM.bind, onBuffer, advance_of_head hhead]
  exact ⟨_, rfl⟩

/-- What cannot go wrong at a moment. -/
structure Moment.Safe (moment : Moment σ) : Prop where
  /-- Nothing is refused at a point that is only come to with a token of its first kinds, -/
  chosen {goal : Goal} {point : Decision} {rest : List Goal} :
    moment.activity = .stepping goal (.refuseAt point) rest → point ∉ [.decl, .statement, .binaryArithOp]
  /-- and such a point is never stamped. -/
  unstamped (point : Decision) : point ∈ [.decl, .statement, .binaryArithOp] →
    moment.parser.decisions.stamp? point = none
  /-- The next token is held wherever it is looked at once more, to refuse it or to say that a body is too deep. -/
  held {goal : Goal} {routine : Routine} {rest : List Goal} :
    moment.activity = .stepping goal routine rest → routine.looksAgain = true →
      ∃ next, peek 0 moment.parser.buffer = .ok next moment.parser.buffer
  /-- Where a kind is expected and the next token can be seen, it can be taken, and it can be refused. -/
  taken {goal : Goal} {kind : TokenKind} {rest : List Goal} {found : TokenKind} {after : Parser σ} :
    moment.activity = .stepping goal (.expect kind) rest → nextKind moment.parser = .ok found after →
      ∃ next buffer, next.kind = found ∧ advance after.buffer = .ok next buffer ∧
        peek 0 after.buffer = .ok next after.buffer
  /-- A kind that has been matched is taken. -/
  matched {kind : TokenKind} {rest : List Goal} :
    moment.activity = .between (.seen kind :: rest) ∨
      moment.activity = .stepping (.seen kind) (.expect kind) rest →
        ∃ after, expect kind moment.parser = .ok () after
  /-- A syntax error names a kind that would have fitted. -/
  telling {error : SyntaxError} {rest : List Goal} :
    moment.activity = .failing (.unexpected error) rest → error.expected.kinds ≠ []

theorem Decision.foregone_iff {point : Decision} :
    point.foregone = true ↔ point ∈ [decl, statement, binaryArithOp] := by
  cases point <;> decide

/-- A routine that looks at the next token again knows what kind it is of. -/
theorem Routine.known_of_looksAgain {known : Option TokenKind} {missing : Bool}
    (hsound : routine.Sound goal known missing) (hlooks : routine.looksAgain = true) :
    ∃ kind, known = some kind := by
  cases routine with
  | openBody => exact Option.ne_none_iff_exists'.1 hsound.1
  | refuseAt =>
    obtain ⟨-, kind, hkind, -⟩ := hsound
    exact ⟨kind, hkind⟩
  | refuse => exact Option.ne_none_iff_exists'.1 hsound.1
  | _ => cases hlooks

/-- **What the invariant says** about the operation that comes next. -/
theorem Moment.Kept.safe (h : moment.Kept) : moment.Safe where
  chosen hstepping hpoint := by
    obtain ⟨-, -, known, missing, -, -, hforegone, -⟩ := h.sound hstepping nofun
    rw [Decision.foregone_iff.2 hpoint] at hforegone
    cases hforegone
  unstamped point hpoint := h.parser.foregone point (Decision.foregone_iff.2 hpoint)
  held hstepping hlooks := by
    have hroutine {routine : Routine} (hlooks : routine.looksAgain = true) : routine ≠ .closeBody := by
      rintro rfl
      cases hlooks
    obtain ⟨-, -, known, missing, hknows, -, hsound⟩ := h.sound hstepping (hroutine hlooks)
    obtain ⟨kind, rfl⟩ := Routine.known_of_looksAgain hsound hlooks
    obtain ⟨next, hhead, -⟩ := hknows kind rfl
    exact ⟨next, peek_of_head hhead⟩
  taken _ hfound := by
    obtain ⟨-, hseen, -⟩ := (leads_nextKind_known moment.parser.knows_none).of_ok hfound
    obtain ⟨next, hhead, hkind⟩ := hseen _ rfl
    exact ⟨next, _, hkind, advance_of_head hhead, peek_of_head hhead⟩
  matched {kind rest} hseen := by
    obtain ⟨known, rfl, hknows⟩ : ∃ known, known = some kind ∧ moment.parser.Knows known := by
      rcases hseen with hbetween | hstepping
      · have hready := h.ready
        rw [hbetween] at hready
        obtain ⟨known, hknown, hknows⟩ := hready.1 _ rfl
        exact ⟨known, List.mem_singleton.1 hknown, hknows⟩
      · obtain ⟨-, -, known, missing, hknows, -, hsound⟩ := h.sound hstepping nofun
        exact ⟨known, hsound rfl, hknows⟩
    obtain ⟨next, hhead, hkind⟩ := hknows kind rfl
    exact expect_of_head hhead hkind
  telling hfailing := by
    have hready := h.ready
    rw [hfailing] at hready
    exact hready _ rfl

/-- **What a step takes care of does not happen**, at any moment of any number of calls, whatever comes of them:
what it has looked at it can look at again, what it has matched it takes, and a syntax error always names a kind
that would have fitted. -/
theorem defences_unreached (source : σ) :
    Moment.Trace source ∧ (∀ moment, Moment.Reachable source moment → moment.Safe) ∧
      (∀ (goal : Goal) (parser after : Parser σ) (goals : List Goal), goal.step parser = .ok goals after →
        (goal ∈ [.decl, .function, .type, .statement, .statementChoice, .binaryArithOp, .fragment, .compOp] →
          Goal.Matched goals) ∧
        (goal ∈ [.callSuffix, .conditionChoice, .parameterListTail, .argListTail] →
          goals = [] ∨ Goal.Matched goals) ∧
        (goal = .conditionSimple → goals = [.expression, .compOp, .expression] ∨ Goal.Matched goals)) ∧
      ∀ (n : Nat) (parser after : Parser σ) (refused : SyntaxError), (Parser.ofSource source).Calls n parser →
        parser.Returns (.error (.unexpected refused)) after → refused.expected.kinds ≠ [] := by
  refine ⟨trace_moments source, fun moment h => (kept_of_reachable h).safe,
    fun goal parser after goals hstep => matched_of_step hstep, fun n parser after refused hcalls hreturns => ?_⟩
  obtain ⟨k, ⟨agenda, before⟩, goal, rest, failed, hstage, -, rfl, hstep, -⟩ := hreturns.failure
  obtain ⟨missed, hfailing⟩ := (trace_moments source).failure ⟨n, parser, k, hcalls, hstage⟩ hstep
  exact (kept_of_reachable hfailing).safe.telling rfl

end Cal
