import Cal.Parser.Leads
import Cal.Proofs.Parser.Returns
import Cal.Proofs.Parser.Script

/-!
# What steps do with the buffer

A step looks at one of the next two tokens, again and again, and then it takes a token or does not. So what is
known of a buffer after a step follows from what looks and taking do.

* `Conduct`: what is known of a buffer as long as a step looks ahead, after it, and where it fails.
* `Conduct.leads_step`: the same for all steps.
* `Source.Lasts.failed_of_returns`: a source is asked as long as it replies tokens, and not again once it
  has failed.
-/

namespace Cal

open Buffer ParseM

/-- What is known of the buffer of a parser: `looking` as long as a step looks ahead, `moved` when it has been
taken, and `failed` where it fails. -/
structure Conduct {σ : Type} [Source σ] (looking moved failed : Buffer σ → Prop) : Prop where
  peek {k : Nat} {buffer : Buffer σ} : k ≤ 1 → looking buffer →
    Leads (peek k) buffer (fun _ after => looking after) fun _ after => failed after
  advance {buffer : Buffer σ} : looking buffer →
    Leads advance buffer (fun _ after => moved after) fun _ after => failed after
  rest {buffer : Buffer σ} : looking buffer → moved buffer
  refuse {buffer : Buffer σ} : looking buffer → failed buffer

section Actions

variable {σ α β : Type} {looking failed : Buffer σ → Prop}

/-- An action of a parser only looks ahead. -/
def Peers (looking failed : Buffer σ → Prop) (action : ParseM σ α) : Prop :=
  ∀ parser : Parser σ, looking parser.buffer →
    Leads action parser (fun _ after => looking after.buffer) fun _ after => failed after.buffer

namespace Peers

theorem bind {first : ParseM σ α} {next : α → ParseM σ β} (h : Peers looking failed first)
    (hnext : ∀ value, Peers looking failed (next value)) : Peers looking failed (first >>= next) :=
  fun parser hparser => (h parser hparser).bind fun value after hafter => hnext value after hafter

theorem pure (value : α) : Peers looking failed (pure value) := fun _ h => leads_pure h

theorem modify {change : Parser σ → Parser σ} (h : ∀ parser, (change parser).buffer = parser.buffer) :
    Peers looking failed (modify change) := by
  intro parser hparser
  refine leads_modify ?_
  rw [h]
  exact hparser

theorem onBuffer {action : EStateM LexError (Buffer σ) α}
    (h : ∀ buffer, looking buffer →
      Leads action buffer (fun _ after => looking after) fun _ after => failed after) :
    Peers looking failed (onBuffer action) := by
  exact fun parser hparser => Parser.leads_onBuffer (h parser.buffer hparser)

theorem missAll (missed : List Decision) : Peers looking failed (missAll missed) := modify fun _ => rfl

end Peers

end Actions

section Step

variable {σ α : Type} [Source σ] {looking moved failed : Buffer σ → Prop} {parser : Parser σ}

namespace Conduct

variable (h : Conduct looking moved failed)

include h

theorem nextToken : Peers looking failed nextToken :=
  .onBuffer fun _ hlooking => h.peek (Nat.zero_le 1) hlooking

theorem nextKind : Peers looking failed nextKind := h.nextToken.bind fun _ => .pure _

/-- A probe looks at two tokens, at most. -/
theorem tries (probe : Probe) : Peers looking failed (tries probe) := by
  refine .bind (.onBuffer fun buffer hlooking => ?_) fun _ => .bind (.modify fun _ => rfl) fun _ => .pure _
  rw [funext (Probe.run_eq_glance probe)]
  refine (h.peek (Nat.zero_le 1) hlooking).bind fun next after hafter => ?_
  split
  · exact (h.peek (Nat.le_refl 1) hafter).bind fun _ _ hseen => leads_pure hseen
  · exact leads_pure hafter

theorem leads_refuse (wanted : Option TokenKind) : Peers looking failed (α := α) (ParseM.refuse wanted) :=
  h.nextToken.bind fun _ _ hlooking =>
    leads_bind (leads_get (leads_bind (leads_set (leads_throw (h.refuse hlooking)))))

theorem withBody (goals : List Goal) : Peers looking failed (Goal.withBody goals) := by
  refine .bind (fun parser hlooking => leads_bind (leads_get ?_)) fun _ => .pure _
  cases parser.exhausted? with
  | some limit => exact (h.nextToken parser hlooking).bind fun _ _ hseen => leads_throw (h.refuse hseen)
  | none => exact leads_set hlooking

/-- A step takes a token at its end, if at all. -/
theorem leads_perform (plan : Plan) (hlooking : looking parser.buffer) :
    Leads plan.perform parser (fun _ after => moved after.buffer) fun _ after => failed after.buffer := by
  have hpeers {action : ParseM σ (List Goal)} (haction : Peers looking failed action) :
      Leads action parser (fun _ after => moved after.buffer) fun _ after => failed after.buffer :=
    (haction parser hlooking).imp (fun _ _ hafter => h.rest hafter) fun _ _ hafter => hafter
  cases plan with
  | take => exact leads_bind (Parser.leads_onBuffer (h.advance hlooking))
  | go missed opens goals =>
    refine hpeers (.bind (.missAll missed) fun _ => ?_)
    cases opens with
    | true => exact h.withBody goals
    | false => exact .pure goals
  | leave => exact hpeers (.bind (.modify fun _ => rfl) fun _ => .pure _)
  | refuse missed wanted => exact hpeers (.bind (.missAll missed) fun _ => h.leads_refuse wanted)

/-- **What a step does with its buffer**, whatever its goal is. -/
theorem leads_step (goal : Goal) (hlooking : looking parser.buffer) :
    Leads goal.step parser (fun _ after => moved after.buffer) fun _ after => failed after.buffer := by
  rw [Goal.step_eq_script]
  unfold Goal.script
  split
  · exact h.leads_perform _ hlooking
  · refine (h.nextKind parser hlooking).bind fun next after hafter => ?_
    split
    · exact h.leads_perform _ hafter
    · exact (Peers.missAll _ after hafter).bind fun _ missing hmissing =>
        (h.tries _ missing hmissing).bind fun _ _ htried => h.leads_perform _ htried

end Conduct

end Step

section Sources

variable {σ : Type} [Source σ] {running failed : σ → Prop} {buffer : Buffer σ} {parser after : Parser σ}
  {n : Nat}

/-- What is known of a source: `running` as long as it replies tokens, and `failed` once it has failed. -/
structure Source.Lasts (running failed : σ → Prop) : Prop where
  next {source : σ} : running source →
    Leads Source.next source (fun _ after => running after) fun _ after => failed after
  stop {source : σ} : running source → failed source

namespace Source.Lasts

variable (h : Source.Lasts running failed)

include h

theorem leads_ask (hrunning : running buffer.source) :
    Leads ask buffer (fun _ after => running after.source) fun _ after => failed after.source := by
  have hnext := h.next hrunning
  unfold Leads ask at *
  cases hreply : Source.next buffer.source with
  | ok token after => rwa [hreply] at hnext
  | error error after => rwa [hreply] at hnext

theorem leads_pull (hrunning : running buffer.source) :
    Leads pull buffer (fun _ after => running after.source) fun _ after => failed after.source := by
  have hask := h.leads_ask hrunning
  unfold Leads pull
  cases buffer.newest? with
  | none => exact hask
  | some newest =>
    cases heof : newest.isEof with
    | true =>
      simp only [heof, if_true]
      exact hrunning
    | false =>
      simp only [heof, Bool.false_eq_true, if_false]
      exact hask

theorem leads_pullMore (k : Nat) (hrunning : running buffer.source) :
    Leads (pullMore k) buffer (fun _ after => running after.source) fun _ after => failed after.source := by
  induction k generalizing buffer with
  | zero => exact h.leads_pull hrunning
  | succ k ih => exact (h.leads_pull hrunning).bind fun _ _ hafter => ih hafter

theorem leads_peek (k : Nat) (hrunning : running buffer.source) :
    Leads (peek k) buffer (fun _ after => running after.source) fun _ after => failed after.source := by
  unfold Leads peek
  cases buffer.ahead[k]? with
  | some token => exact hrunning
  | none => exact h.leads_pullMore (k - buffer.ahead.length) hrunning

/-- A buffer asks its source as long as that replies tokens. -/
theorem conduct : Conduct (fun buffer => running buffer.source) (fun buffer => running buffer.source)
    fun buffer => failed buffer.source where
  peek _ hrunning := h.leads_peek _ hrunning
  advance hrunning := (h.leads_peek 0 hrunning).bind fun _ _ hafter =>
    leads_bind (leads_modify (leads_pure hafter))
  rest hrunning := hrunning
  refuse hrunning := h.stop hrunning

theorem running_after {stage : Stage σ} (hrunning : running parser.buffer.source)
    (hstage : (Stage.mk Goal.program parser).after n = some stage) : running stage.parser.buffer.source := by
  induction n generalizing stage with
  | zero =>
    cases hstage
    exact hrunning
  | succ n ih =>
    obtain ⟨before, hbefore, hnext⟩ := Stage.after_succ.1 hstage
    obtain ⟨goal, rest, goals, -, hstep, -⟩ := Stage.next?_eq_some.1 hnext
    exact (h.conduct.leads_step goal (ih hbefore)).of_ok hstep

/-- **A parse asks its source as long as that replies tokens**, and not again once it has failed. -/
theorem failed_of_returns {outcome : Outcome} (hrunning : running parser.buffer.source)
    (hreturns : parser.Returns outcome after) : failed after.buffer.source := by
  obtain ⟨n, stage, result, hstage, hresult, hfinish⟩ := returns_iff.1 hreturns
  have hlast := h.running_after hrunning hstage
  rcases Stage.result_cases hresult with ⟨-, rfl⟩ | ⟨goal, rest, error, stopped, -, rfl, hstep, -⟩
  · cases hfinish
    exact h.stop hlast
  · have hstopped := (h.conduct.leads_step goal hlast).of_error hstep
    cases hfinish
    exact hstopped

end Source.Lasts

end Sources

end Cal
