import Cal.Proofs.Parser.Stage

/-!
# Parses that go alike

Two parses go through the same agendas as long as the one sees what the other sees and their standings
correspond. They may read different sources, and one of them may fail to see a token that the other
sees; then it ends there.

* `Corresponds`: standings that correspond, before each step and after it.
* `Alike.step`, `Alike.after`: the stages of two such parses, one by one.
-/

namespace Cal

open Buffer

/-- A relation between standings that every step keeps, where the second has taken `shift` tokens more
than the first. -/
structure Corresponds (shift : Nat) (R : Standing → Standing → Prop) : Prop where
  generation {standing other : Standing} : R standing other →
    other.generation = standing.generation + shift
  carryOut {plan : Plan} {token : Token} {standing other reached : Standing} {goals : List Goal} :
    R standing other → plan.carryOut token standing = .ok goals reached →
      ∃ reached', plan.carryOut token other = .ok goals reached' ∧ R reached reached'

/-- Where standings are the same, so is what becomes of them. -/
theorem corresponds_eq : Corresponds 0 Eq := by
  refine ⟨fun h => (congrArg Standing.generation h).symm, ?_⟩
  rintro plan token standing other reached goals rfl hplan
  exact ⟨reached, hplan, rfl⟩

/-- Two stages with the same agenda, at which two parses have taken the same tokens. -/
structure Alike {σ τ : Type} [Source σ] [Source τ] (R : Standing → Standing → Prop)
    (start : Parser σ) (start' : Parser τ) (stage : Stage σ) (other : Stage τ) : Prop where
  agenda : other.agenda = stage.agenda
  stands : R stage.parser.standing other.parser.standing
  took : ∃ tokens, start.Took tokens stage.parser ∧ start'.Took tokens other.parser

namespace Alike

variable {σ τ : Type} [Source σ] [Source τ] {R : Standing → Standing → Prop} {shift n : Nat}
  {start parser : Parser σ} {start' parser' : Parser τ} {stage later : Stage σ} {other : Stage τ}
  {agenda : List Goal}

theorem begin (hstands : R parser.standing parser'.standing) :
    Alike R parser parser' ⟨agenda, parser⟩ ⟨agenda, parser'⟩ :=
  ⟨rfl, hstands, [], .refl _, .refl _⟩

/-- What was in view of both at first still is. -/
theorem views_within {places k : Nat} {token : Token} (h : Alike R start start' stage other)
    (hviews : ∀ k < places, ∀ token, start.buffer.view k = .ok token → start'.buffer.view k = .ok token)
    (hplace : stage.parser.generation + k < start.generation + places)
    (hk : stage.parser.buffer.view k = .ok token) : other.parser.buffer.view k = .ok token := by
  obtain ⟨tokens, htook, htook'⟩ := h.took
  have hgeneration := htook.generation
  rw [htook.view] at hk
  rw [htook'.view]
  exact hviews _ (by omega) token hk

theorem views (h : Alike R start start' stage other)
    (hviews : ∀ k token, start.buffer.view k = .ok token → start'.buffer.view k = .ok token)
    (k : Nat) (token : Token) (hk : stage.parser.buffer.view k = .ok token) :
    other.parser.buffer.view k = .ok token := by
  have hplace : stage.parser.generation + k < start.generation + (stage.parser.generation + k + 1) := by omega
  exact h.views_within (fun k _ => hviews k) hplace hk

/-- **What the first parse does, the second does as well**, if it sees the next two tokens where the first
sees them. -/
theorem step (hR : Corresponds shift R)
    (hsees : ∀ k < 2, ∀ token, stage.parser.buffer.view k = .ok token → other.parser.buffer.view k = .ok token)
    (h : Alike R start start' stage other) (hnext : stage.next? = some later) :
    ∃ later', other.next? = some later' ∧ Alike R start start' later later' := by
  obtain ⟨goal, rest, goals, hagenda, hstep, hlater⟩ := Stage.next?_eq_some.1 hnext
  obtain ⟨hact, -⟩ := act_of_step hstep
  obtain ⟨hsame, hstands, tokens, htook, htook'⟩ := h
  -- the second parse sees what the first has seen, and carries out the same plan
  obtain ⟨seen, hsight, hplanned⟩ := Goal.act_ok_cases hact
  obtain ⟨reached, hplan, hreached⟩ := hR.carryOut hstands hplanned
  have hact' := Goal.act_of_sight (Goal.sight_mono hsees hsight) other.parser.standing
  obtain ⟨after, hstep', rfl, -⟩ := step_of_act (hact'.trans hplan)
  have hagenda' := hsame.trans hagenda
  refine ⟨⟨goals ++ rest, after⟩, Stage.next?_eq_some.2 ⟨goal, rest, goals, hagenda', hstep', rfl⟩,
    hlater.symm, hreached, ?_⟩
  have hgeneration : other.parser.generation = stage.parser.generation + shift := hR.generation hstands
  have hgeneration' : after.generation = later.parser.generation + shift := hR.generation hreached
  rcases htook.step hstep with ⟨hkept, hmore⟩ | ⟨next, hmoved, hnext, hmore⟩
  · -- neither of the two has taken a token
    obtain ⟨-, hmore'⟩ := (htook'.step hstep').resolve_right fun ⟨_, hmoved, _⟩ => by omega
    exact ⟨tokens, hmore, hmore'⟩
  · -- both have taken the next token, which is the same
    obtain ⟨next', -, hnext', hmore'⟩ := (htook'.step hstep').resolve_left fun ⟨hkept, _⟩ => by omega
    rw [hsees 0 Nat.two_pos next hnext] at hnext'
    cases hnext'
    exact ⟨tokens ++ [next], hmore, hmore'⟩

/-- **Two parses go through the same stages** as long as the first goes on and looks no further than both
see the same. -/
theorem after_within {places : Nat} (hR : Corresponds shift R)
    (hviews : ∀ k < places, ∀ token, start.buffer.view k = .ok token → start'.buffer.view k = .ok token)
    (hstands : R start.standing start'.standing) (hstage : (Stage.mk agenda start).after n = some stage)
    (hnear : stage.parser.generation + 2 ≤ start.generation + places) :
    ∃ other, (Stage.mk agenda start').after n = some other ∧ Alike R start start' stage other := by
  induction n generalizing stage with
  | zero =>
    cases hstage
    exact ⟨_, rfl, begin hstands⟩
  | succ n ih =>
    obtain ⟨before, hbefore, hnext⟩ := Stage.after_succ.1 hstage
    have hle : before.parser.generation ≤ stage.parser.generation := Stage.generation_le hnext
    obtain ⟨other, hother, halike⟩ := ih hbefore (by omega)
    obtain ⟨later, hlater, hsame⟩ :=
      halike.step hR (fun k hk token => halike.views_within hviews (by omega)) hnext
    exact ⟨later, Stage.after_succ.2 ⟨other, hother, hlater⟩, hsame⟩

/-- Where the second parse sees all the tokens that the first sees, it need not be said how far that is. -/
theorem after (hR : Corresponds shift R)
    (hviews : ∀ k token, start.buffer.view k = .ok token → start'.buffer.view k = .ok token)
    (hstands : R start.standing start'.standing) (hstage : (Stage.mk agenda start).after n = some stage) :
    ∃ other, (Stage.mk agenda start').after n = some other ∧ Alike R start start' stage other := by
  have hnear : stage.parser.generation + 2 ≤ start.generation + (stage.parser.generation + 2) := by omega
  exact after_within hR (fun k _ => hviews k) hstands hstage hnear

end Alike

end Cal
