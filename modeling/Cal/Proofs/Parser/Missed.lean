import Cal.Proofs.Parser.Again
import Cal.Proofs.Parser.Reports

/-!
# What follows a probe that has missed

A probe that misses at an opening parenthesis leaves an agenda that cannot begin with one. From there on
nothing is taken, no probe is asked and no body opened, until the parenthesis is refused.

* `tidy_after`: what follows a probe never begins as its form does.
* `Blocked.step`: an agenda that is blocked stays so, and nothing is taken.
* `Blocked.result`: a parse that ends there refuses the parenthesis, if any goal is left.
* `blocked_of_miss`: the agenda is blocked after a miss.
-/

namespace Cal

open Buffer

section Items

variable {goal : Goal} {goals rest : List Goal} {next : Token} {hit : Bool} {standing reached : Standing}

/-- **The items that a step leaves**: the first is taken, or the end of a body is passed, or others stand in
the place of the first. -/
theorem itemsOf_of_ok (rest : List Goal)
    (hplan : (goal.plan next.kind hit).carryOut next standing = .ok goals reached) :
    (goal.form = .token next.kind ∧ goal ≠ .endBody ∧
        itemsOf reached.depth (goals ++ rest) = itemsOf standing.depth rest) ∨
      reached.generation = standing.generation ∧
        (goal = .endBody ∧ itemsOf reached.depth (goals ++ rest) = itemsOf standing.depth (goal :: rest) ∨
          (goal.plan next.kind hit).goes = true ∧ goal ≠ .endBody ∧
            itemsOf reached.depth (goals ++ rest) =
              raise standing.depth (goal.plan next.kind hit).items ++ itemsOf standing.depth rest) := by
  have hinner : ∀ {plan}, goal.plan next.kind hit = plan → plan ≠ .leave → goal ≠ .endBody := by
    rintro plan hplan hmet rfl
    exact hmet hplan.symm
  rcases Plan.ok_cases hplan with ⟨htake, rfl, rfl⟩ | ⟨missed, hgo, rfl⟩ |
    ⟨missed, inner, hgo, -, rfl, rfl⟩ | ⟨hleave, rfl, rfl⟩
  · exact .inl ⟨Goal.form_of_take htake, hinner htake nofun, rfl⟩
  · have hitems := Faithful.itemsOf_go hgo standing.depth rest
    rw [if_neg (by simp), List.append_nil] at hitems
    exact .inr ⟨rfl, .inr ⟨by rw [hgo]; rfl, hinner hgo nofun, hitems⟩⟩
  · exact .inr ⟨rfl, .inr ⟨by rw [hgo]; rfl, hinner hgo nofun, Faithful.itemsOf_go hgo standing.depth rest⟩⟩
  · obtain rfl := Goal.eq_endBody_of_leave hleave
    exact .inr ⟨rfl, .inl ⟨rfl, rfl⟩⟩

/-- A step keeps an agenda tidy. -/
theorem tidy_step (htidy : Tidy .leftParen (formsOf (itemsOf standing.depth (goal :: rest))))
    (hparen : hit = true → next.kind = .leftParen)
    (hplan : (goal.plan next.kind hit).carryOut next standing = .ok goals reached) :
    Tidy .leftParen (formsOf (itemsOf reached.depth (goals ++ rest))) := by
  rcases itemsOf_of_ok rest hplan with ⟨-, hinner, hitems⟩ | ⟨-, ⟨-, hitems⟩ | ⟨hgoes, hinner, hitems⟩⟩
  · rw [itemsOf_cons hinner] at htidy
    rw [hitems]
    exact htidy.tail
  · rw [hitems]
    exact htidy
  · rw [itemsOf_cons hinner] at htidy
    rw [hitems, formsOf_raise_append]
    exact (Goal.unfolds_plan hparen hgoes).tidy _ htidy

/-- What a step leaves begins with nothing that its agenda could not begin with. -/
theorem stuck_step {kind : TokenKind} (hstuck : kind ∉ firstsOf (formsOf (itemsOf standing.depth (goal :: rest))))
    (hparen : hit = true → next.kind = .leftParen) (hkind : next.kind = kind)
    (hplan : (goal.plan next.kind hit).carryOut next standing = .ok goals reached) :
    reached.generation = standing.generation ∧
      kind ∉ firstsOf (formsOf (itemsOf reached.depth (goals ++ rest))) := by
  rcases itemsOf_of_ok rest hplan with ⟨hform, hinner, -⟩ | ⟨hsame, ⟨-, hitems⟩ | ⟨hgoes, hinner, hitems⟩⟩
  · -- the agenda would begin with what is taken
    refine absurd (mem_firstsOf_cons.2 (.inl ?_)) (itemsOf_cons hinner ▸ hstuck)
    simp [hform, hkind, Form.firsts, Form.firstsBy]
  · rw [hitems]
    exact ⟨hsame, hstuck⟩
  · refine ⟨hsame, fun hfirst => hstuck ?_⟩
    rw [hitems, formsOf_raise_append] at hfirst
    rw [itemsOf_cons hinner]
    exact (Goal.unfolds_plan hparen hgoes).firsts _ hfirst

end Items

namespace Stage

variable {σ : Type} [Source σ] {source : σ} {stage later : Stage σ} {parser : Parser σ} {goal : Goal}
  {rest : List Goal} {paren : Token} {n k : Nat} {ending : EStateM.Result ParseError (Parser σ) Unit}

/-- **What follows a probe never begins as its form does**, at every stage of a parse. -/
theorem tidy_after (h : (Stage.ofSource source).after n = some stage) :
    Tidy .leftParen (formsOf (itemsOf stage.parser.depth stage.agenda)) := by
  induction n generalizing stage with
  | zero =>
    cases h
    exact Faithful.tidy_program
  | succ n ih =>
    obtain ⟨before, hbefore, hnext⟩ := after_succ.1 h
    obtain ⟨goal, rest, goals, hagenda, hstep, hlater⟩ := next?_eq_some.1 hnext
    obtain ⟨seen, hsight, hplan⟩ := Goal.act_ok_cases (act_of_step hstep).1
    have htidy := ih hbefore
    rw [hagenda] at htidy
    rw [hlater]
    exact tidy_step htidy (Goal.leftParen_of_sight hsight) hplan

/-- An opening parenthesis is next, and the agenda cannot begin with one. -/
structure Blocked (paren : Token) (stage : Stage σ) : Prop where
  next : stage.parser.buffer.view 0 = .ok paren
  kind : paren.kind = .leftParen
  stuck : .leftParen ∉ firstsOf (formsOf (itemsOf stage.parser.depth stage.agenda))

namespace Blocked

/-- An agenda that is blocked begins with no goal that has a probe. -/
theorem probe?_eq_none (h : Blocked paren ⟨goal :: rest, parser⟩) : goal.probe? = none := by
  cases goal with
  | callSuffix =>
    have hfirst : .leftParen ∈ Goal.callSuffix.form.firsts := by decide
    exact absurd (mem_firstsOf_cons.2 (.inl hfirst)) h.stuck
  | conditionSimple =>
    have hfirst : .leftParen ∈ Goal.conditionSimple.form.firsts := by decide
    exact absurd (mem_firstsOf_cons.2 (.inl hfirst)) h.stuck
  | _ => rfl

theorem reports_eq_nil (h : stage.Blocked paren) : stage.reports = [] := by
  obtain ⟨agenda, parser⟩ := stage
  cases agenda with
  | nil => rfl
  | cons goal rest => exact Goal.reports_of_none h.next (Goal.asks?_of_probe h.probe?_eq_none _)

/-- A step of an agenda that is blocked sees the parenthesis, or nothing. -/
theorem sight (h : Blocked paren ⟨goal :: rest, parser⟩) :
    ∃ seen, goal.sight parser.buffer.view = .ok seen ∧
      goal.plan seen.next.kind seen.hit = goal.plan paren.kind false ∧
      (goal.blind = false → seen.next = paren) := by
  cases hblind : goal.blind with
  | true =>
    refine ⟨⟨.eof .start, false⟩, by simp [Goal.sight, hblind], ?_, nofun⟩
    exact (Goal.plan_of_blind hblind paren.kind false).symm
  | false => exact ⟨_, Goal.sight_of_next hblind h.probe?_eq_none h.next, rfl, fun _ => rfl⟩

/-- **An agenda that is blocked stays so**, and nothing is taken. -/
theorem step (h : stage.Blocked paren) (hnext : stage.next? = some later) :
    later.Blocked paren ∧ later.parser.buffer.past = stage.parser.buffer.past := by
  obtain ⟨agenda, parser⟩ := stage
  obtain ⟨goal, rest, goals, rfl, hstep, hlater⟩ := next?_eq_some.1 hnext
  obtain ⟨hact, hfollows⟩ := act_of_step hstep
  obtain ⟨seen, hsight, hsame, hseen⟩ := h.sight
  rw [Goal.act_of_sight hsight, hsame] at hact
  -- a goal that looks at nothing may as well be carried out before the parenthesis
  have hplan : (goal.plan paren.kind false).carryOut paren parser.standing = .ok goals later.parser.standing := by
    cases hblind : goal.blind with
    | true => rw [← hact, Goal.plan_blind hblind, ← hsame, Goal.plan_blind hblind seen.next.kind]
    | false => rw [← hact, hseen hblind]
  have hparen : false = true → paren.kind = .leftParen := by simp
  obtain ⟨hsame, hstuck⟩ := stuck_step h.stuck hparen h.kind hplan
  have hshows := hfollows.kept hsame
  exact ⟨⟨by rw [hshows.1]; exact h.next, h.kind, hlater ▸ hstuck⟩, hshows.2⟩

theorem after (h : stage.Blocked paren) (hlater : stage.after k = some later) :
    later.Blocked paren ∧ later.parser.buffer.past = stage.parser.buffer.past := by
  induction k generalizing later with
  | zero =>
    cases hlater
    exact ⟨h, rfl⟩
  | succ k ih =>
    obtain ⟨before, hbefore, hnext⟩ := after_succ.1 hlater
    obtain ⟨hblocked, hpast⟩ := ih hbefore
    obtain ⟨hstill, hsame⟩ := hblocked.step hnext
    exact ⟨hstill, hsame.trans hpast⟩

/-- **Where the agenda is blocked, a parse can only refuse the parenthesis**, if any goal is left. -/
theorem result (h : stage.Blocked paren) (hending : stage.result? = some ending) :
    (stage.agenda = [] ∧ ending = .ok () stage.parser) ∨
      ∃ expected failed, ending = .error (.unexpected ⟨paren, expected⟩) failed := by
  rcases result_cases hending with hdone | ⟨goal, rest, error, failed, hagenda, rfl, -, hfails⟩
  · exact .inl hdone
  right
  obtain ⟨agenda, parser⟩ := stage
  obtain rfl : agenda = goal :: rest := hagenda
  obtain ⟨seen, hsight, hsame, hseen⟩ := h.sight
  rcases hfails with ⟨unseen, hunseen, -⟩ | ⟨seen', hsight', hplan⟩
  · rw [hsight] at hunseen
    cases hunseen
  rw [hsight] at hsight'
  obtain rfl := Except.ok.inj hsight'
  rcases Plan.error_cases hplan with ⟨missed, inner, limit, hopens, -⟩ | ⟨missed, wanted, hrefuse, rfl, -⟩
  · -- no body begins with a parenthesis at which no probe has hit
    rw [hsame, h.kind] at hopens
    have hparen : false = true → TokenKind.leftParen = .leftParen := by simp
    cases (Goal.next_of_opens hparen (by rw [hopens]; rfl)).2 rfl
  · rw [hseen (Goal.blind_of_refuse hrefuse)]
    exact ⟨_, failed, rfl⟩

end Blocked

/-- The goals that have a probe look at the next token. -/
theorem blind_of_probe {probe : Probe} (hprobe : goal.probe? = some probe) : goal.blind = false := by
  cases goal <;> first | rfl | simp [Goal.probe?] at hprobe

/-- **A probe that misses at an opening parenthesis** leaves an agenda that cannot begin with it. -/
theorem blocked_of_miss {probe : Probe}
    (hstage : (Stage.ofSource source).after n = some ⟨goal :: rest, parser⟩) (hprobe : goal.probe? = some probe)
    (hview : parser.buffer.view 0 = .ok paren) (hkind : paren.kind = .leftParen)
    (hmiss : probe.sight parser.buffer.view paren.kind = .ok false)
    (hnext : (Stage.mk (goal :: rest) parser).next? = some later) :
    later.Blocked paren ∧ later.parser.buffer.past = parser.buffer.past := by
  obtain ⟨_, _, goals, ⟨⟩, hstep, hlater⟩ := next?_eq_some.1 hnext
  obtain ⟨hact, hfollows⟩ := act_of_step hstep
  rw [Goal.act_of_probe (blind_of_probe hprobe) hprobe hview hmiss] at hact
  have hsome : goal.probe?.isSome = true := by rw [hprobe]; rfl
  rcases itemsOf_of_ok rest hact with ⟨hform, -, -⟩ | ⟨hsame, ⟨rfl, -⟩ | ⟨hgoes, hinner, hitems⟩⟩
  · cases goal <;> first | (cases hform; done) | simp [Goal.probe?] at hprobe
  · cases hprobe
  · have hshows := hfollows.kept hsame
    have htidy := tidy_after hstage
    rw [itemsOf_cons hinner] at htidy
    refine ⟨⟨by rw [hshows.1]; exact hview, hkind, ?_⟩, hshows.2⟩
    rw [hlater, show later.parser.depth = later.parser.standing.depth from rfl, hitems]
    have hparen : false = true → paren.kind = .leftParen := by simp
    refine Faithful.stuck_of_passed hparen hgoes ?_ hsome htidy
    rw [hkind] at hgoes ⊢
    exact Goal.passed_of_miss hsome hgoes

end Stage

end Cal
