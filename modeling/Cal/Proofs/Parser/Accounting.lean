import Cal.Proofs.Parser.Again
import Cal.Proofs.Parser.Horizon
import Cal.Proofs.Parser.Rounds

/-!
# What a parse consumes

A parse consumes the tokens that its source replies, one after the other. The end of the input is only
consumed by the last step of a parse that accepts, and a token that is refused is not consumed: it is the
one right behind.

* `reached_after`: what has been consumed at each stage.
* `refuses_next`: a failing step reports the next token, and leaves it next.
* `consumption_accounted`: what a parse has consumed when it ends, whatever comes of it, and why it ends.
-/

namespace Cal

open Buffer Source

variable {σ : Type} [Source σ] {source last after between : σ} {tokens : List Token} {token : Token}

theorem Source.Delivers.concat (h : Delivers source tokens last) (hnext : next last = .ok token between)
    (hother : token.isEof = false) : Delivers source (tokens ++ [token]) between := by
  induction h with
  | nil => exact .cons hnext hother (.nil between)
  | cons hfirst hongoing _ ih => exact .cons hfirst hongoing (ih hnext)

theorem Source.next_of_outlook (h : outlook source 0 = .ok token) : ∃ after, next source = .ok token after := by
  cases hnext : next source with
  | ok first after =>
    have hfirst : first = token := by simpa [outlook, hnext] using h
    exact ⟨after, by rw [hfirst]⟩
  | error error after => simp [outlook, hnext] at h

theorem Source.outlook_succ (hnext : next source = .ok token after) (hother : token.isEof = false) :
    (fun k => outlook source (k + 1)) = outlook after := by
  funext k
  simp [outlook, hnext, hother]

namespace Goal

variable {goal : Goal} {kind : TokenKind} {hit : Bool} {missed : List Decision} {goals : List Goal}

/-- No plan leaves the end of the input to be taken. -/
theorem form_of_mem_plan : ∀ other ∈ (goal.plan kind hit).goals, other.form ≠ .token .eof := by
  revert kind hit
  cases goal with
  | token kind | seen kind => simp [plan_token]
  | _ => decide +kernel

/-- Where a body is to be opened, the next token has been seen. -/
theorem blind_of_opens (h : goal.plan kind hit = .go missed true goals) : goal.blind = false := by
  cases goal <;> first | rfl | simp [plan] at h

end Goal

section Steps

variable {parser reached failed : Parser σ} {goal : Goal} {goals : List Goal} {error : ParseError}

/-- What a step leaves does not take the end of the input. -/
theorem form_of_mem_step (hstep : goal.step parser = .ok goals reached) :
    ∀ other ∈ goals, other.form ≠ .token .eof := by
  obtain ⟨seen, -, hrun⟩ := Goal.act_ok_cases (act_of_step hstep).1
  have hplan : ∀ other ∈ (goal.plan seen.next.kind seen.hit).goals, other.form ≠ .token .eof :=
    Goal.form_of_mem_plan
  rcases Plan.ok_cases hrun with ⟨-, rfl, -⟩ | ⟨missed, hgo, -⟩ | ⟨missed, inner, hgo, -, rfl, -⟩ | ⟨-, rfl, -⟩
  · simp
  · rwa [hgo] at hplan
  · intro other hother
    rw [hgo] at hplan
    rcases List.mem_append.1 hother with hinner | hend
    · exact hplan other hinner
    · obtain rfl := List.mem_singleton.1 hend
      decide
  · simp

/-- A step that takes a token takes the next one, of the kind that the goal stands for. -/
theorem taken_step (hstep : goal.step parser = .ok goals reached)
    (hmoved : reached.generation = parser.generation + 1) :
    goals = [] ∧ ∃ next, goal.form = .token next.kind ∧ parser.buffer.view 0 = .ok next ∧
      Shows (fun k => parser.buffer.view (k + 1)) (next :: parser.buffer.past) reached.buffer := by
  obtain ⟨hact, hfollows⟩ := act_of_step hstep
  obtain ⟨seen, hsight, hrun⟩ := Goal.act_ok_cases hact
  obtain ⟨next, hnext, hshows⟩ := hfollows.taken hmoved
  have htake := Plan.eq_take hrun hmoved
  have hform := Goal.form_of_take htake
  have hblind : goal.blind = false := by
    cases goal <;> first | rfl | cases hform
  have hsame := (Goal.sight_ok_cases hblind hsight).1
  rw [hnext] at hsame
  obtain rfl := Except.ok.inj hsame
  rw [htake] at hrun
  obtain ⟨hnil, -⟩ := EStateM.Result.ok.inj hrun
  exact ⟨hnil.symm, seen.next, hform, hnext, hshows⟩

/-- **A failing step reports the next token**, unless it cannot see, and that token is still next. -/
theorem refuses_next (hstep : goal.step parser = .error error failed)
    (hseen : ∀ unseen, error ≠ .lexical unseen) :
    ∃ token, error.Refuses token ∧ parser.buffer.view 0 = .ok token ∧ failed.buffer.view 0 = .ok token := by
  obtain ⟨hact, hrecalls⟩ := act_of_step_error hstep
  rcases Goal.act_error_cases hact with ⟨unseen, -, hlexical, -⟩ | ⟨seen, hsight, hrun⟩
  · exact absurd hlexical (hseen unseen)
  · rcases Plan.error_cases hrun with ⟨missed, inner, limit, hplan, -, rfl, -⟩ | ⟨missed, wanted, hplan, rfl, -⟩
    · have hnext := (Goal.sight_ok_cases (Goal.blind_of_opens hplan) hsight).1
      exact ⟨seen.next, .tooDeep limit, hnext, hrecalls.shown hnext⟩
    · have hnext := (Goal.sight_ok_cases (Goal.blind_of_refuse hplan) hsight).1
      exact ⟨seen.next, .unexpected _, hnext, hrecalls.shown hnext⟩

end Steps

/-- What a parse has consumed at a stage. As long as a goal is left, these are tokens that the source has
replied without ending the input, what is in view is what it comes to behind them, and its end is still to be
taken, by the last goal alone. Once no goal is left, that is consumed as well. -/
inductive Stage.Reached (source : σ) (stage : Stage σ) : Prop
  | ongoing (front : List Goal) (last : σ) : stage.agenda = front ++ [.token .eof] →
    (∀ goal ∈ front, goal.form ≠ .token .eof) → Delivers source stage.parser.buffer.past.reverse last →
      stage.parser.buffer.view = outlook last → Reached source stage
  | ended (tokens : List Token) (last : σ) (eof : Token) (after : σ) : stage.agenda = [] →
    Delivers source tokens last → next last = .ok eof after → eof.isEof = true →
      stage.parser.buffer.past.reverse = tokens ++ [eof] → Reached source stage

section Reached

variable {stage later : Stage σ} {n : Nat}

theorem Stage.reached_start (source : σ) : (Stage.ofSource source).Reached source :=
  .ongoing [.declList, .functionList, .main] source rfl (by decide) (.nil source) (view_ofSource source)

/-- **A step consumes what the source replies next, or nothing.** -/
theorem Stage.Reached.step (h : stage.Reached source) (hnext : stage.next? = some later) :
    later.Reached source := by
  obtain ⟨goal, rest, goals, hagenda, hstep, hlater⟩ := Stage.next?_eq_some.1 hnext
  cases h with
  | ended _ _ _ _ hnil =>
    rw [hnil] at hagenda
    cases hagenda
  | ongoing front last hfront hforms hdelivers hview =>
    rw [hagenda] at hfront
    rcases (act_of_step hstep).2 with ⟨hstill, hshows⟩ | ⟨hmoved, -⟩
    · -- nothing is consumed, so that the goal was not the last one
      cases front with
      | nil =>
        obtain rfl : goal = .token .eof := (List.cons.inj hfront).1
        obtain ⟨-, next, -, -, hstands, -⟩ := token_step hstep
        have hmoved : later.parser.generation = stage.parser.generation + 1 :=
          congrArg Standing.generation hstands
        omega
      | cons first front =>
        obtain ⟨rfl, hrest⟩ := List.cons.inj hfront
        refine .ongoing (goals ++ front) last ?_ ?_ (hshows.2 ▸ hdelivers) (hshows.1.trans hview)
        · rw [hlater, hrest]
          exact (List.append_assoc goals front _).symm
        · intro other hother
          rcases List.mem_append.1 hother with hgoals | hbehind
          · exact form_of_mem_step hstep other hgoals
          · exact hforms other (List.mem_cons_of_mem _ hbehind)
    · obtain ⟨rfl, token, hform, htoken, hshows⟩ := taken_step hstep hmoved
      have hpast : later.parser.buffer.past.reverse = stage.parser.buffer.past.reverse ++ [token] := by
        rw [hshows.2, List.reverse_cons]
      rw [hview] at htoken hshows
      obtain ⟨between, hreply⟩ := next_of_outlook htoken
      cases front with
      | nil =>
        obtain ⟨rfl, rfl⟩ := List.cons.inj hfront
        have heof : token.isEof = true := by
          have hkind : TokenKind.eof = token.kind := Form.token.inj hform
          simp [Token.isEof, ← hkind]
        exact .ended _ last token between hlater hdelivers hreply heof hpast
      | cons first front =>
        obtain ⟨rfl, hrest⟩ := List.cons.inj hfront
        -- only the last goal takes the end of the input
        have hother : token.isEof = false := by
          rw [Token.isEof, decide_eq_false_iff_not]
          intro hkind
          exact hforms goal (List.mem_cons_self ..) (hkind ▸ hform)
        refine .ongoing front between (hlater.trans hrest) ?_ ?_ (hshows.1.trans (outlook_succ hreply hother))
        · exact fun other hbehind => hforms other (List.mem_cons_of_mem _ hbehind)
        · rw [hpast]
          exact hdelivers.concat hreply hother

/-- **What has been consumed at every stage of a parse.** -/
theorem reached_after (h : (Stage.ofSource source).after n = some stage) : stage.Reached source := by
  induction n generalizing stage with
  | zero =>
    cases h
    exact Stage.reached_start source
  | succ n ih =>
    obtain ⟨before, hbefore, hnext⟩ := Stage.after_succ.1 h
    exact (ih hbefore).step hnext

end Reached

/-- What a parse has consumed when it comes to an outcome: if it accepts, what the source replies up to the
end of the input; and otherwise what comes before the token that it reports. -/
inductive Accounts (source : σ) : Outcome → List Token → Prop
  | accepted {tokens : List Token} {last after : σ} {eof : Token} : Delivers source tokens last →
    next last = .ok eof after → eof.isEof = true → Accounts source (.ok ()) (tokens ++ [eof])
  | refused {tokens : List Token} {last after : σ} {error : ParseError} {token : Token} :
    Delivers source tokens last → next last = .ok token after → error.Refuses token →
      Accounts source (.error error) tokens
  | unseen {tokens : List Token} {last : σ} (error : LexError) : Delivers source tokens last →
    Accounts source (.error (.lexical error)) tokens

/-- **What a parse has consumed when it ends.** -/
theorem accounts_of_returns {outcome : Outcome} {parser : Parser σ}
    (h : (Parser.ofSource source).Returns outcome parser) :
    Accounts source outcome parser.buffer.past.reverse := by
  obtain ⟨n, stage, result, hstage, hresult, hfinish⟩ := returns_iff.1 h
  have hreached := reached_after hstage
  rcases Stage.result_cases hresult with ⟨hagenda, rfl⟩ | ⟨goal, rest, error, failed, hagenda, rfl, hstep, -⟩
  · cases hfinish
    cases hreached with
    | ongoing front last hfront => simp [hagenda] at hfront
    | ended tokens last eof after _ hdelivers hreply heof hpast =>
      rw [hpast]
      exact .accepted hdelivers hreply heof
  · cases hfinish
    cases hreached with
    | ended _ _ _ _ hnil =>
      rw [hnil] at hagenda
      cases hagenda
    | ongoing front last _ _ hdelivers hview =>
      have hpast : failed.abandon.buffer.past = stage.parser.buffer.past := (act_of_step_error hstep).2.past
      rw [hpast]
      by_cases hseen : ∀ unseen, error ≠ .lexical unseen
      · obtain ⟨token, hrefuses, hnext, -⟩ := refuses_next hstep hseen
        rw [hview] at hnext
        obtain ⟨after, hreply⟩ := next_of_outlook hnext
        exact .refused hdelivers hreply hrefuses
      · push Not at hseen
        obtain ⟨unseen, rfl⟩ := hseen
        exact .unseen unseen hdelivers

/-- The end of the input is consumed by the last step of a parse that accepts. -/
theorem agenda_of_eof {stage : Stage σ} {n : Nat} (h : (Stage.ofSource source).after n = some stage)
    (heof : ∃ token ∈ stage.parser.buffer.past, token.isEof = true) : stage.agenda = [] := by
  obtain ⟨token, htoken, heof⟩ := heof
  cases reached_after h with
  | ended _ _ _ _ hnil => exact hnil
  | ongoing front last _ _ hdelivers =>
    have hother := isEof_of_delivers hdelivers token (List.mem_reverse.2 htoken)
    rw [heof] at hother
    cases hother

/-- **A parse of a source that settles comes to an outcome.** -/
theorem returns_of_settles {n : Nat} (h : Settles n source) :
    ∃ outcome after, (Parser.ofSource source).Returns outcome after := by
  have hremaining : Remaining n (Parser.ofSource source).buffer :=
    .inr ⟨n, h, by simp [waiting, Parser.ofSource, ofSource]⟩
  have hweight : Goal.totalWeight Goal.program = 9 := by decide
  have hrun : (Parser.run (32 * n + 9) Goal.program (Parser.ofSource source)).isSome = true := by
    refine Parser.run_isSome hremaining (Parser.steady_of_calm (by decide)) ?_
    rw [hweight, Goal.tokenWeight]
    omega
  obtain ⟨result, hresult⟩ := Option.isSome_iff_exists.1 hrun
  exact ⟨(Parser.finish result).1, (Parser.finish result).2, 32 * n + 9, by rw [hresult, Option.map_some]⟩

/-- Whatever goal fails, and wherever, the token that is reported is still the next one. -/
theorem next_of_failure {goal : Goal} {parser failed : Parser σ} {error : ParseError} {fuel : Nat}
    (h : Parser.run fuel [goal] parser = some (.error error failed))
    (hseen : ∀ unseen, error ≠ .lexical unseen) :
    ∃ token, error.Refuses token ∧ failed.buffer.view 0 = .ok token := by
  obtain ⟨n, stage, -, hresult⟩ := Stage.run_ends h
  rcases Stage.result_cases hresult with ⟨-, hok⟩ | ⟨other, rest, _, _, -, herror, hstep, -⟩
  · cases hok
  · cases herror
    obtain ⟨token, hrefuses, -, hnext⟩ := refuses_next hstep hseen
    exact ⟨token, hrefuses, hnext⟩

/-- **The accounts of a parse**, of whatever source. If the source ends or fails after finitely many replies,
the parse comes to an outcome. Before a goal comes up again within itself a token has been consumed, and so it
has when a round of a loop is over. A parse that accepts has consumed what the source replied up to the end
of the input; one that refuses a token has consumed all that came before that token. The end of the input is
consumed by the last step of a parse that accepts and by no other, and where a goal fails the token that is
reported is still the next one. -/
theorem consumption_accounted {σ : Type} [Source σ] (source : σ) :
    ((∃ n, Settles n source) → ∃ outcome after, (Parser.ofSource source).Returns outcome after) ∧
    (∀ (goal : Goal) (rest more : List Goal) (m n : Nat) (parser later : Parser σ), 0 < n →
      (Stage.ofSource source).after m = some ⟨goal :: rest, parser⟩ →
      (Stage.ofSource source).after (m + n) = some ⟨goal :: (more ++ rest), later⟩ →
      (∀ k < n, ∀ stage, (Stage.ofSource source).after (m + k) = some stage →
        ∃ inner, inner ≠ [] ∧ stage.agenda = inner ++ rest) →
      parser.buffer.consumed < later.buffer.consumed) ∧
    (∀ (loop : Goal) (round : List Goal), loop.round? = some round →
      (∀ (parser after : Parser σ) (goals : List Goal), loop.step parser = .ok goals after →
        goals = [] ∨ round <+: goals) ∧
      ∀ (rest : List Goal) (m n : Nat) (parser later : Parser σ),
        (Stage.ofSource source).after m = some ⟨round ++ rest, parser⟩ →
        (Stage.ofSource source).after (m + n) = some ⟨rest, later⟩ →
        parser.buffer.consumed < later.buffer.consumed) ∧
    (∀ (outcome : Outcome) (parser : Parser σ), (Parser.ofSource source).Returns outcome parser →
      Accounts source outcome parser.buffer.past.reverse) ∧
    (∀ (n : Nat) (stage : Stage σ), (Stage.ofSource source).after n = some stage →
      (∃ token ∈ stage.parser.buffer.past, token.isEof = true) → stage.agenda = []) ∧
    ∀ (goal : Goal) (parser failed : Parser σ) (fuel : Nat) (error : ParseError),
      Parser.run fuel [goal] parser = some (.error error failed) → (∀ unseen, error ≠ .lexical unseen) →
      ∃ token, error.Refuses token ∧ failed.buffer.view 0 = .ok token := by
  refine ⟨fun ⟨n, h⟩ => returns_of_settles h, ?_, ?_, ?_, ?_, ?_⟩
  · intro goal rest more m n parser later hn hstage hlater hunmet
    exact advances_within hn hstage hlater hunmet
  · intro loop round hround
    refine ⟨fun parser after goals hstep => round_of_step hround hstep, ?_⟩
    intro rest m n parser later hstage hlater
    exact advances_past (round_needed hround) hstage hlater
  · exact fun outcome parser hreturns => accounts_of_returns hreturns
  · exact fun n stage hstage heof => agenda_of_eof hstage heof
  · exact fun goal parser failed fuel error hrun hseen => next_of_failure hrun hseen

end Cal
