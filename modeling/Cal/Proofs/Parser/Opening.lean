import Cal.Proofs.Parser.Orderly

/-!
# How a parse begins

A program begins with one of six kinds. A parse that finds one of them next takes it, or fails for
something else than that; a parse that finds any other kind refuses it at once.

* `committed_after`: what can begin the first goal stays next until it is taken, and is not refused.
* `refused_at_once`: what is refused before anything is taken cannot begin a program.
* `refuses_opening`: how it is refused.
-/

namespace Cal

/-- The kinds that a program can begin with. -/
def programStarts : List TokenKind := [.variableKw, .constantKw, .integerKw, .booleanKw, .voidKw, .mainKw]

variable {σ : Type} [Source σ] {parser after : Parser σ} {start stage : Stage σ} {goal : Goal}
  {goals rest : List Goal} {missed : List Decision} {next : Token} {kind : TokenKind} {refused : SyntaxError}
  {seen : Sight} {n : Nat}

/-- What a step sees of the next token, as far as its plan depends on it. -/
theorem plan_of_sight (hnext : parser.buffer.view 0 = .ok next)
    (hsight : goal.sight parser.buffer.view = .ok seen) :
    ∃ hit, (hit = true → next.kind = .leftParen) ∧
      goal.plan seen.next.kind seen.hit = goal.plan next.kind hit := by
  cases hblind : goal.blind with
  | true =>
    refine ⟨false, nofun, ?_⟩
    rw [Goal.plan_of_blind hblind, Goal.plan_of_blind hblind next.kind]
  | false =>
    obtain ⟨hseen, -⟩ := Goal.sight_ok_cases hblind hsight
    rw [hnext] at hseen
    obtain rfl : next = seen.next := Except.ok.inj hseen
    exact ⟨seen.hit, Goal.leftParen_of_sight hsight, rfl⟩

/-- What can begin the first goal can begin the goals that a step leaves, unless the step takes it. -/
theorem committed_step (hcommitted : Committed next.kind (goal :: rest)) (hnext : parser.buffer.view 0 = .ok next)
    (hstep : goal.step parser = .ok goals after) (hgeneration : after.generation = parser.generation) :
    Committed next.kind (goals ++ rest) := by
  obtain ⟨hact, -⟩ := act_of_step hstep
  obtain ⟨seen, hsight, hplanned⟩ := Goal.act_ok_cases hact
  obtain ⟨hit, hhit, hplan⟩ := plan_of_sight hnext hsight
  rw [hplan] at hplanned
  have hcommits : goal.commits next.kind = true := by simpa [Committed] using hcommitted
  rcases Goal.plan_of_commits hhit hcommits with htake | hhead
  · rw [htake] at hplanned
    have hstands : { parser.standing with generation := parser.generation + 1 } = after.standing :=
      (EStateM.Result.ok.inj hplanned).2
    have hsucc : parser.generation + 1 = after.generation := congrArg Standing.generation hstands
    omega
  · obtain ⟨more, rfl⟩ := Plan.goals_of_ok hplanned
    obtain ⟨first, hfirst, hany⟩ := (Option.any_eq_true _ _).1 hhead
    obtain ⟨tail, htail⟩ := List.head?_eq_some_iff.1 hfirst
    rw [htail]
    simpa [Committed] using hany

/-- What can begin the first goal is not refused. -/
theorem not_committed_of_refuse {wanted : Option TokenKind}
    (hsight : goal.sight parser.buffer.view = .ok seen)
    (hplan : goal.plan seen.next.kind seen.hit = .refuse missed wanted) :
    ¬ Committed seen.next.kind (goal :: rest) := by
  intro hcommitted
  have hcommits : goal.commits seen.next.kind = true := by simpa [Committed] using hcommitted
  have hmet := Goal.plan_of_commits (Goal.leftParen_of_sight hsight) hcommits
  rw [hplan] at hmet
  rcases hmet with htake | hgo
  · cases htake
  · cases hgo

/-- **What can begin the first goal stays next until it is taken.** -/
theorem committed_after (hcommitted : Committed next.kind start.agenda)
    (hnext : start.parser.buffer.view 0 = .ok next) (hstage : start.after n = some stage) :
    ∃ tokens, start.parser.Took tokens stage.parser ∧ (tokens = [] → Committed next.kind stage.agenda) := by
  induction n generalizing stage with
  | zero =>
    cases hstage
    exact ⟨[], .refl _, fun _ => hcommitted⟩
  | succ n ih =>
    obtain ⟨before, hbefore, hstep⟩ := Stage.after_succ.1 hstage
    obtain ⟨tokens, htook, hstill⟩ := ih hbefore
    obtain ⟨goal, rest, goals, hagenda, hstep, hlater⟩ := Stage.next?_eq_some.1 hstep
    rcases htook.step hstep with ⟨hgeneration, hsame⟩ | ⟨token, -, -, hmore⟩
    · refine ⟨tokens, hsame, fun hnil => ?_⟩
      have hhere : before.parser.buffer.view 0 = .ok next := by
        rw [htook.view, hnil]
        exact hnext
      rw [hlater]
      exact committed_step (hagenda ▸ hstill hnil) hhere hstep hgeneration
    · exact ⟨tokens ++ [token], hmore, fun hnil => absurd hnil (by simp)⟩

/-- A step that goes on in the same body. -/
theorem next?_of_go (hsight : goal.sight parser.buffer.view = .ok seen)
    (hplan : goal.plan seen.next.kind seen.hit = .go missed false goals) (rest : List Goal) :
    ∃ after, (Stage.mk (goal :: rest) parser).next? = some ⟨goals ++ rest, after⟩ ∧
      after.standing = parser.standing.miss missed ∧ after.buffer.view = parser.buffer.view ∧
      after.buffer.past = parser.buffer.past := by
  have hact : goal.act parser.buffer.view parser.standing = .ok goals (parser.standing.miss missed) := by
    rw [Goal.act_of_sight hsight, hplan]
    rfl
  obtain ⟨after, hstep, hstands, hfollows⟩ := step_of_act hact
  have hshows := hfollows.kept (congrArg Standing.generation hstands)
  exact ⟨after, Stage.next?_eq_some.2 ⟨goal, rest, goals, rfl, hstep, rfl⟩, hstands, hshows⟩

section Steps

variable (hnext : parser.buffer.view 0 = .ok next)
include hnext

/-- Where no declaration begins, the functions are next. -/
theorem pass_declarations (hkind : next.kind ∉ declKinds) :
    ∃ after, (Stage.mk Goal.program parser).after 1 = some ⟨[.functionList, .main, .token .eof], after⟩ ∧
      after.standing = parser.standing.miss [.declList] ∧ after.buffer.view = parser.buffer.view ∧
      after.buffer.past = parser.buffer.past := by
  have hplan : ∀ kind ∉ declKinds, Goal.declList.plan kind false = .go [.declList] false [] := by decide
  exact next?_of_go (Goal.sight_of_next rfl rfl hnext) (hplan _ hkind) _

/-- Where no function begins either, the main program is next. -/
theorem pass_functions (hdecl : next.kind ∉ declKinds) (htype : next.kind ∉ typeKinds) :
    ∃ after, (Stage.mk Goal.program parser).after 2 = some ⟨[.main, .token .eof], after⟩ ∧
      after.standing = parser.standing.miss [.declList, .functionList] ∧
      after.buffer.view = parser.buffer.view ∧ after.buffer.past = parser.buffer.past := by
  have hplan : ∀ kind ∉ typeKinds, Goal.functionList.plan kind false = .go [.functionList] false [] := by
    decide
  obtain ⟨first, hfirst, hstands, hview, hpast⟩ := pass_declarations hnext hdecl
  rw [← hview] at hnext
  obtain ⟨second, hsecond, hstands', hview', hpast'⟩ :=
    next?_of_go (Goal.sight_of_next rfl rfl hnext) (hplan _ htype) [.main, .token .eof]
  refine ⟨second, Stage.after_succ.2 ⟨_, hfirst, hsecond⟩, ?_, hview'.trans hview, hpast'.trans hpast⟩
  rw [hstands', hstands]
  rfl

/-- A kind that can begin a program can begin the declarations, or the functions, or the main program. -/
theorem committed_of_start (hkind : next.kind ∈ programStarts) :
    ∃ m stage, (Stage.mk Goal.program parser).after m = some stage ∧
      stage.parser.buffer.view = parser.buffer.view ∧ stage.parser.buffer.past = parser.buffer.past ∧
      Committed next.kind stage.agenda := by
  by_cases hdecl : next.kind ∈ declKinds
  · have hcommitted : ∀ kind ∈ declKinds, Committed kind Goal.program := by decide
    exact ⟨0, _, rfl, rfl, rfl, hcommitted _ hdecl⟩
  by_cases htype : next.kind ∈ typeKinds
  · have hcommitted : ∀ kind ∈ typeKinds, Committed kind [.functionList, .main, .token .eof] := by decide
    obtain ⟨first, hfirst, -, hview, hpast⟩ := pass_declarations hnext hdecl
    exact ⟨1, _, hfirst, hview, hpast, hcommitted _ htype⟩
  · have hcommitted : ∀ kind ∈ programStarts, kind ∉ declKinds → kind ∉ typeKinds →
        Committed kind [.main, .token .eof] := by decide
    obtain ⟨second, hsecond, -, hview, hpast⟩ := pass_functions hnext hdecl htype
    exact ⟨2, _, hsecond, hview, hpast, hcommitted _ hkind hdecl htype⟩

/-- **How a token is refused that cannot begin a program**: at once, and all that can begin one is
expected, together with what was expected before. -/
theorem refuses_opening (hkind : next.kind ∉ programStarts) :
    ∃ after, parser.Returns (.error (.unexpected
        ⟨next, .ofList (programStarts ++ parser.live.flatMap Decision.firstKinds)⟩)) after ∧
      after.buffer.past = parser.buffer.past ∧ after.buffer.view 0 = .ok next ∧
      ∀ point, point ∈ after.live ↔ point ∈ [Decision.declList, .functionList] ∨ point ∈ parser.live := by
  have hother : ∀ kind ∉ programStarts, kind ∉ declKinds ∧ kind ∉ typeKinds ∧
      (Goal.token .mainKw).plan kind false = .refuse [] (some .mainKw) := by decide
  obtain ⟨hdecl, htype, hplan⟩ := hother _ hkind
  obtain ⟨second, hsecond, hstands, hview, hpast⟩ := pass_functions hnext hdecl htype
  have hblind : Goal.main.sight second.buffer.view = .ok ⟨.eof .start, false⟩ := rfl
  obtain ⟨third, hthird, hstands', hview', hpast'⟩ := next?_of_go hblind rfl [.token .eof]
  have hreached : third.standing = parser.standing.miss [.declList, .functionList] := by
    rw [hstands', hstands]
    rfl
  -- the first token of the main program is wanted, and is not there
  have hhere : third.buffer.view 0 = .ok next := by rw [hview', hview, hnext]
  have hact : (Goal.token .mainKw).act third.buffer.view third.standing =
      .error (.unexpected ⟨next, third.standing.expected (some .mainKw)⟩) third.standing := by
    rw [Goal.act_of_next rfl rfl hhere, hplan]
    rfl
  obtain ⟨failed, hstep, hfailed, hrecalls⟩ := step_of_act_error hact
  have hexpected : third.standing.expected (some .mainKw) =
      .ofList (programStarts ++ parser.live.flatMap Decision.firstKinds) := by
    have hlive : parser.standing.expected none = .ofList (parser.live.flatMap Decision.firstKinds) := rfl
    have hstarts : [Decision.declList, .functionList].flatMap Decision.firstKinds ++ [.mainKw] =
        programStarts := rfl
    ext kind
    rw [hreached, Standing.mem_expected_miss, hlive, KindSet.mem_ofList, KindSet.mem_ofList, Option.toList_some,
      hstarts, List.mem_append, or_comm]
  have hreturns := returns_of_error (Stage.after_succ.2 ⟨_, hsecond, hthird⟩) hstep
  rw [hexpected] at hreturns
  refine ⟨failed.abandon, hreturns, ?_, hrecalls.shown hhere, fun point => ?_⟩
  · show failed.buffer.past = parser.buffer.past
    rw [hrecalls.past, hpast', hpast]
  · have hlive : point ∈ failed.abandon.live ↔
        failed.standing.decisions.stamp? point = some failed.standing.generation := Decision.Log.mem_live
    have hlive' : point ∈ parser.live ↔
        parser.standing.decisions.stamp? point = some parser.standing.generation := Decision.Log.mem_live
    have hgeneration : (parser.standing.miss [.declList, .functionList]).generation =
        parser.standing.generation := rfl
    rw [hlive, hfailed, hreached, Standing.stamp?_miss, hgeneration, hlive']
    by_cases hpoint : point ∈ [Decision.declList, .functionList] <;> simp [hpoint]

end Steps

/-- **What is refused before anything is taken** cannot begin a program. -/
theorem refused_at_once (hreturns : parser.Returns (.error (.unexpected refused)) after)
    (hpast : after.buffer.past = parser.buffer.past) :
    parser.buffer.view 0 = .ok refused.unexpected ∧ refused.unexpected.kind ∉ programStarts := by
  obtain ⟨n, stage, goal, rest, failed, hstage, hend, hagenda, hstep, rfl, hfails⟩ := hreturns.failure
  -- the step that fails refuses the next token, and nothing has been taken before
  obtain ⟨unseen, -, hlexical⟩ | ⟨seen, hsight, hplanned⟩ := hfails
  · cases hlexical
  obtain ⟨_, _, _, -, -, hdeep, -⟩ | ⟨missed, wanted, hplan, hrefused, -⟩ := Plan.error_cases hplanned
  · cases hdeep
  obtain rfl : refused = _ := ParseError.unexpected.inj hrefused
  obtain ⟨tokens, htook⟩ := Stage.took_after hstage
  have hnil : tokens = [] := by
    have hsame : tokens.reverse ++ parser.buffer.past = parser.buffer.past := by
      rw [← htook.past, ← (act_of_step_error hstep).2.past]
      exact hpast
    simpa using hsame
  obtain ⟨hseen, -⟩ := Goal.sight_ok_cases (Goal.blind_of_refuse hplan) hsight
  have hnext : parser.buffer.view 0 = .ok seen.next := by
    rw [htook.view, hnil] at hseen
    exact hseen
  refine ⟨hnext, fun hstart => ?_⟩
  obtain ⟨m, early, hearly, hview, hpast', hcommitted⟩ := committed_of_start hnext hstart
  have hle := Stage.le_of_last hstage hend hearly
  have hlater : early.after (n - m) = some stage := by
    rw [← Stage.after_add hearly, Nat.add_sub_cancel' hle, hstage]
  obtain ⟨more, hmore, hstill⟩ := committed_after hcommitted (hview ▸ hnext) hlater
  have hnone : more = [] := by
    have hsame : more.reverse ++ early.parser.buffer.past = stage.parser.buffer.past := hmore.past.symm
    rw [hpast', htook.past, hnil] at hsame
    simpa using hsame
  have hhead := hstill hnone
  rw [hagenda] at hhead
  exact not_committed_of_refuse hsight hplan hhead

end Cal
