import Cal.Proofs.Parser.Ending

/-!
# Where probes are asked

A parse asks a probe in two places: at the start of a simple condition, and right after an identifier
with which it has begun a fragment of an expression.

* `suffixed_after`: the goal `callSuffix` stands nowhere else.
* `comesToProbe_iff`: a parse comes to one of these places just where a goal with a probe is the first.
-/

namespace Cal

variable {tokens : List Token}

/-- A parse of tokens comes to a goal when it has consumed the tokens `before`. -/
def ComesTo (tokens : List Token) (goal : Goal) (before : List Token) : Prop :=
  ∃ n rest parser, (Stage.ofTokens tokens).after n = some ⟨goal :: rest, parser⟩ ∧
    parser.buffer.past.reverse = before

/-- A parse of tokens has consumed the tokens `before` when it comes to the start of a simple
condition, or right after an identifier with which it has begun a fragment of an expression. -/
def ComesToProbe (tokens before : List Token) : Prop :=
  ComesTo tokens .conditionSimple before ∨
    ∃ earlier token, ComesTo tokens .fragment earlier ∧ token.kind = .identifier ∧
      before = earlier ++ [token]

namespace Stage

variable {σ : Type} [Source σ] {start stage : Stage σ} {n : Nat}

/-- Only a fragment that begins with an identifier leaves a goal `callSuffix`. -/
theorem callSuffix_mem_plan {goal : Goal} {next : TokenKind} {hit : Bool}
    (h : .callSuffix ∈ (goal.plan next hit).goals) :
    goal = .fragment ∧ next = .identifier ∧
      goal.plan next hit = .go [] false [.seen .identifier, .callSuffix] := by
  cases goal with
  | token kind | seen kind => simp [Goal.plan_token] at h
  | _ => revert next hit; decide +kernel

/-- Where a goal `callSuffix` may stand after `n` steps: at the front, two steps after a fragment that began
with an identifier, when that has been taken; or one place behind and one step before. -/
inductive Suffixed (start : Stage σ) (n : Nat) (stage : Stage σ) : Prop
  | none : .callSuffix ∉ stage.agenda → Suffixed start n stage
  | soon {k rest before name} : n = k + 1 → start.after k = some ⟨.fragment :: rest, before⟩ →
    before.buffer.view 0 = .ok name → name.kind = .identifier → .callSuffix ∉ rest →
    stage.agenda = .seen .identifier :: .callSuffix :: rest →
    Buffer.Shows before.buffer.view before.buffer.past stage.parser.buffer → Suffixed start n stage
  | now {k rest before name} : n = k + 2 → start.after k = some ⟨.fragment :: rest, before⟩ →
    before.buffer.view 0 = .ok name → name.kind = .identifier → .callSuffix ∉ rest →
    stage.agenda = .callSuffix :: rest → stage.parser.buffer.past = name :: before.buffer.past →
    Suffixed start n stage

/-- Where the goal stands after one more step. -/
theorem Suffixed.step {before : Stage σ} (h : Suffixed start n before) (hbefore : start.after n = some before)
    (hnext : before.next? = some stage) : Suffixed start (n + 1) stage := by
  obtain ⟨goal, rest, goals, hgoals, hstep, hlater⟩ := next?_eq_some.1 hnext
  obtain ⟨hact, hfollows⟩ := act_of_step hstep
  obtain ⟨seen, hsight, hplan⟩ := Goal.act_ok_cases hact
  cases h with
  | none hnone =>
    rw [hgoals, List.mem_cons, not_or] at hnone
    by_cases hsuffix : .callSuffix ∈ goals
    · rcases Plan.mem_goals_of_ok hplan hsuffix with hmem | hend
      · obtain ⟨rfl, hkind, hidentifier⟩ := callSuffix_mem_plan hmem
        rw [hidentifier] at hplan
        obtain ⟨rfl, hreached⟩ := EStateM.Result.ok.inj hplan
        have hshows := hfollows.kept (congrArg Standing.generation hreached).symm
        have hfragment : start.after n = some ⟨.fragment :: rest, before.parser⟩ := by
          rw [hbefore, ← hgoals]
        exact .soon rfl hfragment (Goal.sight_ok_cases rfl hsight).1 hkind hnone.2 hlater hshows
      · cases hend
    · refine .none ?_
      rw [hlater, List.mem_append, not_or]
      exact ⟨hsuffix, hnone.2⟩
  | @soon k other fragment name hn hfragment hname hkind hrest hsoon hshows =>
    rw [hsoon] at hgoals
    cases hgoals
    -- the identifier is in view still, and it is taken
    have hseen := (Goal.sight_ok_cases rfl hsight).1
    rw [hshows.1, hname] at hseen
    obtain rfl := Except.ok.inj hseen
    rw [Goal.plan, if_pos hkind] at hplan
    obtain ⟨rfl, hreached⟩ := EStateM.Result.ok.inj hplan
    obtain ⟨next, hnext, htaken⟩ := hfollows.taken (congrArg Standing.generation hreached).symm
    rw [hshows.1, hname] at hnext
    obtain rfl := Except.ok.inj hnext
    refine .now (by omega) hfragment hname hkind hrest hlater ?_
    rw [htaken.2, hshows.2]
  | now hn hfragment hname hkind hrest hnow =>
    rw [hnow] at hgoals
    cases hgoals
    refine .none ?_
    rw [hlater, List.mem_append, not_or]
    refine ⟨fun hsuffix => ?_, hrest⟩
    rcases Plan.mem_goals_of_ok hplan hsuffix with hmem | hend
    · cases (callSuffix_mem_plan hmem).1
    · cases hend

theorem suffixed_after (hagenda : start.agenda = Goal.program) (h : start.after n = some stage) :
    Suffixed start n stage := by
  induction n generalizing stage with
  | zero =>
    cases h
    refine .none ?_
    rw [hagenda]
    decide
  | succ n ih =>
    obtain ⟨before, hbefore, hnext⟩ := after_succ.1 h
    exact (ih hbefore).step hbefore hnext

end Stage

section Probes

variable {goal : Goal} {n : Nat}

/-- The tokens consumed at a stage are the first ones of the stream. -/
theorem consumed_of_stage {stage : Stage TokenList} (hstage : (Stage.ofTokens tokens).after n = some stage) :
    stage.parser.buffer.past.reverse = (List.range stage.parser.generation).map (streamOf tokens) := by
  have hsound := Stage.sound_after rfl (reads_ofList tokens) hstage
  rw [← pastOf_reverse]
  exact congrArg List.reverse hsound.reads.shows.2

theorem comesTo_iff :
    ComesTo tokens goal ((List.range n).map (streamOf tokens)) ↔
      ∃ m rest parser, (Stage.ofTokens tokens).after m = some ⟨goal :: rest, parser⟩ ∧
        parser.generation = n := by
  constructor
  · rintro ⟨m, rest, parser, hstage, hbefore⟩
    refine ⟨m, rest, parser, hstage, ?_⟩
    have hlength := congrArg List.length ((consumed_of_stage hstage).symm.trans hbefore)
    simpa using hlength
  · rintro ⟨m, rest, parser, hstage, rfl⟩
    exact ⟨m, rest, parser, hstage, consumed_of_stage hstage⟩

/-- The goal `callSuffix` stands right after an identifier that a fragment has begun with. -/
theorem comesTo_callSuffix :
    ComesTo tokens .callSuffix ((List.range n).map (streamOf tokens)) ↔
      ∃ earlier token, ComesTo tokens .fragment earlier ∧ token.kind = .identifier ∧
        (List.range n).map (streamOf tokens) = earlier ++ [token] := by
  constructor
  · intro h
    obtain ⟨m, rest, parser, hstage, hgeneration⟩ := comesTo_iff.1 h
    cases Stage.suffixed_after rfl hstage with
    | none hnone => simp at hnone
    | soon _ _ _ _ _ hsoon => cases hsoon
    | @now k other before name _ hfragment _ hkind _ _ htaken =>
      refine ⟨before.buffer.past.reverse, name, ⟨k, other, before, hfragment, rfl⟩, hkind, ?_⟩
      rw [← hgeneration, ← consumed_of_stage hstage]
      simp [show parser.buffer.past = _ from htaken]
  · rintro ⟨earlier, token, hfragment, hkind, happend⟩
    cases n with
    | zero => simp at happend
    | succ n =>
      rw [List.range_succ, List.map_append] at happend
      obtain ⟨rfl, htoken⟩ := List.append_inj' happend rfl
      obtain rfl : streamOf tokens n = token := by simpa using htoken
      obtain ⟨m, rest, parser, hstage, rfl⟩ := comesTo_iff.1 hfragment
      have hsound := Stage.sound_after rfl (reads_ofList tokens) hstage
      -- the fragment leaves its identifier to be taken, and what may follow that
      have hplan : (Goal.fragment.planAt (streamOf tokens) parser.generation).carryOut
          (streamOf tokens parser.generation) parser.standing =
            .ok [.seen .identifier, .callSuffix] parser.standing := by
        rw [Goal.planAt, hkind]
        rfl
      obtain ⟨seen, hseen, hreads⟩ := Stage.exists_next hstage hsound.reads hplan
      have hsame : seen.generation = parser.generation := congrArg Standing.generation hreads.stands
      have hreads : At (streamOf tokens) seen.standing seen := hreads.stands ▸ hreads
      have hidentifier : (streamOf tokens seen.generation).kind = .identifier := by rwa [hsame]
      have htake : ((Goal.seen .identifier).planAt (streamOf tokens) seen.generation).carryOut
          (streamOf tokens seen.generation) seen.standing =
            .ok [] { seen.standing with generation := seen.generation + 1 } := by
        rw [Goal.planAt, hidentifier]
        rfl
      obtain ⟨taken, htaken, hreached⟩ := Stage.exists_next hseen hreads htake
      have hgeneration : taken.generation = seen.generation + 1 :=
        congrArg Standing.generation hreached.stands
      exact comesTo_iff.2 ⟨_, rest, taken, htaken, by rw [hgeneration, hsame]⟩

/-- Probes are asked where a parse comes to a place that has one. -/
theorem comesToProbe_iff :
    ComesToProbe tokens ((List.range n).map (streamOf tokens)) ↔
      ∃ m goal rest parser, (Stage.ofTokens tokens).after m = some ⟨goal :: rest, parser⟩ ∧
        goal.probe?.isSome = true ∧ parser.generation = n := by
  unfold ComesToProbe
  rw [← comesTo_callSuffix, comesTo_iff, comesTo_iff]
  constructor
  · rintro (⟨m, rest, parser, hstage, hgeneration⟩ | ⟨m, rest, parser, hstage, hgeneration⟩)
    · exact ⟨m, _, rest, parser, hstage, rfl, hgeneration⟩
    · exact ⟨m, _, rest, parser, hstage, rfl, hgeneration⟩
  · rintro ⟨m, goal, rest, parser, hstage, hprobe, hgeneration⟩
    cases goal with
    | conditionSimple => exact .inl ⟨m, rest, parser, hstage, hgeneration⟩
    | callSuffix => exact .inr ⟨m, rest, parser, hstage, hgeneration⟩
    | _ => simp [Goal.probe?] at hprobe

/-- At the end of a parse, a probe has been asked if one was asked before or is asked there. -/
theorem comesToProbe_of_ends {stage : Stage TokenList} {rest : List Goal} {outcome : Outcome}
    (hstage : (Stage.ofTokens tokens).after n = some stage) (hagenda : stage.agenda = goal :: rest)
    (hends : stage.Ends (streamOf tokens) outcome) :
    ComesToProbe tokens ((List.range stage.parser.generation).map (streamOf tokens)) ↔
      (Stage.ofTokens tokens).Asks n stage.parser.generation ∨ goal.probe?.isSome = true := by
  have hsound := Stage.sound_after rfl (reads_ofList tokens) hstage
  have hlast : (Stage.ofTokens tokens).after (n + 1) = none := by
    rw [Stage.after, hstage]
    exact Stage.next?_of_ends hsound.reads hends
  rw [comesToProbe_iff]
  constructor
  · rintro ⟨m, other, more, parser, hafter, hprobe, hgeneration⟩
    rcases Nat.lt_trichotomy m n with hlt | rfl | hgt
    · exact .inl ⟨m, hlt, other, more, parser, hafter, hprobe, hgeneration⟩
    · rw [hstage] at hafter
      cases hafter
      cases hagenda
      exact .inr hprobe
    · obtain ⟨beyond, hbeyond⟩ := Stage.exists_after hafter (m := n + 1) (by omega)
      rw [hlast] at hbeyond
      cases hbeyond
  · rintro (⟨m, -, hasks⟩ | hprobe)
    · exact ⟨m, hasks⟩
    · refine ⟨n, goal, rest, stage.parser, ?_, hprobe, rfl⟩
      rw [hstage, ← hagenda]

end Probes

end Cal
