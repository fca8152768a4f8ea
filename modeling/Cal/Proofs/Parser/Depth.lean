import Cal.Proofs.Parser.Ending

/-!
# The limit on nesting

A parse with a limit on open bodies goes through the same stages as one without, as long as no more
bodies are open than the limit permits. How many are open is a matter of the tokens alone: each token
is taken with as many bodies open as the nestings of sentences say.

* `limited_after`: the stages of the two parses, one by one.
* `tooDeep_of_first`: where the parse with the limit fails.
* `depth_of_taken`: how many bodies are open at a token.

So the limit changes nothing but the outcome of what is nested too deeply.
-/

namespace Cal

variable {tokens : List Token} {n : Nat}

/-- The first stage of a parse of tokens without a limit on nesting. -/
def Stage.ofTokensUnlimited (tokens : List Token) : Stage TokenList :=
  ⟨Goal.program, (Parser.ofSource (TokenList.ofList tokens)).unlimited⟩

theorem reads_unlimited (tokens : List Token) :
    At (streamOf tokens) ⟨0, .empty, 0, none⟩ (Parser.ofSource (TokenList.ofList tokens)).unlimited := by
  have hreads := reads_ofList tokens
  exact ⟨hreads.shows, rfl⟩

/-- The standing with another limit. -/
def Standing.withLimit (standing : Standing) (limit : Nat) : Standing :=
  { standing with limit := some limit }

/-- A step goes the same way with a limit if no more bodies are open after it than that permits. -/
theorem Plan.carryOut_withLimit {plan : Plan} {token : Token} {standing reached : Standing}
    {goals : List Goal} {limit : Nat} (hplan : plan.carryOut token standing = .ok goals reached)
    (hdepth : reached.depth ≤ limit) :
    plan.carryOut token (standing.withLimit limit) = .ok goals (reached.withLimit limit) := by
  rcases ok_cases hplan with ⟨rfl, rfl, rfl⟩ | ⟨missed, rfl, rfl⟩ | ⟨missed, inner, rfl, -, rfl, rfl⟩ |
    ⟨rfl, rfl, rfl⟩
  · rfl
  · rfl
  · have hnone : (standing.withLimit limit).exhausted? = none := by
      have hlt : ¬ limit ≤ standing.depth := Nat.not_le.2 hdepth
      simp [Standing.exhausted?, Standing.withLimit, hlt]
    simp only [carryOut, hnone]
    rfl
  · rfl

/-- **With a limit a parse goes through the same stages**, as long as no more bodies are open than it
permits. -/
theorem limited_after {stage : Stage TokenList}
    (hstage : (Stage.ofTokensUnlimited tokens).after n = some stage)
    (hdepth : ∀ m ≤ n, ∀ stage, (Stage.ofTokensUnlimited tokens).after m = some stage →
      stage.parser.depth ≤ nestingLimit) :
    ∃ limited, (Stage.ofTokens tokens).after n = some limited ∧ limited.agenda = stage.agenda ∧
      limited.parser.standing = stage.parser.standing.withLimit nestingLimit := by
  induction n generalizing stage with
  | zero =>
    cases hstage
    exact ⟨_, rfl, rfl, rfl⟩
  | succ n ih =>
    obtain ⟨before, hbefore, hnext⟩ := Stage.after_succ.1 hstage
    have hsound := Stage.sound_after rfl (reads_unlimited tokens) hbefore
    obtain ⟨goal, rest, goals, hagenda, hlater, hplan, -⟩ := hsound.planned hnext
    obtain ⟨limited, hlimited, hsame, hstands⟩ :=
      ih hbefore fun m hm stage hstage => hdepth m (by omega) stage hstage
    -- the step of the one parse is a step of the other, since it opens no body too many
    have hplan' := Plan.carryOut_withLimit hplan (hdepth (n + 1) (Nat.le_refl _) stage hstage)
    have hreads := (Stage.sound_after rfl (reads_ofList tokens) hlimited).reads
    have hgeneration : limited.parser.generation = before.parser.generation :=
      congrArg Standing.generation hstands
    have hstage' : (Stage.ofTokens tokens).after n = some ⟨goal :: rest, limited.parser⟩ := by
      rw [hlimited, ← hagenda, ← hsame]
    have hstep' : (goal.planAt (streamOf tokens) limited.parser.generation).carryOut
        (streamOf tokens limited.parser.generation) limited.parser.standing =
          .ok goals (stage.parser.standing.withLimit nestingLimit) := by
      rw [hgeneration, hstands]
      exact hplan'
    obtain ⟨after, hafter, hreached⟩ := Stage.exists_next hstage' hreads hstep'
    exact ⟨_, hafter, hlater.symm, hreached.stands⟩

/-- The parser without a limit never has too many bodies open. -/
theorem unexhausted {stage : Stage TokenList}
    (hstage : (Stage.ofTokensUnlimited tokens).after n = some stage) :
    stage.parser.standing.exhausted? = none := by
  have hnone : stage.parser.standing.limit = none :=
    (Stage.sound_after rfl (reads_unlimited tokens) hstage).limit
  rw [Standing.exhausted?, hnone]
  rfl

/-- **Within the limit** it changes nothing. -/
theorem outcome_within (hdepth : ∀ n stage, (Stage.ofTokensUnlimited tokens).after n = some stage →
    stage.parser.depth ≤ nestingLimit) :
    parseTokens tokens = (Parser.ofSource (TokenList.ofList tokens)).unlimited.outcome := by
  obtain ⟨n, stage, hstage, hends, -⟩ := program_ends (reads_unlimited tokens)
  obtain ⟨limited, hlimited, hagenda, hstands⟩ :=
    limited_after hstage fun m _ stage hstage => hdepth m stage hstage
  refine outcome_of_ends (reads_ofList tokens) hlimited ?_
  have hgeneration : limited.parser.generation = stage.parser.generation :=
    congrArg Standing.generation hstands
  cases hended : (Parser.ofSource (TokenList.ofList tokens)).unlimited.outcome with
  | ok value =>
    rw [hended] at hends
    cases hends with
    | accepted hnil => exact .accepted (hagenda.trans hnil)
  | error error =>
    rw [hended] at hends
    cases hends with
    | @refused goal rest missed wanted hcons hplan =>
      have hplan' : goal.planAt (streamOf tokens) limited.parser.generation = .refuse missed wanted := by
        rw [hgeneration]
        exact hplan
      have hrefused := Stage.Ends.refused (hagenda.trans hcons) hplan'
      rw [hgeneration, hstands] at hrefused
      exact hrefused
    | tooDeep _ _ hlimit =>
      rw [unexhausted hstage] at hlimit
      cases hlimit

/-- If too many bodies are ever open, there is a step after which they are for the first time. -/
theorem first_beyond {stage : Stage TokenList}
    (hstage : (Stage.ofTokensUnlimited tokens).after n = some stage)
    (hdeep : nestingLimit < stage.parser.depth) :
    ∃ m before after, (Stage.ofTokensUnlimited tokens).after m = some before ∧
      (Stage.ofTokensUnlimited tokens).after (m + 1) = some after ∧
      (∀ k ≤ m, ∀ stage, (Stage.ofTokensUnlimited tokens).after k = some stage →
        stage.parser.depth ≤ nestingLimit) ∧ nestingLimit < after.parser.depth := by
  induction n using Nat.strongRecOn generalizing stage with
  | ind n ih =>
    cases n with
    | zero =>
      cases hstage
      cases hdeep
    | succ m =>
      by_cases hearlier : ∃ k ≤ m, ∃ stage, (Stage.ofTokensUnlimited tokens).after k = some stage ∧
          nestingLimit < stage.parser.depth
      · obtain ⟨k, hk, stage, hstage, hdeep⟩ := hearlier
        exact ih k (by omega) hstage hdeep
      · obtain ⟨before, hbefore, -⟩ := Stage.after_succ.1 hstage
        refine ⟨m, before, stage, hbefore, hstage, ?_, hdeep⟩
        intro k hk stage hstage
        by_contra hlt
        exact hearlier ⟨k, hk, stage, hstage, by omega⟩

/-- Where a step opens one body too many, the parse with the limit fails. -/
theorem tooDeep_of_first {before after : Stage TokenList}
    (hbefore : (Stage.ofTokensUnlimited tokens).after n = some before)
    (hafter : (Stage.ofTokensUnlimited tokens).after (n + 1) = some after)
    (hdepth : ∀ k ≤ n, ∀ stage, (Stage.ofTokensUnlimited tokens).after k = some stage →
      stage.parser.depth ≤ nestingLimit)
    (hdeep : nestingLimit < after.parser.depth) :
    after.parser.depth = nestingLimit + 1 ∧ parseTokens tokens =
      .error (.tooDeep nestingLimit (streamOf tokens before.parser.generation).position) := by
  have hnext := Stage.next?_of_after hbefore hafter
  have hlow := hdepth n (Nat.le_refl _) before hbefore
  have hsound := Stage.sound_after rfl (reads_unlimited tokens) hbefore
  obtain ⟨goal, rest, goals, hagenda, -, hplan, -⟩ := hsound.planned hnext
  -- the step opens a body, and just one
  obtain ⟨hsucc, missed, inner, hgo⟩ : after.parser.depth = before.parser.depth + 1 ∧
      ∃ missed goals, goal.planAt (streamOf tokens) before.parser.generation = .go missed true goals := by
    refine (Plan.depth_of_ok hplan).resolve_left fun hle => ?_
    have hle : after.parser.depth ≤ before.parser.depth := hle
    omega
  refine ⟨by omega, ?_⟩
  -- the parse with the limit comes to the same stage, and cannot open it
  obtain ⟨limited, hlimited, hsame, hstands⟩ := limited_after hbefore hdepth
  have hgeneration : limited.parser.generation = before.parser.generation :=
    congrArg Standing.generation hstands
  have hexhausted : limited.parser.standing.exhausted? = some nestingLimit := by
    have hdepth : (before.parser.standing.withLimit nestingLimit).depth = before.parser.depth := rfl
    rw [hstands, Standing.exhausted?, hdepth, Option.filter_eq_some_iff]
    exact ⟨rfl, by simp; omega⟩
  have hopens : goal.planAt (streamOf tokens) limited.parser.generation = .go missed true inner := by
    rw [hgeneration]
    exact hgo
  have htooDeep := Stage.Ends.tooDeep (hsame.trans hagenda) hopens hexhausted
  rw [hgeneration] at htooDeep
  exact outcome_of_ends (reads_ofList tokens) hlimited htooDeep

/-- **The bodies open at a token** are those that the nestings of sentences count there. -/
theorem depth_of_taken {before after : Stage TokenList}
    (hbefore : (Stage.ofTokensUnlimited tokens).after n = some before)
    (hafter : (Stage.ofTokensUnlimited tokens).after (n + 1) = some after)
    (htaken : after.parser.generation = before.parser.generation + 1) :
    (∃ marks, IsNesting marks ∧ takenOf (streamOf tokens) after.parser.generation <+: kindsOf marks) ∧
      ∀ marks, IsNesting marks →
        takenOf (streamOf tokens) after.parser.generation <+: kindsOf marks →
          (marks[before.parser.generation]?).map Mark.depth = some before.parser.depth := by
  have hsound := Stage.sound_after rfl (reads_unlimited tokens) hbefore
  constructor
  · have hviable := (Stage.sound_after rfl (reads_unlimited tokens) hafter).faithful.viable
    obtain ⟨rest, hsentence⟩ := hviable
    obtain ⟨marks, hkinds, hnesting⟩ := exists_isNesting hsentence
    exact ⟨marks, hnesting, rest, hkinds.symm⟩
  · intro marks hnesting hbegin
    have hnext := Stage.next?_of_after hbefore hafter
    obtain ⟨goal, rest, goals, hagenda, -, hplan, -⟩ := hsound.planned hnext
    -- the token that is taken is the first item of the agenda, at the depth of the parser
    have htake := Plan.eq_take hplan htaken
    have hfaithful := hsound.faithful
    rw [hagenda] at hfaithful
    have hcovers := hfaithful.covers_of_take htake
    rw [htaken] at hbegin
    have hpredicts := hcovers marks (predicts_of_isNesting hnesting) hbegin
    obtain ⟨more, hmore, -⟩ := nests_token.1 hpredicts
    have hget : marks[before.parser.generation]? = (marks.drop before.parser.generation)[0]? := by
      rw [List.getElem?_drop, Nat.add_zero]
    have hhead : (marks.drop before.parser.generation)[0]? =
        some ⟨before.parser.depth, (streamOf tokens before.parser.generation).kind⟩ := by
      rw [show marks.drop before.parser.generation = _ from hmore]
      rfl
    rw [hget, hhead]
    rfl

/-- **The limit on nesting changes nothing but what is nested too deeply, and is reported exactly.**
If a parse without the limit never has more bodies open than the limit permits, the parse with it comes
to the same. Otherwise it fails at the token at which the other first opens one body too many. The
bodies that the parse without the limit has open at a token it takes are those that every nesting of
every sentence that begins so has open there. -/
theorem nesting_limit_exact (tokens : List Token) :
    ((∀ n stage, (Stage.ofTokensUnlimited tokens).after n = some stage →
        stage.parser.depth ≤ nestingLimit) →
      parseTokens tokens = (Parser.ofSource (TokenList.ofList tokens)).unlimited.outcome) ∧
    ((∃ n stage, (Stage.ofTokensUnlimited tokens).after n = some stage ∧
        nestingLimit < stage.parser.depth) →
      ∃ n before after, (Stage.ofTokensUnlimited tokens).after n = some before ∧
        (Stage.ofTokensUnlimited tokens).after (n + 1) = some after ∧
        (∀ m ≤ n, ∀ stage, (Stage.ofTokensUnlimited tokens).after m = some stage →
          stage.parser.depth ≤ nestingLimit) ∧
        after.parser.depth = nestingLimit + 1 ∧
        parseTokens tokens =
          .error (.tooDeep nestingLimit (streamOf tokens before.parser.generation).position)) ∧
    ∀ n before after, (Stage.ofTokensUnlimited tokens).after n = some before →
      (Stage.ofTokensUnlimited tokens).after (n + 1) = some after →
      after.parser.generation = before.parser.generation + 1 →
      (∃ marks, IsNesting marks ∧
        takenOf (streamOf tokens) after.parser.generation <+: kindsOf marks) ∧
      ∀ marks, IsNesting marks →
        takenOf (streamOf tokens) after.parser.generation <+: kindsOf marks →
          (marks[before.parser.generation]?).map Mark.depth = some before.parser.depth := by
  refine ⟨outcome_within, ?_, ?_⟩
  · rintro ⟨n, stage, hstage, hdeep⟩
    obtain ⟨m, before, after, hbefore, hafter, hdepth, hdeep⟩ := first_beyond hstage hdeep
    obtain ⟨hsucc, houtcome⟩ := tooDeep_of_first hbefore hafter hdepth hdeep
    exact ⟨m, before, after, hbefore, hafter, hdepth, hsucc, houtcome⟩
  · intro n before after hbefore hafter htaken
    exact depth_of_taken hbefore hafter htaken

end Cal
