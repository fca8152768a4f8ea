import Cal.Proofs.Parser.Deletion
import Cal.Proofs.Parser.Depth
import Cal.Proofs.Parser.Horizon

/-!
# Programs within the limit

Whether a program is accepted can be read off any nesting of it: no mark may be deeper than the limit permits. A
body that is opened holds at least the token that begins it, so that no body is counted that holds none.

* `taken_of_deeper`: the first token of a body is taken as soon as the body is open.
* `accepted_of_shallow`, `shallow_of_accepted`: a program is accepted exactly if one of its nestings is shallow.
-/

namespace Cal

/-- A body begins with the next token. -/
theorem Goal.head_of_opens {goal : Goal} {next : TokenKind} {hit : Bool} (hhit : hit = true → next = .leftParen)
    (hopens : (goal.plan next hit).opens = true) : (goal.plan next hit).goals.head? = some (.seen next) := by
  revert next hit
  cases goal with
  | token kind | seen kind => simp [plan_token]
  | _ => decide +kernel

section Run

variable {tokens : List Token} {stage : Stage TokenList} {n g : Nat}

/-- Every token that has been taken was taken by a step. -/
theorem exists_taking {start : Stage TokenList} (hstart : start.parser.generation ≤ g)
    (hstage : start.after n = some stage) (hg : g < stage.parser.generation) :
    ∃ m before after, start.after m = some before ∧ start.after (m + 1) = some after ∧
      before.parser.generation = g ∧ after.parser.generation = g + 1 := by
  induction n generalizing stage with
  | zero =>
    obtain rfl := Option.some.inj hstage
    omega
  | succ n ih =>
    obtain ⟨before, hbefore, hnext⟩ := Stage.after_succ.1 hstage
    by_cases hearlier : g < before.parser.generation
    · exact ih hbefore hearlier
    · obtain ⟨goal, rest, goals, -, hstep, -⟩ := Stage.next?_eq_some.1 hnext
      have hle : stage.parser.generation ≤ before.parser.generation + 1 := by
        rcases (act_of_step hstep).2 with ⟨hsame, -⟩ | ⟨hsucc, -⟩
        · omega
        · omega
      exact ⟨n, before, stage, hbefore, hstage, by omega, by omega⟩

/-- **What is accepted never has too many bodies open**, with a limit or without. -/
theorem depth_le_of_accepted (h : parseTokens tokens = .ok ())
    (hstage : (Stage.ofTokensUnlimited tokens).after n = some stage) : stage.parser.depth ≤ nestingLimit := by
  by_contra hdeep
  obtain ⟨m, before, after, hbefore, hafter, hdepth, hbeyond⟩ := first_beyond hstage (Nat.not_le.1 hdeep)
  obtain ⟨-, hfails⟩ := tooDeep_of_first hbefore hafter hdepth hbeyond
  rw [h] at hfails
  cases hfails

/-- **The first token of a body is taken as soon as that is open**, and it does not end the input. -/
theorem taken_of_deeper {before after : Stage TokenList}
    (hbefore : (Stage.ofTokensUnlimited tokens).after n = some before)
    (hafter : (Stage.ofTokensUnlimited tokens).after (n + 1) = some after)
    (hdeeper : before.parser.depth < after.parser.depth) :
    (streamOf tokens after.parser.generation).kind ≠ .eof ∧
      ∃ taken, (Stage.ofTokensUnlimited tokens).after (n + 2) = some taken ∧
        taken.parser.generation = after.parser.generation + 1 := by
  obtain ⟨goal, rest, goals, -, hlater, hcarried, -⟩ :=
    (Stage.sound_after rfl (reads_unlimited tokens) hbefore).planned (Stage.next?_of_after hbefore hafter)
  obtain ⟨-, missed, inner, hplan⟩ := (Plan.depth_of_ok hcarried).resolve_left (Nat.not_le.2 hdeeper)
  have hkept : after.parser.generation = before.parser.generation :=
    Plan.generation_of_ok hcarried (by simp [hplan])
  have hopens : (goal.planAt (streamOf tokens) before.parser.generation).opens = true := by
    rw [hplan]
    rfl
  have hhead : (goal.planAt (streamOf tokens) before.parser.generation).goals.head? =
      some (.seen (streamOf tokens before.parser.generation).kind) :=
    Goal.head_of_opens Goal.leftParen_of_hits hopens
  rw [hplan] at hhead
  obtain ⟨others, rfl⟩ := List.head?_eq_some_iff.1 hhead
  obtain ⟨more, rfl⟩ : Goal.seen (streamOf tokens before.parser.generation).kind :: others <+: goals := by
    have hgoals := Plan.goals_of_ok hcarried
    rw [hplan] at hgoals
    exact hgoals
  refine ⟨hkept ▸ (Goal.next_of_opens Goal.leftParen_of_hits hopens).1, ?_⟩
  -- what is next has been seen, and nothing is left to do but to take it
  have htakes : ((Goal.seen (streamOf tokens before.parser.generation).kind).planAt (streamOf tokens)
      after.parser.generation) = .take := by
    rw [Goal.planAt, hkept]
    exact if_pos rfl
  obtain ⟨agenda, parser⟩ := after
  obtain rfl : agenda = _ := hlater
  have hreads := (Stage.sound_after rfl (reads_unlimited tokens) hafter).reads
  obtain ⟨taken, htaken, hreached⟩ := Stage.exists_next hafter hreads (by rw [htakes]; rfl)
  exact ⟨_, htaken, congrArg Standing.generation hreached.stands⟩

end Run

section Accepted

variable {tokens : List Token} {marks : List Mark}

/-- A program is never refused as a matter of syntax. -/
theorem accepted_or_tooDeep (h : IsProgram (kindsBeforeEof tokens)) :
    parseTokens tokens = .ok () ∨ ∃ position, parseTokens tokens = .error (.tooDeep nestingLimit position) := by
  cases hparse : parseTokens tokens with
  | ok value => exact .inl rfl
  | error error =>
    cases error with
    | lexical error => exact absurd hparse (parseTokens_ne_lexical _ error)
    | unexpected error =>
      -- a program cannot differ from itself by any token
      have hdiffers := (refusal hparse).differs (n := (consumedTokens tokens).length + 2) h fun _ _ => rfl
      omega
    | tooDeep limit position =>
      obtain rfl := limit_of_tooDeep hparse
      exact .inr ⟨position, rfl⟩

theorem isProgram_of_isNesting (hnesting : IsNesting marks)
    (hkinds : kindsOf marks = kindsBeforeEof tokens ++ [.eof]) : IsProgram (kindsBeforeEof tokens) := by
  have hsentence : IsSentence (kindsOf marks) := derives_of_predicts (predicts_of_isNesting hnesting)
  obtain ⟨program, hsplit, hprogram⟩ := isSentence_iff.1 hsentence
  obtain ⟨rfl, -⟩ := List.append_inj' (hkinds.symm.trans hsplit) rfl
  exact hprogram

/-- **A program whose nesting is shallow is accepted.** -/
theorem accepted_of_shallow (hnesting : IsNesting marks)
    (hkinds : kindsOf marks = kindsBeforeEof tokens ++ [.eof]) (h : ∀ mark ∈ marks, mark.depth ≤ nestingLimit) :
    parseTokens tokens = .ok () := by
  have hdepth : ∀ n stage, (Stage.ofTokensUnlimited tokens).after n = some stage →
      stage.parser.depth ≤ nestingLimit := by
    intro n stage hstage
    by_contra hdeep
    obtain ⟨m, before, after, hbefore, hafter, hlow, hbeyond⟩ := first_beyond hstage (Nat.not_le.1 hdeep)
    have hshallow := hlow m (Nat.le_refl m) before hbefore
    -- the token that begins the body does not end the input, and is taken too deep
    obtain ⟨hother, taken, htaken, hmore⟩ := taken_of_deeper hbefore hafter (by omega)
    have hplace := le_of_eof_not_mem fun heof => hother (eof_of_mem_takenOf heof)
    have hbegin : takenOf (streamOf tokens) taken.parser.generation <+: kindsOf marks := by
      rw [hkinds, ← takenOf_closed, hmore]
      exact takenOf_begin (Nat.succ_le_succ hplace)
    have hmark := (depth_of_taken hafter htaken hmore).2 marks hnesting hbegin
    obtain ⟨mark, hget, hdeep⟩ := Option.map_eq_some_iff.1 hmark
    have hbound := h mark (List.mem_of_getElem? hget)
    omega
  rcases accepted_or_tooDeep (isProgram_of_isNesting hnesting hkinds) with haccepted | ⟨position, htooDeep⟩
  · exact haccepted
  · rw [outcome_within hdepth] at htooDeep
    obtain ⟨n, stage, hstage, hends, -⟩ := program_ends (reads_unlimited tokens)
    rw [htooDeep] at hends
    cases hends with
    | tooDeep _ _ hlimit =>
      rw [unexhausted hstage] at hlimit
      cases hlimit

/-- **The nesting of an accepted program is shallow.** -/
theorem shallow_of_accepted (hnesting : IsNesting marks)
    (hkinds : kindsOf marks = kindsBeforeEof tokens ++ [.eof]) (h : parseTokens tokens = .ok ()) :
    ∀ mark ∈ marks, mark.depth ≤ nestingLimit := by
  intro mark hmark
  obtain ⟨g, hg, rfl⟩ := List.getElem_of_mem hmark
  have hwithin := outcome_within fun _ _ hstage => depth_le_of_accepted h hstage
  rw [h] at hwithin
  obtain ⟨n, stage, hstage, hends, -⟩ := program_ends (reads_unlimited tokens)
  rw [← hwithin] at hends
  have hsound := (Stage.sound_after rfl (reads_unlimited tokens) hstage).faithful.sound
  cases hends with
  | accepted hagenda =>
    -- all tokens have been taken at the end, the end of the input with them
    rw [hagenda] at hsound
    have hsentence := hsound [] .nil
    rw [List.append_nil] at hsentence
    have hlength : marks.length = (kindsBeforeEof tokens).length + 1 := by
      simpa using congrArg List.length hkinds
    have hall : g < stage.parser.generation := by
      by_contra hlt
      have hbegin : takenOf (streamOf tokens) stage.parser.generation <+:
          takenOf (streamOf tokens) (kindsBeforeEof tokens).length := takenOf_begin (by omega)
      have hbefore : takenOf (streamOf tokens) (kindsBeforeEof tokens).length = kindsBeforeEof tokens :=
        (TokenList.shown_before tokens .start).1
      obtain ⟨program, hprogram, -⟩ := isSentence_iff.1 hsentence
      rw [hbefore, show takenOf (streamOf tokens) stage.parser.generation = _ from hprogram] at hbegin
      exact eof_not_mem_kindsBeforeEof tokens (hbegin.subset (by simp))
    obtain ⟨m, before, after, hbefore, hafter, rfl, htaken⟩ := exists_taking (Nat.zero_le g) hstage hall
    have hbegin : takenOf (streamOf tokens) after.parser.generation <+: kindsOf marks := by
      rw [hkinds, ← takenOf_closed, htaken]
      exact takenOf_begin (by omega)
    have hmark := (depth_of_taken hbefore hafter htaken).2 marks hnesting hbegin
    rw [List.getElem?_eq_getElem hg, Option.map_some, Option.some.injEq] at hmark
    rw [hmark]
    exact depth_le_of_accepted h hbefore

end Accepted

end Cal
