import Cal.Proofs.Parser.Probes

/-!
# Refusals of tokens

A parse of tokens that refuses a token has consumed the tokens before it. What it says about the
token is put here in terms of the tokens and the grammar alone.

* `refusal`: what is known of the tokens consumed, the token refused and the kinds expected.
-/

namespace Cal

variable {tokens : List Token}

/-- The tokens that a parse of tokens has consumed when it ends. -/
def consumedTokens (tokens : List Token) : List Token :=
  (Parser.ofSource (TokenList.ofList tokens)).consumed

/-- The kinds of tokens. -/
abbrev kindsIn (tokens : List Token) : List TokenKind := tokens.map Token.kind

section Kinds

variable {n m : Nat}

theorem kindsIn_map (stream : Nat → Token) (n : Nat) :
    kindsIn ((List.range n).map stream) = takenOf stream n := by
  simp [kindsIn, takenOf]

theorem takenOf_begin {stream : Nat → Token} (h : n ≤ m) : takenOf stream n <+: takenOf stream m := by
  obtain ⟨k, rfl⟩ := Nat.exists_eq_add_of_le h
  exact ⟨_, by rw [takenOf, takenOf, List.range_add, List.map_append]⟩

/-- The kinds that a parse of tokens sees, up to the end of the input. -/
theorem takenOf_closed : takenOf (streamOf tokens) ((kindsBeforeEof tokens).length + 1) =
    kindsBeforeEof tokens ++ [.eof] := by
  obtain ⟨hbefore, hbeyond⟩ := TokenList.shown_before tokens .start
  rw [takenOf_succ]
  congr 1
  exact congrArg (fun kind => [kind]) (hbeyond _ (Nat.le_refl _))

/-- As long as the input has not ended, the kinds taken are among those before its end. -/
theorem le_of_eof_not_mem (h : .eof ∉ takenOf (streamOf tokens) n) :
    n ≤ (kindsBeforeEof tokens).length := by
  by_contra hlt
  have hbegin : takenOf (streamOf tokens) ((kindsBeforeEof tokens).length + 1) <+:
      takenOf (streamOf tokens) n := takenOf_begin (by omega)
  rw [takenOf_closed] at hbegin
  exact h (hbegin.subset (by simp))

/-- As long as the input has not ended, the tokens taken are the first ones of the list, and the next
one stands behind them. -/
theorem stream_begin (h : .eof ∉ takenOf (streamOf tokens) n) :
    ∃ finish, (List.range (n + 1)).map (streamOf tokens) <+: tokens ++ [.eof finish] := by
  obtain ⟨finish, hfinish⟩ := TokenList.withEnd_eq tokens .start
  refine ⟨finish, ?_⟩
  rw [← hfinish]
  refine TokenList.shown_begin tokens fun k hk => ?_
  rw [Bool.eq_false_iff]
  intro heof
  refine h (List.mem_map.2 ⟨k, List.mem_range.2 hk, ?_⟩)
  exact of_decide_eq_true heof

end Kinds

/-- A token is refused only as long as the input has not ended: what is expected there has to come
before the end. -/
theorem Faithful.eof_not_mem {stream : Nat → Token} {tried : Prop} {goal : Goal} {rest : List Goal}
    {standing : Standing} {missed : List Decision} {wanted : Option TokenKind}
    (h : Faithful stream tried (goal :: rest) standing)
    (hplan : goal.planAt stream standing.generation = .refuse missed wanted) :
    .eof ∉ takenOf stream standing.generation := by
  intro heof
  have hgoal : goal ≠ .endBody := by
    rintro rfl
    cases hplan
  have hrefuses : (goal.planAt stream standing.generation).refuses = true := by rw [hplan]; rfl
  obtain ⟨hnullable, -⟩ := Goal.firsts_of_refuse Goal.leftParen_of_hits hrefuses
  -- had the input ended, the agenda could be met by nothing, and the goal with it
  obtain ⟨kinds, hkinds⟩ := derives_some (formsOf (itemsOf standing.depth (goal :: rest)))
  have hnil := eq_nil_of_eof (h.sound kinds hkinds) heof
  rw [hnil, itemsOf_cons hgoal] at hkinds
  have hnull := nullable_of_derives hkinds goal.form (by simp)
  rw [hnullable] at hnull
  cases hnull

/-- What is known where a token is refused. -/
structure Refusal (tokens : List Token) (error : SyntaxError) : Prop where
  consumed : consumedTokens tokens =
    (List.range (consumedTokens tokens).length).map (streamOf tokens)
  unexpected : error.unexpected = streamOf tokens (consumedTokens tokens).length
  ongoing : .eof ∉ kindsIn (consumedTokens tokens)
  expects (kind : TokenKind) : Viable (kindsIn (consumedTokens tokens) ++ [kind]) ↔
    kind ∈ error.expected ∨ ComesToProbe tokens (consumedTokens tokens) ∧ kind = .leftParen
  omits : ComesToProbe tokens (consumedTokens tokens) → .leftParen ∉ error.expected
  dead : ¬ Viable (kindsIn (consumedTokens tokens) ++ [error.unexpected.kind]) ∨
    ComesToProbe tokens (consumedTokens tokens) ∧ error.unexpected.kind = .leftParen ∧
      ¬ Viable (kindsIn (consumedTokens tokens) ++
        [error.unexpected.kind, (streamOf tokens ((consumedTokens tokens).length + 1)).kind])

namespace Refusal

variable {error : SyntaxError}

theorem kinds (h : Refusal tokens error) :
    kindsIn (consumedTokens tokens) = takenOf (streamOf tokens) (consumedTokens tokens).length := by
  rw [← kindsIn_map, ← h.consumed]

/-- As long as the input does not end, what is shown stands behind the tokens consumed. -/
theorem stands_ahead (h : Refusal tokens error) {k : Nat}
    (hongoing : .eof ∉ takenOf (streamOf tokens) ((consumedTokens tokens).length + k)) :
    ∃ finish, consumedTokens tokens ++
      (List.range (k + 1)).map (fun i => streamOf tokens ((consumedTokens tokens).length + i)) <+:
        tokens ++ [.eof finish] := by
  obtain ⟨finish, hbegin⟩ := stream_begin hongoing
  rw [Nat.add_assoc, List.range_add, List.map_append, ← h.consumed, List.map_map] at hbegin
  exact ⟨finish, hbegin⟩

/-- The token that is refused stands right behind those that have been consumed. -/
theorem stands (h : Refusal tokens error) :
    ∃ finish, consumedTokens tokens ++ [error.unexpected] <+: tokens ++ [.eof finish] := by
  have hongoing := h.ongoing
  rw [h.kinds] at hongoing
  obtain ⟨finish, hbegin⟩ := h.stands_ahead (k := 0) hongoing
  refine ⟨finish, ?_⟩
  rw [h.unexpected]
  exact hbegin

/-- Unless the input ends there, one more token stands behind it. -/
theorem stands_second (h : Refusal tokens error) (hother : error.unexpected.kind ≠ .eof) :
    ∃ finish, consumedTokens tokens ++
      [error.unexpected, streamOf tokens ((consumedTokens tokens).length + 1)] <+:
        tokens ++ [.eof finish] := by
  have hmore : .eof ∉ takenOf (streamOf tokens) ((consumedTokens tokens).length + 1) := by
    rw [takenOf_succ, ← h.kinds, ← h.unexpected, List.mem_append, List.mem_singleton, not_or]
    exact ⟨h.ongoing, hother.symm⟩
  obtain ⟨finish, hbegin⟩ := h.stands_ahead hmore
  refine ⟨finish, ?_⟩
  rw [h.unexpected]
  exact hbegin

end Refusal

/-- **What a parse has consumed begins a sentence**, however it ends. -/
theorem viable_consumedTokens (tokens : List Token) : Viable (kindsIn (consumedTokens tokens)) := by
  obtain ⟨n, stage, hstage, -, hconsumed⟩ := program_ends (reads_ofList tokens)
  have hsound := Stage.sound_after rfl (reads_ofList tokens) hstage
  rw [consumedTokens, hconsumed, kindsIn_map]
  exact hsound.faithful.viable

/-- What a parse has consumed are the first tokens of its input. -/
theorem consumedTokens_begin (tokens : List Token) :
    ∃ finish, consumedTokens tokens <+: tokens ++ [.eof finish] := by
  have hviable := viable_consumedTokens tokens
  obtain ⟨n, stage, -, -, hconsumed⟩ := program_ends (reads_ofList tokens)
  rw [consumedTokens, hconsumed, kindsIn_map] at hviable
  rw [consumedTokens, hconsumed]
  cases hgeneration : stage.parser.generation with
  | zero => exact ⟨.start, List.nil_prefix⟩
  | succ m =>
    refine stream_begin fun heof => ?_
    -- nothing is consumed behind the end of the input
    rw [hgeneration, takenOf_succ] at hviable
    obtain ⟨rest, hsentence⟩ := hviable
    rw [List.append_assoc] at hsentence
    cases eq_nil_of_eof hsentence heof

/-- Behind the identifier of a negated fragment an opening parenthesis cannot come. -/
theorem not_viable_after_negative {earlier : List Token} {sign name : Token}
    (hfragment : ComesTo tokens .fragment earlier) (hsign : sign.kind = .minus)
    (hname : name.kind = .identifier) (hconsumed : consumedTokens tokens = earlier ++ [sign, name]) :
    ¬ Viable (kindsIn (consumedTokens tokens) ++ [.leftParen]) := by
  obtain ⟨n, rest, parser, hstage, hbefore⟩ := hfragment
  obtain ⟨m, last, hlast, -, htaken⟩ := program_ends (reads_ofList tokens)
  have hearlier : earlier = (List.range parser.generation).map (streamOf tokens) := by
    rw [← hbefore]
    exact consumed_of_stage hstage
  have hsame : (List.range last.parser.generation).map (streamOf tokens) = earlier ++ [sign, name] :=
    htaken.symm.trans hconsumed
  rw [hearlier] at hsame
  -- two tokens more have been consumed than when the parse came to the fragment
  have hlength : last.parser.generation = parser.generation + 2 := by
    simpa using congrArg List.length hsame
  rw [hlength, List.range_succ, List.range_succ, List.append_assoc, List.map_append] at hsame
  have hstream : streamOf tokens parser.generation = sign := by
    simpa using (List.cons.inj (List.append_cancel_left hsame)).1
  have hminus : (streamOf tokens parser.generation).kind = .minus := by rw [hstream, hsign]
  have hfaithful := (Stage.sound_after rfl (reads_ofList tokens) hstage).faithful
  have hkinds : kindsIn (consumedTokens tokens) =
      takenOf (streamOf tokens) parser.generation ++ [.minus, .identifier] := by
    rw [hconsumed, hearlier, ← kindsIn_map, kindsIn, List.map_append]
    simp [hsign, hname]
  rw [hkinds, List.append_assoc]
  exact hfaithful.dead_after_negative hminus

/-- **A refusal in terms of the grammar.** -/
theorem refusal {error : SyntaxError} (h : parseTokens tokens = .error (.unexpected error)) :
    Refusal tokens error := by
  obtain ⟨n, stage, hstage, hends, hconsumed⟩ := program_ends (reads_ofList tokens)
  have hsound := Stage.sound_after rfl (reads_ofList tokens) hstage
  have houtcome : (Parser.ofSource (TokenList.ofList tokens)).outcome = .error (.unexpected error) := h
  have hlength : (consumedTokens tokens).length = stage.parser.generation := by
    rw [consumedTokens, hconsumed]
    simp
  have hkinds : kindsIn (consumedTokens tokens) = takenOf (streamOf tokens) stage.parser.generation := by
    rw [consumedTokens, hconsumed, kindsIn_map]
  have hended := hends
  rw [houtcome] at hended
  cases hended with
  | @refused goal rest missed wanted hagenda hplan =>
    have hprobe : ComesToProbe tokens (consumedTokens tokens) ↔
        (Stage.mk Goal.program (.ofSource (TokenList.ofList tokens))).Asks n stage.parser.generation ∨
          goal.probe?.isSome = true := by
      rw [consumedTokens, hconsumed]
      exact comesToProbe_of_ends hstage hagenda hends
    have hfaithful := hsound.faithful
    rw [hagenda] at hfaithful
    obtain ⟨hexpects, homits⟩ := hfaithful.expected_of_refuse Goal.leftParen_of_hits hplan
    have hdead := hfaithful.dead_of_refuse rfl hplan
    refine ⟨?_, ?_, ?_, ?_, ?_, ?_⟩
    · rw [hlength]
      exact hconsumed
    · rw [hlength]
    · rw [hkinds]
      exact hfaithful.eof_not_mem hplan
    · intro kind
      rw [hkinds]
      exact (hexpects kind).trans (or_congr_right (and_congr_left fun _ => hprobe.symm))
    · intro hasked
      exact homits (hprobe.1 hasked)
    · rw [hkinds, hlength]
      refine hdead.imp_right ?_
      rintro ⟨hasked, hnext, hdead⟩
      exact ⟨hprobe.2 hasked, hnext, hdead⟩

end Cal
