import Cal.Proofs.Parser.Arguments
import Cal.Proofs.Parser.Pace

/-!
# Calls within expressions

After an identifier with which a fragment of an expression has begun, arguments in parentheses make a call of it.
They may be left out wherever they stand, and put in wherever they do not: nothing before or behind them is parsed
differently. Before them, because no probe has looked past the identifier; behind them, because what follows cannot
begin with an opening parenthesis.

* `suffix_elsewhere`: a parse comes to the place of a call whatever is there.
* `accepted_without_call`, `accepted_with_call`: the edits.
* `call_optional`: both, at every such place of an accepted list.
-/

namespace Cal

section Suffix

variable {tokens other : List Token} {rest : List Goal} {parser : Parser TokenList} {m : Nat}

/-- **Where a call may follow**, an identifier has just been taken with which a fragment begins, and that by the
last step. -/
theorem name_of_suffix (hstage : (Stage.ofTokens tokens).after m = some ⟨.callSuffix :: rest, parser⟩) :
    ∃ front name, parser.buffer.past.reverse = front ++ [name] ∧ name.kind = .identifier ∧
      ComesTo tokens .fragment front ∧ ∀ j < m, ∀ stage, (Stage.ofTokens tokens).after j = some stage →
        stage.parser.generation < parser.generation := by
  cases Stage.suffixed_after rfl hstage with
  | none hnone => simp at hnone
  | soon _ _ _ _ _ hsoon => cases hsoon
  | @now k more before name hk hfragment _ hname _ _ htaken =>
    have hpast : parser.buffer.past.reverse = before.buffer.past.reverse ++ [name] := by
      rw [show parser.buffer.past = _ from htaken, List.reverse_cons]
    refine ⟨before.buffer.past.reverse, name, hpast, hname, ⟨k, more, before, hfragment, rfl⟩, ?_⟩
    have hgeneration : parser.generation = before.generation + 1 := by
      have hlength := congrArg List.length hpast
      rw [consumed_of_stage hstage, List.length_append, consumed_of_stage hfragment] at hlength
      simpa using hlength
    have hsound := Stage.sound_after rfl (reads_ofList tokens) hfragment
    -- the fragment is taken apart without a token, so that only the last step takes one
    intro j hj stage hearlier
    obtain ⟨between, hbetween⟩ := Stage.exists_after hstage (m := k + 1) (by omega)
    have hle : stage.parser.generation ≤ between.parser.generation :=
      (Stage.sound_after rfl (reads_ofList tokens) hbetween).earlier j stage (by omega) hearlier
    obtain ⟨goal, others, goals, hagenda, -, hcarried, -⟩ :=
      hsound.planned (Stage.next?_of_after hfragment hbetween)
    obtain ⟨rfl, rfl⟩ := List.cons.inj hagenda
    have hkept : between.parser.generation = before.generation := by
      refine Plan.generation_of_ok hcarried fun htake => ?_
      cases Goal.form_of_take htake
    omega

/-- The token before a place where a call may follow is an identifier. -/
theorem identifier_before (hstage : (Stage.ofTokens tokens).after m = some ⟨.callSuffix :: rest, parser⟩) :
    ∃ k, parser.generation = k + 1 ∧ (streamOf tokens k).kind = .identifier := by
  obtain ⟨front, name, hpast, hname, -, -⟩ := name_of_suffix hstage
  rw [consumed_of_stage hstage] at hpast
  cases hgeneration : parser.generation with
  | zero => simp [hgeneration] at hpast
  | succ k =>
    rw [hgeneration, List.range_succ, List.map_append] at hpast
    obtain ⟨-, hlast⟩ := List.append_inj' hpast rfl
    rw [List.map_singleton, List.singleton_inj] at hlast
    exact ⟨k, rfl, hlast ▸ hname⟩

/-- **Nothing behind the identifier has been looked at.** A parse of other tokens that begin as far comes to the
same goals by as many steps. -/
theorem suffix_elsewhere (hstage : (Stage.ofTokens tokens).after m = some ⟨.callSuffix :: rest, parser⟩)
    (hsame : ∀ k < parser.generation, (streamOf other k).kind = (streamOf tokens k).kind) :
    ∃ twin, (Stage.ofTokens other).after m = some ⟨.callSuffix :: rest, twin⟩ ∧
      twin.generation = parser.generation ∧ twin.depth = parser.depth := by
  obtain ⟨_, _, -, -, -, hearlier⟩ := name_of_suffix hstage
  obtain ⟨k, hk, hname⟩ := identifier_before hstage
  have hplan : ∀ j < m, ∀ goal others before x,
      (Stage.ofTokens tokens).after (0 + j) = some ⟨goal :: others, before⟩ → before.generation = 0 + x →
        goal.planAt (streamOf other) (0 + x) = goal.planAt (streamOf tokens) (0 + x) := by
    intro j hj goal others before x hbefore hx
    have hlt : 0 + x < parser.generation := by
      rw [← hx]
      rw [Nat.zero_add] at hbefore
      exact hearlier j hj _ hbefore
    have hnext := hsame (0 + x) hlt
    by_cases hsecond : 0 + x + 1 < parser.generation
    · rw [Goal.planAt, Goal.planAt, hnext, hsame _ hsecond]
    · -- the identifier is next, and whatever comes behind it is not looked at
      obtain rfl : k = 0 + x := by omega
      have hmiss : ∀ second, goal.hits .identifier second = false := by
        intro second
        rw [Bool.eq_false_iff]
        intro hhit
        cases Goal.leftParen_of_hits hhit
      rw [Goal.planAt, Goal.planAt, hnext, hname, hmiss, hmiss]
  have hstart : Abreast 0 0 (Stage.ofTokens tokens) (Stage.ofTokens other) := ⟨rfl, rfl, 0, rfl, rfl⟩
  have hbegin : (Stage.ofTokens other).after 0 = some (Stage.ofTokens other) := rfl
  have hcome : (Stage.ofTokens tokens).after (0 + m) = some ⟨.callSuffix :: rest, parser⟩ := by
    rw [Nat.zero_add, hstage]
  obtain ⟨⟨agenda, twin⟩, htwin, hagenda, hdepth, x, hx, hx'⟩ := hstart.run rfl hbegin hcome hplan
  rw [Nat.zero_add] at htwin
  obtain rfl : agenda = .callSuffix :: rest := hagenda
  have hx : parser.generation = 0 + x := hx
  have hx' : twin.generation = 0 + x := hx'
  exact ⟨twin, htwin, by omega, hdepth⟩

end Suffix

/-- **What is left of accepted tokens** is what the goals that are left derive. -/
theorem derives_of_accepted {tokens : List Token} {stage : Stage TokenList} {n : Nat}
    (h : parseTokens tokens = .ok ()) (hstage : (Stage.ofTokens tokens).after n = some stage)
    (hongoing : .eof ∉ takenOf (streamOf tokens) stage.parser.generation) :
    Derives (formsOf (itemsOf stage.parser.depth stage.agenda))
      ((kindsBeforeEof tokens ++ [TokenKind.eof]).drop stage.parser.generation) := by
  have hprogram := isProgram_of_ok h
  obtain ⟨marks, hkinds, hnesting⟩ := exists_isNesting (isSentence_iff.2 ⟨_, rfl, hprogram⟩)
  have hfaithful := (Stage.sound_after rfl (reads_ofList tokens) hstage).faithful
  have hcovers := hfaithful.covers.resolve_right (by
    intro hlost
    -- the opening parenthesis and what is behind it come there in the program
    have hmore : takenOf (streamOf tokens) (stage.parser.generation + 2) =
        takenOf (streamOf tokens) stage.parser.generation ++ [(streamOf tokens stage.parser.generation).kind,
          (streamOf tokens (stage.parser.generation + 1)).kind] := by
      rw [takenOf_succ, takenOf_succ, List.append_assoc]
      rfl
    refine hlost.dead ?_
    have hviable : Viable (takenOf (streamOf tokens) (stage.parser.generation + 1 + 1)) := by
      refine viable_of_isProgram hprogram ?_
      have hnext : (streamOf tokens stage.parser.generation).kind = .leftParen := hlost.next
      rw [takenOf_succ, hnext]
      simpa using hongoing
    exact hmore ▸ hviable)
  have hbegin : takenOf (streamOf tokens) (stage.parser.generation + 1) <+: kindsOf marks := by
    rw [hkinds, ← takenOf_closed]
    exact takenOf_begin (Nat.succ_le_succ (le_of_eof_not_mem hongoing))
  have hderives := derives_of_predicts (hcovers marks (predicts_of_isNesting hnesting) hbegin)
  have hdrop : kindsOf (marks.drop stage.parser.generation) = (kindsOf marks).drop stage.parser.generation :=
    List.map_drop
  rw [← hkinds, ← hdrop]
  exact hderives

/-- A parse comes to a place where a call may follow, by `m` steps and having consumed the tokens `before`, and takes
the tokens `call` there as a call: it turns to the arguments of one, and to what was to come next when it has
consumed the call as well. -/
def TakesCall (tokens : List Token) (m : Nat) (rest : List Goal) (before call : List Token) : Prop :=
  ∃ n parser opened later,
    (Stage.ofTokens tokens).after m = some ⟨.callSuffix :: rest, parser⟩ ∧ parser.buffer.past.reverse = before ∧
    (Stage.ofTokens tokens).after (m + 1) =
      some ⟨.seen .leftParen :: .argList :: .token .rightParen :: rest, opened⟩ ∧ m + 1 < n ∧
    (Stage.ofTokens tokens).after n = some ⟨rest, later⟩ ∧ later.buffer.past.reverse = before ++ call

section Edits

variable {tokens before call more : List Token} {rest : List Goal} {parser : Parser TokenList} {m n : Nat}

/-- As long as the input has not ended, what has been taken is the beginning of the list. -/
theorem exists_append (h : .eof ∉ takenOf (streamOf tokens) n) :
    ∃ after, tokens = (List.range n).map (streamOf tokens) ++ after := by
  obtain ⟨finish, hbegin⟩ := stream_begin h
  rw [List.range_succ, List.map_append] at hbegin
  have hlength : n ≤ tokens.length := by
    have htaken := (List.prefix_append _ _).trans hbegin |>.length_le
    have hshort := hbegin.length_le
    simp at hshort
    omega
  have hprefix : (List.range n).map (streamOf tokens) <+: tokens :=
    List.prefix_of_prefix_length_le ((List.prefix_append _ _).trans hbegin) (List.prefix_append _ _)
      (by simpa using hlength)
  obtain ⟨after, hafter⟩ := hprefix
  exact ⟨after, hafter.symm⟩

/-- Where a call may follow the input has not ended, since an identifier has just been taken. -/
theorem ongoing_of_suffix (hstage : (Stage.ofTokens tokens).after m = some ⟨.callSuffix :: rest, parser⟩) :
    .eof ∉ takenOf (streamOf tokens) parser.generation := by
  obtain ⟨k, hk, hname⟩ := identifier_before hstage
  rw [hk, takenOf_succ, List.mem_append, List.mem_singleton, hname]
  rintro (hended | hended)
  · have heof := eof_of_mem_takenOf hended
    rw [hname] at heof
    cases heof
  · cases hended

theorem sighting_of_suffix (hstage : (Stage.ofTokens tokens).after m = some ⟨.callSuffix :: rest, parser⟩) :
    ∃ seen buffer, Probe.callSuffix.run parser.buffer =
      .ok ⟨Probe.callSuffix.hits (streamOf tokens parser.generation).kind
        (streamOf tokens (parser.generation + 1)).kind, seen⟩ buffer := by
  have hshows := (Stage.sound_after rfl (reads_ofList tokens) hstage).reads.shows
  obtain ⟨buffer, hrun, -⟩ := Probe.run_of_shows hshows rfl (Probe.sight_of_ok rfl _)
  exact ⟨_, buffer, hrun⟩

/-- A parse that has taken so many tokens has consumed them. -/
theorem consumed_of_append {stage : Stage TokenList} (hbefore : ∀ token ∈ before, token.isEof = false)
    (hstage : (Stage.ofTokens (before ++ more)).after n = some stage)
    (htaken : stage.parser.generation = before.length) : stage.parser.buffer.past.reverse = before := by
  rw [consumed_of_stage hstage, htaken, (stream_append hbefore more).1]

/-- **A call is taken where one may follow.** -/
theorem takes_call (hbefore : ∀ token ∈ before, token.isEof = false) (hcall : IsCall call)
    (hstage : (Stage.ofTokens (before ++ call ++ more)).after m = some ⟨.callSuffix :: rest, parser⟩)
    (htaken : parser.generation = before.length) :
    TakesCall (before ++ call ++ more) m rest before call ∧
      ∃ n later, (Stage.ofTokens (before ++ call ++ more)).after n = some ⟨rest, later⟩ ∧
        later.generation = (before ++ call).length ∧ later.depth = parser.depth := by
  have hongoing : ∀ token ∈ before ++ call, token.isEof = false :=
    List.forall_mem_append.2 ⟨hbefore, hcall.isEof⟩
  obtain ⟨n, hkinds⟩ := hcall
  have hcoming : Coming (streamOf (before ++ call ++ more)) parser.generation (callKinds n) := by
    refine coming_of_getElem fun k hk => ?_
    have hshown : kindsIn (before ++ call) = kindsIn before ++ callKinds n := by
      rw [← hkinds, kindsIn, List.map_append]
    rw [kind_streamOf, kindsBeforeEof_append hongoing, hshown, htaken, List.append_assoc, List.append_assoc,
      List.getElem?_append_right (by simp), List.length_map, Nat.add_sub_cancel_left,
      List.getElem?_append_left hk, List.getElem?_eq_getElem hk, Option.getD_some]
  obtain ⟨second, behind, hbegins, hhits⟩ := hits_callKinds n
  have hplan : Goal.callSuffix.planAt (streamOf (before ++ call ++ more)) parser.generation =
      .go [] false [.seen .leftParen, .argList, .token .rightParen] := by
    rw [hbegins] at hcoming
    obtain ⟨hopen, hsecond, -⟩ := hcoming
    have hhit : Goal.callSuffix.hits .leftParen second = true := hhits
    rw [Goal.planAt, hopen, hsecond, hhit]
    rfl
  obtain ⟨opened, hopened, hgeneration, hdepth⟩ := next_of_go hstage hplan
  obtain ⟨p, later, hp, hlater, hlength, hsame⟩ := (Arrives.of_stage hopened).call (hgeneration ▸ hcoming)
  have hlength : later.generation = (before ++ call).length := by
    rw [hlength, hgeneration, htaken, List.length_append, ← hkinds, List.length_map]
  refine ⟨⟨p, parser, opened, later, hstage, ?_, hopened, by omega, hlater, ?_⟩, p, later, hlater, hlength,
    hsame.trans hdepth⟩
  · rw [List.append_assoc] at hstage
    exact consumed_of_append hbefore hstage htaken
  · exact consumed_of_append hongoing hlater hlength

/-- **Where the probe finds a call, there is one**, and behind it comes no opening parenthesis. -/
theorem call_of_hit (h : parseTokens (before ++ more) = .ok ())
    (hbefore : ∀ token ∈ before, token.isEof = false)
    (hstage : (Stage.ofTokens (before ++ more)).after m = some ⟨.callSuffix :: rest, parser⟩)
    (htaken : parser.generation = before.length)
    (hnext : (streamOf (before ++ more) parser.generation).kind = .leftParen) :
    ∃ call after, more = call ++ after ∧ IsCall call ∧ (streamOf after 0).kind ≠ .leftParen := by
  have hderives := derives_of_accepted h hstage (ongoing_of_suffix hstage)
  have hlength : (kindsIn before).length = before.length := List.length_map _
  rw [show (Stage.mk (.callSuffix :: rest) parser).parser.generation = before.length from htaken,
    kindsBeforeEof_append hbefore, List.append_assoc, List.drop_left' hlength] at hderives
  -- what follows cannot begin with an opening parenthesis
  have hshuns : .leftParen ∈ Goal.callSuffix.form.shuns := by decide
  have hstuck : .leftParen ∉ firstsOf (formsOf (itemsOf parser.depth rest)) :=
    (Stage.sound_after rfl (reads_ofList _) hstage).faithful.tidy.2.1 hshuns
  have hfirst : ∀ {after : List Token},
      Derives (formsOf (itemsOf parser.depth rest)) (kindsBeforeEof after ++ [.eof]) →
        (streamOf after 0).kind ≠ .leftParen := by
    intro after hrest hparen
    rw [kind_streamOf] at hparen
    cases hkinds : kindsBeforeEof after ++ [.eof] with
    | nil => simp at hkinds
    | cons kind kinds =>
      rw [hkinds] at hparen hrest
      obtain rfl : kind = .leftParen := hparen
      exact hstuck (mem_firstsOf_of_derives hrest)
  rcases derives_either.1 hderives with hcall | hnone
  · obtain ⟨kinds, others, hkinds, hcall, hrest⟩ := derives_split [_] hcall
    obtain ⟨n, rfl⟩ := derives_call hcall
    have hbegin : callKinds n <+: kindsBeforeEof more := by
      have hprefix : callKinds n <+: kindsBeforeEof more ++ [.eof] := ⟨others, hkinds.symm⟩
      refine (List.prefix_concat_iff.1 hprefix).resolve_left fun hall => eof_not_mem_callKinds n ?_
      rw [hall]
      simp
    obtain ⟨call, after, rfl, hcalled⟩ := exists_of_kindsBeforeEof hbegin
    have hcall : IsCall call := ⟨n, hcalled⟩
    refine ⟨call, after, rfl, hcall, hfirst ?_⟩
    rw [kindsBeforeEof_append hcall.isEof, hcalled, List.append_assoc, List.append_cancel_left_eq] at hkinds
    rw [hkinds]
    exact hrest
  · refine absurd hnext ?_
    rw [htaken, ← Nat.add_zero before.length, (stream_append hbefore more).2]
    exact hfirst (derives_empty.1 hnone)

/-- Where the probe finds no call, the parse goes on with what comes next. -/
theorem next_of_miss (hstage : (Stage.ofTokens tokens).after m = some ⟨.callSuffix :: rest, parser⟩)
    (hmiss : Probe.callSuffix.hits (streamOf tokens parser.generation).kind
      (streamOf tokens (parser.generation + 1)).kind = false) :
    ∃ after, (Stage.ofTokens tokens).after (m + 1) = some ⟨rest, after⟩ ∧
      after.generation = parser.generation ∧ after.depth = parser.depth := by
  have hmiss : Goal.callSuffix.hits (streamOf tokens parser.generation).kind
      (streamOf tokens (parser.generation + 1)).kind = false := hmiss
  have hplan : Goal.callSuffix.planAt (streamOf tokens) parser.generation = .go [] false [] := by
    rw [Goal.planAt, hmiss]
    rfl
  exact next_of_go hstage hplan

/-- A place where a call may follow is come to whatever follows. -/
theorem suffix_behind (hstage : (Stage.ofTokens (before ++ more)).after m = some ⟨.callSuffix :: rest, parser⟩)
    (htaken : parser.generation = before.length) (after : List Token) :
    ∃ twin, (Stage.ofTokens (before ++ after)).after m = some ⟨.callSuffix :: rest, twin⟩ ∧
      twin.generation = before.length ∧ twin.depth = parser.depth := by
  have hbegin : (before ++ after).take before.length = (before ++ more).take before.length := by
    rw [List.take_left, List.take_left]
  have hsame : ∀ k < parser.generation, (streamOf (before ++ after) k).kind = (streamOf (before ++ more) k).kind := by
    intro k hk
    rw [streamOf_congr (by simp) hbegin k (htaken ▸ hk)]
  obtain ⟨twin, htwin, hgeneration, hdepth⟩ := suffix_elsewhere hstage hsame
  exact ⟨twin, htwin, hgeneration.trans htaken, hdepth⟩

/-- **A call may be left out.** -/
theorem accepted_without_call {after : List Token} (h : parseTokens (before ++ call ++ after) = .ok ())
    (hbefore : ∀ token ∈ before, token.isEof = false) (hcall : IsCall call)
    (hstage : (Stage.ofTokens (before ++ call ++ after)).after m = some ⟨.callSuffix :: rest, parser⟩)
    (htaken : parser.generation = before.length) (hnext : (streamOf after 0).kind ≠ .leftParen) :
    parseTokens (before ++ after) = .ok () := by
  obtain ⟨-, n, later, hlater, hlength, hdepth⟩ := takes_call hbefore hcall hstage htaken
  rw [List.append_assoc] at hstage
  obtain ⟨twin, htwin, htaken', hdepth'⟩ := suffix_behind hstage htaken after
  have hmiss : Probe.callSuffix.hits (streamOf (before ++ after) twin.generation).kind
      (streamOf (before ++ after) (twin.generation + 1)).kind = false := by
    have hshown := (stream_append hbefore after).2 0
    rw [Nat.add_zero, ← htaken'] at hshown
    simp [Probe.hits, hshown, hnext]
  obtain ⟨skipped, hskipped, hgeneration, hsame⟩ := next_of_miss htwin hmiss
  have hongoing : ∀ token ∈ before ++ call, token.isEof = false :=
    List.forall_mem_append.2 ⟨hbefore, hcall.isEof⟩
  refine accepted_behind hongoing hbefore hlater hskipped hlength (hgeneration.trans htaken') ?_ h
  rw [hsame, hdepth', hdepth]

/-- **A call may be put in.** -/
theorem accepted_with_call (h : parseTokens (before ++ more) = .ok ())
    (hbefore : ∀ token ∈ before, token.isEof = false) (hcall : IsCall call)
    (hstage : (Stage.ofTokens (before ++ more)).after m = some ⟨.callSuffix :: rest, parser⟩)
    (htaken : parser.generation = before.length)
    (hmiss : Probe.callSuffix.hits (streamOf (before ++ more) parser.generation).kind
      (streamOf (before ++ more) (parser.generation + 1)).kind = false) :
    parseTokens (before ++ call ++ more) = .ok () ∧ TakesCall (before ++ call ++ more) m rest before call := by
  obtain ⟨skipped, hskipped, hgeneration, hdepth⟩ := next_of_miss hstage hmiss
  obtain ⟨twin, htwin, htaken', hdepth'⟩ := suffix_behind hstage htaken (call ++ more)
  rw [← List.append_assoc] at htwin
  obtain ⟨htakes, n, later, hlater, hlength, hsame⟩ := takes_call hbefore hcall htwin htaken'
  have hongoing : ∀ token ∈ before ++ call, token.isEof = false :=
    List.forall_mem_append.2 ⟨hbefore, hcall.isEof⟩
  refine ⟨?_, htakes⟩
  refine accepted_behind hbefore hongoing hskipped hlater (hgeneration.trans htaken) hlength ?_ h
  rw [hsame, hdepth', hdepth]

/-- **A call within an expression is optional both ways.** -/
theorem call_optional (h : parseTokens tokens = .ok ())
    (hstage : (Stage.ofTokens tokens).after m = some ⟨.callSuffix :: rest, parser⟩) :
    ∃ front name after hit seen buffer,
      parser.buffer.past.reverse = front ++ [name] ∧ name.kind = .identifier ∧ ComesTo tokens .fragment front ∧
      tokens = front ++ [name] ++ after ∧ Probe.callSuffix.run parser.buffer = .ok ⟨hit, seen⟩ buffer ∧
      (hit = true → ∃ call more, after = call ++ more ∧ IsCall call ∧
        TakesCall tokens m rest (front ++ [name]) call ∧ parseTokens (front ++ [name] ++ more) = .ok ()) ∧
      (hit = false → ∀ call, IsCall call → parseTokens (front ++ [name] ++ call ++ after) = .ok () ∧
        TakesCall (front ++ [name] ++ call ++ after) m rest (front ++ [name]) call) := by
  obtain ⟨front, name, hpast, hname, hfragment, -⟩ := name_of_suffix hstage
  obtain ⟨seen, buffer, hrun⟩ := sighting_of_suffix hstage
  have hongoing := ongoing_of_suffix hstage
  obtain ⟨after, hafter⟩ := exists_append hongoing
  obtain ⟨before, hbefore⟩ : ∃ before, before = front ++ [name] := ⟨_, rfl⟩
  have hconsumed := consumed_of_stage hstage
  simp only at hconsumed
  rw [← hconsumed, hpast, ← hbefore] at hafter
  rw [hpast, ← hbefore] at hconsumed
  have hothers : ∀ token ∈ before, token.isEof = false := by
    refine isEof_of_kindsIn ?_
    rw [hconsumed, kindsIn_map]
    exact hongoing
  have htaken : parser.generation = before.length := by
    rw [hconsumed, List.length_map, List.length_range]
  subst hafter
  refine ⟨front, name, after, _, seen, buffer, hpast, hname, hfragment, hbefore ▸ rfl, hrun, ?_, ?_⟩
  · intro hhit
    have hhit : Goal.callSuffix.hits (streamOf (before ++ after) parser.generation).kind
        (streamOf (before ++ after) (parser.generation + 1)).kind = true := hhit
    have hnext := Goal.leftParen_of_hits hhit
    obtain ⟨call, more, rfl, hcall, hbehind⟩ := call_of_hit h hothers hstage htaken hnext
    rw [← List.append_assoc] at h hstage
    obtain ⟨htakes, -⟩ := takes_call hothers hcall hstage htaken
    have hwithout := accepted_without_call h hothers hcall hstage htaken hbehind
    rw [← hbefore, ← List.append_assoc]
    exact ⟨call, more, rfl, hcall, htakes, hwithout⟩
  · intro hmiss call hcall
    rw [← hbefore]
    exact accepted_with_call h hothers hcall hstage htaken hmiss

/-- In `main begin x := f(a); end` the call is taken, and may be left out. -/
theorem call_optional_of_call :
    let tokens := tokensOf [.mainKw, .beginKw, .identifier, .assign, .identifier, .leftParen, .identifier,
      .rightParen, .semicolon, .endKw]
    ∃ m rest parser, parseTokens tokens = .ok () ∧
      (Stage.ofTokens tokens).after m = some ⟨.callSuffix :: rest, parser⟩ ∧
      ∃ front name call more, tokens = front ++ [name] ++ (call ++ more) ∧
        TakesCall tokens m rest (front ++ [name]) call ∧ parseTokens (front ++ [name] ++ more) = .ok () := by
  intro tokens
  have haccepted : parseTokens tokens = .ok () := by decide +kernel
  have hcomes : ((Stage.ofTokens tokens).after 14).any (fun stage => stage.agenda.head? == some .callSuffix &&
      match Probe.callSuffix.run stage.parser.buffer with
      | .ok sighting _ => sighting.hit
      | .error _ _ => false) = true := by
    decide +kernel
  obtain ⟨⟨agenda, parser⟩, hstage, hcomes⟩ := (Option.any_eq_true _ _).1 hcomes
  obtain ⟨hhead, hhits⟩ := Bool.and_eq_true_iff.1 hcomes
  obtain ⟨rest, rfl⟩ := List.head?_eq_some_iff.1 (beq_iff_eq.1 hhead)
  obtain ⟨front, name, after, hit, seen, buffer, -, -, -, hafter, hrun, htaken, -⟩ := call_optional haccepted hstage
  simp only [hrun] at hhits
  obtain ⟨call, more, rfl, -, htakes, hwithout⟩ := htaken hhits
  exact ⟨14, rest, parser, haccepted, hstage, front, name, call, more, hafter, htakes, hwithout⟩

end Edits

end Cal
