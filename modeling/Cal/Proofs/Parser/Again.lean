import Cal.Proofs.Parser.Alike
import Cal.Proofs.Parser.Language
import Cal.Proofs.Parser.Opening

/-!
# Parsing again

A parser can be asked to parse again after any outcome. It comes to what a new parser comes to that reads
what is left, apart from one thing: where the next token is refused before anything has been taken, what
was expected at the end of the parse before is expected as well.

* `Resumes`: how the standings of the two parsers correspond.
* `returns_resumed`, `returns_fresh`: the two parses come to the same, and if one comes to an end, so does
  the other.
* `stuck_of_unstartable`: a token that cannot begin a program is refused for ever.
* `parse_again`: all this together, for a parser that has parsed any number of times.
-/

namespace Cal

/-- The standing of a parser that parses again, beside that of a new one. It has taken `shift` tokens more,
and as long as the new parser has taken none, the points in `live` are live as well. -/
structure Resumes (live : List Decision) (shift : Nat) (standing other : Standing) : Prop where
  generation : other.generation = standing.generation + shift
  depth : other.depth = standing.depth
  limit : other.limit = standing.limit
  past (point : Decision) (n : Nat) : standing.decisions.stamp? point = some n → n ≤ standing.generation
  past' (point : Decision) (n : Nat) : other.decisions.stamp? point = some n → n ≤ other.generation
  live (point : Decision) : other.decisions.stamp? point = some other.generation ↔
    standing.decisions.stamp? point = some standing.generation ∨ standing.generation = 0 ∧ point ∈ live

namespace Resumes

variable {live : List Decision} {shift : Nat} {standing other reached : Standing} {plan : Plan} {token : Token}
  {goals : List Goal} {error : ParseError}

theorem miss (h : Resumes live shift standing other) (missed : List Decision) :
    Resumes live shift (standing.miss missed) (other.miss missed) := by
  refine ⟨h.generation, h.depth, h.limit, fun point n => Standing.le_of_stamp?_miss h.past,
    fun point n => Standing.le_of_stamp?_miss h.past', fun point => ?_⟩
  have hgeneration : (standing.miss missed).generation = standing.generation := rfl
  have hgeneration' : (other.miss missed).generation = other.generation := rfl
  rw [Standing.stamp?_miss, Standing.stamp?_miss, hgeneration, hgeneration']
  by_cases hpoint : point ∈ missed
  · simp [hpoint]
  · rw [if_neg hpoint, if_neg hpoint]
    exact h.live point

/-- Once a token is taken, no point is live in either. -/
theorem take (h : Resumes live shift standing other) :
    Resumes live shift { standing with generation := standing.generation + 1 }
      { other with generation := other.generation + 1 } := by
  refine ⟨?_, h.depth, h.limit, fun point n hstamp => Nat.le_succ_of_le (h.past point n hstamp),
    fun point n hstamp => Nat.le_succ_of_le (h.past' point n hstamp), fun point => ?_⟩
  · show other.generation + 1 = standing.generation + 1 + shift
    rw [h.generation, Nat.add_right_comm]
  · constructor
    · intro hlive
      have hle := h.past' point _ hlive
      exact absurd hle (Nat.not_succ_le_self _)
    · rintro (hlive | ⟨hzero, -⟩)
      · have hle := h.past point _ hlive
        exact absurd hle (Nat.not_succ_le_self _)
      · exact absurd hzero (Nat.succ_ne_zero _)

theorem withDepth (h : Resumes live shift standing other) (depth : Nat) :
    Resumes live shift { standing with depth } { other with depth } :=
  ⟨h.generation, rfl, h.limit, h.past, h.past', h.live⟩

theorem exhausted?_eq (h : Resumes live shift standing other) : other.exhausted? = standing.exhausted? := by
  rw [Standing.exhausted?, Standing.exhausted?, h.limit, h.depth]

/-- Once a token is taken, the two expect the same. -/
theorem expected_eq (h : Resumes live shift standing other) (hmoved : standing.generation ≠ 0)
    (wanted : Option TokenKind) : other.expected wanted = standing.expected wanted := by
  have hlive (point : Decision) : other.decisions.stamp? point = some other.generation ↔
      standing.decisions.stamp? point = some standing.generation := by
    rw [h.live, or_iff_left]
    exact fun hzero => hmoved hzero.1
  ext kind
  simp only [Standing.mem_expected, hlive]

/-- **Every step keeps the correspondence.** -/
theorem corresponds (live : List Decision) (shift : Nat) : Corresponds shift (Resumes live shift) := by
  refine ⟨Resumes.generation, fun {plan token standing other reached goals} h hplan => ?_⟩
  rcases Plan.ok_cases hplan with ⟨rfl, rfl, rfl⟩ | ⟨missed, rfl, rfl⟩ | ⟨missed, inner, rfl, hnone, rfl, rfl⟩ |
    ⟨rfl, rfl, rfl⟩
  · exact ⟨_, rfl, h.take⟩
  · exact ⟨_, rfl, h.miss missed⟩
  · rw [← h.exhausted?_eq] at hnone
    have hmissed := (h.miss missed).withDepth (standing.depth + 1)
    refine ⟨{ other.miss missed with depth := other.depth + 1 }, ?_, ?_⟩
    · simp only [Plan.carryOut, hnone]
    · rw [h.depth]
      exact hmissed
  · refine ⟨_, rfl, ?_⟩
    rw [h.depth]
    exact h.withDepth _

/-- **Where a step fails in one, it fails in the other**, with the same error if a token has been taken or
none is refused. -/
theorem carryOut_error (h : Resumes live shift standing other)
    (hplan : plan.carryOut token standing = .error error reached) :
    ∃ error' reached', plan.carryOut token other = .error error' reached' ∧
      (error' = error ∨ standing.generation = 0 ∧
        ∃ refused refused', error = .unexpected refused ∧ error' = .unexpected refused') := by
  rcases Plan.error_cases hplan with ⟨missed, inner, limit, rfl, hlimit, rfl, -⟩ | ⟨missed, wanted, rfl, rfl, -⟩
  · rw [← h.exhausted?_eq] at hlimit
    exact ⟨.tooDeep limit token.position, other.miss missed, by simp only [Plan.carryOut, hlimit], .inl rfl⟩
  · refine ⟨_, _, rfl, ?_⟩
    by_cases hzero : standing.generation = 0
    · exact .inr ⟨hzero, _, _, rfl, rfl⟩
    · left
      rw [(h.miss missed).expected_eq hzero]

theorem act_error {goal : Goal} {view : Nat → Except LexError Token} (h : Resumes live shift standing other)
    (hact : goal.act view standing = .error error reached) :
    ∃ error' reached', goal.act view other = .error error' reached' ∧
      (error' = error ∨ standing.generation = 0 ∧
        ∃ refused refused', error = .unexpected refused ∧ error' = .unexpected refused') := by
  rcases Goal.act_error_cases hact with ⟨unseen, hsight, rfl, -⟩ | ⟨seen, hsight, hplanned⟩
  · have hact' : goal.act view other = .error (.lexical unseen)
        (other.miss (if (view 0).isOk then goal.missedBefore else [])) := by
      simp only [Goal.act, hsight]
    exact ⟨.lexical unseen, _, hact', .inl rfl⟩
  · rw [Goal.act_of_sight hsight]
    exact h.carryOut_error hplanned

end Resumes

variable {σ : Type} [Source σ] {parser after : Parser σ} {other : Parser (Leftover σ)}
  {outcome fresh : Outcome} {goals : List Goal} {kind : TokenKind} {next : Token} {n : Nat}

/-- A parser in order corresponds to a new one. -/
theorem resumes_of_orderly (h : parser.Orderly 0) :
    Resumes parser.live parser.generation (Parser.ofSource parser.buffer.leftover).standing parser.standing := by
  have hnone (point : Decision) :
      (Parser.ofSource parser.buffer.leftover).standing.decisions.stamp? point = none :=
    Decision.Log.stamp?_empty point
  refine ⟨(Nat.zero_add _).symm, h.depth, h.limit, fun point n hstamp => ?_, h.past, fun point => ?_⟩
  · rw [hnone] at hstamp
    cases hstamp
  · have hlive : point ∈ parser.live ↔
        parser.standing.decisions.stamp? point = some parser.standing.generation := Decision.Log.mem_live
    have hzero : (Parser.ofSource parser.buffer.leftover).standing.generation = 0 := rfl
    simp [hnone, hzero, hlive]

section Twice

variable (h : parser.Orderly 0)
include h

/-- What is in view of a parser is in view of a new one that reads what is left. -/
theorem view_fresh : (Parser.ofSource parser.buffer.leftover).buffer.view = parser.buffer.view :=
  Buffer.view_leftover h.closed

theorem views_fresh (k : Nat) (token : Token)
    (hk : (Parser.ofSource parser.buffer.leftover).buffer.view k = .ok token) :
    parser.buffer.view k = .ok token := by
  rw [← view_fresh h]
  exact hk

/-- **If a new parser comes to an end, so does the one that parses again**: it takes the same tokens, and
comes to the same unless it refuses the first one. -/
theorem returns_resumed (hfresh : (Parser.ofSource parser.buffer.leftover).Returns fresh other) :
    ∃ outcome after tokens, parser.Returns outcome after ∧
      after.buffer.past = tokens.reverse ++ parser.buffer.past ∧ other.buffer.past = tokens.reverse ∧
      (outcome = fresh ∨ tokens = [] ∧
        ∃ refused refused', fresh = .error (.unexpected refused) ∧ outcome = .error (.unexpected refused')) := by
  obtain ⟨n, stage, result, hstage, hresult, hfinish⟩ := returns_iff.1 hfresh
  obtain ⟨⟨agenda, reused⟩, htwin, halike⟩ :=
    Alike.after (Resumes.corresponds _ _) (views_fresh h) (resumes_of_orderly h) hstage
  obtain ⟨tokens, htook, htook'⟩ := halike.took
  have hpast : stage.parser.buffer.past = tokens.reverse := htook.past.trans (List.append_nil _)
  rcases Stage.result_cases hresult with ⟨hagenda, rfl⟩ | ⟨goal, rest, error, failed, hagenda, rfl, hstep, -⟩
  · cases hfinish
    obtain rfl : agenda = [] := halike.agenda.trans hagenda
    exact ⟨_, reused, tokens, returns_of_nil htwin, htook'.past, hpast, .inl rfl⟩
  · cases hfinish
    obtain rfl : agenda = goal :: rest := halike.agenda.trans hagenda
    have hview : reused.buffer.view = stage.parser.buffer.view := by
      rw [htook.view, view_fresh h]
      exact htook'.view
    -- as the step of the one fails, so does that of the other
    obtain ⟨hfails, hrecalled⟩ := act_of_step_error hstep
    rw [← hview] at hfails
    obtain ⟨error', reached, hact, herror⟩ := halike.stands.act_error hfails
    obtain ⟨failed', hstep', -, hrecalls⟩ := step_of_act_error hact
    refine ⟨_, _, tokens, returns_of_error htwin hstep', hrecalls.past.trans htook'.past,
      hrecalled.past.trans hpast, ?_⟩
    rcases herror with rfl | ⟨hzero, refused, refused', rfl, rfl⟩
    · exact .inl rfl
    · refine .inr ⟨?_, refused, refused', rfl, rfl⟩
      have hgeneration : stage.parser.standing.generation = 0 + tokens.length := htook.generation
      exact List.length_eq_zero_iff.1 (by omega)

/-- **If a parser that parses again comes to an end, so does a new one.** -/
theorem returns_fresh (hreturns : parser.Returns outcome after) :
    ∃ fresh other, (Parser.ofSource parser.buffer.leftover).Returns fresh other := by
  obtain ⟨n, stage, result, hstage, hresult, -⟩ := returns_iff.1 hreturns
  cases hlonger : (Stage.mk Goal.program (Parser.ofSource parser.buffer.leftover)).after (n + 1) with
  | some longer =>
    obtain ⟨twin, htwin, -⟩ :=
      Alike.after (Resumes.corresponds _ _) (views_fresh h) (resumes_of_orderly h) hlonger
    have hle := Stage.le_of_last hstage (Stage.next?_of_result hresult) htwin
    omega
  | none =>
    obtain ⟨m, last, hlast, hnone⟩ := Stage.exists_last hlonger
    obtain ⟨later, hlater⟩ | ⟨result, hresult⟩ := Stage.next?_or_result? last
    · rw [hnone] at hlater
      cases hlater
    · exact ⟨_, _, returns_iff.2 ⟨m, last, result, hlast, hresult, rfl⟩⟩

end Twice

/-- Every parse from now on comes to the same outcome. -/
def Parser.Stuck (parser : Parser σ) (outcome : Outcome) : Prop :=
  ∀ n later, parser.Calls n later → ∃ after, later.Returns outcome after

/-- **A token that cannot begin a program is refused for ever**, in the same way. -/
theorem stuck_of_unstartable (hnext : parser.buffer.view 0 = .ok next) (hkind : next.kind ∉ programStarts) :
    parser.Stuck (.error (.unexpected
      ⟨next, .ofList (programStarts ++ parser.live.flatMap Decision.firstKinds)⟩)) := by
  intro n later hcalls
  suffices hsame : later.buffer.view 0 = .ok next ∧
      KindSet.ofList (programStarts ++ later.live.flatMap Decision.firstKinds) =
        .ofList (programStarts ++ parser.live.flatMap Decision.firstKinds) by
    obtain ⟨after, hreturns, -⟩ := refuses_opening hsame.1 hkind
    rw [hsame.2] at hreturns
    exact ⟨after, hreturns⟩
  induction hcalls with
  | none => exact ⟨hnext, rfl⟩
  | @again n before later outcome _ hreturns ih =>
    obtain ⟨hview, hexpected⟩ := ih
    obtain ⟨same, hrefused, -, hsame, hlive⟩ := refuses_opening hview hkind
    obtain ⟨-, rfl⟩ := hrefused.unique hreturns
    refine ⟨hsame, ?_⟩
    -- the two points that become live stand for kinds that are listed anyway
    have hlisted : ∀ point ∈ [Decision.declList, .functionList], ∀ kind ∈ point.firstKinds,
        kind ∈ programStarts := by decide
    rw [← hexpected]
    ext kind
    simp only [KindSet.mem_ofList, List.mem_append, List.mem_flatMap, hlive]
    constructor
    · rintro (hstart | ⟨point, hpoint | hpoint, hmem⟩)
      · exact .inl hstart
      · exact .inl (hlisted point hpoint kind hmem)
      · exact .inr ⟨point, hpoint, hmem⟩
    · rintro (hstart | ⟨point, hpoint, hmem⟩)
      · exact .inl hstart
      · exact .inr ⟨point, .inr hpoint, hmem⟩

theorem Parser.Calls.later (hreturns : parser.Returns outcome after) {later : Parser σ}
    (hcalls : after.Calls n later) : parser.Calls (n + 1) later := by
  induction hcalls with
  | none => exact .again .none hreturns
  | again _ hreturns' ih => exact .again ih hreturns'

/-- **What is refused before anything is taken is refused for ever**, and by a new parser as well, which
expects just what can begin a program. -/
theorem returns_refused {refused : SyntaxError} (h : parser.Orderly 0)
    (hreturns : parser.Returns (.error (.unexpected refused)) after)
    (hpast : after.buffer.past = parser.buffer.past) :
    (∃ other, (Parser.ofSource parser.buffer.leftover).Returns
      (.error (.unexpected ⟨refused.unexpected, .ofList programStarts⟩)) other) ∧
    refused.expected = .ofList (programStarts ++ parser.live.flatMap Decision.firstKinds) ∧
    after.Stuck (.error (.unexpected refused)) := by
  obtain ⟨hnext, hkind⟩ := refused_at_once hreturns hpast
  have hstuck := stuck_of_unstartable hnext hkind
  obtain ⟨again, hagain⟩ := hstuck 0 parser .none
  obtain ⟨hsame, -⟩ := hagain.unique hreturns
  refine ⟨?_, ?_, ?_⟩
  · have hlive : (Parser.ofSource parser.buffer.leftover).live = [] := rfl
    obtain ⟨other, hfresh, -⟩ := refuses_opening ((view_fresh h).symm ▸ hnext) hkind
    rw [hlive] at hfresh
    exact ⟨other, hfresh⟩
  · exact congrArg SyntaxError.expected (ParseError.unexpected.inj (Except.error.inj hsame))
  · intro n later hcalls
    rw [hsame]
    exact hstuck (n + 1) later (hcalls.later hreturns)

/-- A step towards a token takes it. -/
theorem token_step (hstep : (Goal.token kind).step parser = .ok goals after) :
    goals = [] ∧ ∃ next, next.kind = kind ∧ parser.buffer.view 0 = .ok next ∧
      after.standing = { parser.standing with generation := parser.generation + 1 } ∧
      Buffer.Shows (fun k => parser.buffer.view (k + 1)) (next :: parser.buffer.past) after.buffer := by
  obtain ⟨hact, hfollows⟩ := act_of_step hstep
  obtain ⟨seen, hsight, hplanned⟩ := Goal.act_ok_cases hact
  obtain ⟨hnext, -⟩ := Goal.sight_ok_cases rfl hsight
  have hplan : (Goal.token kind).plan seen.next.kind seen.hit =
      if seen.next.kind = kind then .take else .refuse [] (some kind) := rfl
  rw [hplan] at hplanned
  by_cases hkind : seen.next.kind = kind
  · rw [if_pos hkind] at hplanned
    obtain ⟨rfl, hstands⟩ := EStateM.Result.ok.inj hplanned
    obtain ⟨next, hsame, hshows⟩ := hfollows.taken (congrArg Standing.generation hstands).symm
    rw [hnext] at hsame
    cases hsame
    exact ⟨rfl, seen.next, hkind, hnext, hstands.symm, hshows⟩
  · rw [if_neg hkind] at hplanned
    cases hplanned

/-- The end of the input is the last goal, and once no goal is left it has just been taken. -/
theorem ends_with_eof {stage : Stage σ} (hstage : (Stage.mk Goal.program parser).after n = some stage) :
    (∃ front, stage.agenda = front ++ [.token .eof]) ∨
      stage.agenda = [] ∧ ∃ m before, (Stage.mk Goal.program parser).after m = some ⟨[.token .eof], before⟩ ∧
        (Goal.token .eof).step before = .ok [] stage.parser := by
  induction n generalizing stage with
  | zero =>
    cases hstage
    exact .inl ⟨[.declList, .functionList, .main], rfl⟩
  | succ n ih =>
    obtain ⟨⟨agenda, before⟩, hbefore, hnext⟩ := Stage.after_succ.1 hstage
    obtain ⟨goal, rest, goals, hagenda, hstep, hlater⟩ := Stage.next?_eq_some.1 hnext
    rcases ih hbefore with ⟨front, hfront⟩ | ⟨hnil, -⟩
    · obtain rfl : agenda = goal :: rest := hagenda
      cases front with
      | nil =>
        cases hfront
        obtain ⟨rfl, -⟩ := token_step hstep
        exact .inr ⟨hlater, n, before, hbefore, hstep⟩
      | cons first front =>
        have hrest : rest = front ++ [.token .eof] := (List.cons.inj hfront).2
        exact .inl ⟨goals ++ front, by rw [hlater, hrest, List.append_assoc]⟩
    · obtain rfl : agenda = [] := hnil
      cases hagenda

/-- **A program that is accepted ends with the end of the input**, which is what comes for ever after. -/
theorem end_of_accepted (h : parser.Orderly 0) (hreturns : parser.Returns (.ok ()) after) :
    ∃ eof, eof.isEof = true ∧ after.buffer.past.head? = some eof ∧ after.buffer.view 0 = .ok eof ∧
      after.live = [] := by
  obtain ⟨n, stage, result, hstage, hresult, hfinish⟩ := returns_iff.1 hreturns
  obtain ⟨hagenda, rfl⟩ | ⟨_, _, _, _, -, rfl, -⟩ := Stage.result_cases hresult
  · obtain rfl : stage.parser = after := (Prod.mk.inj hfinish).2
    obtain ⟨front, hfront⟩ | ⟨-, m, before, hbefore, hstep⟩ := ends_with_eof hstage
    · rw [hagenda] at hfront
      simp at hfront
    obtain ⟨-, eof, hkind, hnext, hstands, hview, hpast⟩ := token_step hstep
    have heof : eof.isEof = true := by simp [Token.isEof, hkind]
    have hnone : Goal.program.count .endBody = 0 := rfl
    have horderly := orderly_after (hnone ▸ h) hbefore
    refine ⟨eof, heof, by rw [hpast]; rfl, ?_, ?_⟩
    · rw [hview]
      exact horderly.closed 0 eof hnext heof
    · refine List.eq_nil_iff_forall_not_mem.2 fun point hpoint => ?_
      have hlive : stage.parser.standing.decisions.stamp? point = some stage.parser.standing.generation :=
        Decision.Log.mem_live.1 hpoint
      rw [hstands] at hlive
      exact horderly.not_live point hlive
  · cases hfinish

/-- **Parsing again is parsing what is left**, but for what is expected where nothing is taken. The two
parses come to an end together; they take the same tokens, and they come to the same if they take any or
refuse none. If the next token is refused before any is taken, it is refused in both. Then the one that
parses again expects what was expected before as well as what can begin a program, and so does every parse
after it. The kind of a token that is refused is never expected. After a program that is accepted the end
of the input is refused for ever, where just what can begin a program is expected. The source may fail
anywhere, and need not settle; if it does, `returns_program` says what a parse returns. -/
theorem parse_again (source : σ) (n : Nat) (h : (Parser.ofSource source).Calls n parser) :
    ((∃ outcome after, parser.Returns outcome after) ↔
      ∃ fresh other, (Parser.ofSource parser.buffer.leftover).Returns fresh other) ∧
    ∀ outcome after fresh other, parser.Returns outcome after →
      (Parser.ofSource parser.buffer.leftover).Returns fresh other →
      ∃ tokens, after.buffer.past = tokens.reverse ++ parser.buffer.past ∧
        other.buffer.past = tokens.reverse ∧
        ((tokens ≠ [] ∨ ∀ refused, outcome ≠ .error (.unexpected refused)) → outcome = fresh) ∧
        (∀ refused, outcome = .error (.unexpected refused) →
          refused.unexpected.kind ∉ refused.expected ∧
          (tokens = [] →
            fresh = .error (.unexpected ⟨refused.unexpected, .ofList programStarts⟩) ∧
            refused.expected = .ofList (programStarts ++ parser.live.flatMap Decision.firstKinds) ∧
            after.Stuck outcome)) ∧
        (outcome = .ok () → ∃ eof, eof.isEof = true ∧ after.buffer.past.head? = some eof ∧
          after.Stuck (.error (.unexpected ⟨eof, .ofList programStarts⟩))) := by
  have horderly := orderly_of_calls (orderly_ofSource source) h
  constructor
  · constructor
    · rintro ⟨outcome, after, hreturns⟩
      exact returns_fresh horderly hreturns
    · rintro ⟨fresh, other, hfresh⟩
      obtain ⟨outcome, after, -, hreturns, -⟩ := returns_resumed horderly hfresh
      exact ⟨outcome, after, hreturns⟩
  intro outcome after fresh other hreturns hfresh
  obtain ⟨same, reached, tokens, hsame, hpast, hpast', hagree⟩ := returns_resumed horderly hfresh
  obtain ⟨rfl, rfl⟩ := hreturns.unique hsame
  refine ⟨tokens, hpast, hpast', ?_, ?_, ?_⟩
  · intro hcase
    rcases hagree with heq | ⟨hnil, _, refused, -, hrefused⟩
    · exact heq
    · rcases hcase with hsome | hnone
      · exact absurd hnil hsome
      · exact absurd hrefused (hnone refused)
  · rintro refused rfl
    refine ⟨(horderly.returns hreturns).2 refused rfl, ?_⟩
    rintro rfl
    obtain ⟨⟨_, hfirst⟩, hexpected, hstuck⟩ := returns_refused horderly hreturns hpast
    exact ⟨(hfresh.unique hfirst).1.symm, hexpected, hstuck⟩
  · rintro rfl
    obtain ⟨eof, heof, hhead, hnext, hlive⟩ := end_of_accepted horderly hreturns
    have hkind : eof.kind = .eof := by simpa [Token.isEof] using heof
    have hstuck := stuck_of_unstartable hnext (by rw [hkind]; decide)
    rw [hlive] at hstuck
    exact ⟨eof, heof, hhead, hstuck⟩

/-- After `main begin` a closing parenthesis is refused, and from then on for ever, where the kinds that
can begin a statement are expected besides those that can begin a program. -/
theorem parse_again_after_refusal :
    let source := TokenList.ofList (tokensOf [.mainKw, .beginKw, .rightParen])
    let parser := (replyOf (Parser.ofSource source).program).2
    let outcome : Outcome :=
      .error (.unexpected ⟨.ofKind .rightParen .start, .ofList (programStarts ++ statementKinds)⟩)
    (Parser.ofSource source).Calls 1 parser ∧ parser.live = [.declList, .statementBlock] ∧
      ∃ after, parser.Returns outcome after ∧ after.Stuck outcome := by
  intro source parser outcome
  have hcalls : (Parser.ofSource source).Calls 1 parser := .again .none (returns_program _)
  have houtcome : (replyOf parser.program).1 = outcome := by decide +kernel
  have hpast : (replyOf parser.program).2.buffer.past = parser.buffer.past := by decide +kernel
  have hreturns : parser.Returns outcome (replyOf parser.program).2 := by
    rw [← houtcome]
    exact returns_program parser
  have hagain := parse_again source 1 hcalls
  obtain ⟨fresh, other, hfresh⟩ := hagain.1.1 ⟨_, _, hreturns⟩
  obtain ⟨tokens, htokens, -, -, hrefused, -⟩ := hagain.2 _ _ _ _ hreturns hfresh
  have hnil : tokens = [] := by
    rw [hpast] at htokens
    simpa using htokens
  exact ⟨hcalls, by decide +kernel, _, hreturns, ((hrefused _ rfl).2 hnil).2.2⟩

end Cal
