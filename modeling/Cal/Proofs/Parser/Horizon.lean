import Cal.Proofs.Lookahead.Leftover
import Cal.Proofs.Parser.Asked
import Cal.Proofs.Parser.Language

/-!
# What a refusal depends on

A parse that refuses a token has looked at no more than that token and the one behind it. Two sources that
agree up to there are refused in the same way, whatever they come to behind it, if they come to anything.

* `outlook_of_replies`: what a source comes to, as far as its replies are known.
* `returns_within`: a refusal is a matter of the tokens up to the one behind it.
* `bounded_lookahead`: how far a parse looks, and what that means for its refusals.
-/

namespace Cal

open Buffer Source

/-- An error refuses a token: it is not expected, or it begins one body too many. -/
inductive ParseError.Refuses (token : Token) : ParseError → Prop
  | unexpected (expected : KindSet) : Refuses token (.unexpected ⟨token, expected⟩)
  | tooDeep (limit : Nat) : Refuses token (.tooDeep limit token.position)

section Replies

variable {σ : Type} [Source σ] {source : σ} {tokens : List Token} {k : Nat}

theorem outlook_of_shown {finish : Position} (h : replies tokens.length source = tokens.map .ok)
    (hk : k < tokens.length) : outlook source k = .ok ((TokenList.mk tokens finish).shown k) := by
  induction tokens generalizing source finish k with
  | nil => cases hk
  | cons token tokens ih =>
    rw [List.length_cons, replies, List.map_cons, List.cons.injEq] at h
    obtain ⟨hfirst, hmore⟩ := h
    cases hnext : next source with
    | error error after =>
      rw [hnext] at hfirst
      cases hfirst
    | ok first after =>
      rw [hnext] at hfirst hmore
      obtain rfl := Except.ok.inj hfirst
      cases k with
      | zero => simp only [outlook, hnext, TokenList.shown]
      | succ k =>
        simp only [outlook, hnext, TokenList.shown]
        split
        · rfl
        · exact ih hmore (by simpa using hk)

/-- **What a source comes to**, as far as its replies are known: the tokens of the list, and from an end of
the input among them on just that. -/
theorem outlook_of_replies (h : replies tokens.length source = tokens.map .ok) (hk : k < tokens.length) :
    outlook source k = .ok (streamOf tokens k) :=
  outlook_of_shown h hk

/-- A list of tokens replies its tokens. -/
theorem replies_ofList (tokens : List Token) :
    replies tokens.length (TokenList.ofList tokens) = tokens.map .ok := by
  unfold TokenList.ofList
  generalize Position.start = finish
  induction tokens generalizing finish with
  | nil => rfl
  | cons token tokens ih =>
    rw [List.length_cons, replies, List.map_cons]
    exact congrArg _ (ih token.finish)

theorem outlook_counted (counted : Counted σ) (k : Nat) : outlook counted k = outlook counted.source k := by
  induction k generalizing counted with
  | zero =>
    obtain ⟨source, asked⟩ := counted
    simp only [outlook, next, Counted.next]
    cases Source.next source <;> rfl
  | succ k ih =>
    obtain ⟨source, asked⟩ := counted
    simp only [outlook, next, Counted.next]
    cases Source.next source with
    | ok token after => simp only [ih]
    | error error after => rfl

end Replies

section Returns

variable {σ τ : Type} [Source σ] [Source τ] {source : σ} {other : τ} {after : Parser σ} {outcome : Outcome}
  {error : ParseError} {places : Nat}

/-- What a parse has taken, it has counted. -/
theorem consumed_after {stage : Stage σ} {n : Nat} (h : (Stage.ofSource source).after n = some stage) :
    stage.parser.buffer.consumed = stage.parser.generation := by
  obtain ⟨tokens, htook⟩ := Stage.took_after h
  have hpast : stage.parser.buffer.past = tokens.reverse := by
    rw [htook.past]
    exact List.append_nil _
  rw [consumed, hpast, List.length_reverse, htook.generation]
  exact (Nat.zero_add _).symm

/-- A step that fails has consumed nothing. -/
theorem consumed_of_error {stage : Stage σ} {goal : Goal} {failed : Parser σ} {n : Nat}
    (h : (Stage.ofSource source).after n = some stage) (hstep : goal.step stage.parser = .error error failed) :
    failed.abandon.buffer.consumed = stage.parser.generation := by
  have hpast : failed.abandon.buffer.past = stage.parser.buffer.past := (act_of_step_error hstep).2.past
  exact (congrArg List.length hpast).trans (consumed_after h)

/-- Sources that come to the same are parsed alike. -/
theorem returns_congr (h : outlook other = outlook source)
    (hreturns : (Parser.ofSource source).Returns outcome after) :
    ∃ after', (Parser.ofSource other).Returns outcome after' := by
  obtain ⟨n, stage, result, hstage, hresult, hfinish⟩ := returns_iff.1 hreturns
  have hviews : ∀ k token, outlook source k = .ok token → outlook other k = .ok token := by
    intro k token hk
    rw [h, hk]
  obtain ⟨twin, htwin, halike⟩ := Alike.after corresponds_eq (views_start hviews) rfl hstage
  have hstands : stage.parser.standing = twin.parser.standing := halike.stands
  have hgeneration : stage.parser.generation = twin.parser.generation := congrArg Standing.generation hstands
  have hview : stage.parser.buffer.view = twin.parser.buffer.view := by
    rw [(reads_after hstage).1, (reads_after htwin).1, h, hgeneration]
  obtain ⟨agenda, parser⟩ := twin
  rcases Stage.result_cases hresult with ⟨hagenda, rfl⟩ | ⟨goal, rest, error, failed, hagenda, rfl, hstep, -⟩
  · cases hfinish
    obtain rfl : agenda = [] := halike.agenda.trans hagenda
    exact ⟨_, returns_of_nil htwin⟩
  · cases hfinish
    obtain rfl : agenda = goal :: rest := halike.agenda.trans hagenda
    have hact := (act_of_step_error hstep).1
    rw [hview, hstands] at hact
    obtain ⟨stopped, hstep', -, -⟩ := step_of_act_error hact
    exact ⟨_, returns_of_error htwin hstep'⟩

/-- **A refusal is a matter of the tokens up to the one behind it.** -/
theorem returns_within
    (h : ∀ k < places, ∀ token, outlook source k = .ok token → outlook other k = .ok token)
    (hreturns : (Parser.ofSource source).Returns (.error error) after)
    (hseen : ∀ unseen, error ≠ .lexical unseen) (hnear : after.buffer.consumed + 2 ≤ places) :
    ∃ after', (Parser.ofSource other).Returns (.error error) after' ∧
      after'.buffer.consumed = after.buffer.consumed := by
  obtain ⟨n, stage, goal, rest, failed, hstage, -, hagenda, hstep, rfl, hfails⟩ := hreturns.failure
  have hconsumed : failed.abandon.buffer.consumed = stage.parser.generation := consumed_of_error hstage hstep
  have hplace : stage.parser.generation + 2 ≤ 0 + places := by
    rw [Nat.zero_add, ← hconsumed]
    exact hnear
  -- what is in view of a fresh parser is what its source comes to
  have hviews : ∀ k < places, ∀ token, (Parser.ofSource source).buffer.view k = .ok token →
      (Parser.ofSource other).buffer.view k = .ok token := by
    intro k hk token hview
    have hview' : outlook source k = .ok token := (congrFun (view_ofSource source) k).symm.trans hview
    exact (congrFun (view_ofSource other) k).trans (h k hk token hview')
  obtain ⟨⟨agenda, parser⟩, htwin, halike⟩ := Alike.after_within corresponds_eq hviews rfl hstage hplace
  obtain rfl : agenda = goal :: rest := halike.agenda.trans hagenda
  have hstands : stage.parser.standing = parser.standing := halike.stands
  have hgeneration : stage.parser.generation = parser.generation := congrArg Standing.generation hstands
  rcases hfails with ⟨unseen, -, hlexical⟩ | ⟨seen, hsight, hplan⟩
  · exact absurd hlexical (hseen unseen)
  · -- the second parse comes to the same goal, sees the same, and fails in the same way
    have hsight' := Goal.sight_mono (fun k hk token => halike.views_within hviews (by omega)) hsight
    have hact := Goal.act_of_sight hsight' parser.standing
    rw [← hstands, hplan, hstands] at hact
    obtain ⟨stopped, hstep', -, -⟩ := step_of_act_error hact
    have hconsumed' : stopped.abandon.buffer.consumed = parser.generation := consumed_of_error htwin hstep'
    refine ⟨_, returns_of_error htwin hstep', ?_⟩
    rw [hconsumed', ← hgeneration, hconsumed]

end Returns

section Place

variable {tokens : List Token} {error : ParseError} {n : Nat}

/-- Once the input has ended, it is its end that is next. -/
theorem eof_of_mem_takenOf (h : .eof ∈ takenOf (streamOf tokens) n) : (streamOf tokens n).kind = .eof := by
  obtain ⟨k, hk, heof⟩ := List.mem_map.1 h
  have hlt : k < n := List.mem_range.1 hk
  have hclosed := Closed.outlook (TokenList.ofList tokens)
  have hbehind := hclosed.behind (TokenList.outlook_eq tokens .start k) (decide_eq_true heof) (n - k)
  rw [show k + (n - k) = n by omega, TokenList.ofList, TokenList.outlook_eq] at hbehind
  rw [streamOf, TokenList.ofList, Except.ok.inj hbehind]
  exact heof

/-- The stream shows the token of the list, as long as the input has not ended before. -/
theorem getElem?_of_ongoing (hongoing : .eof ∉ takenOf (streamOf tokens) n) (hn : n < tokens.length) :
    tokens[n]? = some (streamOf tokens n) := by
  obtain ⟨finish, rest, hrest⟩ := stream_begin hongoing
  have hplace := congrArg (fun shown : List Token => shown[n]?) hrest
  rw [List.getElem?_append_left (by simp), List.getElem?_append_left hn] at hplace
  simpa using hplace.symm

/-- **A parse of tokens refuses the token behind those it has consumed.** -/
theorem refused_at {after : Parser TokenList}
    (hreturns : (Parser.ofSource (TokenList.ofList tokens)).Returns (.error error) after)
    (hlength : after.buffer.consumed < tokens.length) :
    ∃ token, tokens[after.buffer.consumed]? = some token ∧ error.Refuses token := by
  obtain ⟨n, stage, goal, rest, failed, hstage, -, hagenda, hstep, rfl, -⟩ := hreturns.failure
  have hsound := Stage.sound_after rfl (reads_ofList tokens) hstage
  have hconsumed : failed.abandon.buffer.consumed = stage.parser.generation := consumed_of_error hstage hstep
  rw [hconsumed] at hlength ⊢
  obtain ⟨hplanned, -⟩ := (carries_step goal hsound.reads).of_error hstep
  rcases Plan.error_cases hplanned with
    ⟨missed, inner, limit, hplan, -, rfl, -⟩ | ⟨missed, wanted, hplan, rfl, -⟩
  · -- a body begins with the next token, and not with the end of the input
    have hopens : (goal.planAt (streamOf tokens) stage.parser.generation).opens = true := by
      rw [show goal.planAt (streamOf tokens) stage.parser.generation = _ from hplan]
      rfl
    obtain ⟨hother, -⟩ := Goal.next_of_opens Goal.leftParen_of_hits hopens
    exact ⟨_, getElem?_of_ongoing (fun heof => hother (eof_of_mem_takenOf heof)) hlength, .tooDeep limit⟩
  · have hfaithful := hsound.faithful
    rw [hagenda] at hfaithful
    exact ⟨_, getElem?_of_ongoing (hfaithful.eof_not_mem hplan) hlength, .unexpected _⟩

end Place

/-- **Lookahead is bounded.** At every moment of a parse, of whatever source, the source has been asked for
two tokens beyond those consumed, at most, and not again after it has ended the input. So where sources
begin with the same replies, and a parse of the one refuses a token that has another one of these behind
it, a parse of the other comes to the same error, whatever the two sources reply behind them. -/
theorem bounded_lookahead {σ τ : Type} [Source σ] [Source τ] (source : σ) (other : τ) :
    ((∀ n goal rest parser,
        (Stage.ofSource (Counted.ofSource source)).after n = some ⟨goal :: rest, parser⟩ →
          Looked source parser.buffer (replyOf (goal.step parser)).2.buffer) ∧
      ∀ outcome after, (Parser.ofSource source).Returns outcome after →
        ∃ after', (Parser.ofSource (Counted.ofSource source)).Returns outcome after') ∧
    ∀ (tokens : List Token) (error : ParseError) (after : Parser σ),
      replies tokens.length source = tokens.map .ok → replies tokens.length other = tokens.map .ok →
      (Parser.ofSource source).Returns (.error error) after → (∀ unseen, error ≠ .lexical unseen) →
      after.buffer.consumed + 2 ≤ tokens.length →
        (∃ token, tokens[after.buffer.consumed]? = some token ∧ error.Refuses token) ∧
        ∃ after', (Parser.ofSource other).Returns (.error error) after' ∧
          after'.buffer.consumed = after.buffer.consumed := by
  refine ⟨⟨fun n goal rest parser hstage => looked_after hstage, fun outcome after hreturns =>
    returns_congr (funext (outlook_counted (Counted.ofSource source))) hreturns⟩, ?_⟩
  intro tokens error after hreplies hreplies' hreturns hseen hnear
  -- both sources agree with the list of the tokens, as far as it goes
  have hlist : ∀ k < tokens.length, ∀ token, outlook source k = .ok token →
      outlook (TokenList.ofList tokens) k = .ok token := by
    intro k hk token hshown
    rw [outlook_of_replies (replies_ofList tokens) hk, ← outlook_of_replies hreplies hk, hshown]
  have hother : ∀ k < tokens.length, ∀ token, outlook source k = .ok token →
      outlook other k = .ok token := by
    intro k hk token hshown
    rw [outlook_of_replies hreplies' hk, ← outlook_of_replies hreplies hk, hshown]
  obtain ⟨listed, hlisted, hconsumed⟩ := returns_within hlist hreturns hseen hnear
  refine ⟨?_, returns_within hother hreturns hseen hnear⟩
  rw [← hconsumed]
  exact refused_at hlisted (by omega)

/-- After `main begin` a closing parenthesis and a semicolon, the parenthesis is refused in the same way
whether the input ends there or a whole program follows. -/
theorem bounded_lookahead_after_begin :
    let tokens := tokensOf [.mainKw, .beginKw, .rightParen, .semicolon]
    let source := TokenList.ofList tokens
    let other := TokenList.ofList (tokens ++ tokensOf [.mainKw, .beginKw, .endKw, .eof])
    let after := (replyOf (Parser.ofSource source).program).2
    let error : ParseError :=
      .unexpected ⟨.ofKind .rightParen .start, .ofList (.endKw :: declKinds ++ statementKinds)⟩
    (Parser.ofSource source).Returns (.error error) after ∧ after.buffer.consumed = 2 ∧
      (∃ token, tokens[2]? = some token ∧ error.Refuses token) ∧
      ∃ after', (Parser.ofSource other).Returns (.error error) after' ∧ after'.buffer.consumed = 2 := by
  intro tokens source other after error
  have houtcome : (replyOf (Parser.ofSource source).program).1 = .error error := by decide +kernel
  have hconsumed : after.buffer.consumed = 2 := by decide +kernel
  have hreturns : (Parser.ofSource source).Returns (.error error) after := by
    rw [← houtcome]
    exact returns_program _
  have hbounded := (bounded_lookahead source other).2 tokens error after (replies_ofList tokens) rfl hreturns
    nofun (by rw [hconsumed]; decide)
  rw [hconsumed] at hbounded
  exact ⟨hreturns, hconsumed, hbounded⟩

end Cal
