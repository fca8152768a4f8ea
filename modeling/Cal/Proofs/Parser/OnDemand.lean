import Cal.Proofs.Parser.Alike
import Cal.Proofs.Parser.Refusal
import Cal.Proofs.Parser.Returns
import Mathlib.Data.List.TakeWhile

/-!
# Parsing on demand

A parse asks its source for tokens as it needs them. It comes to what a parse of all the tokens would
come to, if the source has replied them all before. Where the source fails, the parse fails with that
error unless it has already been refused by then, and by then it is refused only for the tokens before.

* `parseSource_of_drain`: a source that does not fail.
* `twin_after`: a parse of a source that fails goes through the stages of a parse of the tokens before.
* `parseSource_lexical_iff`: when it is the error of the source that is reported.
* `parseText_on_demand`: both together, for a text.
-/

namespace Cal

open Source

/-- The first stage of a parse of a source. -/
def Stage.ofSource {σ : Type} (source : σ) : Stage σ := ⟨Goal.program, .ofSource source⟩

section Start

variable {σ τ : Type} [Source σ] [Source τ] {source : σ} {other : τ} {stage : Stage σ} {n : Nat}
  {goal : Goal} {error : LexError}

/-- What a source comes to is in view at first. -/
theorem views_start (h : ∀ k token, outlook source k = .ok token → outlook other k = .ok token) (k : Nat)
    (token : Token) (hk : (Parser.ofSource source).buffer.view k = .ok token) :
    (Parser.ofSource other).buffer.view k = .ok token := by
  have hview : (Parser.ofSource source).buffer.view = outlook source := Buffer.view_ofSource source
  have hview' : (Parser.ofSource other).buffer.view = outlook other := Buffer.view_ofSource other
  rw [hview] at hk
  rw [hview']
  exact h k token hk

/-- **A parse reads what its source comes to**, and has seen all the tokens that it has taken. -/
theorem reads_after (h : (Stage.ofSource source).after n = some stage) :
    stage.parser.buffer.view = (fun k => outlook source (stage.parser.generation + k)) ∧
      ∀ k < stage.parser.generation, ∃ token, outlook source k = .ok token := by
  obtain ⟨tokens, htook⟩ := Stage.took_after h
  have hview : (Parser.ofSource source).buffer.view = outlook source := Buffer.view_ofSource source
  have hgeneration : stage.parser.generation = tokens.length := htook.generation.trans (Nat.zero_add _)
  rw [hgeneration, htook.view]
  refine ⟨funext fun k => congrFun hview _, fun k hk => ⟨tokens[k], ?_⟩⟩
  rw [← hview]
  exact htook.seen k hk

/-- What keeps a step from seeing stands at the next place, or behind an opening parenthesis there. -/
theorem unseen_of_sight (hstage : (Stage.ofSource source).after n = some stage)
    (h : goal.sight stage.parser.buffer.view = .error error) :
    outlook source stage.parser.generation = .error error ∨
      ∃ next, outlook source stage.parser.generation = .ok next ∧ next.kind = .leftParen ∧
        goal.probe?.isSome = true ∧ outlook source (stage.parser.generation + 1) = .error error := by
  rw [(reads_after hstage).1] at h
  exact Goal.sight_error_cases h

end Start

section Outcomes

variable {σ τ : Type} [FiniteSource σ] [FiniteSource τ] {source : σ} {other : τ}

theorem parseSource_returns (source : σ) :
    ∃ after, (Parser.ofSource source).Returns (parseSource source) after := by
  have hreply : (replyOf (Parser.ofSource source).program).1 = parseSource source := by
    unfold parseSource
    cases (Parser.ofSource source).program <;> rfl
  exact ⟨_, hreply ▸ returns_program (Parser.ofSource source)⟩

/-- **A parse that sees no error comes to what a parse that sees the same tokens comes to.** -/
theorem parseSource_alike (h : ∀ k token, outlook source k = .ok token → outlook other k = .ok token) :
    parseSource source = parseSource other ∨
      ∃ n stage goal rest error, (Stage.ofSource source).after n = some stage ∧
        stage.agenda = goal :: rest ∧ goal.sight stage.parser.buffer.view = .error error ∧
          parseSource source = .error (.lexical error) := by
  obtain ⟨after, hreturns⟩ := parseSource_returns source
  obtain ⟨after', hother⟩ := parseSource_returns other
  obtain ⟨n, stage, result, hstage, hresult, hfinish⟩ := returns_iff.1 hreturns
  obtain ⟨twin, htwin, halike⟩ := Alike.after corresponds_eq (views_start h) rfl hstage
  obtain ⟨agenda, parser⟩ := twin
  have hsame {outcome : Outcome} {reached : Parser τ} (houtcome : outcome = parseSource source)
      (htwin : (Parser.ofSource other).Returns outcome reached) : parseSource source = parseSource other := by
    obtain ⟨heq, -⟩ := hother.unique htwin
    rw [← houtcome, heq]
  have houtcome : (Parser.finish result).1 = parseSource source := by rw [hfinish]
  rcases Stage.result_cases hresult with ⟨hagenda, rfl⟩ | ⟨goal, rest, error, failed, hagenda, rfl, -, hfails⟩
  · obtain rfl : agenda = [] := halike.agenda.trans hagenda
    exact .inl (hsame houtcome (returns_of_nil htwin))
  · rcases hfails with ⟨unseen, hsight, rfl⟩ | ⟨seen, hsight, hplan⟩
    · exact .inr ⟨n, stage, goal, rest, unseen, hstage, hagenda, hsight, houtcome.symm⟩
    · -- the second parse comes to the same goal, sees the same, and fails in the same way
      obtain rfl : agenda = goal :: rest := halike.agenda.trans hagenda
      have hact := Goal.act_of_sight (Goal.sight_mono (fun k _ => halike.views (views_start h) k) hsight) parser.standing
      have hstands : stage.parser.standing = parser.standing := halike.stands
      rw [← hstands, hplan, hstands] at hact
      obtain ⟨stopped, hstep, -, -⟩ := step_of_act_error hact
      exact .inl (hsame houtcome (returns_of_error htwin hstep))

end Outcomes

section Tokens

variable {tokens : List Token}

/-- A list of tokens delivers its first tokens, as long as they do not end the input. -/
theorem delivers_ofList (h : ∀ token ∈ tokens, token.isEof = false) (more : List Token) :
    ∃ finish, Delivers (TokenList.ofList (tokens ++ more)) tokens ⟨more, finish⟩ := by
  have hdelivers : ∀ start, ∃ finish, Delivers (TokenList.mk (tokens ++ more) start) tokens ⟨more, finish⟩ := by
    induction tokens with
    | nil => exact fun start => ⟨start, .nil _⟩
    | cons token tokens ih =>
      intro start
      rw [List.forall_mem_cons] at h
      obtain ⟨finish, hfinish⟩ := ih h.2 token.finish
      exact ⟨finish, .cons rfl h.1 hfinish⟩
  exact hdelivers .start

theorem isEof_of_delivers {σ : Type} [Source σ] {source last : σ} (h : Delivers source tokens last) :
    ∀ token ∈ tokens, token.isEof = false := by
  induction h with
  | nil => simp
  | cons _ hother _ ih => exact List.forall_mem_cons.2 ⟨hother, ih⟩

/-- The kinds of the first tokens of a list are those that a parse of it takes first. -/
theorem takenOf_tokens (h : ∀ token ∈ tokens, token.isEof = false) :
    takenOf (streamOf tokens) tokens.length = kindsIn tokens ∧
      ∀ k, tokens.length ≤ k → (streamOf tokens k).kind = .eof := by
  have hkinds : kindsBeforeEof tokens = kindsIn tokens := by
    have hall : tokens.takeWhile (fun token => !token.isEof) = tokens :=
      List.takeWhile_eq_self_iff.2 fun token htoken => by simp [h token htoken]
    rw [kindsBeforeEof, hall]
  have hlength : (kindsBeforeEof tokens).length = tokens.length := by
    rw [hkinds, List.length_map]
  obtain ⟨hbefore, hbeyond⟩ := TokenList.shown_before tokens .start
  rw [hlength, hkinds] at hbefore
  rw [hlength] at hbeyond
  exact ⟨hbefore, hbeyond⟩

end Tokens

section Whole

variable {σ : Type} [FiniteSource σ] {source : σ} {tokens : List Token}

/-- **A source that does not fail** is parsed as the list of its tokens. -/
theorem parseSource_of_drain (h : FiniteSource.drain source = .ok tokens) :
    parseSource source = parseTokens tokens := by
  obtain ⟨words, last, hdelivers, ⟨eof, after, hlast, heof, hdrain⟩ | ⟨error, after, hlast, hdrain⟩⟩ :=
    FiniteSource.drain_cases source
  · rw [h] at hdrain
    obtain rfl : tokens = words ++ [eof] := Except.ok.inj hdrain
    obtain ⟨finish, hlist⟩ := delivers_ofList (isEof_of_delivers hdelivers) [eof]
    have heof' : next (TokenList.mk [eof] finish) = .ok eof ⟨[], eof.finish⟩ := rfl
    -- both come to the words first, and then to the end of the input
    have hsame : ∀ k, outlook source k = outlook (TokenList.ofList (words ++ [eof])) k := by
      intro k
      rw [outlook_of_delivers hdelivers, outlook_of_delivers hlist, outlook_of_eof hlast heof,
        outlook_of_eof heof' heof]
    have hshown : ∀ k, ∃ token, outlook source k = .ok token := by
      intro k
      rw [hsame]
      exact ⟨_, TokenList.outlook_eq _ _ k⟩
    rcases parseSource_alike fun k token hk => (hsame k).symm.trans hk with hparse | hunseen
    · exact hparse
    · obtain ⟨n, stage, goal, rest, error, hstage, -, hsight, -⟩ := hunseen
      rcases unseen_of_sight hstage hsight with herror | ⟨_, _, _, _, herror⟩
      · obtain ⟨token, htoken⟩ := hshown stage.parser.generation
        rw [htoken] at herror
        cases herror
      · obtain ⟨token, htoken⟩ := hshown (stage.parser.generation + 1)
        rw [htoken] at herror
        cases herror
  · rw [h] at hdrain
    cases hdrain

end Whole

section Failing

variable {σ : Type} [FiniteSource σ] {source last after : σ} {tokens : List Token} {error : LexError}
  {n k : Nat} {stage : Stage σ}

theorem outlook_before (h : Delivers source tokens last) (hk : k < tokens.length) :
    outlook source k = .ok tokens[k] := by
  rw [outlook_of_delivers h, List.getElem?_eq_getElem hk]

theorem outlook_behind (h : Delivers source tokens last) (hlast : next last = .error error after)
    (hk : tokens.length ≤ k) : outlook source k = .error error := by
  rw [outlook_of_delivers h, List.getElem?_eq_none hk]
  exact outlook_of_error hlast _

/-- Only places before the failure can be seen. -/
theorem lt_of_outlook {token : Token} (h : Delivers source tokens last)
    (hlast : next last = .error error after) (hk : outlook source k = .ok token) : k < tokens.length := by
  by_contra hlt
  rw [outlook_behind h hlast (Nat.le_of_not_lt hlt)] at hk
  cases hk

/-- What a failing source shows, a list that begins with its tokens shows as well. -/
theorem outlook_tokens (h : Delivers source tokens last) (hlast : next last = .error error after)
    (more : List Token) (k : Nat) (token : Token) (hk : outlook source k = .ok token) :
    outlook (TokenList.ofList (tokens ++ more)) k = .ok token := by
  have hlt := lt_of_outlook h hlast hk
  obtain ⟨finish, hlist⟩ := delivers_ofList (isEof_of_delivers h) more
  rw [outlook_of_delivers hlist, List.getElem?_eq_getElem hlt]
  rwa [outlook_before h hlt] at hk

/-- The error that is seen is the one with which the source fails. -/
theorem error_of_outlook {other : LexError} (h : Delivers source tokens last)
    (hlast : next last = .error error after) (hk : outlook source k = .error other) :
    other = error ∧ tokens.length ≤ k := by
  have hle : tokens.length ≤ k := by
    by_contra hlt
    rw [outlook_before h (Nat.lt_of_not_le hlt)] at hk
    cases hk
  rw [outlook_behind h hlast hle] at hk
  exact ⟨(Except.error.inj hk).symm, hle⟩

/-- **A parse of a source that fails goes through the stages of a parse of the tokens before**, and what
is known of those is known of it. -/
theorem twin_after (h : Delivers source tokens last) (hlast : next last = .error error after)
    (hstage : (Stage.ofSource source).after n = some stage) :
    ∃ twin, (Stage.ofTokens tokens).after n = some twin ∧ twin.agenda = stage.agenda ∧
      twin.parser.standing = stage.parser.standing ∧ stage.parser.generation ≤ tokens.length ∧
      Faithful (streamOf tokens) ((Stage.ofTokens tokens).Asks n stage.parser.generation) stage.agenda
        stage.parser.standing := by
  have hviews := outlook_tokens h hlast []
  rw [List.append_nil] at hviews
  obtain ⟨twin, htwin, halike⟩ := Alike.after corresponds_eq (views_start hviews) rfl hstage
  have hstands : twin.parser.standing = stage.parser.standing := halike.stands.symm
  have hsound := Stage.sound_after rfl (reads_ofList tokens) htwin
  have hgeneration : twin.parser.generation = stage.parser.generation := congrArg Standing.generation hstands
  refine ⟨twin, htwin, halike.agenda, hstands, ?_, ?_⟩
  · by_contra hlt
    obtain ⟨token, htoken⟩ := (reads_after hstage).2 tokens.length (by omega)
    rw [outlook_behind h hlast (Nat.le_refl _)] at htoken
    cases htoken
  · have hfaithful := hsound.faithful
    rwa [halike.agenda, hstands, hgeneration] at hfaithful

/-- The kinds of the tokens taken are the first ones of those before the failure. -/
theorem takenOf_begin_tokens (h : Delivers source tokens last) (hk : k ≤ tokens.length) :
    takenOf (streamOf tokens) k <+: kindsIn tokens := by
  rw [← (takenOf_tokens (isEof_of_delivers h)).1]
  exact takenOf_begin hk

theorem eof_not_mem_kindsIn (h : Delivers source tokens last) : .eof ∉ kindsIn tokens := by
  intro hmem
  obtain ⟨token, htoken, hkind⟩ := List.mem_map.1 hmem
  have hother := isEof_of_delivers h token htoken
  simp [Token.isEof, hkind] at hother

/-- **Where the source fails, nothing is accepted**, since the end of the input is never seen. -/
theorem parseSource_ne_ok (h : Delivers source tokens last) (hlast : next last = .error error after) :
    parseSource source ≠ .ok () := by
  intro hok
  obtain ⟨after, hreturns⟩ := parseSource_returns source
  obtain ⟨n, stage, result, hstage, hresult, hfinish⟩ := returns_iff.1 hreturns
  rw [hok] at hfinish
  rcases Stage.result_cases hresult with ⟨hagenda, rfl⟩ | ⟨goal, rest, error, failed, -, rfl, -⟩
  · obtain ⟨twin, -, -, -, hle, hfaithful⟩ := twin_after h hlast hstage
    rw [hagenda] at hfaithful
    have hsentence := hfaithful.sound [] .nil
    rw [List.append_nil] at hsentence
    obtain ⟨program, hkinds, -⟩ := isSentence_iff.1 hsentence
    have htaken : takenOf (streamOf tokens) stage.parser.generation = program ++ [.eof] := hkinds
    have heof : .eof ∈ takenOf (streamOf tokens) stage.parser.generation := by
      rw [htaken]
      simp
    exact eof_not_mem_kindsIn h ((takenOf_begin_tokens h hle).subset heof)
  · cases hfinish

/-- Where the parse cannot go on for want of a token, it has taken all the tokens before the failure, or
all but an opening parenthesis at which it asks a probe. -/
theorem place_of_unseen {goal : Goal} {unseen : LexError} (h : Delivers source tokens last)
    (hlast : next last = .error error after) (hstage : (Stage.ofSource source).after n = some stage)
    (hsight : goal.sight stage.parser.buffer.view = .error unseen) :
    unseen = error ∧ (stage.parser.generation = tokens.length ∨ stage.parser.generation + 1 = tokens.length ∧
      (streamOf tokens stage.parser.generation).kind = .leftParen ∧ goal.probe?.isSome = true) := by
  rcases unseen_of_sight hstage hsight with hunseen | ⟨next, hnext, hkind, hprobe, hunseen⟩
  · obtain ⟨rfl, hge⟩ := error_of_outlook h hlast hunseen
    obtain ⟨-, -, -, -, hle, -⟩ := twin_after h hlast hstage
    exact ⟨rfl, .inl (Nat.le_antisymm hle hge)⟩
  · obtain ⟨rfl, hge⟩ := error_of_outlook h hlast hunseen
    have hlt := lt_of_outlook h hlast hnext
    have hviews := outlook_tokens h hlast [] _ next hnext
    rw [List.append_nil, TokenList.ofList, TokenList.outlook_eq] at hviews
    obtain rfl : streamOf tokens stage.parser.generation = next := Except.ok.inj hviews
    exact ⟨rfl, .inr ⟨Nat.le_antisymm hlt hge, hkind, hprobe⟩⟩

/-- **Where the parse cannot go on for want of a token**, the tokens before begin a sentence. -/
theorem viable_of_unseen {goal : Goal} {rest : List Goal} {unseen : LexError}
    (h : Delivers source tokens last) (hlast : next last = .error error after)
    (hstage : (Stage.ofSource source).after n = some stage) (hagenda : stage.agenda = goal :: rest)
    (hsight : goal.sight stage.parser.buffer.view = .error unseen) : Viable (kindsIn tokens) := by
  obtain ⟨-, -, -, -, -, hfaithful⟩ := twin_after h hlast hstage
  obtain ⟨hkinds, -⟩ := takenOf_tokens (isEof_of_delivers h)
  rw [← hkinds]
  obtain ⟨-, heq | ⟨hsucc, hparen, hprobe⟩⟩ := place_of_unseen h hlast hstage hsight
  · rw [← heq]
    exact hfaithful.viable
  · -- the goal that asks a probe can begin with the parenthesis
    have hfirst : .leftParen ∈ goal.form.firsts ∧ goal ≠ .endBody := by
      cases goal with
      | callSuffix | conditionSimple => decide
      | _ => cases hprobe
    rw [← hsucc, takenOf_succ, hparen]
    rw [hagenda] at hfaithful
    refine viable_of_mem_firstsOf hfaithful.sound ?_
    rw [itemsOf_cons hfirst.2]
    exact mem_firstsOf_cons.2 (.inl hfirst.1)

/-- Nor is a parse of them nested too deeply: it sees their end next, and opens no body there. -/
theorem not_tooDeep_of_unseen {goal : Goal} {unseen : LexError} (h : Delivers source tokens last)
    (hlast : next last = .error error after) (hstage : (Stage.ofSource source).after n = some stage)
    (hsight : goal.sight stage.parser.buffer.view = .error unseen) (limit : Nat) (position : Position) :
    parseTokens tokens ≠ .error (.tooDeep limit position) := by
  intro hdeep
  obtain ⟨-, hplace⟩ := place_of_unseen h hlast hstage hsight
  obtain ⟨twin, htwin, -, hstands, -, -⟩ := twin_after h hlast hstage
  have hgeneration : twin.parser.generation = stage.parser.generation := congrArg Standing.generation hstands
  obtain ⟨-, hbeyond⟩ := takenOf_tokens (isEof_of_delivers h)
  obtain ⟨m, final, hfinal, hends, -⟩ := program_ends (reads_ofList tokens)
  have hsound := Stage.sound_after rfl (reads_ofList tokens) hfinal
  have houtcome : (Parser.ofSource (TokenList.ofList tokens)).outcome = .error (.tooDeep limit position) := hdeep
  have hlater := Stage.next?_of_ends hsound.reads hends
  have hbefore := hsound.earlier n twin (Stage.le_of_last hfinal hlater htwin) htwin
  rw [houtcome] at hends
  cases hends with
  | @tooDeep goal' rest' missed goals limit hagenda' hplan hlimit =>
    have hopens : (goal'.planAt (streamOf tokens) final.parser.generation).opens = true := by
      rw [hplan]
      rfl
    obtain ⟨hnext, hhit⟩ := Goal.next_of_opens Goal.leftParen_of_hits hopens
    by_cases hend : tokens.length ≤ final.parser.generation
    · exact hnext (hbeyond _ hend)
    · -- no token more has been taken: the parenthesis is next, and the end of the input behind it
      obtain ⟨hsucc, hparen, -⟩ := hplace.resolve_left (by omega)
      have hsame : final.parser.generation = stage.parser.generation := by omega
      have hsecond := hbeyond (stage.parser.generation + 1) (by omega)
      rw [hsame, hsecond, hparen] at hhit
      have hmiss : goal'.hits .leftParen .eof = false := by
        cases goal' <;> rfl
      rw [hmiss] at hhit
      exact absurd (hhit rfl) (by decide)

/-- A step of the parse that sees sees tokens before the failure. -/
theorem seen_before {goal : Goal} {seen : Sight} (h : Delivers source tokens last)
    (hlast : next last = .error error after) (hstage : (Stage.ofSource source).after n = some stage)
    (hblind : goal.blind = false) (hsight : goal.sight stage.parser.buffer.view = .ok seen) :
    stage.parser.generation < tokens.length ∧
      seen = ⟨streamOf tokens stage.parser.generation,
        goal.hits (streamOf tokens stage.parser.generation).kind
          (streamOf tokens (stage.parser.generation + 1)).kind⟩ ∧
      (goal.probe?.isSome = true → (streamOf tokens stage.parser.generation).kind = .leftParen →
        stage.parser.generation + 1 < tokens.length) := by
  have hview := (reads_after hstage).1
  rw [hview] at hsight
  have hviews : ∀ k token, outlook source (stage.parser.generation + k) = .ok token →
      Except.ok (streamOf tokens (stage.parser.generation + k)) = (.ok token : Except LexError Token) := by
    intro k token hk
    have hshown := outlook_tokens h hlast [] _ token hk
    rwa [List.append_nil, TokenList.ofList, TokenList.outlook_eq] at hshown
  have hstream := Goal.sight_mono (fun k _ => hviews k) hsight
  rw [Goal.sight_stream hblind] at hstream
  obtain rfl := Except.ok.inj hstream
  obtain ⟨hnext, hbehind⟩ := Goal.sight_ok_cases hblind hsight
  refine ⟨lt_of_outlook h hlast hnext, rfl, fun hprobe hparen => ?_⟩
  obtain ⟨second, hsecond⟩ := hbehind hprobe hparen
  exact lt_of_outlook h hlast hsecond

/-- Where a probe has been asked at an opening parenthesis, the token behind that has been seen. -/
theorem seen_of_asks {generation : Nat} (h : Delivers source tokens last)
    (hlast : next last = .error error after) (hstage : (Stage.ofSource source).after n = some stage)
    (hasks : (Stage.ofTokens tokens).Asks n generation)
    (hparen : (streamOf tokens generation).kind = .leftParen) : generation + 1 < tokens.length := by
  obtain ⟨m, hm, goal, rest, asking, hasking, hprobe, rfl⟩ := hasks
  obtain ⟨later, hlater⟩ := Stage.exists_after hstage (Nat.succ_le_of_lt hm)
  obtain ⟨before, hbefore, hnext⟩ := Stage.after_succ.1 hlater
  obtain ⟨twin, htwin, hagenda, hstands, -, -⟩ := twin_after h hlast hbefore
  rw [hasking] at htwin
  cases htwin
  have hsame : asking.generation = before.parser.generation := congrArg Standing.generation hstands
  rw [hsame] at hparen ⊢
  -- the step of the goal that asks has been taken, so that it has seen what it asked about
  obtain ⟨goal', rest', goals, hagenda', hstep, -⟩ := Stage.next?_eq_some.1 hnext
  obtain ⟨rfl, -⟩ := List.cons.inj (hagenda.trans hagenda')
  obtain ⟨hact, -⟩ := act_of_step hstep
  have hblind : goal.blind = false := by
    cases goal with
    | callSuffix | conditionSimple => rfl
    | _ => cases hprobe
  obtain ⟨seen, hsight, -⟩ := Goal.act_ok_cases hact
  exact (seen_before h hlast hbefore hblind hsight).2.2 hprobe hparen

/-- **Nothing is refused as long as the tokens begin a sentence.** -/
theorem not_viable_of_unexpected {refused : SyntaxError} (h : Delivers source tokens last)
    (hlast : next last = .error error after) (hrefused : parseSource source = .error (.unexpected refused)) :
    ¬ Viable (kindsIn tokens) := by
  intro hviable
  obtain ⟨final, hreturns⟩ := parseSource_returns source
  rw [hrefused] at hreturns
  obtain ⟨n, stage, goal, rest, failed, hstage, -, hagenda, -, -, hfailed⟩ := hreturns.failure
  obtain ⟨unseen, -, hlexical⟩ | ⟨seen, hsight, hplan⟩ := hfailed
  · cases hlexical
  obtain ⟨_, _, _, -, -, hdeep, -⟩ | ⟨missed, wanted, hrefuse, -, -⟩ := Plan.error_cases hplan
  · cases hdeep
  have hblind : goal.blind = false := Goal.blind_of_refuse hrefuse
  obtain ⟨twin, -, -, -, -, hfaithful⟩ := twin_after h hlast hstage
  obtain ⟨hlt, hseen, hbehind⟩ := seen_before h hlast hstage hblind hsight
  rw [hagenda] at hfaithful
  rw [hseen] at hrefuse
  rcases hfaithful.dead_of_refuse rfl hrefuse with hdead | ⟨hprobed, hparen, hdead⟩
  · refine hdead (hviable.of_begin ?_)
    rw [← takenOf_succ]
    exact takenOf_begin_tokens h hlt
  · have hsecond : stage.parser.generation + 1 < tokens.length := by
      rcases hprobed with hasks | hprobe
      · exact seen_of_asks h hlast hstage hasks hparen
      · exact hbehind hprobe hparen
    have hmore : takenOf (streamOf tokens) stage.parser.generation ++
        [(streamOf tokens stage.parser.generation).kind, (streamOf tokens (stage.parser.generation + 1)).kind] =
          takenOf (streamOf tokens) (stage.parser.generation + 2) := by
      rw [takenOf_succ, takenOf_succ, List.append_assoc]
      rfl
    have hbegin := takenOf_begin_tokens h hsecond
    rw [← hmore] at hbegin
    exact hdead (hviable.of_begin hbegin)

theorem parseTokens_ne_lexical (tokens : List Token) (unseen : LexError) :
    parseTokens tokens ≠ .error (.lexical unseen) := by
  intro hlexical
  obtain ⟨n, stage, -, hends, -⟩ := program_ends (reads_ofList tokens)
  have houtcome : (Parser.ofSource (TokenList.ofList tokens)).outcome = .error (.lexical unseen) := hlexical
  rw [houtcome] at hends
  cases hends

/-- **The parse fails with the source, or comes to what any list that begins with the tokens before comes
to.** -/
theorem parseSource_cases (h : Delivers source tokens last) (hlast : next last = .error error after) :
    (parseSource source = .error (.lexical error) ∧ Viable (kindsIn tokens) ∧
        ∀ limit position, parseTokens tokens ≠ .error (.tooDeep limit position)) ∨
      ∀ more, parseSource source = parseTokens (tokens ++ more) := by
  by_cases hsame : ∀ more, parseSource source = parseTokens (tokens ++ more)
  · exact .inr hsame
  left
  obtain ⟨more, hother⟩ : ∃ more, parseSource source ≠ parseTokens (tokens ++ more) := by
    simpa using hsame
  obtain ⟨n, stage, goal, rest, unseen, hstage, hagenda, hsight, hlexical⟩ :=
    (parseSource_alike (outlook_tokens h hlast more)).resolve_left hother
  obtain ⟨rfl, -⟩ := place_of_unseen h hlast hstage hsight
  exact ⟨hlexical, viable_of_unseen h hlast hstage hagenda hsight, not_tooDeep_of_unseen h hlast hstage hsight⟩

/-- **The error of the source is reported** just where the tokens before it begin a sentence and are not
nested too deeply. -/
theorem parseSource_lexical_iff (h : Delivers source tokens last) (hlast : next last = .error error after) :
    parseSource source = .error (.lexical error) ↔ Viable (kindsIn tokens) ∧
      ∀ limit position, parseTokens tokens ≠ .error (.tooDeep limit position) := by
  rcases parseSource_cases h hlast with ⟨hlexical, hviable⟩ | hsame
  · exact ⟨fun _ => hviable, fun _ => hlexical⟩
  have hparse := hsame []
  rw [List.append_nil] at hparse
  constructor
  · intro hlexical
    rw [hparse] at hlexical
    exact absurd hlexical (parseTokens_ne_lexical tokens error)
  · rintro ⟨hviable, hshallow⟩
    exfalso
    -- what else may come of the parse is ruled out one by one
    cases houtcome : parseSource source with
    | ok value => exact parseSource_ne_ok h hlast houtcome
    | error failure =>
      rw [houtcome] at hparse
      cases failure with
      | lexical unseen => exact parseTokens_ne_lexical tokens unseen hparse.symm
      | unexpected refused => exact not_viable_of_unexpected h hlast houtcome hviable
      | tooDeep limit position => exact hshallow limit position hparse.symm

end Failing

/-- **Parsing a text on demand agrees with reading its tokens first.** If the text has tokens, the parse
comes to what a parse of them comes to. If it has an error, it is never accepted. The parse reports that
error just where the tokens before it begin a sentence and are not nested too deeply; otherwise it is
refused for those tokens, in the same way whatever might follow them. -/
theorem parseText_on_demand (text : String) :
    (∀ tokens, lexText text = .ok tokens → parseText text = parseTokens tokens) ∧
    ∀ error, lexText text = .error error → ∃ tokens last after,
      Delivers (Lexer.ofString text) tokens last ∧ next last = .error error after ∧
      parseText text ≠ .ok () ∧
      (parseText text = .error (.lexical error) ↔ Viable (kindsIn tokens) ∧
        ∀ limit position, parseTokens tokens ≠ .error (.tooDeep limit position)) ∧
      (parseText text ≠ .error (.lexical error) →
        ((∃ refused, parseText text = .error (.unexpected refused)) ∨
          ∃ limit position, parseText text = .error (.tooDeep limit position)) ∧
        ∀ more, parseText text = parseTokens (tokens ++ more)) := by
  refine ⟨fun tokens h => parseSource_of_drain h, fun error h => ?_⟩
  obtain ⟨tokens, last, hdelivers, ⟨eof, after, -, -, hdrain⟩ | ⟨other, after, hlast, hdrain⟩⟩ :=
    FiniteSource.drain_cases (Lexer.ofString text)
  · rw [lexText, hdrain] at h
    cases h
  rw [lexText, hdrain] at h
  cases h
  refine ⟨tokens, last, after, hdelivers, hlast, parseSource_ne_ok hdelivers hlast,
    parseSource_lexical_iff hdelivers hlast, fun hother => ?_⟩
  have hsame := (parseSource_cases hdelivers hlast).resolve_left fun hlexical => hother hlexical.1
  refine ⟨?_, hsame⟩
  have hparse : parseText text = parseTokens (tokens ++ []) := hsame []
  cases houtcome : parseText text with
  | ok value => exact absurd houtcome (parseSource_ne_ok hdelivers hlast)
  | error failure =>
    rw [houtcome] at hparse
    cases failure with
    | lexical unseen => exact absurd hparse.symm (parseTokens_ne_lexical _ unseen)
    | unexpected refused => exact .inl ⟨refused, rfl⟩
    | tooDeep limit position => exact .inr ⟨limit, position, rfl⟩

end Cal
