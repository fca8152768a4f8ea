import Cal.Proofs.Parser.Missed

/-!
# What a transcript tells

The events of a parse are the answers of the probes that it has asked, in the order in which it has asked
them, and then its refusal, if it ends with one.

* `Fate`: what comes of a probe, what is reported of it, and what the parse comes to behind it.
* `fate_of_probe`: every probe has such a fate.
* `transcript_truthful`: what the events of a transcript are, and what they say of the parse.
-/

namespace Cal

open Buffer

/-- What comes of a probe that a run asks in its step `m`, if its last step is `n` and it comes to `outcome`,
and the events that tell so. -/
inductive Fate {σ : Type} [Source σ] (start : Stage σ) (n : Nat) (outcome : Outcome) (m : Nat) (probe : Probe)
    (parser : Parser σ) : List Event → Prop
  /-- The probe cannot see, and the run ends there. -/
  | unseen {error : LexError} : m = n → outcome = .error (.lexical error) →
    Fate start n outcome m probe parser []
  /-- The probe is passed at a token that its form does not begin with. -/
  | passed {next : Token} : parser.buffer.view 0 = .ok next → next.kind ≠ .leftParen →
    Fate start n outcome m probe parser [.probed probe false 1]
  /-- The probe misses at an opening parenthesis. No other probe is asked and nothing is taken until that is
  refused. -/
  | missed {paren : Token} {expected : KindSet} : parser.buffer.view 0 = .ok paren → paren.kind = .leftParen →
    outcome = .error (.unexpected ⟨paren, expected⟩) →
    (∀ k later, m < k → start.after k = some later →
      later.reports = [] ∧ later.parser.buffer.past = parser.buffer.past) →
    Fate start n outcome m probe parser [.probed probe false 2]
  /-- The probe hits, and its parenthesis is taken in the next step but one. -/
  | hit {paren : Token} {later : Stage σ} : parser.buffer.view 0 = .ok paren → paren.kind = .leftParen →
    start.after (m + 2) = some later → later.parser.buffer.past = paren :: parser.buffer.past →
    Fate start n outcome m probe parser [.probed probe true 2]
  /-- The probe hits, and its parenthesis would open one body too many. -/
  | tooDeep {paren : Token} {limit : Nat} : parser.buffer.view 0 = .ok paren → paren.kind = .leftParen →
    m = n → outcome = .error (.tooDeep limit paren.position) →
    Fate start n outcome m probe parser [.probed probe true 2]

section Probes

variable {σ : Type} [Source σ] {source : σ} {parser failed after : Parser σ} {goal : Goal} {rest : List Goal}
  {next paren : Token} {kind : TokenKind} {probe : Probe} {error : ParseError} {outcome : Outcome}
  {last : Stage σ} {m n : Nat}

/-- A token that has been seen is taken. -/
theorem next?_of_seen (hview : parser.buffer.view 0 = .ok next) (hkind : next.kind = kind)
    (rest : List Goal) :
    ∃ after, (Stage.mk (.seen kind :: rest) parser).next? = some ⟨rest, after⟩ ∧
      after.buffer.past = next :: parser.buffer.past := by
  have hact : (Goal.seen kind).act parser.buffer.view parser.standing =
      .ok [] { parser.standing with generation := parser.standing.generation + 1 } := by
    rw [Goal.act_of_next rfl rfl hview, Goal.plan, if_pos hkind]
    rfl
  obtain ⟨after, hstep, hstands, hfollows⟩ := step_of_act hact
  obtain ⟨token, hsame, hshows⟩ := hfollows.taken (congrArg Standing.generation hstands)
  rw [hview] at hsame
  obtain rfl := Except.ok.inj hsame
  exact ⟨after, Stage.next?_eq_some.2 ⟨_, rest, [], rfl, hstep, rfl⟩, hshows.2⟩

/-- Where a step fails, the parse ends. -/
theorem ends_here (hstage : (Stage.ofSource source).after m = some ⟨goal :: rest, parser⟩)
    (hstep : goal.step parser = .error error failed) (hlast : (Stage.ofSource source).after n = some last)
    (hend : last.next? = none) (hreturns : (Parser.ofSource source).Returns outcome after) :
    m = n ∧ outcome = .error error := by
  have hnone : (Stage.mk (goal :: rest) parser).next? = none := by simp only [Stage.next?, hstep]
  refine ⟨Nat.le_antisymm (Stage.le_of_last hlast hend hstage) (Stage.le_of_last hstage hnone hlast), ?_⟩
  exact ((returns_of_error hstage hstep).unique hreturns).1

/-- What a probe has found is taken first. -/
theorem plan_of_hit (hprobe : goal.probe? = some probe) :
    ∃ missed opens inner, goal.plan .leftParen true = .go missed opens (.seen .leftParen :: inner) := by
  cases goal with
  | callSuffix => exact ⟨_, _, _, rfl⟩
  | conditionSimple => exact ⟨_, _, _, rfl⟩
  | _ => simp [Goal.probe?] at hprobe

/-- **A probe that hits**: its parenthesis is taken, or it opens one body too many. -/
theorem taken_of_hit (hstage : (Stage.ofSource source).after m = some ⟨goal :: rest, parser⟩)
    (hprobe : goal.probe? = some probe) (hview : parser.buffer.view 0 = .ok paren)
    (hkind : paren.kind = .leftParen) (hhit : probe.sight parser.buffer.view paren.kind = .ok true) :
    (∃ later, (Stage.ofSource source).after (m + 2) = some later ∧
        later.parser.buffer.past = paren :: parser.buffer.past) ∨
      ∃ limit failed, goal.step parser = .error (.tooDeep limit paren.position) failed := by
  obtain ⟨missed, opens, inner, hplan⟩ := plan_of_hit hprobe
  have hact : goal.act parser.buffer.view parser.standing =
      (goal.plan .leftParen true).carryOut paren parser.standing := by
    rw [Goal.act_of_probe (Stage.blind_of_probe hprobe) hprobe hview hhit, hkind]
  rw [hplan] at hact
  cases hstep : goal.step parser with
  | ok goals between =>
    left
    obtain ⟨hplanned, hfollows⟩ := act_of_step hstep
    rw [hact] at hplanned
    obtain ⟨more, rfl, hsame⟩ : ∃ more, goals = .seen .leftParen :: more ∧
        between.standing.generation = parser.standing.generation := by
      rcases Plan.ok_cases hplanned with ⟨htake, -⟩ | ⟨_, hgo, hreached⟩ | ⟨_, _, hgo, -, rfl, hreached⟩ |
        ⟨hleave, -⟩
      · cases htake
      · cases hgo
        refine ⟨inner, rfl, ?_⟩
        rw [hreached]
        rfl
      · cases hgo
        refine ⟨inner ++ [.endBody], rfl, ?_⟩
        rw [hreached]
        rfl
      · cases hleave
    have hshows := hfollows.kept hsame
    have hfirst : (Stage.ofSource source).after (m + 1) = some ⟨.seen .leftParen :: (more ++ rest), between⟩ :=
      Stage.after_succ.2 ⟨_, hstage, Stage.next?_eq_some.2 ⟨goal, rest, _, rfl, hstep, rfl⟩⟩
    obtain ⟨later, hnext, hpast⟩ := next?_of_seen (hshows.1 ▸ hview) hkind (more ++ rest)
    refine ⟨_, Stage.after_succ.2 ⟨_, hfirst, hnext⟩, ?_⟩
    rw [hpast, hshows.2]
  | error error failed =>
    right
    have hplanned := (act_of_step_error hstep).1
    rw [hact] at hplanned
    rcases Plan.error_cases hplanned with ⟨_, _, limit, -, -, rfl, -⟩ | ⟨_, _, hrefuse, -⟩
    · exact ⟨limit, failed, rfl⟩
    · cases hrefuse

/-- **A probe that misses at an opening parenthesis**: that is refused, and nothing is reported or taken
before. -/
theorem refused_of_miss (hstage : (Stage.ofSource source).after m = some ⟨goal :: rest, parser⟩)
    (hprobe : goal.probe? = some probe) (hview : parser.buffer.view 0 = .ok paren)
    (hkind : paren.kind = .leftParen) (hmiss : probe.sight parser.buffer.view paren.kind = .ok false)
    (hreturns : (Parser.ofSource source).Returns outcome after) :
    (∃ expected, outcome = .error (.unexpected ⟨paren, expected⟩)) ∧
      ∀ k later, m < k → (Stage.ofSource source).after k = some later →
        later.reports = [] ∧ later.parser.buffer.past = parser.buffer.past := by
  obtain ⟨n, last, result, hlast, hresult, hfinish⟩ := returns_iff.1 hreturns
  have hend := Stage.next?_of_result hresult
  cases hstep : goal.step parser with
  | ok goals between =>
    have hnext : (Stage.mk (goal :: rest) parser).next? = some ⟨goals ++ rest, between⟩ :=
      Stage.next?_eq_some.2 ⟨goal, rest, goals, rfl, hstep, rfl⟩
    obtain ⟨hblocked, hpast⟩ := Stage.blocked_of_miss hstage hprobe hview hkind hmiss hnext
    have hfirst := Stage.after_succ.2 ⟨_, hstage, hnext⟩
    have hbehind (k : Nat) (later : Stage σ) (hk : m < k)
        (hlater : (Stage.ofSource source).after k = some later) :
        later.Blocked paren ∧ later.parser.buffer.past = between.buffer.past := by
      obtain ⟨j, rfl⟩ := Nat.exists_eq_add_of_le (show m + 1 ≤ k from hk)
      rw [Stage.after_add hfirst] at hlater
      exact hblocked.after hlater
    constructor
    · have hlt : m < n := Nat.lt_of_succ_le (Stage.le_of_last hlast hend hfirst)
      rcases (hbehind n last hlt hlast).1.result hresult with ⟨hnil, rfl⟩ | ⟨expected, failed, rfl⟩
      · -- behind a program that is accepted the input has ended
        cases hfinish
        obtain ⟨eof, heof, -, hnext', -⟩ := end_of_accepted (orderly_ofSource source) hreturns
        rw [(hbehind n last hlt hlast).1.next] at hnext'
        obtain rfl := Except.ok.inj hnext'
        simp [Token.isEof, hkind] at heof
      · cases hfinish
        exact ⟨expected, rfl⟩
    · intro k later hk hlater
      obtain ⟨hblocked', hsame⟩ := hbehind k later hk hlater
      exact ⟨hblocked'.reports_eq_nil, hsame.trans hpast⟩
  | error error failed =>
    obtain ⟨rfl, rfl⟩ := ends_here hstage hstep hlast hend hreturns
    have hplanned := (act_of_step_error hstep).1
    rw [Goal.act_of_probe (Stage.blind_of_probe hprobe) hprobe hview hmiss] at hplanned
    constructor
    · rcases Plan.error_cases hplanned with ⟨_, _, _, hopens, -⟩ | ⟨_, _, -, rfl, -⟩
      · have hparen : false = true → paren.kind = .leftParen := by simp
        cases (Goal.next_of_opens hparen (by rw [hopens]; rfl)).2 hkind
      · exact ⟨_, rfl⟩
    · intro k later hk hlater
      have hle := Stage.le_of_last hlast hend hlater
      omega

/-- **Every probe has its fate.** -/
theorem fate_of_probe (hstage : (Stage.ofSource source).after m = some ⟨goal :: rest, parser⟩)
    (hprobe : goal.probe? = some probe)
    (hasks : ∀ next, parser.buffer.view 0 = .ok next → goal.asks? next.kind = some probe)
    (hlast : (Stage.ofSource source).after n = some last) (hend : last.next? = none)
    (hreturns : (Parser.ofSource source).Returns outcome after) :
    Fate (Stage.ofSource source) n outcome m probe parser (goal.reports parser.buffer.view) := by
  have hblind := Stage.blind_of_probe hprobe
  cases hview : parser.buffer.view 0 with
  | error unseen =>
    obtain ⟨failed, hstep, -⟩ := step_of_act_error (Goal.act_of_hidden hblind hview)
    obtain ⟨hm, houtcome⟩ := ends_here hstage hstep hlast hend hreturns
    rw [Goal.reports_of_hidden hview]
    exact .unseen hm houtcome
  | ok next =>
    cases hsight : probe.sight parser.buffer.view next.kind with
    | error unseen =>
      obtain ⟨failed, hstep, -⟩ := step_of_act_error (Goal.act_of_probe_hidden hblind hprobe hview hsight)
      obtain ⟨hm, houtcome⟩ := ends_here hstage hstep hlast hend hreturns
      rw [Goal.reports_of_error hview (hasks next hview) hsight]
      exact .unseen hm houtcome
    | ok hit =>
      rw [Goal.reports_of_ok hview (hasks next hview) hsight]
      by_cases hkind : next.kind = .leftParen
      · rw [Probe.reach, if_pos hkind]
        cases hit with
        | true =>
          rcases taken_of_hit hstage hprobe hview hkind hsight with ⟨later, hlater, hpast⟩ | ⟨limit, failed, hstep⟩
          · exact .hit hview hkind hlater hpast
          · obtain ⟨hm, houtcome⟩ := ends_here hstage hstep hlast hend hreturns
            exact .tooDeep hview hkind hm houtcome
        | false =>
          obtain ⟨⟨expected, houtcome⟩, hquiet⟩ := refused_of_miss hstage hprobe hview hkind hsight hreturns
          exact .missed hview hkind houtcome hquiet
      · rw [Probe.sight_of_ne hkind] at hsight
        obtain rfl := Except.ok.inj hsight
        rw [Probe.reach, if_neg hkind]
        exact .passed hview hkind

end Probes

section Placement

variable {σ : Type} [Source σ] {source : σ} {before parser : Parser σ} {rest : List Goal} {name : Token}
  {m k : Nat}

/-- A fragment that begins with an identifier takes that, and then it asks whether a call follows. -/
theorem suffix_of_fragment (hstage : (Stage.ofSource source).after k = some ⟨.fragment :: rest, before⟩)
    (hview : before.buffer.view 0 = .ok name) (hkind : name.kind = .identifier) :
    ∃ parser, (Stage.ofSource source).after (k + 2) = some ⟨.callSuffix :: rest, parser⟩ ∧
      parser.buffer.past = name :: before.buffer.past := by
  have hsight : Goal.fragment.sight before.buffer.view = .ok ⟨name, false⟩ :=
    Goal.sight_of_next rfl rfl hview
  have hplan : Goal.fragment.plan name.kind false = .go [] false [.seen .identifier, .callSuffix] := by
    rw [hkind]
    rfl
  obtain ⟨between, hnext, -, hsame, hpast⟩ := next?_of_go hsight hplan rest
  obtain ⟨parser, hlater, htaken⟩ := next?_of_seen (hsame ▸ hview) hkind (.callSuffix :: rest)
  refine ⟨parser, Stage.after_succ.2 ⟨_, Stage.after_succ.2 ⟨_, hstage, hnext⟩, hlater⟩, ?_⟩
  rw [htaken, hpast]

/-- It is asked nowhere else whether a call follows. -/
theorem fragment_of_suffix (hstage : (Stage.ofSource source).after m = some ⟨.callSuffix :: rest, parser⟩) :
    ∃ k before name, m = k + 2 ∧ (Stage.ofSource source).after k = some ⟨.fragment :: rest, before⟩ ∧
      before.buffer.view 0 = .ok name ∧ name.kind = .identifier ∧
      parser.buffer.past = name :: before.buffer.past := by
  cases Stage.suffixed_after rfl hstage with
  | none hnone => simp at hnone
  | soon _ _ _ _ _ hsoon => cases hsoon
  | @now k _ before name hm hfragment hview hkind _ hnow htaken =>
    cases hnow
    exact ⟨k, before, name, hm, hfragment, hview, hkind, htaken⟩

end Placement

/-- **What the events of a transcript say** of the parse, which ends with its step `n` and leaves the parser
`after`. -/
structure Truthful {σ : Type} [Source σ] (source : σ) (transcript : Transcript) (n : Nat)
    (after : Parser σ) : Prop where
  last : ∃ stage, (Stage.ofSource source).after n = some stage ∧ stage.next? = none
  returns : (Parser.ofSource source).Returns transcript.outcome after
  /-- The events are the answers of probes, step by step, and then the refusal, if the parse ends with one. -/
  events : transcript.events = (Stage.ofSource source).reported (n + 1) ++ after.closing transcript.outcome
  answers : ∀ event ∈ (Stage.ofSource source).reported (n + 1), ∃ probe hit seen, event = .probed probe hit seen
  /-- A step answers a probe where a call may follow an identifier. -/
  suffix (m : Nat) (rest : List Goal) (parser : Parser σ) :
    (Stage.ofSource source).after m = some ⟨.callSuffix :: rest, parser⟩ →
      Fate (Stage.ofSource source) n transcript.outcome m .callSuffix parser
        (Stage.reports ⟨.callSuffix :: rest, parser⟩)
  /-- It answers one at the start of a simple condition that is no negation. -/
  condition (m : Nat) (rest : List Goal) (parser : Parser σ) :
    (Stage.ofSource source).after m = some ⟨.conditionSimple :: rest, parser⟩ →
      (∃ next, parser.buffer.view 0 = .ok next ∧ next.kind = .notKw) ∧
          Stage.reports ⟨.conditionSimple :: rest, parser⟩ = [] ∨
        (∀ next, parser.buffer.view 0 = .ok next → next.kind ≠ .notKw) ∧
          Fate (Stage.ofSource source) n transcript.outcome m .parenCondition parser
            (Stage.reports ⟨.conditionSimple :: rest, parser⟩)
  others (m : Nat) (stage : Stage σ) : (Stage.ofSource source).after m = some stage →
    stage.agenda.head? ≠ some .callSuffix → stage.agenda.head? ≠ some .conditionSimple → stage.reports = []
  /-- A call may follow just those identifiers that a fragment has begun with. -/
  named (m : Nat) (rest : List Goal) (parser : Parser σ) :
    (Stage.ofSource source).after m = some ⟨.callSuffix :: rest, parser⟩ →
      ∃ k before name, m = k + 2 ∧ (Stage.ofSource source).after k = some ⟨.fragment :: rest, before⟩ ∧
        before.buffer.view 0 = .ok name ∧ name.kind = .identifier ∧
        parser.buffer.past = name :: before.buffer.past
  names (k : Nat) (rest : List Goal) (before : Parser σ) (name : Token) :
    (Stage.ofSource source).after k = some ⟨.fragment :: rest, before⟩ →
      before.buffer.view 0 = .ok name → name.kind = .identifier →
      ∃ parser, (Stage.ofSource source).after (k + 2) = some ⟨.callSuffix :: rest, parser⟩ ∧
        parser.buffer.past = name :: before.buffer.past
  /-- What a refusal expects are the first kinds of the points that are live, and one kind more at most. -/
  expects (refused : SyntaxError) : transcript.outcome = .error (.unexpected refused) →
    ∃ wanted : Option TokenKind, ∀ kind, kind ∈ refused.expected ↔
      (∃ point ∈ after.live, kind ∈ point.firstKinds) ∨ wanted = some kind
  ordered : after.live.Sublist Decision.all

/-- A simple condition asks its probe unless it is a negation. -/
theorem asks?_conditionSimple (next : TokenKind) :
    Goal.conditionSimple.asks? next = if next = .notKw then none else some .parenCondition := by
  cases next <;> rfl

/-- Only probes are reported by the steps of a run. -/
theorem probed_of_reported {σ : Type} [Source σ] {start : Stage σ} {n : Nat} {event : Event}
    (h : event ∈ start.reported n) : ∃ probe hit seen, event = .probed probe hit seen := by
  obtain ⟨m, -, hm⟩ := List.mem_flatMap.1 h
  cases hstage : start.after m with
  | none =>
    rw [hstage] at hm
    cases hm
  | some stage =>
    rw [hstage] at hm
    obtain ⟨agenda, parser⟩ := stage
    cases agenda with
    | nil => cases hm
    | cons goal rest =>
      have hmem : event ∈ goal.reports parser.buffer.view := hm
      unfold Goal.reports at hmem
      split at hmem
      · cases hmem
      split at hmem
      · cases hmem
      split at hmem
      · cases hmem
      · exact ⟨_, _, _, List.mem_singleton.1 hmem⟩

/-- **A transcript tells the truth about the parse**, whatever its source. -/
theorem transcript_truthful {σ : Type} [FiniteSource σ] (span : Span) (source : σ) :
    (Transcript.ofSource span source).span = span ∧
      ∃ n after, Truthful source (Transcript.ofSource span source) n after := by
  have hreturns := returns_program (Parser.ofSource source)
  have htranscript : Transcript.ofSource span source =
      ⟨span, (replyOf (Parser.ofSource source).program).2.events.reverse,
        (replyOf (Parser.ofSource source).program).1⟩ := by
    unfold Transcript.ofSource
    cases (Parser.ofSource source).program <;> rfl
  rw [htranscript]
  generalize (replyOf (Parser.ofSource source).program).1 = outcome at hreturns
  generalize (replyOf (Parser.ofSource source).program).2 = after at hreturns
  obtain ⟨n, last, hlast, hend, hevents, hdiagnosed⟩ := reported_of_returns hreturns
  refine ⟨rfl, n, after, ⟨last, hlast, hend⟩, hreturns, hevents, fun event => probed_of_reported, ?_, ?_, ?_,
    fun m rest parser => fragment_of_suffix, fun k rest before name => suffix_of_fragment, ?_,
    List.filter_sublist⟩
  · intro m rest parser hstage
    exact fate_of_probe hstage rfl (fun _ _ => rfl) hlast hend hreturns
  · intro m rest parser hstage
    by_cases hnegated : ∃ next, parser.buffer.view 0 = .ok next ∧ next.kind = .notKw
    · obtain ⟨next, hview, hkind⟩ := hnegated
      refine .inl ⟨⟨next, hview, hkind⟩, Goal.reports_of_none hview ?_⟩
      rw [asks?_conditionSimple, if_pos hkind]
    · have hother : ∀ next, parser.buffer.view 0 = .ok next → next.kind ≠ .notKw :=
        fun next hview hkind => hnegated ⟨next, hview, hkind⟩
      refine .inr ⟨hother, fate_of_probe hstage rfl (fun next hview => ?_) hlast hend hreturns⟩
      rw [asks?_conditionSimple, if_neg (hother next hview)]
  · rintro m ⟨agenda, parser⟩ - hsuffix hcondition
    cases agenda with
    | nil => rfl
    | cons goal rest =>
      have hprobe : goal.probe? = none := by
        cases goal <;> first | rfl | simp at hsuffix hcondition
      cases hview : parser.buffer.view 0 with
      | error unseen => exact Goal.reports_of_hidden hview
      | ok next => exact Goal.reports_of_none hview (Goal.asks?_of_probe hprobe _)
  · intro refused hrefused
    obtain ⟨wanted, hwanted⟩ := hdiagnosed refused hrefused
    refine ⟨wanted, fun kind => ?_⟩
    have hexpected : refused.expected = after.standing.expected wanted :=
      congrArg SyntaxError.expected hwanted
    rw [hexpected, Standing.mem_expected]
    refine or_congr_left ⟨?_, ?_⟩
    · rintro ⟨point, hstamp, hkind⟩
      exact ⟨point, Decision.Log.mem_live.2 hstamp, hkind⟩
    · rintro ⟨point, hlive, hkind⟩
      exact ⟨point, Decision.Log.mem_live.1 hlive, hkind⟩

/-- The probe behind the second identifier misses, and then just the parenthesis is refused. -/
example : (transcribeTokens (tokensOf [.mainKw, .beginKw, .identifier, .assign, .identifier, .leftParen,
    .comma])).events = [.probed .callSuffix false 2, .refused .start .leftParen 3 [.expression]] := by
  decide +kernel

end Cal
