import Cal.Proofs.Parser.Standing

/-!
# What a step does to a parser

A step looks at the next token, and at the one behind it if it asks a probe at an opening parenthesis.
If one of these cannot be seen, the step fails with that error. Otherwise it goes as the plan of its
goal says. `Goal.act` says so without a buffer: it works on what a parser has in view and on where it
stands, for any source, whatever errors are in view.

* `goes_step`: every step goes as `Goal.act` says.
* `carries_step`: where tokens come without end, it goes as planned.
-/

namespace Cal

open ParseM Buffer

/-- What a step has looked at: the next token, and whether the probe of its goal hit. -/
structure Sight where
  next : Token
  hit : Bool

namespace Goal

/-- Whether a step towards a goal looks at no token. -/
def blind : Goal → Bool
  | nempParameterList | main | expression | condition | nempArgList | endBody => true
  | _ => false

/-- What a step towards a goal sees, or the error that keeps it from seeing. -/
def sight (goal : Goal) (view : Nat → Except LexError Token) : Except LexError Sight :=
  if goal.blind then .ok ⟨.eof .start, false⟩
  else
    match view 0 with
    | .error error => .error error
    | .ok next =>
      match goal.probe? with
      | none => .ok ⟨next, false⟩
      | some probe => (probe.sight view next.kind).map (⟨next, ·⟩)

/-- The decision points that a step has missed when it comes to ask its probe. -/
def missedBefore : Goal → List Decision
  | conditionSimple => [.negation]
  | _ => []

/-- What a step towards a goal does to a standing, in view of the tokens to come. -/
def act (goal : Goal) (view : Nat → Except LexError Token) : EStateM ParseError Standing (List Goal) :=
  fun standing =>
    match goal.sight view with
    | .ok sight => (goal.plan sight.next.kind sight.hit).carryOut sight.next standing
    | .error error =>
      -- where the next token is seen, it is the probe that fails
      .error (.lexical error) (standing.miss (if (view 0).isOk then goal.missedBefore else []))

variable {goal : Goal} {view : Nat → Except LexError Token} {standing : Standing} {next : Token}
  {probe : Probe} {error : LexError} {hit : Bool} {seen : Sight}

theorem plan_blind (h : goal.blind = true) (kind : TokenKind) (hit : Bool) (token : Token) :
    (goal.plan kind hit).carryOut token = (goal.plan .eof false).carryOut (.eof .start) := by
  cases goal <;> first | rfl | cases h

/-- What is planned for a goal that looks at nothing does not depend on what is next. -/
theorem plan_of_blind (h : goal.blind = true) (kind : TokenKind) (hit : Bool) :
    goal.plan kind hit = goal.plan .eof false := by
  cases goal <;> first | rfl | cases h

theorem missed_blind (h : goal.blind = true) (kind : TokenKind) (hit : Bool) :
    (goal.plan kind hit).missed = [] := by
  cases goal <;> first | rfl | cases h

/-- What is refused has been seen. -/
theorem blind_of_refuse {kind : TokenKind} {missed : List Decision} {wanted : Option TokenKind}
    (h : goal.plan kind hit = .refuse missed wanted) : goal.blind = false := by
  cases goal <;> first | rfl | simp [plan] at h

theorem sight_of_hidden (h : goal.blind = false) (hview : view 0 = .error error) :
    goal.sight view = .error error := by
  simp [sight, h, hview]

theorem sight_of_next (h : goal.blind = false) (hprobe : goal.probe? = none) (hview : view 0 = .ok next) :
    goal.sight view = .ok ⟨next, false⟩ := by
  simp [sight, h, hview, hprobe]

theorem sight_of_probe (h : goal.blind = false) (hprobe : goal.probe? = some probe)
    (hview : view 0 = .ok next) : goal.sight view = (probe.sight view next.kind).map (⟨next, ·⟩) := by
  simp [sight, h, hview, hprobe]

/-- A step that cannot see lacks the next token, or the one behind it at the parenthesis of a probe. -/
theorem sight_error_cases (h : goal.sight view = .error error) :
    view 0 = .error error ∨ ∃ next, view 0 = .ok next ∧ next.kind = .leftParen ∧
      goal.probe?.isSome = true ∧ view 1 = .error error := by
  cases hblind : goal.blind with
  | true => simp [sight, hblind] at h
  | false =>
    cases hnext : view 0 with
    | error other =>
      rw [sight_of_hidden hblind hnext] at h
      cases h
      exact .inl rfl
    | ok next =>
      right
      cases hprobe : goal.probe? with
      | none =>
        rw [sight_of_next hblind hprobe hnext] at h
        cases h
      | some probe =>
        rw [sight_of_probe hblind hprobe hnext] at h
        by_cases hkind : next.kind = .leftParen
        · rw [hkind, Probe.sight_leftParen] at h
          cases hsecond : view 1 with
          | ok second => simp [hsecond, Except.map] at h
          | error other =>
            rw [hsecond] at h
            cases h
            exact ⟨next, rfl, hkind, rfl, rfl⟩
        · rw [Probe.sight_of_ne hkind] at h
          cases h

/-- What a step sees that is not blind: the next token, and at the parenthesis of a probe the one behind
it. -/
theorem sight_ok_cases (hblind : goal.blind = false) (h : goal.sight view = .ok seen) :
    view 0 = .ok seen.next ∧ (goal.probe?.isSome = true → seen.next.kind = .leftParen →
      ∃ second, view 1 = .ok second) := by
  cases hnext : view 0 with
  | error other =>
    rw [sight_of_hidden hblind hnext] at h
    cases h
  | ok next =>
    cases hprobe : goal.probe? with
    | none =>
      rw [sight_of_next hblind hprobe hnext] at h
      cases h
      exact ⟨rfl, nofun⟩
    | some probe =>
      rw [sight_of_probe hblind hprobe hnext] at h
      cases hsight : probe.sight view next.kind with
      | error other =>
        rw [hsight] at h
        cases h
      | ok hit =>
        rw [hsight] at h
        cases h
        refine ⟨rfl, fun _ hkind => ?_⟩
        rw [show next.kind = .leftParen from hkind, Probe.sight_leftParen] at hsight
        cases hsecond : view 1 with
        | ok second => exact ⟨second, rfl⟩
        | error other =>
          rw [hsecond] at hsight
          cases hsight

theorem leftParen_of_sight (h : goal.sight view = .ok seen) (hhit : seen.hit = true) :
    seen.next.kind = .leftParen := by
  obtain ⟨token, hit⟩ := seen
  cases hblind : goal.blind with
  | true =>
    simp only [sight, hblind, if_true] at h
    cases h
    cases hhit
  | false =>
    have hnext : view 0 = .ok token := (sight_ok_cases hblind h).1
    cases hprobe : goal.probe? with
    | none =>
      rw [sight_of_next hblind hprobe hnext] at h
      cases h
      cases hhit
    | some probe =>
      by_contra hkind
      rw [sight_of_probe hblind hprobe hnext, Probe.sight_of_ne hkind] at h
      cases h
      cases hhit

/-- What is seen in a view is seen in every view that shows the same next two tokens, as far as they are
shown. -/
theorem sight_mono {other : Nat → Except LexError Token}
    (hview : ∀ k < 2, ∀ token, view k = .ok token → other k = .ok token) (h : goal.sight view = .ok seen) :
    goal.sight other = .ok seen := by
  cases hblind : goal.blind with
  | true => simpa [sight, hblind] using h
  | false =>
    cases hnext : view 0 with
    | error error =>
      rw [sight_of_hidden hblind hnext] at h
      cases h
    | ok next =>
      have hnext' := hview 0 Nat.two_pos next hnext
      cases hprobe : goal.probe? with
      | none =>
        rw [sight_of_next hblind hprobe hnext] at h
        rw [sight_of_next hblind hprobe hnext', h]
      | some probe =>
        rw [sight_of_probe hblind hprobe hnext] at h
        rw [sight_of_probe hblind hprobe hnext', ← h]
        by_cases hkind : next.kind = .leftParen
        · rw [hkind, Probe.sight_leftParen] at h ⊢
          rw [Probe.sight_leftParen]
          cases hsecond : view 1 with
          | error error =>
            rw [hsecond] at h
            cases h
          | ok second => rw [hview 1 Nat.one_lt_two second hsecond]
        · rw [Probe.sight_of_ne hkind, Probe.sight_of_ne hkind]

theorem act_blind (h : goal.blind = true) :
    goal.act view standing = (goal.plan .eof false).carryOut (.eof .start) standing := by
  simp only [act, sight, if_pos h]
  rfl

theorem act_of_hidden (h : goal.blind = false) (hview : view 0 = .error error) :
    goal.act view standing = .error (.lexical error) standing := by
  simp [act, sight_of_hidden h hview, hview, Except.isOk, Except.toBool, Standing.miss]

theorem act_of_next (h : goal.blind = false) (hprobe : goal.probe? = none) (hview : view 0 = .ok next) :
    goal.act view standing = (goal.plan next.kind false).carryOut next standing := by
  simp [act, sight_of_next h hprobe hview]

theorem act_of_probe (h : goal.blind = false) (hprobe : goal.probe? = some probe) (hview : view 0 = .ok next)
    (hsight : probe.sight view next.kind = .ok hit) :
    goal.act view standing = (goal.plan next.kind hit).carryOut next standing := by
  simp [act, sight_of_probe h hprobe hview, hsight, Except.map]

theorem act_of_probe_hidden (h : goal.blind = false) (hprobe : goal.probe? = some probe)
    (hview : view 0 = .ok next) (hsight : probe.sight view next.kind = .error error) :
    goal.act view standing = .error (.lexical error) (standing.miss goal.missedBefore) := by
  simp [act, sight_of_probe h hprobe hview, hview, hsight, Except.map, Except.isOk, Except.toBool]

theorem act_of_sight (h : goal.sight view = .ok seen) (standing : Standing) :
    goal.act view standing = (goal.plan seen.next.kind seen.hit).carryOut seen.next standing := by
  simp only [act, h]

/-- A step fails because it cannot see, or as planned. -/
theorem act_error_cases {failure : ParseError} {reached : Standing}
    (h : goal.act view standing = .error failure reached) :
    (∃ unseen, goal.sight view = .error unseen ∧ failure = .lexical unseen ∧
        reached = standing.miss (if (view 0).isOk then goal.missedBefore else [])) ∨
      ∃ seen, goal.sight view = .ok seen ∧
        (goal.plan seen.next.kind seen.hit).carryOut seen.next standing = .error failure reached := by
  unfold act at h
  cases hsight : goal.sight view with
  | ok seen =>
    rw [hsight] at h
    exact .inr ⟨seen, rfl, h⟩
  | error unseen =>
    rw [hsight] at h
    cases h
    exact .inl ⟨unseen, rfl, rfl, rfl⟩

/-- A step that does not fail goes as planned. -/
theorem act_ok_cases {goals : List Goal} {reached : Standing} (h : goal.act view standing = .ok goals reached) :
    ∃ seen, goal.sight view = .ok seen ∧
      (goal.plan seen.next.kind seen.hit).carryOut seen.next standing = .ok goals reached := by
  unfold act at h
  cases hsight : goal.sight view with
  | ok seen =>
    rw [hsight] at h
    exact ⟨seen, rfl, h⟩
  | error unseen =>
    rw [hsight] at h
    cases h

/-- What is missed would not have accepted the next token. -/
theorem unfit_of_missed {point : Decision} (hsight : goal.sight view = .ok seen)
    (hpoint : point ∈ (goal.plan seen.next.kind seen.hit).missed) :
    ∃ next, view 0 = .ok next ∧ next.kind ∉ point.firstKinds := by
  cases hblind : goal.blind with
  | true =>
    rw [missed_blind hblind] at hpoint
    cases hpoint
  | false =>
    obtain ⟨hnext, -⟩ := sight_ok_cases hblind hsight
    refine ⟨seen.next, hnext, fun hkind => ?_⟩
    have hoffered : seen.next.kind ∉ (goal.plan seen.next.kind seen.hit).offered := next_not_mem_offered
    have hmem : seen.next.kind ∈ (goal.plan seen.next.kind seen.hit).missed.flatMap Decision.firstKinds :=
      List.mem_flatMap.2 ⟨point, hpoint, hkind⟩
    exact hoffered (Plan.firstKinds_subset_offered hmem)

/-- Nor would what has been missed before a probe fails. -/
theorem unfit_of_missedBefore {point : Decision} (hsight : goal.sight view = .error error)
    (hpoint : point ∈ if (view 0).isOk then goal.missedBefore else []) :
    ∃ next, view 0 = .ok next ∧ next.kind ∉ point.firstKinds := by
  rcases sight_error_cases hsight with hnext | ⟨next, hnext, hkind, -, -⟩
  · rw [hnext] at hpoint
    cases hpoint
  · rw [hnext] at hpoint
    refine ⟨next, hnext, ?_⟩
    rw [hkind]
    cases goal with
    | conditionSimple =>
      obtain rfl : point = .negation := List.mem_singleton.1 hpoint
      decide
    | _ => cases hpoint

theorem sight_stream (hblind : goal.blind = false) (stream : Nat → Token) (n : Nat) :
    goal.sight (fun k => .ok (stream (n + k))) =
      .ok ⟨stream n, goal.hits (stream n).kind (stream (n + 1)).kind⟩ := by
  cases hprobe : goal.probe? with
  | none =>
    rw [sight_of_next hblind hprobe rfl]
    simp [hits, hprobe]
  | some probe =>
    rw [sight_of_probe hblind hprobe rfl, Probe.sight_of_ok rfl]
    simp [hits, hprobe, Except.map]

/-- **Where tokens come without end, a step goes as planned.** -/
theorem act_stream (goal : Goal) (stream : Nat → Token) (n : Nat) (standing : Standing) :
    goal.act (fun k => .ok (stream (n + k))) standing =
      (goal.planAt stream n).carryOut (stream n) standing := by
  cases hblind : goal.blind with
  | true => rw [act_blind hblind, planAt, plan_blind hblind (stream n).kind]
  | false => rw [act_of_sight (sight_stream hblind stream n), planAt]

end Goal

/-- What a parser has in view, what it has taken, and where it stands. -/
structure Sees {σ : Type} [Source σ] (view : Nat → Except LexError Token) (past : List Token)
    (standing : Standing) (parser : Parser σ) : Prop where
  shows : Shows view past parser.buffer
  stands : parser.standing = standing

/-- A parser has its view still, and has taken nothing more, or it has taken the next token. -/
def Follows {σ : Type} [Source σ] (view : Nat → Except LexError Token) (past : List Token)
    (generation : Nat) (after : Parser σ) : Prop :=
  after.generation = generation ∧ Shows view past after.buffer ∨
    after.generation = generation + 1 ∧ ∃ next, view 0 = .ok next ∧
      Shows (fun k => view (k + 1)) (next :: past) after.buffer

variable {σ α : Type} [Source σ] {view : Nat → Except LexError Token} {past : List Token}
  {standing : Standing} {parser : Parser σ} {goal : Goal} {next : Token}
  {result : EStateM.Result ParseError Standing (List Goal)}

theorem Follows.kept {generation : Nat} {after : Parser σ} (h : Follows view past generation after)
    (hsame : after.generation = generation) : Shows view past after.buffer := by
  obtain ⟨-, hshows⟩ := h.resolve_right fun ⟨hsucc, _⟩ => by omega
  exact hshows

theorem Follows.taken {generation : Nat} {after : Parser σ} (h : Follows view past generation after)
    (hsucc : after.generation = generation + 1) :
    ∃ next, view 0 = .ok next ∧ Shows (fun k => view (k + 1)) (next :: past) after.buffer := by
  obtain ⟨-, hshows⟩ := h.resolve_left fun ⟨hsame, _⟩ => by omega
  exact hshows

/-- An action comes to a given result where the parser stands. If it fails, what was in view of tokens
still is. -/
abbrev Goes (view : Nat → Except LexError Token) (past : List Token) (generation : Nat)
    (action : ParseM σ (List Goal)) (parser : Parser σ)
    (result : EStateM.Result ParseError Standing (List Goal)) : Prop :=
  Leads action parser
    (fun goals after => result = .ok goals after.standing ∧ Follows view past generation after)
    fun error after => result = .error error after.standing ∧ Recalls view past after.buffer

omit [Source σ] in
theorem leads_onBuffer_ok {action : EStateM LexError (Buffer σ) α} {value : α} {buffer : Buffer σ}
    {good : α → Parser σ → Prop} {bad : ParseError → Parser σ → Prop}
    (hrun : action parser.buffer = .ok value buffer) (hgood : good value { parser with buffer }) :
    Leads (onBuffer action) parser good bad := by
  unfold Leads onBuffer
  rw [hrun]
  exact hgood

omit [Source σ] in
theorem leads_onBuffer_error {action : EStateM LexError (Buffer σ) α} {error : LexError} {buffer : Buffer σ}
    {good : α → Parser σ → Prop} {bad : ParseError → Parser σ → Prop}
    (hrun : action parser.buffer = .error error buffer)
    (hbad : bad (.lexical error) { parser with buffer }) : Leads (onBuffer action) parser good bad := by
  unfold Leads onBuffer
  rw [hrun]
  exact hbad

namespace Sees

/-- Where a parser stands is not a matter of its buffer and its events. -/
theorem keep {after : Parser σ} (h : Sees view past standing parser)
    (hstands : after.standing = parser.standing) (hshows : Shows view past after.buffer) :
    Sees view past standing after :=
  ⟨hshows, hstands.trans h.stands⟩

theorem miss (h : Sees view past standing parser) (point : Decision) :
    Sees view past (standing.miss [point])
      { parser with decisions := parser.decisions.record point parser.generation } := by
  obtain ⟨hshows, rfl⟩ := h
  exact ⟨hshows, rfl⟩

/-- Looking at the next token shows it and changes nothing. -/
theorem leads_nextToken {good : Token → Parser σ → Prop} {bad : ParseError → Parser σ → Prop}
    (h : Sees view past standing parser) (hnext : view 0 = .ok next)
    (hgood : ∀ after, Sees view past standing after → good next after) :
    Leads nextToken parser good bad := by
  obtain ⟨after, hpeek, hafter⟩ := peek_of_shows h.shows hnext
  exact leads_onBuffer_ok hpeek (hgood _ (h.keep rfl hafter))

theorem leads_nextKind {good : TokenKind → Parser σ → Prop} {bad : ParseError → Parser σ → Prop}
    (h : Sees view past standing parser) (hnext : view 0 = .ok next)
    (hgood : ∀ after, Sees view past standing after → good next.kind after) :
    Leads nextKind parser good bad :=
  leads_bind (h.leads_nextToken hnext fun after hafter => leads_pure (hgood after hafter))

/-- **A step first looks at the next token**, unless it is blind, and fails if it cannot see that. -/
theorem leads_look {good : TokenKind → Parser σ → Prop} (h : Sees view past standing parser)
    (hblind : goal.blind = false)
    (hgood : ∀ next after, view 0 = .ok next → Sees view past standing after → good next.kind after) :
    Leads nextKind parser good fun error after =>
      goal.act view standing = .error error after.standing ∧ Recalls view past after.buffer := by
  cases hview : view 0 with
  | ok next => exact h.leads_nextKind hview fun after hafter => hgood next after hview hafter
  | error error =>
    obtain ⟨after, hpeek, hafter⟩ := peek_of_hidden h.shows hview
    refine leads_bind (leads_onBuffer_error hpeek ⟨?_, hafter⟩)
    obtain ⟨-, rfl⟩ := h
    exact Goal.act_of_hidden hblind hview

theorem goes_pure {goals : List Goal} (h : Sees view past standing parser) :
    Goes view past standing.generation (pure goals) parser (.ok goals standing) := by
  obtain ⟨hshows, rfl⟩ := h
  exact leads_pure ⟨rfl, .inl ⟨rfl, hshows⟩⟩

theorem goes_refuse {good : α → Parser σ → Prop} (h : Sees view past standing parser)
    (hnext : view 0 = .ok next) (wanted : Option TokenKind) :
    Leads (refuse wanted) parser good fun error after =>
      (Plan.refuse [] wanted).carryOut next standing = .error error after.standing ∧
        Recalls view past after.buffer := by
  refine leads_bind (h.leads_nextToken hnext fun after hafter => leads_bind (leads_get ?_))
  obtain ⟨hshows, rfl⟩ := hafter
  exact leads_bind (leads_set (leads_throw ⟨rfl, hshows.recalls⟩))

theorem goes_refuseAt {good : α → Parser σ → Prop} (h : Sees view past standing parser)
    (hnext : view 0 = .ok next) (point : Decision) :
    Leads (refuseAt point) parser good fun error after =>
      (Plan.refuse [point] none).carryOut next standing = .error error after.standing ∧
        Recalls view past after.buffer :=
  leads_bind (leads_modify ((h.miss point).goes_refuse hnext none))

theorem goes_withBody (h : Sees view past standing parser) (hnext : view 0 = .ok next) (goals : List Goal) :
    Goes view past standing.generation (Goal.withBody goals) parser
      ((Plan.go [] true goals).carryOut next standing) := by
  refine leads_bind (leads_bind (leads_get ?_))
  have hexhausted : parser.exhausted? = standing.exhausted? := by
    obtain ⟨-, rfl⟩ := h
    rfl
  rw [hexhausted]
  simp only [Plan.carryOut]
  cases hlimit : standing.exhausted? with
  | some limit =>
    refine leads_bind (h.leads_nextToken hnext fun after hafter => leads_throw ?_)
    obtain ⟨hshows, rfl⟩ := hafter
    exact ⟨rfl, hshows.recalls⟩
  | none =>
    obtain ⟨hshows, rfl⟩ := h
    exact leads_set (leads_pure ⟨rfl, .inl ⟨rfl, hshows⟩⟩)

theorem leads_selected {good : Bool → Parser σ → Prop} {bad : ParseError → Parser σ → Prop}
    {point : Decision} (h : Sees view past standing parser) (hnext : view 0 = .ok next)
    (hgood : ∀ after,
      Sees view past (if (point.select next.kind).isSome then standing else standing.miss [point]) after →
        good (point.select next.kind).isSome after) : Leads (selects point) parser good bad := by
  refine leads_bind (h.leads_nextKind hnext fun after h => ?_)
  cases hselect : (point.select next.kind).isSome with
  | true =>
    rw [hselect] at hgood
    exact leads_pure (hgood after h)
  | false =>
    rw [hselect] at hgood
    exact leads_bind (leads_modify (leads_pure (hgood _ (h.miss point))))

theorem leads_selects {good : Bool → Parser σ → Prop} {point : Decision}
    (h : Sees view past standing parser) (hblind : goal.blind = false)
    (hgood : ∀ next after, view 0 = .ok next →
      Sees view past (if (point.select next.kind).isSome then standing else standing.miss [point]) after →
        good (point.select next.kind).isSome after) :
    Leads (selects point) parser good fun error after =>
      goal.act view standing = .error error after.standing ∧ Recalls view past after.buffer := by
  cases hview : view 0 with
  | ok next => exact h.leads_selected hview fun after => hgood next after hview
  | error error =>
    refine leads_bind (h.leads_look hblind fun next after hnext _ => ?_)
    rw [hview] at hnext
    cases hnext

/-- A probe finds what there is in view, or fails where the token behind the next cannot be seen. -/
theorem leads_tries {good : Bool → Parser σ → Prop} {bad : ParseError → Parser σ → Prop} {probe : Probe}
    (h : Sees view past standing parser) (hnext : view 0 = .ok next)
    (hgood : ∀ hit after, probe.sight view next.kind = .ok hit → Sees view past standing after →
      good hit after)
    (hbad : ∀ error after, probe.sight view next.kind = .error error → after.standing = standing →
      Recalls view past after.buffer → bad (.lexical error) after) :
    Leads (tries probe) parser good bad := by
  cases hsight : probe.sight view next.kind with
  | ok hit =>
    obtain ⟨after, hrun, hafter⟩ := Probe.run_of_shows h.shows hnext hsight
    refine leads_bind (leads_onBuffer_ok hrun (leads_bind (leads_modify (leads_pure ?_))))
    exact hgood hit _ hsight (h.keep rfl hafter)
  | error error =>
    obtain ⟨after, hrun, hafter⟩ := Probe.run_of_hidden h.shows hnext hsight
    exact leads_bind (leads_onBuffer_error hrun (hbad error _ hsight h.stands hafter))

theorem goes_expect (h : Sees view past standing parser) (hblind : goal.blind = false)
    (hprobe : goal.probe? = none) {kind : TokenKind}
    (hplan : ∀ next, goal.plan next false = if next = kind then .take else .refuse [] (some kind)) :
    Goes view past standing.generation (do expect kind; return []) parser (goal.act view standing) := by
  refine leads_bind (leads_bind (h.leads_look hblind fun next after hnext h => ?_))
  rw [Goal.act_of_next hblind hprobe hnext, hplan]
  split
  · obtain ⟨taken, hadvance, htaken⟩ := shows_advance h.shows hnext
    refine leads_bind (leads_onBuffer_ok hadvance (leads_modify (leads_pure ?_)))
    obtain ⟨-, rfl⟩ := h
    exact ⟨rfl, .inr ⟨rfl, next, hnext, htaken⟩⟩
  · exact h.goes_refuse hnext (some kind)

theorem goes_option {goals : List Goal} {point : Decision} (h : Sees view past standing parser)
    (hblind : goal.blind = false) (hprobe : goal.probe? = none)
    (hplan : ∀ next, goal.plan next false = .option point next goals) :
    Goes view past standing.generation (do if ← selects point then return goals else return []) parser
      (goal.act view standing) := by
  refine leads_bind (h.leads_selects hblind fun next after hnext h => ?_)
  rw [Goal.act_of_next hblind hprobe hnext, hplan, Plan.option]
  split
  · rename_i hselect
    rw [if_pos hselect] at h
    exact h.goes_pure
  · rename_i hselect
    rw [if_neg hselect] at h
    exact h.goes_pure

/-- A step that goes by the next kind alone: what it does for each kind is to be shown. -/
theorem goes_choice {choose : TokenKind → ParseM σ (List Goal)} (h : Sees view past standing parser)
    (hblind : goal.blind = false) (hprobe : goal.probe? = none)
    (hchoose : ∀ next after, view 0 = .ok next → Sees view past standing after →
      Goes view past standing.generation (choose next.kind) after
        ((goal.plan next.kind false).carryOut next standing)) :
    Goes view past standing.generation (nextKind >>= choose) parser (goal.act view standing) := by
  refine leads_bind (h.leads_look hblind fun next after hnext h => ?_)
  rw [Goal.act_of_next hblind hprobe hnext]
  exact hchoose next after hnext h

end Sees

/-- **A step goes as `Goal.act` says.** -/
theorem goes_step (goal : Goal) (h : Sees view past standing parser) :
    Goes view past standing.generation goal.step parser (goal.act view standing) := by
  cases goal with
  | nempParameterList | main | expression | condition | nempArgList =>
    rw [Goal.act_blind rfl]
    exact h.goes_pure
  | endBody =>
    rw [Goal.act_blind rfl]
    obtain ⟨hshows, rfl⟩ := h
    exact leads_bind (leads_modify (leads_pure ⟨rfl, .inl ⟨rfl, hshows⟩⟩))
  | token kind | seen kind => exact h.goes_expect rfl rfl fun _ => rfl
  | declList | functionList | statementBlock | parameterList | parameterListTail | returnValue
  | expressionTail | argList | argListTail => exact h.goes_option rfl rfl fun _ => rfl
  -- one alternative for each of some kinds, and a refusal for all others
  | type | decl | statementChoice | binaryArithOp | compOp | statement | fragment =>
    refine h.goes_choice rfl rfl fun next after hnext h => ?_
    cases hkind : next.kind <;>
      first | exact h.goes_refuseAt hnext _ | exact h.goes_pure | exact h.goes_withBody hnext _
  | function =>
    refine leads_bind (leads_bind (h.leads_look rfl fun next after hnext h => ?_))
    rw [Goal.act_of_next rfl rfl hnext]
    cases hkind : next.kind <;>
      first | exact h.goes_refuseAt hnext _ | exact leads_pure h.goes_pure
  | callSuffix =>
    cases hview : view 0 with
    | error error =>
      obtain ⟨after, hrun, hafter⟩ := Probe.run_of_blank .callSuffix h.shows hview
      rw [Goal.act_of_hidden rfl hview, ← h.stands]
      exact leads_bind (leads_bind (leads_onBuffer_error hrun ⟨rfl, hafter⟩))
    | ok next =>
      refine leads_bind (h.leads_tries hview (fun hit after hsight h => ?_) ?_)
      · rw [Goal.act_of_probe rfl rfl hview hsight]
        cases hit with
        | true => exact h.goes_pure
        | false => exact h.goes_pure
      · intro error after hsight hstands hrecalls
        rw [Goal.act_of_probe_hidden rfl rfl hview hsight, hstands]
        exact ⟨rfl, hrecalls⟩
  | conditionChoice =>
    refine leads_bind (h.leads_selects rfl fun next after hnext h => ?_)
    rw [Goal.act_of_next rfl rfl hnext]
    simp only [Goal.plan, Plan.option]
    cases hselect : (Decision.conditionChoice.select next.kind).isSome with
    | true =>
      rw [hselect] at h
      exact leads_bind (h.leads_nextKind hnext fun after h => h.goes_pure)
    | false =>
      rw [hselect] at h
      exact h.goes_pure
  | conditionSimple =>
    refine leads_bind (h.leads_selects rfl fun next after hnext h => ?_)
    cases hnegated : (Decision.negation.select next.kind).isSome with
    | true =>
      rw [hnegated] at h
      have hother : next.kind ≠ .leftParen := by
        intro hkind
        rw [hkind] at hnegated
        cases hnegated
      rw [Goal.act_of_probe rfl rfl hnext (Probe.sight_of_ne hother)]
      simp only [Goal.plan, hnegated]
      exact h.goes_withBody hnext _
    | false =>
      -- from here on the point of the negation has been missed
      rw [hnegated] at h
      refine leads_bind (h.leads_tries hnext (fun hit after hsight h => ?_) ?_)
      · rw [Goal.act_of_probe rfl rfl hnext hsight]
        simp only [Goal.plan, hnegated]
        cases hit with
        | true => exact h.goes_withBody hnext _
        | false =>
          refine leads_bind (h.leads_selected hnext fun after h => ?_)
          cases hcompared : (Decision.comparison.select next.kind).isSome with
          | true =>
            rw [hcompared] at h
            exact h.goes_pure
          | false =>
            rw [hcompared] at h
            exact h.goes_refuse hnext none
      · intro error after hsight hstands hrecalls
        rw [Goal.act_of_probe_hidden rfl rfl hnext hsight, hstands]
        exact ⟨rfl, hrecalls⟩

section Own

variable {goals : List Goal} {after : Parser σ} {reached : Standing} {error : ParseError}

theorem sees_own (parser : Parser σ) : Sees parser.buffer.view parser.buffer.past parser.standing parser :=
  ⟨⟨rfl, rfl⟩, rfl⟩

theorem act_of_step (h : goal.step parser = .ok goals after) :
    goal.act parser.buffer.view parser.standing = .ok goals after.standing ∧
      Follows parser.buffer.view parser.buffer.past parser.generation after :=
  (goes_step goal (sees_own parser)).of_ok h

theorem act_of_step_error (h : goal.step parser = .error error after) :
    goal.act parser.buffer.view parser.standing = .error error after.standing ∧
      Recalls parser.buffer.view parser.buffer.past after.buffer :=
  (goes_step goal (sees_own parser)).of_error h

theorem step_of_act (h : goal.act parser.buffer.view parser.standing = .ok goals reached) :
    ∃ after, goal.step parser = .ok goals after ∧ after.standing = reached ∧
      Follows parser.buffer.view parser.buffer.past parser.generation after := by
  cases hstep : goal.step parser with
  | ok others after =>
    obtain ⟨hact, hfollows⟩ := act_of_step hstep
    rw [h] at hact
    cases hact
    exact ⟨after, rfl, rfl, hfollows⟩
  | error error after =>
    rw [(act_of_step_error hstep).1] at h
    cases h

theorem step_of_act_error (h : goal.act parser.buffer.view parser.standing = .error error reached) :
    ∃ after, goal.step parser = .error error after ∧ after.standing = reached ∧
      Recalls parser.buffer.view parser.buffer.past after.buffer := by
  cases hstep : goal.step parser with
  | ok others after =>
    rw [(act_of_step hstep).1] at h
    cases h
  | error other after =>
    obtain ⟨hact, hrecalls⟩ := act_of_step_error hstep
    rw [h] at hact
    cases hact
    exact ⟨after, rfl, rfl, hrecalls⟩

end Own

/-- The tokens that a parser has taken since it was in the state `start`: they were in view there, in this
order, and what is in view now stood behind them. -/
structure Parser.Took (start : Parser σ) (tokens : List Token) (parser : Parser σ) : Prop where
  generation : parser.generation = start.generation + tokens.length
  past : parser.buffer.past = tokens.reverse ++ start.buffer.past
  view : parser.buffer.view = fun k => start.buffer.view (tokens.length + k)
  seen (k : Nat) (h : k < tokens.length) : start.buffer.view k = .ok tokens[k]

namespace Parser.Took

variable {start after : Parser σ} {tokens : List Token}

theorem refl (parser : Parser σ) : parser.Took [] parser :=
  ⟨rfl, rfl, by simp, nofun⟩

/-- A step takes no token, or the next one. -/
theorem step {goals : List Goal} (h : start.Took tokens parser) (hstep : goal.step parser = .ok goals after) :
    (after.generation = parser.generation ∧ start.Took tokens after) ∨
      ∃ next, after.generation = parser.generation + 1 ∧ parser.buffer.view 0 = .ok next ∧
        start.Took (tokens ++ [next]) after := by
  obtain ⟨hgeneration, hpast, hview, hseen⟩ := h
  rcases (act_of_step hstep).2 with ⟨hsame, hshows⟩ | ⟨hsucc, next, hnext, hshows⟩
  · exact .inl ⟨hsame, hsame.trans hgeneration, hshows.2.trans hpast, hshows.1.trans hview, hseen⟩
  refine .inr ⟨next, hsucc, hnext, ?_, ?_, ?_, fun k hk => ?_⟩
  · rw [hsucc, hgeneration, List.length_append, List.length_singleton, Nat.add_assoc]
  · rw [hshows.2, hpast, List.reverse_append, List.reverse_singleton, List.singleton_append, List.cons_append]
  · funext k
    rw [hshows.1, hview, List.length_append, List.length_singleton, Nat.add_assoc, Nat.add_comm 1]
  · rw [List.length_append, List.length_singleton] at hk
    rcases Nat.lt_succ_iff_lt_or_eq.1 hk with hlt | rfl
    · rw [List.getElem_append_left hlt]
      exact hseen k hlt
    · rw [hview] at hnext
      rw [List.getElem_concat_length rfl]
      exact hnext

end Parser.Took

/-- **Where tokens come without end, a step goes as planned**, and the parser still reads them after it. -/
theorem carries_step {stream : Nat → Token} (goal : Goal) (h : At stream standing parser) :
    Carries stream goal.step parser
      ((goal.planAt stream standing.generation).carryOut (stream standing.generation) standing) := by
  have hgoes := goes_step goal (Sees.mk h.shows h.stands)
  rw [Goal.act_stream] at hgoes
  refine hgoes.imp ?_ ?_
  · rintro goals after ⟨hplan, ⟨hgeneration, hshows⟩ | ⟨hgeneration, next, hnext, hshows⟩⟩
    · refine ⟨after.standing, hplan, ?_, rfl⟩
      have hsame : after.standing.generation = standing.generation := hgeneration
      rwa [hsame]
    · -- the token that is taken becomes the latest one of the past
      refine ⟨after.standing, hplan, ?_, rfl⟩
      have hsucc : after.standing.generation = standing.generation + 1 := hgeneration
      have hpast : pastOf stream (standing.generation + 1) =
          stream standing.generation :: pastOf stream standing.generation := by
        simp [pastOf, List.range_succ]
      cases hnext
      rw [hsucc, hpast]
      simpa only [Nat.add_zero, Nat.add_assoc, Nat.add_comm 1] using hshows
  · rintro error after ⟨hplan, hrecalls⟩
    have hsame : after.standing.generation = standing.generation := Plan.generation_of_error hplan
    refine ⟨after.standing, hplan, ⟨funext fun k => hrecalls.shown ?_, ?_⟩, rfl⟩
    · rw [hsame]
    · rw [hsame, hrecalls.past]

end Cal
