import Cal.Parser.Goal
import Cal.Proofs.Grammar.Expand
import Cal.Proofs.Lookahead.Probe

/-!
# What a step does

`Goal.plan` is the table of all steps: what becomes of a goal by the kind that comes next and, at a
probe, by whether it hit. The facts about the table are checked entry by entry; each relates what
the step leaves to what the form of the goal derives.

* `unfolds_plan`: the goals that a step leaves come of the form of the goal by expansions.
* `firsts_of_go`, `firsts_of_refuse`: the first kinds of a goal are those of the goals that it leaves
  and those of the decision points that were missed, a probe that missed apart.
* `plan_of_commits`: once the next kind can begin a goal, it is not refused.
-/

namespace Cal

/-- What a step does. -/
inductive Plan
  /-- The next token is consumed. -/
  | take
  /-- Other goals stand in the place of the goal, in a body of their own or not. -/
  | go (missed : List Decision) (opens : Bool) (goals : List Goal)
  /-- The innermost body is closed. -/
  | leave
  /-- The next token is refused, where `wanted`, if it is given, was the only way to go on. -/
  | refuse (missed : List Decision) (wanted : Option TokenKind)
deriving DecidableEq

namespace Plan

/-- Passes a decision point, or leaves goals where the next kind selects an alternative. -/
def option (point : Decision) (next : TokenKind) (goals : List Goal) : Plan :=
  if (point.select next).isSome then .go [] false goals else .go [point] false []

/-- The decision points that found no alternative. -/
def missed : Plan → List Decision
  | take | leave => []
  | go missed _ _ | refuse missed _ => missed

/-- The goals that are left. -/
def goals : Plan → List Goal
  | go _ _ goals => goals
  | _ => []

/-- The goals that are left, as items around which no body was open. -/
def items : Plan → List Item
  | go _ opens goals => goals.map fun goal => ⟨opens.toNat, goal.form⟩
  | _ => []

/-- Whether other goals stand in the place of the goal. -/
def goes : Plan → Bool
  | go .. => true
  | _ => false

/-- Whether a body is opened. -/
def opens : Plan → Bool
  | go _ opens _ => opens
  | _ => false

/-- Whether the next token is refused. -/
def refuses : Plan → Bool
  | refuse .. => true
  | _ => false

/-- The kinds that would have been accepted at the points that were missed, or were wanted. -/
def offered : Plan → List TokenKind
  | refuse missed wanted => missed.flatMap Decision.firstKinds ++ wanted.toList
  | plan => plan.missed.flatMap Decision.firstKinds

theorem firstKinds_subset_offered {plan : Plan} : plan.missed.flatMap Decision.firstKinds ⊆ plan.offered := by
  cases plan with
  | refuse missed wanted => exact List.subset_append_left _ _
  | take | go | leave => exact List.Subset.refl _

end Plan

namespace Goal

/-- The probe by which a goal is decided. -/
def probe? : Goal → Option Probe
  | callSuffix => some .callSuffix
  | conditionSimple => some .parenCondition
  | _ => none

/-- The kind that a probe of a goal is asked about, if it has one. -/
def probed (goal : Goal) : List TokenKind := if goal.probe?.isSome then [.leftParen] else []

/-- Whether the probe of a goal finds its form, by the kinds of the next two tokens. -/
def hits (goal : Goal) (next second : TokenKind) : Bool := goal.probe?.any (·.hits next second)

/-- What a step towards a goal does, by the next kind and whether the probe of the goal hit. -/
def plan (next : TokenKind) (hit : Bool) : Goal → Plan
  | token kind | seen kind => if next = kind then .take else .refuse [] (some kind)
  | declList => .option .declList next [decl, token .semicolon, declList]
  | decl =>
    match next with
    | .variableKw => .go [] false [seen .variableKw, token .identifier, token .colon, type]
    | .constantKw =>
      .go [] false
        [seen .constantKw, token .identifier, token .colon, type, token .assign, expression]
    | _ => .refuse [.decl] none
  | functionList => .option .functionList next [function, functionList]
  | function =>
    if next ∈ typeKinds then
      .go [] false [seen next, token .identifier, token .leftParen, parameterList, token .rightParen,
        token .isKw, declList, token .beginKw, statementBlock, token .returnKw, token .leftParen,
        returnValue, token .rightParen, token .semicolon, token .endKw]
    else .refuse [.type] none
  | type => if next ∈ typeKinds then .go [] false [seen next] else .refuse [.type] none
  | parameterList => .option .parameterList next [nempParameterList]
  | nempParameterList => .go [] false [token .identifier, token .colon, type, parameterListTail]
  | parameterListTail => .option .parameterListTail next [seen .comma, nempParameterList]
  | returnValue => .option .returnValue next [expression]
  | main => .go [] false [token .mainKw, token .beginKw, declList, statementBlock, token .endKw]
  | statementBlock => .option .statementBlock next [statement, statementBlock]
  | statement =>
    match next with
    | .identifier => .go [] false [seen .identifier, statementChoice]
    | .beginKw => .go [] true [seen .beginKw, statementBlock, token .endKw]
    | .ifKw => .go [] true [seen .ifKw, condition, token .beginKw, statementBlock, token .endKw]
    | .whileKw =>
      .go [] true [seen .whileKw, condition, token .beginKw, statementBlock, token .endKw]
    | .elseKw => .go [] true [seen .elseKw, token .beginKw, statementBlock, token .endKw]
    | .skipKw => .go [] false [seen .skipKw, token .semicolon]
    | _ => .refuse [.statement] none
  | statementChoice =>
    match next with
    | .assign => .go [] false [seen .assign, expression, token .semicolon]
    | .leftParen => .go [] false [seen .leftParen, argList, token .rightParen, token .semicolon]
    | _ => .refuse [.statementChoice] none
  | expression => .go [] false [fragment, expressionTail]
  | expressionTail => .option .expressionTail next [binaryArithOp, fragment]
  | binaryArithOp =>
    if next ∈ Decision.binaryArithOp.firstKinds then .go [] false [seen next]
    else .refuse [.binaryArithOp] none
  | fragment =>
    match next with
    | .identifier => .go [] false [seen .identifier, callSuffix]
    | .minus => .go [] false [seen .minus, token .identifier]
    | .number => .go [] false [seen .number]
    | .trueKw => .go [] false [seen .trueKw]
    | .falseKw => .go [] false [seen .falseKw]
    | .beginKw => .go [] true [seen .beginKw, expression, token .endKw]
    | _ => .refuse [.fragment] none
  | callSuffix =>
    .go [] false (if hit then [seen .leftParen, argList, token .rightParen] else [])
  | condition => .go [] false [conditionSimple, conditionChoice]
  | conditionChoice => .option .conditionChoice next [seen next, condition]
  | conditionSimple =>
    if (Decision.negation.select next).isSome then .go [] true [seen .notKw, condition]
    else if hit then .go [.negation] true [seen .leftParen, condition, token .rightParen]
    else if (Decision.comparison.select next).isSome then
      .go [.negation] false [expression, compOp, expression]
    else .refuse [.negation, .comparison] none
  | compOp => if next ∈ comparisonKinds then .go [] false [seen next] else .refuse [.compOp] none
  | argList => .option .argList next [nempArgList]
  | nempArgList => .go [] false [token .identifier, argListTail]
  | argListTail => .option .argListTail next [seen .comma, nempArgList]
  | endBody => .leave

/-- What a step towards a goal does where so many tokens have been taken from a stream. -/
def planAt (stream : Nat → Token) (n : Nat) (goal : Goal) : Plan :=
  goal.plan (stream n).kind (goal.hits (stream n).kind (stream (n + 1)).kind)

/-- The next kind can begin what meets a goal, and no probe will be asked about it. -/
def commits (next : TokenKind) (goal : Goal) : Bool :=
  next ∈ goal.form.firsts && (next != .leftParen || !(goal ∈ [callSuffix, conditionSimple, condition]))

/-- The kind by which the choices of a goal are decided. Where a probe missed, the goal is taken to
be followed by something else. -/
def decider (next : TokenKind) (hit : Bool) (goal : Goal) : TokenKind :=
  if goal.probe?.isSome && next == .leftParen && !hit then .eof else next

variable {goal : Goal} {next second : TokenKind} {hit : Bool}

/-- Probes hit only at an opening parenthesis. -/
theorem leftParen_of_hits (h : goal.hits next second = true) : next = .leftParen := by
  unfold hits at h
  cases hprobe : goal.probe? with
  | none => simp [hprobe] at h
  | some probe =>
    simp only [hprobe, Option.any_some, Probe.hits, Bool.and_eq_true, decide_eq_true_eq] at h
    exact h.1

theorem leftParen_of_hit (hhit : hit = goal.hits next second) : hit = true → next = .leftParen := by
  rintro rfl
  exact leftParen_of_hits hhit.symm

/-- Steps towards a token leave no goals. -/
theorem plan_token {kind : TokenKind} :
    (token kind).plan next hit = (seen kind).plan next hit ∧ ((seen kind).plan next hit).goals = [] ∧
      ((seen kind).plan next hit).goes = false ∧ ((seen kind).plan next hit).opens = false := by
  by_cases h : next = kind <;> simp [plan, h, Plan.goes, Plan.goals, Plan.opens]

theorem mem_probed {kind : TokenKind} :
    kind ∈ goal.probed ↔ goal.probe?.isSome = true ∧ kind = .leftParen := by
  unfold probed
  split <;> simp [*]

/-- What all entries of the table have in common. Only a token is taken and only the end of a body is
left; no point is missed that would have accepted the next kind, and none is passed that would have accepted
an opening parenthesis; and a body is opened where the next token begins one. -/
structure Regular (goal : Goal) (next : TokenKind) (hit : Bool) : Prop where
  take : goal.plan next hit = .take → goal.form = .token next
  leave : goal.plan next hit = .leave → goal = endBody
  inner : endBody ∉ (goal.plan next hit).goals
  passed : (goal.plan next hit).goes = true → .leftParen ∉ (goal.plan next hit).offered
  offered : next ∉ (goal.plan next hit).offered
  opens : (hit = true → next = .leftParen) → (goal.plan next hit).opens = true →
    next ≠ .eof ∧ (next = .leftParen → hit = true)

instance (goal : Goal) (next : TokenKind) (hit : Bool) : Decidable (goal.Regular next hit) :=
  decidable_of_iff
    ((goal.plan next hit = .take → goal.form = .token next) ∧ (goal.plan next hit = .leave → goal = endBody) ∧
      endBody ∉ (goal.plan next hit).goals ∧
      ((goal.plan next hit).goes = true → .leftParen ∉ (goal.plan next hit).offered) ∧
      next ∉ (goal.plan next hit).offered ∧
      ((hit = true → next = .leftParen) → (goal.plan next hit).opens = true →
        next ≠ .eof ∧ (next = .leftParen → hit = true)))
    ⟨fun ⟨htake, hleave, hinner, hpassed, hoffered, hopens⟩ =>
      ⟨htake, hleave, hinner, hpassed, hoffered, hopens⟩,
    fun h => ⟨h.take, h.leave, h.inner, h.passed, h.offered, h.opens⟩⟩

/-- **The table is regular**, entry by entry. -/
theorem regular (goal : Goal) (next : TokenKind) (hit : Bool) : goal.Regular next hit := by
  cases goal with
  | token kind | seen kind =>
    by_cases hnext : next = kind
    · subst hnext
      constructor <;> simp [plan, form, Plan.goals, Plan.goes, Plan.offered, Plan.missed, Plan.opens]
    · constructor <;> simp [plan, hnext, Plan.goals, Plan.goes, Plan.offered, Plan.opens]
  | _ => revert next hit; decide +kernel

theorem form_of_take (h : goal.plan next hit = .take) : goal.form = .token next :=
  (goal.regular next hit).take h

theorem eq_endBody_of_leave (h : goal.plan next hit = .leave) : goal = endBody :=
  (goal.regular next hit).leave h

/-- **The goals that a step leaves come of the goal by expansions.** -/
theorem unfolds_plan (hhit : hit = true → next = .leftParen) (hgoes : (goal.plan next hit).goes = true) :
    Unfolds (goal.decider next hit) [⟨0, goal.form⟩] (goal.plan next hit).items := by
  -- twelve expansions are enough to come to the goals that any step leaves
  refine unfolds_of_mem_iterate (n := 12) ?_
  revert next hit
  cases goal with
  | token kind | seen kind => simp [plan_token]
  | _ => decide +kernel

theorem endBody_not_mem_plan : endBody ∉ (goal.plan next hit).goals := (goal.regular next hit).inner

/-- **Once the next kind can begin a goal, it is taken.** The step consumes it, or leaves goals that
it can begin. -/
theorem plan_of_commits (hhit : hit = true → next = .leftParen) (hcommits : goal.commits next = true) :
    goal.plan next hit = .take ∨ (goal.plan next hit).goals.head?.any (commits next) = true := by
  revert next hit
  cases goal with
  | token kind | seen kind =>
    intro next hit _ hcommits
    have : next = kind := by simpa [commits, form, Form.firsts, Form.firstsBy] using hcommits
    exact .inl (by simp [plan, this])
  | _ => decide +kernel

/-- No decision point that may be passed would have accepted an opening parenthesis. -/
theorem leftParen_not_mem_offered (hgoes : (goal.plan next hit).goes = true) :
    .leftParen ∉ (goal.plan next hit).offered :=
  (goal.regular next hit).passed hgoes

/-- A probe that is passed leaves nothing, and what follows may not begin as its form does. -/
theorem items_of_passed (hhit : hit = true → next = .leftParen) (hgoes : (goal.plan next hit).goes = true)
    (hcommits : (goal.plan next hit).goals.head?.any (commits next) = false)
    (hprobe : goal.probe?.isSome = true) :
    (goal.plan next hit).items = [] ∧ .leftParen ∈ goal.form.shuns := by
  revert next hit
  cases goal with
  | callSuffix | conditionSimple => decide +kernel
  | _ => simp [probe?] at hprobe

/-- A probe that misses at an opening parenthesis is passed, or nothing will do. -/
theorem passed_of_miss (hprobe : goal.probe?.isSome = true)
    (hgoes : (goal.plan .leftParen false).goes = true) :
    (goal.plan .leftParen false).goals.head?.any (commits .leftParen) = false := by
  revert hgoes
  cases goal with
  | callSuffix | conditionSimple => decide
  | _ => simp [probe?] at hprobe

/-- A body is opened only where the next token begins one: it does not end the input, and it is an opening
parenthesis only if a probe has hit. -/
theorem next_of_opens (hhit : hit = true → next = .leftParen) (hopens : (goal.plan next hit).opens = true) :
    next ≠ .eof ∧ (next = .leftParen → hit = true) :=
  (goal.regular next hit).opens hhit hopens

/-- Where a probe hits, nothing is refused. -/
theorem goes_of_hit (hprobe : goal.probe?.isSome = true) : (goal.plan .leftParen true).goes = true := by
  cases goal with
  | callSuffix | conditionSimple => decide
  | _ => simp [probe?] at hprobe

/-- The first kinds of a goal that is passed or taken apart. -/
theorem form_of_go (hhit : hit = true → next = .leftParen) (hgoes : (goal.plan next hit).goes = true)
    (hcommits : (goal.plan next hit).goals.head?.any (commits next) = false) :
    goal.form.nullable = (formsOf (goal.plan next hit).items).all Form.nullable ∧
      goal.form.firsts ⊆ (goal.plan next hit).offered ++ goal.probed ++
        firstsOf (formsOf (goal.plan next hit).items) ∧
      (goal.plan next hit).offered ++ goal.probed ++ firstsOf (formsOf (goal.plan next hit).items) ⊆
        goal.form.firsts := by
  revert next hit
  cases goal with
  | token kind | seen kind => simp [plan_token]
  | _ => decide +kernel

/-- **No first kind is lost** where a goal is passed or taken apart: it is left, or a point that was
missed would have accepted it, or a probe was asked about it and missed. -/
theorem firsts_of_go (hhit : hit = true → next = .leftParen) (hgoes : (goal.plan next hit).goes = true)
    (hcommits : (goal.plan next hit).goals.head?.any (commits next) = false) (forms : List Form)
    (kind : TokenKind) :
    kind ∈ firstsOf (goal.form :: forms) ↔ kind ∈ (goal.plan next hit).offered ∨ kind ∈ goal.probed ∨
      kind ∈ firstsOf (formsOf (goal.plan next hit).items ++ forms) := by
  obtain ⟨hnullable, hsub, hsup⟩ := form_of_go hhit hgoes hcommits
  have hfirsts := Iff.intro (@hsub kind) (@hsup kind)
  rw [mem_firstsOf_cons, mem_firstsOf_append, hfirsts, hnullable]
  simp only [List.mem_append, or_assoc]

/-- **What is refused could not be met.** The goal had to be met, and all that can begin it is
offered, apart from the kind that a probe was asked about. -/
theorem firsts_of_refuse (hhit : hit = true → next = .leftParen)
    (hrefuses : (goal.plan next hit).refuses = true) :
    goal.form.nullable = false ∧ goal.form.firsts ⊆ (goal.plan next hit).offered ++ goal.probed ∧
      (goal.plan next hit).offered ++ goal.probed ⊆ goal.form.firsts := by
  revert next hit
  cases goal with
  | token kind | seen kind =>
    intro next hit _ hrefuses
    by_cases hnext : next = kind
    · simp [plan, Plan.refuses, hnext] at hrefuses
    · simp [plan, hnext, form, Form.nullable, Plan.offered, probed, probe?, Form.firsts, Form.firstsBy]
  | _ => decide +kernel

theorem next_not_mem_offered : next ∉ (goal.plan next hit).offered := (goal.regular next hit).offered

/-- What a probe was asked about is not offered where it is refused. -/
theorem probed_not_mem_offered {kind : TokenKind} (hrefuses : (goal.plan next hit).refuses = true)
    (hkind : kind ∈ goal.probed) : kind ∉ (goal.plan next hit).offered := by
  obtain ⟨hprobe, rfl⟩ := mem_probed.1 hkind
  revert next hit
  cases goal with
  | callSuffix | conditionSimple => decide
  | _ => cases hprobe

/-- Where a probe hits, an opening parenthesis is to be taken, and behind it something begins with
one of the kinds that let the probe hit. -/
theorem plan_of_probe {probe : Probe} (hprobe : goal.probe? = some probe) :
    ∃ depth inner, (goal.plan .leftParen true).items = ⟨depth, .token .leftParen⟩ :: inner ∧
      (formsOf inner).all Form.nullable = false ∧ firstsOf (formsOf inner) ⊆ probe.seconds := by
  cases goal with
  | callSuffix =>
    obtain rfl : Probe.callSuffix = probe := Option.some.inj hprobe
    exact ⟨_, _, rfl, by decide, by decide⟩
  | conditionSimple =>
    obtain rfl : Probe.parenCondition = probe := Option.some.inj hprobe
    exact ⟨_, _, rfl, by decide, by decide⟩
  | _ => simp [probe?] at hprobe

end Goal

/-- **What a probe looks for.** Where the form of a probe can be predicted, the second kind is one of
those that let it hit. -/
theorem Probe.mem_seconds {probe : Probe} {goal : Goal} {depth : Nat} {second : TokenKind}
    {items : List Item} {marks : List Mark} {kinds : List TokenKind} (hprobe : goal.probe? = some probe)
    (h : Predicts (⟨depth, goal.form⟩ :: items) marks)
    (hkinds : kindsOf marks = .leftParen :: second :: kinds) : second ∈ probe.seconds := by
  obtain ⟨more, inner, hitems, hnullable, hseconds⟩ := Goal.plan_of_probe hprobe
  have hgoes : (goal.plan .leftParen true).goes = true := Goal.goes_of_hit (by simp [hprobe])
  -- what would be left had the probe hit begins with the parenthesis and then the second kind
  have hhead : (kindsOf marks).head? = some (goal.decider .leftParen true) := by
    simp [hkinds, Goal.decider]
  have hafter := (Goal.unfolds_plan (by simp) hgoes).predicts depth items marks hhead h
  rw [hitems] at hafter
  obtain ⟨rest, rfl, hrest⟩ := nests_token.1 hafter
  have hderives : Derives (formsOf (raise depth inner ++ items)) (kindsOf rest) :=
    derives_of_predicts hrest
  rw [formsOf_raise_append] at hderives
  have hrest : (kindsOf rest).head? = some second := by
    rw [show kindsOf rest = second :: kinds from (List.cons.inj hkinds).2]
    rfl
  rcases mem_firstsOf_append.1 (mem_firstsOf_of_head hderives hrest) with hinner | ⟨hall, -⟩
  · exact hseconds hinner
  · simp [hnullable] at hall

end Cal
