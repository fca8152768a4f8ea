import Cal.Parser.Progress
import Cal.Proofs.Parser.Plan
import Cal.Proofs.Lookahead.View

/-!
# Where a parser stands

What a parser does next depends on the tokens of its input and on where it stands: how many tokens
it has taken, which decision points it has missed, how many bodies are open and how many may be.

* `Plan.carryOut`: carries out the plan of a step on a standing, without a buffer.
* `ok_cases`, `error_cases`: all that can come of it.
* `Carries`: an action of a parser comes to a given result, as far as that can be said without a buffer.
-/

namespace Cal

open ParseM Buffer

/-- Where a parser stands. -/
structure Standing where
  generation : Nat
  decisions : Decision.Log
  depth : Nat
  limit : Option Nat

namespace Standing

/-- The standing with decision points stamped that found no alternative. -/
def miss (standing : Standing) (missed : List Decision) : Standing :=
  { standing with
    decisions := missed.foldl (fun log point => log.record point standing.generation) standing.decisions }

/-- The kinds that are expected where `wanted`, if it is given, was the only way to go on. -/
def expected (standing : Standing) (wanted : Option TokenKind) : KindSet :=
  let expected := standing.decisions.expected standing.generation
  wanted.elim expected expected.insert

/-- The limit on open bodies, if it has been reached. -/
def exhausted? (standing : Standing) : Option Nat := standing.limit.filter (· ≤ standing.depth)

variable {standing : Standing} {missed : List Decision} {wanted : Option TokenKind} {kind : TokenKind}

theorem stamp?_miss (point : Decision) :
    (standing.miss missed).decisions.stamp? point =
      if point ∈ missed then some standing.generation else standing.decisions.stamp? point := by
  obtain ⟨generation, decisions, depth, limit⟩ := standing
  simp only [miss]
  induction missed generalizing decisions with
  | nil => simp
  | cons other missed ih =>
    rw [List.foldl_cons, ih, Decision.Log.stamp?_record]
    by_cases hmissed : point ∈ missed
    · simp [hmissed]
    · by_cases hother : point = other <;> simp [hmissed, hother]

/-- What is stamped was missed by now. -/
theorem le_of_stamp?_miss {point : Decision} {n : Nat}
    (hpast : ∀ point n, standing.decisions.stamp? point = some n → n ≤ standing.generation)
    (hstamp : (standing.miss missed).decisions.stamp? point = some n) : n ≤ standing.generation := by
  rw [stamp?_miss] at hstamp
  split at hstamp
  · exact Nat.le_of_eq (Option.some.inj hstamp).symm
  · exact hpast point n hstamp

theorem mem_expected :
    kind ∈ standing.expected wanted ↔
      (∃ point, standing.decisions.stamp? point = some standing.generation ∧ kind ∈ point.firstKinds) ∨
        wanted = some kind := by
  cases wanted with
  | none => simp [expected, Decision.Log.expected, Decision.Log.mem_live]
  | some other =>
    simp only [expected, Decision.Log.expected, Option.elim_some, KindSet.mem_insert, KindSet.mem_ofList,
      List.mem_flatMap, Decision.Log.mem_live, Option.some.injEq]
    rw [or_comm, eq_comm]

/-- What is expected after more points are missed: what was, what they would have accepted, and what
is wanted. -/
theorem mem_expected_miss :
    kind ∈ (standing.miss missed).expected wanted ↔
      kind ∈ standing.expected none ∨ kind ∈ missed.flatMap Decision.firstKinds ++ wanted.toList := by
  have hgeneration : (standing.miss missed).generation = standing.generation := rfl
  rw [mem_expected, mem_expected, hgeneration]
  simp only [stamp?_miss, List.mem_append, List.mem_flatMap, Option.mem_toList, reduceCtorEq, or_false]
  constructor
  · rintro (⟨point, hstamp, hkind⟩ | hwanted)
    · by_cases hmissed : point ∈ missed
      · exact .inr (.inl ⟨point, hmissed, hkind⟩)
      · rw [if_neg hmissed] at hstamp
        exact .inl ⟨point, hstamp, hkind⟩
    · exact .inr (.inr hwanted)
  · rintro (⟨point, hstamp, hkind⟩ | ⟨point, hmissed, hkind⟩ | hwanted)
    · refine .inl ⟨point, ?_, hkind⟩
      by_cases hmissed : point ∈ missed
      · rw [if_pos hmissed]
      · rw [if_neg hmissed, hstamp]
    · exact .inl ⟨point, by rw [if_pos hmissed], hkind⟩
    · exact .inr hwanted

end Standing

/-- Where the parser stands. -/
def Parser.standing {σ : Type} (parser : Parser σ) : Standing :=
  ⟨parser.generation, parser.decisions, parser.depth, parser.limit⟩

/-- Carries out a plan before the next token, which is `token`. -/
def Plan.carryOut (token : Token) : Plan → EStateM ParseError Standing (List Goal)
  | take => fun standing => .ok [] { standing with generation := standing.generation + 1 }
  | go missed false goals => fun standing => .ok goals (standing.miss missed)
  | go missed true goals => fun standing =>
    match standing.exhausted? with
    | some limit => .error (.tooDeep limit token.position) (standing.miss missed)
    | none => .ok (goals ++ [.endBody]) { standing.miss missed with depth := standing.depth + 1 }
  | leave => fun standing => .ok [] { standing with depth := standing.depth - 1 }
  | refuse missed wanted => fun standing =>
    let missing := standing.miss missed
    .error (.unexpected ⟨token, missing.expected wanted⟩) missing

namespace Plan

variable {plan : Plan} {token : Token} {standing reached : Standing} {goals : List Goal} {error : ParseError}

/-- **All that a step can do** if it does not fail. -/
theorem ok_cases (h : plan.carryOut token standing = .ok goals reached) :
    (plan = .take ∧ goals = [] ∧ reached = { standing with generation := standing.generation + 1 }) ∨
    (∃ missed, plan = .go missed false goals ∧ reached = standing.miss missed) ∨
    (∃ missed inner, plan = .go missed true inner ∧ standing.exhausted? = none ∧
      goals = inner ++ [.endBody] ∧
        reached = { standing.miss missed with depth := standing.depth + 1 }) ∨
    (plan = .leave ∧ goals = [] ∧ reached = { standing with depth := standing.depth - 1 }) := by
  unfold carryOut at h
  split at h
  · cases h
    exact .inl ⟨rfl, rfl, rfl⟩
  · cases h
    exact .inr (.inl ⟨_, rfl, rfl⟩)
  · split at h <;> cases h
    exact .inr (.inr (.inl ⟨_, _, rfl, ‹_›, rfl, rfl⟩))
  · cases h
    exact .inr (.inr (.inr ⟨rfl, rfl, rfl⟩))
  · cases h

/-- **All the ways in which a step fails.** -/
theorem error_cases (h : plan.carryOut token standing = .error error reached) :
    (∃ missed inner limit, plan = .go missed true inner ∧ standing.exhausted? = some limit ∧
      error = .tooDeep limit token.position ∧ reached = standing.miss missed) ∨
    (∃ missed wanted, plan = .refuse missed wanted ∧
      error = .unexpected ⟨token, (standing.miss missed).expected wanted⟩ ∧
        reached = standing.miss missed) := by
  unfold carryOut at h
  split at h
  · cases h
  · cases h
  · split at h <;> cases h
    exact .inl ⟨_, _, _, rfl, ‹_›, rfl, rfl⟩
  · cases h
  · cases h
    exact .inr ⟨_, _, rfl, rfl, rfl⟩

/-- The goals of a plan come first among those that a step leaves. -/
theorem goals_of_ok (h : plan.carryOut token standing = .ok goals reached) : plan.goals <+: goals := by
  rcases ok_cases h with ⟨rfl, rfl, -⟩ | ⟨_, rfl, -⟩ | ⟨_, inner, rfl, -, rfl, -⟩ | ⟨rfl, rfl, -⟩
  · exact List.prefix_refl _
  · exact List.prefix_refl _
  · exact List.prefix_append _ _
  · exact List.prefix_refl _

/-- A step does not change the limit. -/
theorem limit_of_ok (h : plan.carryOut token standing = .ok goals reached) :
    reached.limit = standing.limit := by
  rcases ok_cases h with ⟨-, -, rfl⟩ | ⟨missed, -, rfl⟩ | ⟨missed, inner, -, -, -, rfl⟩ | ⟨-, -, rfl⟩ <;>
    rfl

/-- A plan that fails does not consume the next token. -/
theorem generation_of_error (h : plan.carryOut token standing = .error error reached) :
    reached.generation = standing.generation := by
  rcases error_cases h with ⟨_, _, _, -, -, -, rfl⟩ | ⟨_, _, -, -, rfl⟩ <;> rfl

/-- A step that does not plan to take the next token consumes none. -/
theorem generation_of_ok (h : plan.carryOut token standing = .ok goals reached) (hplan : plan ≠ .take) :
    reached.generation = standing.generation := by
  rcases ok_cases h with ⟨htake, -, -⟩ | ⟨_, -, rfl⟩ | ⟨_, _, -, -, -, rfl⟩ | ⟨-, -, rfl⟩
  · exact absurd htake hplan
  · rfl
  · rfl
  · rfl

/-- A step that consumes a token takes it as planned. -/
theorem eq_take (h : plan.carryOut token standing = .ok goals reached)
    (hgeneration : reached.generation = standing.generation + 1) : plan = .take := by
  by_contra hplan
  have hkept := generation_of_ok h hplan
  omega

/-- A step opens one body at most. -/
theorem depth_of_ok (h : plan.carryOut token standing = .ok goals reached) :
    reached.depth ≤ standing.depth ∨
      reached.depth = standing.depth + 1 ∧ ∃ missed goals, plan = .go missed true goals := by
  rcases ok_cases h with ⟨-, -, rfl⟩ | ⟨_, -, rfl⟩ | ⟨missed, inner, hplan, -, -, rfl⟩ | ⟨-, -, rfl⟩
  · exact .inl (Nat.le_refl _)
  · exact .inl (Nat.le_refl _)
  · exact .inr ⟨rfl, missed, inner, hplan⟩
  · exact .inl (Nat.sub_le _ _)

/-- The goals that a step leaves are those of its plan, and the end of a body that it opens. -/
theorem mem_goals_of_ok {goal : Goal} (h : plan.carryOut token standing = .ok goals reached)
    (hgoal : goal ∈ goals) : goal ∈ plan.goals ∨ goal = .endBody := by
  rcases ok_cases h with ⟨-, rfl, -⟩ | ⟨_, rfl, -⟩ | ⟨_, inner, rfl, -, rfl, -⟩ | ⟨-, rfl, -⟩
  · cases hgoal
  · exact .inl hgoal
  · rw [List.mem_append, List.mem_singleton] at hgoal
    exact hgoal
  · cases hgoal

end Plan

/-- The first tokens of a stream, latest first. -/
def pastOf (stream : Nat → Token) (n : Nat) : List Token := ((List.range n).map stream).reverse

/-- A parser that reads the tokens of a stream, and where it stands. -/
structure At {σ : Type} [Source σ] (stream : Nat → Token) (standing : Standing) (parser : Parser σ) :
    Prop where
  shows : Shows (fun k => .ok (stream (standing.generation + k))) (pastOf stream standing.generation)
    parser.buffer
  stands : parser.standing = standing

variable {σ α : Type} [Source σ] {stream : Nat → Token} {standing : Standing} {parser : Parser σ}

/-- An action comes to a given result, and the parser to where that says. -/
abbrev Carries (stream : Nat → Token) (action : ParseM σ α) (parser : Parser σ)
    (result : EStateM.Result ParseError Standing α) : Prop :=
  Leads action parser (fun value after => ∃ standing, result = .ok value standing ∧ At stream standing after)
    fun error after => ∃ standing, result = .error error standing ∧ At stream standing after

namespace Carries

variable {action : ParseM σ α} {result : EStateM.Result ParseError Standing α} {value : α}
  {error : ParseError} {after : Parser σ}

theorem of_ok (h : Carries stream action parser result) (hrun : action parser = .ok value after) :
    result = .ok value after.standing ∧ At stream after.standing after := by
  obtain ⟨reached, hresult, hreads⟩ := Leads.of_ok h hrun
  obtain rfl := hreads.stands
  exact ⟨hresult, hreads⟩

theorem of_error (h : Carries stream action parser result) (hrun : action parser = .error error after) :
    result = .error error after.standing ∧ At stream after.standing after := by
  obtain ⟨reached, hresult, hreads⟩ := Leads.of_error h hrun
  obtain rfl := hreads.stands
  exact ⟨hresult, hreads⟩

/-- The result says whether the action succeeds. -/
theorem exists_ok {reached : Standing} (h : Carries stream action parser (.ok value reached)) :
    ∃ after, action parser = .ok value after ∧ At stream reached after := by
  cases hrun : action parser with
  | ok other after =>
    obtain ⟨hresult, hreads⟩ := h.of_ok hrun
    cases hresult
    exact ⟨after, rfl, hreads⟩
  | error error after =>
    obtain ⟨hresult, -⟩ := h.of_error hrun
    cases hresult

/-- The result says whether the action fails. -/
theorem exists_error {reached : Standing} (h : Carries stream action parser (.error error reached)) :
    ∃ after, action parser = .error error after ∧ At stream reached after := by
  cases hrun : action parser with
  | ok other after =>
    obtain ⟨hresult, -⟩ := h.of_ok hrun
    cases hresult
  | error other after =>
    obtain ⟨hresult, hreads⟩ := h.of_error hrun
    cases hresult
    exact ⟨after, rfl, hreads⟩

end Carries

end Cal
