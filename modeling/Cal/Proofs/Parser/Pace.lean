import Cal.Proofs.Parser.Kinds

/-!
# Parses that keep pace

Two parses of tokens can go through the same agendas although one of them has taken more tokens than the other.
They keep pace as long as they plan the same: what has been taken does not matter to a step, only how many
bodies are open and what comes next.

* `Abreast`: two stages that stand side by side, each behind a place of its own.
* `Abreast.run`: the one parse goes on as the other does.
* `Abreast.accepted`: if the kinds behind the two places are the same, what the one accepts the other does.
* `accepted_behind`: so it is with the same tokens behind different ones.
-/

namespace Cal

/-- A plan is carried out alike wherever as many bodies are open: as many tokens are taken, and as many bodies are
open then. -/
theorem Plan.carryOut_elsewhere {plan : Plan} {token : Token} {standing reached twin : Standing}
    {goals : List Goal} (h : plan.carryOut token standing = .ok goals reached)
    (hdepth : twin.depth = standing.depth) (hlimit : twin.limit = standing.limit) (other : Token) :
    ∃ after, plan.carryOut other twin = .ok goals after ∧ after.depth = reached.depth ∧
      ∃ x, reached.generation = standing.generation + x ∧ after.generation = twin.generation + x := by
  rcases ok_cases h with ⟨rfl, rfl, rfl⟩ | ⟨missed, rfl, rfl⟩ | ⟨missed, inner, rfl, hnone, rfl, rfl⟩ |
    ⟨rfl, rfl, rfl⟩
  · exact ⟨_, rfl, hdepth, 1, rfl, rfl⟩
  · exact ⟨_, rfl, hdepth, 0, rfl, rfl⟩
  · have hnone : twin.exhausted? = none := by
      rw [Standing.exhausted?, hdepth, hlimit]
      exact hnone
    refine ⟨{ twin.miss missed with depth := twin.depth + 1 }, ?_, congrArg (· + 1) hdepth, 0, rfl, rfl⟩
    simp only [carryOut, hnone]
  · exact ⟨_, rfl, congrArg (· - 1) hdepth, 0, rfl, rfl⟩

/-- Two stages with the same goals left and as many bodies open. The one parse has taken as many tokens behind the
place `m` as the other has behind the place `n`. -/
structure Abreast (m n : Nat) (stage twin : Stage TokenList) : Prop where
  agenda : twin.agenda = stage.agenda
  depth : twin.parser.depth = stage.parser.depth
  taken : ∃ x, stage.parser.generation = m + x ∧ twin.parser.generation = n + x

namespace Abreast

variable {a b : List Token} {stage twin later : Stage TokenList} {m n p q k : Nat}

/-- **One step** of a parse that the other plans as well. -/
theorem step (h : Abreast m n stage twin) (hstage : (Stage.ofTokens a).after p = some stage)
    (htwin : (Stage.ofTokens b).after q = some twin) (hnext : stage.next? = some later)
    (hplan : ∀ goal rest, stage.agenda = goal :: rest →
      goal.planAt (streamOf b) twin.parser.generation = goal.planAt (streamOf a) stage.parser.generation) :
    ∃ after, (Stage.ofTokens b).after (q + 1) = some after ∧ Abreast m n later after := by
  have hsound := Stage.sound_after rfl (reads_ofList a) hstage
  have hsound' := Stage.sound_after rfl (reads_ofList b) htwin
  obtain ⟨goal, rest, goals, hagenda, hlater, hcarried, -⟩ := hsound.planned hnext
  obtain ⟨agenda, parser⟩ := twin
  obtain rfl : agenda = goal :: rest := h.agenda.trans hagenda
  have hlimit : parser.standing.limit = stage.parser.standing.limit := hsound'.limit.trans hsound.limit.symm
  -- the other parse carries out the same plan before a token of its own
  obtain ⟨reached, hother, hdepth, x, hx, hx'⟩ :=
    Plan.carryOut_elsewhere hcarried h.depth hlimit (streamOf b parser.generation)
  rw [← hplan goal rest hagenda] at hother
  obtain ⟨after, hafter, hreached⟩ := Stage.exists_next htwin hsound'.reads hother
  have hstands := hreached.stands
  refine ⟨_, hafter, hlater.symm, ?_, ?_⟩
  · have hsame : after.depth = reached.depth := congrArg Standing.depth hstands
    rw [hsame, hdepth]
    rfl
  · obtain ⟨y, hy, hy'⟩ := h.taken
    have hgeneration : after.generation = reached.generation := congrArg Standing.generation hstands
    have hx : later.parser.generation = stage.parser.generation + x := hx
    have hx' : reached.generation = parser.generation + x := hx'
    have hy' : parser.generation = n + y := hy'
    refine ⟨y + x, ?_, ?_⟩
    · omega
    · show after.generation = _
      omega

/-- **Any number of steps** that the other parse plans as well. -/
theorem run (h : Abreast m n stage twin) (hstage : (Stage.ofTokens a).after p = some stage)
    (htwin : (Stage.ofTokens b).after q = some twin) (hlater : (Stage.ofTokens a).after (p + k) = some later)
    (hplan : ∀ j < k, ∀ goal rest parser x, (Stage.ofTokens a).after (p + j) = some ⟨goal :: rest, parser⟩ →
      parser.generation = m + x → goal.planAt (streamOf b) (n + x) = goal.planAt (streamOf a) (m + x)) :
    ∃ after, (Stage.ofTokens b).after (q + k) = some after ∧ Abreast m n later after := by
  induction k generalizing later with
  | zero =>
    rw [Nat.add_zero, hstage] at hlater
    obtain rfl := Option.some.inj hlater
    exact ⟨twin, htwin, h⟩
  | succ k ih =>
    rw [← Nat.add_assoc] at hlater
    obtain ⟨before, hbefore, hnext⟩ := Stage.after_succ.1 hlater
    obtain ⟨between, hbetween, habreast⟩ := ih hbefore fun j hj => hplan j (by omega)
    refine habreast.step hbefore hbetween hnext fun goal rest hagenda => ?_
    obtain ⟨x, hx, hx'⟩ := habreast.taken
    have hbefore : (Stage.ofTokens a).after (p + k) = some ⟨goal :: rest, before.parser⟩ := by
      rw [hbefore, ← hagenda]
    have hsame := hplan k (Nat.lt_succ_self k) goal rest before.parser x hbefore hx
    rw [hx, hx', hsame]

/-- **What is accepted on one side is accepted on the other**, if the kinds still to come are the same. -/
theorem accepted (h : Abreast m n stage twin) (hstage : (Stage.ofTokens a).after p = some stage)
    (htwin : (Stage.ofTokens b).after q = some twin) (haccepted : parseTokens a = .ok ())
    (hkinds : ∀ x, (streamOf b (n + x)).kind = (streamOf a (m + x)).kind) : parseTokens b = .ok () := by
  obtain ⟨last, final, hfinal, hends, -⟩ := program_ends (reads_ofList a)
  have houtcome : (Parser.ofSource (TokenList.ofList a)).outcome = .ok () := haccepted
  rw [houtcome] at hends
  have hsound := Stage.sound_after rfl (reads_ofList a) hfinal
  obtain ⟨k, rfl⟩ : ∃ k, last = p + k :=
    Nat.exists_eq_add_of_le (Stage.le_of_last hfinal (Stage.next?_of_ends hsound.reads hends) hstage)
  have hplan : ∀ (goal : Goal) (x : Nat),
      goal.planAt (streamOf b) (n + x) = goal.planAt (streamOf a) (m + x) := by
    intro goal x
    have hsecond := hkinds (x + 1)
    rw [← Nat.add_assoc, ← Nat.add_assoc] at hsecond
    rw [Goal.planAt, Goal.planAt, hkinds x, hsecond]
  obtain ⟨after, hafter, habreast⟩ := h.run hstage htwin hfinal fun _ _ goal _ _ x _ _ => hplan goal x
  cases hends with
  | accepted hnil => exact outcome_of_ends (reads_ofList b) hafter (.accepted (habreast.agenda.trans hnil))

end Abreast

section Lists

variable {a b before : List Token}

/-- As long as the input does not end, a parse sees the tokens of the list, and behind them what follows. -/
theorem stream_append (h : ∀ token ∈ before, token.isEof = false) (after : List Token) :
    (List.range before.length).map (streamOf (before ++ after)) = before ∧
      ∀ k, (streamOf (before ++ after) (before.length + k)).kind = (streamOf after k).kind := by
  have hkinds : kindsBeforeEof (before ++ after) ++ [.eof] =
      kindsIn before ++ (kindsBeforeEof after ++ [.eof]) := by
    rw [kindsBeforeEof_append h, List.append_assoc]
  constructor
  · refine List.ext_getElem (by simp) fun k _ hk => ?_
    have hongoing : .eof ∉ takenOf (streamOf (before ++ after)) k := by
      intro heof
      obtain ⟨m, hm, hkind⟩ := List.mem_map.1 heof
      have hlt : m < before.length := by
        have := List.mem_range.1 hm
        omega
      have hother := h before[m] (List.getElem_mem hlt)
      rw [kind_streamOf, hkinds, List.getElem?_append_left (by simpa using hlt)] at hkind
      simp [List.getElem?_eq_getElem hlt] at hkind
      simp [Token.isEof, hkind] at hother
    have hget := getElem?_of_ongoing hongoing (by simp; omega)
    rw [List.getElem?_append_left hk, List.getElem?_eq_getElem hk] at hget
    simpa using (Option.some.inj hget).symm
  · intro k
    rw [kind_streamOf, kind_streamOf, hkinds, List.getElem?_append_right (by simp), List.length_map,
      Nat.add_sub_cancel_left]

/-- **Tokens behind one beginning are parsed as behind another**, if the goals that are left and the bodies that are
open are the same there. -/
theorem accepted_behind {rest : List Goal} {parser twin : Parser TokenList} {p q : Nat} {more : List Token}
    (ha : ∀ token ∈ a, token.isEof = false) (hb : ∀ token ∈ b, token.isEof = false)
    (hstage : (Stage.ofTokens (a ++ more)).after p = some ⟨rest, parser⟩)
    (htwin : (Stage.ofTokens (b ++ more)).after q = some ⟨rest, twin⟩)
    (htaken : parser.generation = a.length) (htaken' : twin.generation = b.length)
    (hdepth : twin.depth = parser.depth) (haccepted : parseTokens (a ++ more) = .ok ()) :
    parseTokens (b ++ more) = .ok () := by
  have habreast : Abreast a.length b.length ⟨rest, parser⟩ ⟨rest, twin⟩ := ⟨rfl, hdepth, 0, htaken, htaken'⟩
  refine habreast.accepted hstage htwin haccepted fun k => ?_
  rw [(stream_append ha more).2, (stream_append hb more).2]

end Lists

end Cal
