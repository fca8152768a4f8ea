import Cal.Parser.Leads
import Cal.Parser.Run
import Cal.Probe.Lasting

/-!
# Every run ends

Each goal has a weight, and each token that is left weighs as much as `tokenWeight`. A step towards
a goal makes the sum of the two smaller: it consumes a token, or puts in place of a goal others that
weigh less in all. A goal whose token has already been seen may weigh less than nothing, since it
will take the weight of that token away; it stands only at the front of an agenda, where the sum
stays positive. So if at most `n` tokens are left, the number of steps is bounded by a multiple of
`n` and the weight of the agenda.
-/

namespace Cal

open Buffer ParseM

namespace Goal

/-- The weight of a token that is left. -/
def tokenWeight : Int := 32

/-- Whether the token that begins what meets a goal has been seen. -/
def urgent : Goal → Bool
  | seen _ | decl | function | statement | binaryArithOp => true
  | _ => false

/-- The weight of a goal. -/
def weight : Goal → Int
  | seen _ => 1 - tokenWeight
  | decl | function | statement | binaryArithOp => -8
  | expression | nempArgList => 3
  | argList | returnValue => 4
  | nempParameterList => 5
  | parameterList | main => 6
  | conditionSimple => 8
  | condition => 10
  | _ => 1

/-- The weight of the goals of an agenda. -/
def totalWeight : List Goal → Int
  | [] => 0
  | goal :: rest => goal.weight + totalWeight rest

theorem totalWeight_append (agenda more : List Goal) :
    totalWeight (agenda ++ more) = totalWeight agenda + totalWeight more := by
  induction agenda with
  | nil => simp [totalWeight]
  | cons goal agenda ih => simp only [List.cons_append, totalWeight, ih]; omega

end Goal

namespace Parser

variable {σ : Type} [Source σ] {parser after : Parser σ} {n : Nat} {w : Int}

/-- The next token has been seen, and it is not the end of the input. -/
def SeesToken (parser : Parser σ) : Prop :=
  ∃ token, parser.buffer.ahead.head? = some token ∧ token.isEof = false

/-- Only the first goal of an agenda may be urgent, and only with its token in sight. -/
def Steady (agenda : List Goal) (parser : Parser σ) : Prop :=
  (∀ goal ∈ agenda.tail, goal.urgent = false) ∧
    ∀ goal ∈ agenda.head?, goal.urgent = true → parser.SeesToken

/-- With at most `n` tokens left, a goal of weight `w` has been replaced by lighter ones. -/
def Lightens (n : Nat) (w : Int) (goals : List Goal) (after : Parser σ) : Prop :=
  ∃ m, Remaining m after.buffer ∧
    Goal.tokenWeight * m + Goal.totalWeight goals < Goal.tokenWeight * n + w ∧ Steady goals after

/-- Any failure will do. -/
abbrev Fails (_ : ParseError) (_ : Parser σ) : Prop := True

omit [Source σ] in
theorem steady_of_calm {agenda : List Goal} (hcalm : ∀ goal ∈ agenda, goal.urgent = false) :
    Steady agenda parser := by
  refine ⟨fun goal hgoal => hcalm goal (List.mem_of_mem_tail hgoal), fun goal hgoal hurgent => ?_⟩
  simp [hcalm goal (List.mem_of_mem_head? hgoal)] at hurgent

omit [Source σ] in
/-- Goals whose tokens have not been seen may follow. -/
theorem Steady.append {goals more : List Goal} (h : Steady goals parser)
    (hmore : ∀ goal ∈ more, goal.urgent = false) : Steady (goals ++ more) parser := by
  cases goals with
  | nil => exact steady_of_calm hmore
  | cons goal goals => exact ⟨by simpa [or_imp, forall_and] using ⟨h.1, hmore⟩, h.2⟩

theorem Lightens.mono {goals : List Goal} {w' : Int} (h : Lightens n w goals parser) (hw : w ≤ w') :
    Lightens n w' goals parser :=
  let ⟨m, h, hlt, hsteady⟩ := h
  ⟨m, h, by omega, hsteady⟩

theorem Lightens.append {goals more : List Goal} (h : Lightens n w goals parser)
    (hmore : ∀ goal ∈ more, goal.urgent = false) :
    Lightens n (w + Goal.totalWeight more) (goals ++ more) parser := by
  obtain ⟨m, h, hlt, hsteady⟩ := h
  refine ⟨m, h, ?_, hsteady.append hmore⟩
  rw [Goal.totalWeight_append]
  omega

theorem leads_calm {goals : List Goal} (h : Remaining n parser.buffer)
    (hcalm : ∀ goal ∈ goals, goal.urgent = false) (hweight : Goal.totalWeight goals < w) :
    Leads (pure goals) parser (Lightens n w) Fails :=
  leads_pure ⟨n, h, by omega, steady_of_calm hcalm⟩

theorem leads_seen {goal : Goal} {goals : List Goal} (h : Remaining n parser.buffer)
    (hsees : parser.SeesToken) (hcalm : ∀ goal ∈ goals, goal.urgent = false)
    (hweight : Goal.totalWeight (goal :: goals) < w) :
    Leads (pure (goal :: goals)) parser (Lightens n w) Fails :=
  leads_pure ⟨n, h, by omega, hcalm, fun _ _ _ => hsees⟩

omit [Source σ] in
theorem leads_onBuffer {α : Type} {action : EStateM LexError (Buffer σ) α}
    {good : α → Parser σ → Prop} {bad : ParseError → Parser σ → Prop}
    (h : Leads action parser.buffer (fun value buffer => good value { parser with buffer })
      fun error buffer => bad (.lexical error) { parser with buffer }) :
    Leads (onBuffer action) parser good bad := by
  unfold Leads onBuffer at *
  cases hrun : action parser.buffer with
  | ok value buffer => rw [hrun] at h; exact h
  | error error buffer => rw [hrun] at h; exact h

theorem leads_nextToken (h : Remaining n parser.buffer) :
    Leads nextToken parser
      (fun token after => Remaining n after.buffer ∧ after.buffer.ahead.head? = some token ∧
        (parser.SeesToken → token.isEof = false)) Fails := by
  refine leads_onBuffer (leads_of_ok fun token buffer hpeek => ?_)
  refine ⟨Remaining.lasting.peek h hpeek, head_of_peek hpeek, fun ⟨seen, hseen, hother⟩ => ?_⟩
  rw [peek_of_head hseen] at hpeek
  cases hpeek
  exact hother

theorem leads_nextKind (h : Remaining n parser.buffer) :
    Leads nextKind parser
      (fun kind after => Remaining n after.buffer ∧ (kind ≠ .eof → SeesToken after) ∧
        (parser.SeesToken → SeesToken after)) Fails := by
  refine (leads_nextToken h).bind fun token after ⟨h, hhead, hsees⟩ => leads_pure ⟨h, ?_, ?_⟩
  · exact fun hkind => ⟨token, hhead, by simpa [Token.isEof] using hkind⟩
  · exact fun hparser => ⟨token, hhead, hsees hparser⟩

theorem leads_refuse {α : Type} {good : α → Parser σ → Prop} {wanted : Option TokenKind} :
    Leads (refuse wanted) parser good Fails := by
  refine leads_trivial.bind fun token after _ => leads_bind (leads_get ?_)
  exact leads_bind (leads_set (leads_throw trivial))

theorem leads_refuseAt {α : Type} {good : α → Parser σ → Prop} {point : Decision} :
    Leads (refuseAt point) parser good Fails :=
  leads_bind (leads_modify leads_refuse)

theorem leads_selects {point : Decision} (h : Remaining n parser.buffer) :
    Leads (selects point) parser
      (fun hit after => Remaining n after.buffer ∧ (hit = true → SeesToken after)) Fails := by
  refine (leads_nextKind h).bind fun kind after ⟨h, hsees, _⟩ => ?_
  split
  · rename_i hselect
    refine leads_pure ⟨h, fun _ => hsees ?_⟩
    rintro rfl
    cases point <;> simp [Decision.select, Decision.alternatives] at hselect <;> contradiction
  · exact leads_bind (leads_modify (leads_pure ⟨h, by simp⟩))

theorem leads_tries {probe : Probe} (h : Remaining n parser.buffer) :
    Leads (tries probe) parser
      (fun hit after => Remaining n after.buffer ∧ (hit = true → SeesToken after)) Fails := by
  refine leads_bind (leads_onBuffer (leads_of_ok fun sighting buffer hrun => ?_))
  refine leads_bind (leads_modify ?_)
  refine leads_pure ⟨Probe.keeps_run Remaining.lasting h hrun, fun hhit => ?_⟩
  obtain ⟨token, hhead, hkind⟩ := Probe.leftParen_of_hit hrun hhit
  exact ⟨token, hhead, by simp [Token.isEof, hkind]⟩

theorem leads_openBody :
    Leads openBody parser (fun _ after => after.buffer = parser.buffer) Fails := by
  refine leads_bind (leads_get ?_)
  split
  · exact leads_trivial.bind fun _ _ _ => leads_throw trivial
  · exact leads_set rfl

theorem leads_expect {kind : TokenKind} (h : Remaining n parser.buffer) :
    Leads (expect kind) parser
      (fun _ after => Remaining n after.buffer ∧
        (parser.SeesToken → ∃ m, n = m + 1 ∧ Remaining m after.buffer)) Fails := by
  refine leads_bind ((leads_nextToken h).bind fun token after ⟨h, hhead, hother⟩ => leads_pure ?_)
  split
  · refine leads_bind (leads_onBuffer (leads_of_ok fun taken buffer htake => ?_))
    have htaken := h.advance htake
    rw [advance_of_head hhead] at htake
    cases htake
    exact leads_modify ⟨htaken.1, fun hsees => htaken.2 (hother hsees)⟩
  · exact leads_refuse

theorem leads_withBody {goal : Goal} {goals : List Goal} (h : Remaining n parser.buffer)
    (hsees : parser.SeesToken) (hcalm : ∀ goal ∈ goals, goal.urgent = false)
    (hweight : Goal.totalWeight (goal :: goals ++ [.endBody]) < w) :
    Leads (Goal.withBody (goal :: goals)) parser (Lightens n w) Fails := by
  refine leads_openBody.bind fun _ after hbuffer => leads_seen (hbuffer ▸ h) ?_ ?_ hweight
  · unfold SeesToken at *; rwa [hbuffer]
  · simpa [or_imp, forall_and] using ⟨hcalm, rfl⟩

theorem leads_chooseType (h : Remaining n parser.buffer) :
    Leads Goal.chooseType parser (Lightens n (-30)) Fails := by
  refine (leads_nextKind h).bind fun kind after ⟨h, hsees, _⟩ => ?_
  split
  · exact leads_seen h (hsees (by decide)) (by decide) (by decide)
  · exact leads_seen h (hsees (by decide)) (by decide) (by decide)
  · exact leads_seen h (hsees (by decide)) (by decide) (by decide)
  · exact leads_refuseAt

theorem leads_chooseStatement (h : Remaining n parser.buffer) :
    Leads Goal.chooseStatement parser (Lightens n (-8)) Fails := by
  refine (leads_nextKind h).bind fun kind after ⟨h, hsees, _⟩ => ?_
  split
  · exact leads_seen h (hsees (by decide)) (by decide) (by decide)
  · exact leads_withBody h (hsees (by decide)) (by decide) (by decide)
  · exact leads_withBody h (hsees (by decide)) (by decide) (by decide)
  · exact leads_withBody h (hsees (by decide)) (by decide) (by decide)
  · exact leads_withBody h (hsees (by decide)) (by decide) (by decide)
  · exact leads_seen h (hsees (by decide)) (by decide) (by decide)
  · exact leads_refuseAt

theorem leads_chooseFragment (h : Remaining n parser.buffer) :
    Leads Goal.chooseFragment parser (Lightens n 1) Fails := by
  refine (leads_nextKind h).bind fun kind after ⟨h, hsees, _⟩ => ?_
  split
  · exact leads_seen h (hsees (by decide)) (by decide) (by decide)
  · exact leads_seen h (hsees (by decide)) (by decide) (by decide)
  · exact leads_seen h (hsees (by decide)) (by decide) (by decide)
  · exact leads_seen h (hsees (by decide)) (by decide) (by decide)
  · exact leads_seen h (hsees (by decide)) (by decide) (by decide)
  · exact leads_withBody h (hsees (by decide)) (by decide) (by decide)
  · exact leads_refuseAt

theorem leads_chooseCompOp (h : Remaining n parser.buffer) :
    Leads Goal.chooseCompOp parser (Lightens n 1) Fails := by
  refine (leads_nextKind h).bind fun kind after ⟨h, hsees, _⟩ => ?_
  split <;> try exact leads_refuseAt
  all_goals exact leads_seen h (hsees (by decide)) (by decide) (by decide)

theorem leads_chooseCondition (h : Remaining n parser.buffer) :
    Leads Goal.chooseCondition parser (Lightens n 8) Fails := by
  refine (leads_selects h).bind fun negated after ⟨h, hsees⟩ => ?_
  split
  · rename_i hhit
    exact leads_withBody h (hsees hhit) (by decide) (by decide)
  · refine (leads_tries h).bind fun parenthesised after ⟨h, hsees⟩ => ?_
    split
    · rename_i hhit
      exact leads_withBody h (hsees hhit) (by decide) (by decide)
    · refine (leads_selects h).bind fun compared after ⟨h, _⟩ => ?_
      split
      · exact leads_calm h (by decide) (by decide)
      · exact leads_refuse

/-- At a decision point that may be passed over, a hit leaves goals for the token that was seen. -/
theorem leads_option {point : Decision} {goal : Goal} {goals : List Goal}
    (h : Remaining n parser.buffer) (hcalm : ∀ goal ∈ goals, goal.urgent = false)
    (hweight : Goal.totalWeight (goal :: goals) < w) (hpos : 0 < w) :
    Leads (do if ← selects point then return goal :: goals else return []) parser (Lightens n w)
      Fails := by
  refine (leads_selects h).bind fun hit after ⟨h, hsees⟩ => ?_
  split
  · rename_i hhit
    exact leads_seen h (hsees hhit) hcalm hweight
  · exact leads_calm h (by simp) hpos

/-- **Every step lightens the agenda.** -/
theorem leads_step (goal : Goal) (h : Remaining n parser.buffer)
    (hsees : goal.urgent = true → parser.SeesToken) :
    Leads goal.step parser (Lightens n goal.weight) Fails := by
  cases goal with
  | token kind =>
    exact (leads_expect h).bind fun _ after ⟨h, _⟩ => leads_calm h (by simp) Int.zero_lt_one
  | seen kind =>
    -- the weight of the token that is taken makes up for that of the goal
    refine (leads_expect h).bind fun _ after ⟨_, htaken⟩ => ?_
    obtain ⟨m, hm, h⟩ := htaken (hsees rfl)
    refine leads_pure ⟨m, h, ?_, steady_of_calm (by simp)⟩
    simp only [Goal.totalWeight, Goal.weight, Goal.tokenWeight]
    omega
  | declList | functionList | statementBlock | parameterList | parameterListTail | returnValue
  | expressionTail | argList | argListTail =>
    exact leads_option h (by decide) (by decide) (by decide)
  | decl =>
    refine (leads_nextKind h).bind fun kind after ⟨h, hsees, _⟩ => ?_
    split
    · exact leads_seen h (hsees (by decide)) (by decide) (by decide)
    · exact leads_seen h (hsees (by decide)) (by decide) (by decide)
    · exact leads_refuseAt
  | statementChoice =>
    refine (leads_nextKind h).bind fun kind after ⟨h, hsees, _⟩ => ?_
    split
    · exact leads_seen h (hsees (by decide)) (by decide) (by decide)
    · exact leads_seen h (hsees (by decide)) (by decide) (by decide)
    · exact leads_refuseAt
  | binaryArithOp =>
    refine (leads_nextKind h).bind fun kind after ⟨h, hsees, _⟩ => ?_
    split
    · exact leads_seen h (hsees (by decide)) (by decide) (by decide)
    · exact leads_seen h (hsees (by decide)) (by decide) (by decide)
    · exact leads_refuseAt
  | function =>
    exact (leads_chooseType h).bind fun goals after hgoals =>
      leads_pure ((hgoals.append (by decide)).mono (by decide))
  | type =>
    exact (leads_chooseType h).imp (fun _ _ hgoals => hgoals.mono (by decide)) fun _ _ h => h
  | nempParameterList | main | expression | condition | nempArgList =>
    exact leads_calm h (by decide) (by decide)
  | statement => exact leads_chooseStatement h
  | fragment => exact leads_chooseFragment h
  | compOp => exact leads_chooseCompOp h
  | conditionSimple => exact leads_chooseCondition h
  | callSuffix =>
    refine (leads_tries h).bind fun hit after ⟨h, hsees⟩ => ?_
    split
    · rename_i hhit
      exact leads_seen h (hsees hhit) (by decide) (by decide)
    · exact leads_calm h (by decide) (by decide)
  | conditionChoice =>
    refine (leads_selects h).bind fun hit after ⟨h, hsees⟩ => ?_
    split
    · rename_i hhit
      -- the connective is looked at once more, and is still the one that was selected
      refine (leads_nextKind h).bind fun kind after ⟨h, _, hkept⟩ => ?_
      exact leads_seen h (hkept (hsees hhit)) (by decide)
        (by simp [Goal.totalWeight, Goal.weight, Goal.tokenWeight])
    · exact leads_calm h (by decide) (by decide)
  | endBody => exact leads_bind (leads_modify (leads_calm h (by decide) (by decide)))

theorem weight_pos {goal : Goal} (h : goal.urgent = false) : 0 < goal.weight := by
  cases goal <;> simp_all [Goal.urgent, Goal.weight]

theorem totalWeight_nonneg {agenda : List Goal} (hcalm : ∀ goal ∈ agenda, goal.urgent = false) :
    0 ≤ Goal.totalWeight agenda := by
  induction agenda with
  | nil => decide
  | cons goal agenda ih =>
    have hgoal := weight_pos (hcalm goal (by simp))
    have hrest := ih fun goal hgoal => hcalm goal (by simp [hgoal])
    simp only [Goal.totalWeight]
    omega

/-- As long as a goal is left, so is some weight. -/
theorem Steady.weight_pos {goal : Goal} {rest : List Goal} (h : Remaining n parser.buffer)
    (hsteady : Steady (goal :: rest) parser) :
    0 < Goal.tokenWeight * n + Goal.totalWeight (goal :: rest) := by
  have hrest := totalWeight_nonneg hsteady.1
  simp only [Goal.totalWeight, Goal.tokenWeight, List.tail_cons] at hrest ⊢
  cases hurgent : goal.urgent with
  | false =>
    have := Parser.weight_pos hurgent
    omega
  | true =>
    obtain ⟨token, hhead, hother⟩ := hsteady.2 goal rfl hurgent
    obtain ⟨tail, htail⟩ := List.head?_eq_some_iff.1 hhead
    have hwaiting := h.waiting_le
    simp only [waiting, htail, List.countP_cons, hother] at hwaiting
    have : 1 - 32 ≤ goal.weight := by cases goal <;> simp [Goal.weight, Goal.tokenWeight]
    simp at hwaiting
    omega

/-- **A run ends** if it may take as many steps as the tokens that are left and its goals weigh. -/
theorem run_isSome {fuel : Nat} {agenda : List Goal} (h : Remaining n parser.buffer)
    (hsteady : Steady agenda parser)
    (hfuel : Goal.tokenWeight * n + Goal.totalWeight agenda ≤ fuel) :
    (run fuel agenda parser).isSome = true := by
  induction fuel generalizing n agenda parser with
  | zero =>
    cases agenda with
    | nil => rfl
    | cons goal rest =>
      have := hsteady.weight_pos h
      omega
  | succ fuel ih =>
    cases agenda with
    | nil => rfl
    | cons goal rest =>
      have hstep := leads_step goal h (hsteady.2 goal rfl)
      unfold Leads at hstep
      unfold run
      split
      · rename_i goals after hrun
        rw [hrun] at hstep
        obtain ⟨m, h, hlt, hgoals⟩ := hstep
        refine ih h (hgoals.append hsteady.1) ?_
        rw [Goal.totalWeight_append]
        simp only [Goal.totalWeight] at hfuel
        omega
      · rfl

end Parser

end Cal
