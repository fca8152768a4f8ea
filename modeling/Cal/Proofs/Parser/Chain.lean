import Cal.Proofs.Grammar.Chain
import Cal.Proofs.Parser.Shallow

/-!
# Chains of conditions

A chain of simple conditions with connectives between them is parsed in a loop, which opens no body. What opens
bodies are the conditions themselves, and a negation keeps its body open to the end of the chain, if it is not in
parentheses. So a chain is accepted as long as none of its conditions is too deep behind the negations of those
before it.

* `accepted_condition_iff`: a condition is accepted if no mark of its nesting is too deep.
* `exists_isLink_chain`: the marks of a chain, and when they are shallow.
* `chain_accepted_iff`: which chains are accepted.
-/

namespace Cal

/-- The program `main begin if … begin end end` with a condition in it. -/
def conditionProgram (condition : List Token) : List Token :=
  tokensOf [.mainKw, .beginKw, .ifKw] ++ condition ++ tokensOf [.beginKw, .endKw, .endKw]

/-- A simple condition that is accepted alone. -/
structure SimpleCondition (condition : List Token) : Prop where
  accepted : parseTokens (conditionProgram condition) = .ok ()
  simple : Derives [.rule .conditionSimple] (kindsIn condition)

/-- A condition, and others behind connectives. -/
def chainOf (first : List Token) (more : List (Token × List Token)) : List Token :=
  first ++ more.flatMap fun link => link.1 :: link.2

/-- How many negations of conditions stand outside of parentheses, all in all. -/
def negationsIn : List (List Token) → Nat
  | [] => 0
  | condition :: more => negationsOf (kindsIn condition) + negationsIn more

/-- A condition behind so many negations. -/
def negatedBy (n : Nat) (condition : List Token) : List Token :=
  tokensOf (List.replicate n .notKw) ++ condition

variable {condition first : List Token} {more : List (Token × List Token)} {marks : List Mark} {k : Nat}

/-- The marks of a program with a condition in it. -/
def programMarks (marks : List Mark) : List Mark :=
  [⟨0, .mainKw⟩, ⟨0, .beginKw⟩, ⟨1, .ifKw⟩] ++ (marks ++ [⟨1, .beginKw⟩, ⟨1, .endKw⟩, ⟨0, .endKw⟩, ⟨0, .eof⟩])

/-- A rule that may be left out adds nothing. -/
theorem Nests.skip {rule : Rule} {form : Form} {items : List Item} {depth : Nat}
    (h : Nests Rule.settled .free items marks) (hrule : rule.settled = .optional form) :
    Nests Rule.settled .free (⟨depth, .rule rule⟩ :: items) marks := by
  refine .rule ?_
  rw [hrule]
  exact .right trivial (.empty h)

theorem isNesting_programMarks (h : Nests Rule.settled .free [⟨1, .rule .condition⟩] marks) :
    IsNesting (programMarks marks) := by
  have hend : Nests Rule.settled .free
      [⟨0, .rule .statementBlock⟩, ⟨0, .token .endKw⟩, ⟨0, .token .eof⟩] [⟨0, .endKw⟩, ⟨0, .eof⟩] :=
    Nests.skip (.token (.token .nil)) rfl
  have hbody : Nests Rule.settled .free
      [⟨1, .seq [.token .beginKw, .rule .statementBlock, .token .endKw]⟩, ⟨0, .rule .statementBlock⟩,
        ⟨0, .token .endKw⟩, ⟨0, .token .eof⟩]
      [⟨1, .beginKw⟩, ⟨1, .endKw⟩, ⟨0, .endKw⟩, ⟨0, .eof⟩] :=
    .both (.token (.both (Nests.skip (.token hend) rfl)))
  -- of the statements, that with a condition is the third alternative, and a body
  have hstatement : Nests Rule.settled .free
      [⟨0, .rule .statement⟩, ⟨0, .rule .statementBlock⟩, ⟨0, .token .endKw⟩, ⟨0, .token .eof⟩]
      (⟨1, .ifKw⟩ :: (marks ++ [⟨1, .beginKw⟩, ⟨1, .endKw⟩, ⟨0, .endKw⟩, ⟨0, .eof⟩])) :=
    .rule (.right trivial (.right trivial (.left trivial (.both (.token (.both (h.append hbody)))))))
  have hblock : Nests Rule.settled .free [⟨0, .rule .statementBlock⟩, ⟨0, .token .endKw⟩, ⟨0, .token .eof⟩]
      (⟨1, .ifKw⟩ :: (marks ++ [⟨1, .beginKw⟩, ⟨1, .endKw⟩, ⟨0, .endKw⟩, ⟨0, .eof⟩])) :=
    .rule (.left trivial (.both hstatement))
  have hmain : Nests Rule.settled .free [⟨0, .rule .main⟩, ⟨0, .token .eof⟩] (programMarks marks) :=
    .rule (.both (.token (.both (.token (.both (Nests.skip (.both hblock) rfl))))))
  exact .rule (.both (Nests.skip (.both (hmain.skip rfl)) rfl))

/-- The marks of a program with a condition in it are of its kinds. -/
theorem kindsOf_programMarks (hkinds : kindsOf marks = kindsIn condition)
    (h : Nests Rule.settled .free [⟨1, .rule .condition⟩] marks) :
    kindsOf (programMarks marks) = kindsBeforeEof (conditionProgram condition) ++ [.eof] := by
  have hderives : Derives [.rule .condition] (kindsOf marks) := h.derives fun _ _ _ h => derives_of_settled h
  have heof : .eof ∉ kindsIn condition := by
    rw [← hkinds]
    refine not_mem_of_derives (fun rule => ?_) hderives (by simp [Form.names])
    cases rule <;> decide
  have hall : kindsIn (conditionProgram condition) =
      [.mainKw, .beginKw, .ifKw] ++ kindsIn condition ++ [.beginKw, .endKw, .endKw] := by
    simp [conditionProgram, tokensOf, Token.ofKind]
  have hongoing : ∀ token ∈ conditionProgram condition, token.isEof = false := by
    refine isEof_of_kindsIn ?_
    rw [hall]
    simpa using heof
  have hclosed : kindsBeforeEof (conditionProgram condition ++ []) = kindsIn (conditionProgram condition) ++ [] :=
    kindsBeforeEof_append hongoing
  rw [List.append_nil, List.append_nil] at hclosed
  rw [hclosed, hall, ← hkinds]
  simp [programMarks, kindsOf]

/-- **A condition is accepted if no mark of its nesting is too deep.** -/
theorem accepted_condition_iff (hkinds : kindsOf marks = kindsIn condition)
    (h : Nests Rule.settled .free [⟨1, .rule .condition⟩] marks) :
    parseTokens (conditionProgram condition) = .ok () ↔ ∀ mark ∈ marks, mark.depth ≤ nestingLimit := by
  have hnesting := isNesting_programMarks h
  have hwhole := kindsOf_programMarks hkinds h
  constructor
  · intro haccepted mark hmark
    exact shallow_of_accepted hnesting hwhole haccepted mark (by simp [programMarks, hmark])
  · intro hshallow
    refine accepted_of_shallow hnesting hwhole fun mark hmark => ?_
    simp only [programMarks, List.mem_append, List.mem_cons, List.not_mem_nil, or_false] at hmark
    rcases hmark with (rfl | rfl | rfl) | hmark | rfl | rfl | rfl | rfl
    all_goals first | exact hshallow _ hmark | decide

theorem SimpleCondition.derives (h : SimpleCondition condition) : Derives [.rule .condition] (kindsIn condition) := by
  have hnone : Derives [.rule .conditionChoice] [] := .rule (.right (.empty .nil))
  have hall := h.simple.append hnone
  rw [List.append_nil] at hall
  exact .rule (.both hall)

theorem nests_of_isLink {kinds : List TokenKind} (h : IsLink kinds marks) :
    Nests Rule.settled .free [⟨1, .rule .condition⟩] (deepen 1 marks) := by
  have hnests : Nests Rule.settled .free [⟨1, .rule .condition⟩] (deepen 1 marks ++ []) :=
    h.nests (Nests.skip .nil rfl)
  rw [List.append_nil] at hnests
  exact hnests

/-- **A condition behind negations is accepted** if it is not too deep behind them. -/
theorem accepted_negatedBy_iff (h : IsLink (kindsIn condition) marks) :
    parseTokens (conditionProgram (negatedBy k condition)) = .ok () ↔
      ∀ mark ∈ marks, 1 + k + mark.depth ≤ nestingLimit := by
  obtain ⟨more, hmore, hshallow⟩ := h.negated k
  have hkinds : kindsOf (deepen 1 more) = kindsIn (negatedBy k condition) := by
    rw [kindsOf_deepen, hmore.kinds_eq]
    simp [negatedBy, tokensOf, Token.ofKind]
  rw [accepted_condition_iff hkinds (nests_of_isLink hmore), deepen, List.forall_mem_map]
  exact hshallow 1 nestingLimit

/-- A condition is never refused as a matter of syntax. -/
theorem condition_accepted_or_tooDeep (h : IsLink (kindsIn condition) marks) :
    parseTokens (conditionProgram condition) = .ok () ∨
      ∃ position, parseTokens (conditionProgram condition) = .error (.tooDeep nestingLimit position) := by
  have hnests := nests_of_isLink h
  have hkinds : kindsOf (deepen 1 marks) = kindsIn condition := (kindsOf_deepen 1 marks).trans h.kinds_eq
  exact accepted_or_tooDeep (isProgram_of_isNesting (isNesting_programMarks hnests) (kindsOf_programMarks hkinds hnests))

/-- Every condition is accepted alone, behind `k` negations and those of the others before it. -/
def AcceptedBehind : Nat → List (List Token) → Prop
  | _, [] => True
  | k, condition :: more => parseTokens (conditionProgram (negatedBy k condition)) = .ok () ∧
    AcceptedBehind (k + negationsOf (kindsIn condition)) more

theorem acceptedBehind_iff {conditions : List (List Token)} : AcceptedBehind k conditions ↔
    ∀ earlier condition later, conditions = earlier ++ condition :: later →
      parseTokens (conditionProgram (negatedBy (k + negationsIn earlier) condition)) = .ok () := by
  induction conditions generalizing k with
  | nil => simp [AcceptedBehind]
  | cons first more ih =>
    rw [AcceptedBehind, ih]
    constructor
    · rintro ⟨halone, hrest⟩ earlier condition later hsplit
      cases earlier with
      | nil =>
        obtain rfl : first = condition := (List.cons.inj hsplit).1
        exact halone
      | cons other earlier =>
        obtain ⟨rfl, hothers⟩ := List.cons.inj hsplit
        rw [negationsIn, ← Nat.add_assoc]
        exact hrest earlier condition later hothers
    · intro hall
      refine ⟨hall [] first more rfl, fun earlier condition later hsplit => ?_⟩
      have hbehind := hall (first :: earlier) condition later (congrArg (first :: ·) hsplit)
      rw [negationsIn, ← Nat.add_assoc] at hbehind
      exact hbehind

/-- **The marks of a chain**. They are shallow behind `k` negations just if every condition of the chain is accepted
alone behind those, and behind the negations of the others before it. The induction is on the chain: behind the first
condition it goes on behind the negations of that as well. -/
theorem exists_isLink_chain (hfirst : SimpleCondition first)
    (hmore : ∀ link ∈ more, (link.1.kind = .andKw ∨ link.1.kind = .orKw) ∧ SimpleCondition link.2) :
    ∃ marks, IsLink (kindsIn (chainOf first more)) marks ∧ ∀ k,
      (∀ mark ∈ marks, 1 + k + mark.depth ≤ nestingLimit) ↔ AcceptedBehind k (first :: more.map Prod.snd) := by
  induction more generalizing first with
  | nil =>
    obtain ⟨marks, hmarks⟩ := exists_isLink hfirst.derives
    have hchain : chainOf first [] = first := by simp [chainOf]
    rw [hchain]
    refine ⟨marks, hmarks, fun k => ?_⟩
    rw [← accepted_negatedBy_iff hmarks]
    exact (and_iff_left trivial).symm
  | cons link more ih =>
    obtain ⟨⟨hconnective, hlink⟩, hmore⟩ := List.forall_mem_cons.1 hmore
    obtain ⟨marks, hmarks⟩ := exists_isLink hfirst.derives
    obtain ⟨rest, hrest, hshallow⟩ := ih hlink hmore
    have hchain : kindsIn (chainOf first (link :: more)) =
        kindsIn first ++ link.1.kind :: kindsIn (chainOf link.2 more) := by
      simp [chainOf]
    rw [hchain]
    refine ⟨_, hmarks.connective hconnective hrest, fun k => ?_⟩
    rw [List.forall_mem_append, List.forall_mem_cons, deepen, List.forall_mem_map, List.map_cons, AcceptedBehind,
      ← accepted_negatedBy_iff hmarks, ← hshallow, accepted_negatedBy_iff hmarks]
    simp only [← Nat.add_assoc]
    -- the connective is no deeper than what stands before it
    refine and_congr_right fun halone => and_iff_right ?_
    obtain ⟨mark, hmark, hdeep⟩ := hmarks.deep
    have hbound := halone mark hmark
    omega

/-- A chain is never refused as a matter of syntax, and it is accepted just if each of its conditions is, behind the
negations of those before it. -/
theorem chain_cases (hfirst : SimpleCondition first)
    (hmore : ∀ link ∈ more, (link.1.kind = .andKw ∨ link.1.kind = .orKw) ∧ SimpleCondition link.2) :
    (parseTokens (conditionProgram (chainOf first more)) = .ok () ∨
      ∃ position, parseTokens (conditionProgram (chainOf first more)) = .error (.tooDeep nestingLimit position)) ∧
    (parseTokens (conditionProgram (chainOf first more)) = .ok () ↔
      AcceptedBehind 0 (first :: more.map Prod.snd)) := by
  obtain ⟨marks, hlink, hshallow⟩ := exists_isLink_chain hfirst hmore
  have hnone : negatedBy 0 (chainOf first more) = chainOf first more := rfl
  have haccepted := (accepted_negatedBy_iff hlink).trans (hshallow 0)
  rw [hnone] at haccepted
  exact ⟨condition_accepted_or_tooDeep hlink, haccepted⟩

/-- A simple condition that does not begin with a negation has none outside of parentheses. -/
theorem SimpleCondition.negationsOf_eq_zero (h : SimpleCondition condition)
    (hhead : (kindsIn condition).head? ≠ some .notKw) : negationsOf (kindsIn condition) = 0 := by
  cases h.simple with
  | rule hsimple =>
    rcases derives_either.1 hsimple with hnegation | hplain
    · obtain ⟨inner, hkinds, -⟩ := derives_token.1 (derives_both.1 hnegation)
      rw [hkinds] at hhead
      exact absurd rfl hhead
    · exact negationsOf_of_plain hplain

theorem negationsIn_eq_zero {conditions : List (List Token)}
    (h : ∀ condition ∈ conditions, SimpleCondition condition ∧ (kindsIn condition).head? ≠ some .notKw) :
    negationsIn conditions = 0 := by
  induction conditions with
  | nil => rfl
  | cons condition more ih =>
    obtain ⟨⟨hsimple, hhead⟩, hmore⟩ := List.forall_mem_cons.1 h
    rw [negationsIn, hsimple.negationsOf_eq_zero hhead, ih hmore]

section Comparison

variable {forms : List Form} {kinds : List TokenKind}

theorem derives_operand (h : Derives forms kinds) : Derives (.rule .expression :: forms) (.identifier :: kinds) :=
  .rule (.both (.rule (.left (.both (.token (.right (.empty (.right (.empty h)))))))))

theorem derives_comparison (h : Derives forms kinds) :
    Derives (.rule .conditionSimple :: forms) (.identifier :: .equal :: .identifier :: kinds) :=
  .rule (.right (.right (.both (derives_operand (.both (.rule (.left (.token (derives_operand h)))))))))

/-- A comparison of identifiers. -/
def comparison : List Token := tokensOf [.identifier, .equal, .identifier]

theorem simple_comparison : SimpleCondition comparison :=
  ⟨by decide +kernel, derives_comparison .nil⟩

theorem simple_negated_comparison : SimpleCondition (negatedBy 1 comparison) :=
  have hnone : Derives [.rule .conditionChoice] [] := .rule (.right (.empty .nil))
  have hnegated : Derives [.rule .condition] [.identifier, .equal, .identifier] :=
    .rule (.both (derives_comparison hnone))
  ⟨by decide +kernel, .rule (.left (.both (.token hnegated)))⟩

end Comparison

/-- **A chain of conditions nests by its negations only.** It is never refused as a matter of syntax. It is accepted
just if each of its conditions is accepted alone behind as many negations as stand outside of parentheses in all those
before it. So it is accepted, however long it is, if none of its conditions begins with a negation, but for the
last. -/
theorem chain_accepted_iff (hfirst : SimpleCondition first)
    (hmore : ∀ link ∈ more, (link.1.kind = .andKw ∨ link.1.kind = .orKw) ∧ SimpleCondition link.2) :
    (parseTokens (conditionProgram (chainOf first more)) = .ok () ∨
      ∃ position, parseTokens (conditionProgram (chainOf first more)) = .error (.tooDeep nestingLimit position)) ∧
    (parseTokens (conditionProgram (chainOf first more)) = .ok () ↔
      ∀ earlier condition later, first :: more.map Prod.snd = earlier ++ condition :: later →
        parseTokens (conditionProgram (negatedBy (negationsIn earlier) condition)) = .ok ()) ∧
    ((∀ condition ∈ (first :: more.map Prod.snd).dropLast, (kindsIn condition).head? ≠ some .notKw) →
      parseTokens (conditionProgram (chainOf first more)) = .ok ()) := by
  obtain ⟨hcases, hbehind⟩ := chain_cases hfirst hmore
  have haccepted := hbehind.trans acceptedBehind_iff
  simp only [Nat.zero_add] at haccepted
  refine ⟨hcases, haccepted, fun hplain => haccepted.2 ?_⟩
  have hall : ∀ condition ∈ first :: more.map Prod.snd, SimpleCondition condition := by
    refine List.forall_mem_cons.2 ⟨hfirst, fun condition hcondition => ?_⟩
    obtain ⟨link, hlink, rfl⟩ := List.mem_map.1 hcondition
    exact (hmore link hlink).2
  intro earlier condition later hsplit
  rw [hsplit] at hall hplain
  rw [List.dropLast_append_of_ne_nil (List.cons_ne_nil _ _)] at hplain
  have hnone : negationsIn earlier = 0 := negationsIn_eq_zero fun other hother =>
    ⟨hall other (List.mem_append_left _ hother), hplain other (List.mem_append_left _ hother)⟩
  rw [hnone]
  exact (hall condition (by simp)).accepted

/-- In `a = b and not a = b` only the last condition begins with a negation. -/
theorem chain_accepted_of_comparison :
    let more := [(Token.ofKind .andKw .start, negatedBy 1 comparison)]
    SimpleCondition comparison ∧
      (∀ link ∈ more, (link.1.kind = .andKw ∨ link.1.kind = .orKw) ∧ SimpleCondition link.2) ∧
      parseTokens (conditionProgram (chainOf comparison more)) = .ok () := by
  intro more
  have hmore : ∀ link ∈ more, (link.1.kind = .andKw ∨ link.1.kind = .orKw) ∧ SimpleCondition link.2 := by
    intro link hlink
    obtain rfl := List.mem_singleton.1 hlink
    exact ⟨.inl rfl, simple_negated_comparison⟩
  exact ⟨simple_comparison, hmore, (chain_accepted_iff simple_comparison hmore).2.2 (by decide)⟩

/-- **A chain may nest too deeply although none of its conditions does**: 256 times `not a = b`, and every negation
holds all that follows. -/
theorem negated_chain_tooDeep :
    let more := List.replicate 255 (Token.ofKind .andKw .start, negatedBy 1 comparison)
    SimpleCondition (negatedBy 1 comparison) ∧
      (∀ link ∈ more, (link.1.kind = .andKw ∨ link.1.kind = .orKw) ∧ SimpleCondition link.2) ∧
      ∃ position, parseTokens (conditionProgram (chainOf (negatedBy 1 comparison) more)) =
        .error (.tooDeep nestingLimit position) := by
  intro more
  have hmore : ∀ link ∈ more, (link.1.kind = .andKw ∨ link.1.kind = .orKw) ∧ SimpleCondition link.2 := by
    intro link hlink
    obtain rfl := List.eq_of_mem_replicate hlink
    exact ⟨.inl rfl, simple_negated_comparison⟩
  refine ⟨simple_negated_comparison, hmore, ?_⟩
  obtain ⟨hcases, hbehind⟩ := chain_cases simple_negated_comparison hmore
  refine hcases.resolve_left fun haccepted => ?_
  have hlast := acceptedBehind_iff.1 (hbehind.1 haccepted) (List.replicate 255 (negatedBy 1 comparison))
    (negatedBy 1 comparison) []
    (by decide +kernel)
  -- the last condition stands behind 255 negations, with one of its own, in the body of the statement
  obtain ⟨own, hown⟩ := exists_isLink simple_negated_comparison.derives
  obtain ⟨mark, hmark, hdeep⟩ := hown.deep
  have hbound := (accepted_negatedBy_iff hown).1 hlast mark hmark
  have hleading : negationsIn (List.replicate 255 (negatedBy 1 comparison)) = 255 := by decide +kernel
  have hone : negationsOf (kindsIn (negatedBy 1 comparison)) = 1 := by decide
  rw [hleading, nestingLimit] at hbound
  omega

end Cal
