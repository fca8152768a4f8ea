import Cal.Proofs.Grammar.Expand
import Cal.Proofs.Grammar.Sentence

/-!
# Conditions in a chain

In a chain of conditions a negation reaches to the end of the chain, if it stands outside of parentheses. So each of
the conditions stands as deep as there are such negations in those before it, and the connectives between them add
nothing.

* `negationsFrom_append`: what has no negation outside of parentheses, and closes those that it opens.
* `IsLink`: the marks of a condition, whatever comes behind it.
* `exists_isLink`: every condition has such marks.
-/

namespace Cal

/-- How many parentheses are open behind a kind, if `depth` are open in front of it. -/
def TokenKind.parensBehind (depth : Nat) : TokenKind → Nat
  | .leftParen => depth + 1
  | .rightParen => depth - 1
  | _ => depth

/-- How many negations stand outside of parentheses, if `depth` parentheses are open in front. -/
def negationsFrom : Nat → List TokenKind → Nat
  | _, [] => 0
  | depth, kind :: kinds =>
    (if depth = 0 ∧ kind = .notKw then 1 else 0) + negationsFrom (kind.parensBehind depth) kinds

/-- How many negations stand outside of parentheses. -/
def negationsOf (kinds : List TokenKind) : Nat := negationsFrom 0 kinds

/-- A rule of operands and what they are made of, in which there are no negations. -/
def Rule.isOperand : Rule → Bool
  | .expression | .binaryArithOp | .fragment | .compOp | .argList | .nempArgList => true
  | _ => false

/-- How many parentheses are open behind a form, if `depth` are open in front of it: none that was open there without
it is closed by it, and no negation is outside of all of them. -/
def Form.parensBehind : Form → Nat → Option Nat
  | empty, depth => some depth
  | token kind, depth =>
    if depth = 0 ∧ (kind = .rightParen ∨ kind = .notKw) then none else some (kind.parensBehind depth)
  | .rule name, depth => if depth = 0 ∧ name.isOperand = false then none else some depth
  | both first second, depth => (first.parensBehind depth).bind second.parensBehind
  | either left right, depth =>
    if left.parensBehind depth = right.parensBehind depth then left.parensBehind depth else none

/-- How many parentheses are open behind forms in sequence. -/
def parensBehindAll : List Form → Nat → Option Nat
  | [], depth => some depth
  | form :: forms, depth => (form.parensBehind depth).bind (parensBehindAll forms)

section Parentheses

variable {form : Form} {forms : List Form} {kinds : List TokenKind} {depth behind : Nat}

theorem TokenKind.parensBehind_add {kind : TokenKind} {n : Nat} (h : ¬ (depth = 0 ∧ kind = .rightParen)) :
    kind.parensBehind (depth + n) = kind.parensBehind depth + n := by
  unfold parensBehind
  split
  · omega
  · have hopen : depth ≠ 0 := fun hzero => h ⟨hzero, rfl⟩
    omega
  · rfl

/-- With more parentheses open in front, as many more are open behind. -/
theorem Form.parensBehind_add (h : form.parensBehind depth = some behind) (n : Nat) :
    form.parensBehind (depth + n) = some (behind + n) := by
  induction form generalizing depth behind with
  | empty =>
    obtain rfl := Option.some.inj h
    rfl
  | token kind =>
    simp only [parensBehind] at h ⊢
    split at h
    · cases h
    · rename_i hopen
      obtain rfl := Option.some.inj h
      have hmore : ¬ (depth + n = 0 ∧ (kind = .rightParen ∨ kind = .notKw)) := by
        rintro ⟨hdepth, hkind⟩
        exact hopen ⟨by omega, hkind⟩
      rw [if_neg hmore, TokenKind.parensBehind_add (fun hclosed => hopen ⟨hclosed.1, .inl hclosed.2⟩)]
  | rule name =>
    simp only [parensBehind] at h ⊢
    split at h
    · cases h
    · rename_i hopen
      obtain rfl := Option.some.inj h
      exact if_neg fun hnone => hopen ⟨by omega, hnone.2⟩
  | both first second ihFirst ihSecond =>
    obtain ⟨between, hfirst, hsecond⟩ := Option.bind_eq_some_iff.1 h
    exact Option.bind_eq_some_iff.2 ⟨_, ihFirst hfirst, ihSecond hsecond⟩
  | either left right ihLeft ihRight =>
    simp only [parensBehind] at h ⊢
    split at h
    · rename_i hsame
      rw [ihLeft h, ihRight (hsame ▸ h)]
      exact if_pos rfl
    · cases h

theorem parensBehind_body (rule : Rule) : rule.body.parensBehind 1 = some 1 := by
  cases rule <;> rfl

theorem parensBehind_operand {rule : Rule} (h : rule.isOperand = true) : rule.body.parensBehind 0 = some 0 := by
  cases rule <;> first | rfl | cases h

/-- **What forms derive has no negation outside of parentheses** if they have none, and behind it as many are open as
behind them. -/
theorem negationsFrom_append (h : Derives forms kinds) (hforms : parensBehindAll forms depth = some behind)
    (more : List TokenKind) : negationsFrom depth (kinds ++ more) = negationsFrom behind more := by
  induction h generalizing depth with
  | nil =>
    obtain rfl := Option.some.inj hforms
    rfl
  | empty _ ih => exact ih hforms
  | @token kind _ _ _ ih =>
    obtain ⟨between, hkind, hmore⟩ := Option.bind_eq_some_iff.1 hforms
    simp only [Form.parensBehind] at hkind
    split at hkind
    · cases hkind
    · rename_i hopen
      obtain rfl := Option.some.inj hkind
      rw [List.cons_append, negationsFrom, if_neg fun hnegation => hopen ⟨hnegation.1, .inr hnegation.2⟩,
        Nat.zero_add, ih hmore]
  | @rule rule _ _ _ ih =>
    obtain ⟨between, hrule, hmore⟩ := Option.bind_eq_some_iff.1 hforms
    simp only [Form.parensBehind] at hrule
    split at hrule
    · cases hrule
    · rename_i hinside
      obtain rfl := Option.some.inj hrule
      -- its production goes back to where it starts, within parentheses or as an operand
      have hbody : rule.body.parensBehind depth = some depth := by
        cases depth with
        | zero => exact parensBehind_operand (by simpa using hinside)
        | succ n =>
          have hraised := Form.parensBehind_add (parensBehind_body rule) n
          rwa [Nat.add_comm] at hraised
      exact ih (Option.bind_eq_some_iff.2 ⟨depth, hbody, hmore⟩)
  | both _ ih =>
    obtain ⟨between, hboth, hmore⟩ := Option.bind_eq_some_iff.1 hforms
    obtain ⟨middle, hfirst, hsecond⟩ := Option.bind_eq_some_iff.1 hboth
    exact ih (Option.bind_eq_some_iff.2 ⟨middle, hfirst, Option.bind_eq_some_iff.2 ⟨between, hsecond, hmore⟩⟩)
  | left _ ih =>
    obtain ⟨between, heither, hmore⟩ := Option.bind_eq_some_iff.1 hforms
    simp only [Form.parensBehind] at heither
    split at heither
    · exact ih (Option.bind_eq_some_iff.2 ⟨between, heither, hmore⟩)
    · cases heither
  | right _ ih =>
    obtain ⟨between, heither, hmore⟩ := Option.bind_eq_some_iff.1 hforms
    simp only [Form.parensBehind] at heither
    split at heither
    · rename_i hsame
      exact ih (Option.bind_eq_some_iff.2 ⟨between, hsame ▸ heither, hmore⟩)
    · cases heither

end Parentheses

section Nesting

variable {production : Rule → Form} {items more : List Item} {marks rest : List Mark} {depth n : Nat}

/-- Marks in so many more bodies. -/
def deepen (n : Nat) (marks : List Mark) : List Mark := marks.map fun mark => ⟨n + mark.depth, mark.kind⟩

theorem kindsOf_deepen (n : Nat) (marks : List Mark) : kindsOf (deepen n marks) = kindsOf marks := by
  simp [kindsOf, deepen, Function.comp_def]

theorem deepen_deepen (n m : Nat) (marks : List Mark) : deepen n (deepen m marks) = deepen (n + m) marks := by
  simp [deepen, Function.comp_def, Nat.add_assoc]

theorem Nests.append (h : Nests production .free items marks) (hmore : Nests production .free more rest) :
    Nests production .free (items ++ more) (marks ++ rest) := by
  induction h with
  | nil => exact hmore
  | empty _ ih => exact .empty ih
  | token _ ih => exact .token ih
  | rule _ ih => exact .rule ih
  | both _ ih => exact .both ih
  | left _ _ ih => exact .left trivial ih
  | right _ _ ih => exact .right trivial ih

/-- In more bodies a nesting is as it is in fewer. -/
theorem Nests.raise (h : Nests production .free items marks) (n : Nat) :
    Nests production .free (Cal.raise n items) (deepen n marks) := by
  induction h with
  | nil => exact .nil
  | empty _ ih => exact .empty ih
  | token _ ih => exact .token ih
  | rule _ ih => exact .rule ih
  | both _ ih => exact .both ih
  | left _ _ ih => exact .left trivial (by rw [Nat.add_assoc]; exact ih)
  | right _ _ ih => exact .right trivial (by rw [Nat.add_assoc]; exact ih)

/-- A connective opens no body for the condition behind it. -/
theorem nests_connective {connective : TokenKind} (hconnective : connective = .andKw ∨ connective = .orKw)
    (h : Nests Rule.settled .free [⟨depth, .rule .condition⟩] rest) :
    Nests Rule.settled .free [⟨depth, .rule .conditionChoice⟩] (⟨depth, connective⟩ :: rest) := by
  rcases hconnective with rfl | rfl
  · exact .rule (.left trivial (.left trivial (.both (.token h))))
  · exact .rule (.left trivial (.right trivial (.both (.token h))))

end Nesting

/-- A condition that is no negation and has no connective: one in parentheses, or a comparison. -/
def plainForm : Form :=
  .oneOf [.seq [.token .leftParen, .rule .condition, .token .rightParen],
    .seq [.rule .expression, .rule .compOp, .rule .expression]]

/-- The marks of a condition in a chain: behind it the chain goes on in as many more bodies as it has negations
outside of parentheses. -/
structure IsLink (kinds : List TokenKind) (marks : List Mark) : Prop where
  kinds_eq : kindsOf marks = kinds
  negations (more : List TokenKind) : negationsOf (kinds ++ more) = negationsOf kinds + negationsOf more
  deep : ∃ mark ∈ marks, negationsOf kinds ≤ mark.depth
  nests {depth : Nat} {rest : List Mark} :
    Nests Rule.settled .free [⟨depth + negationsOf kinds, .rule .conditionChoice⟩] rest →
      Nests Rule.settled .free [⟨depth, .rule .condition⟩] (deepen depth marks ++ rest)

section Links

variable {kinds more : List TokenKind} {marks rest : List Mark} {link : TokenKind}

theorem negationsOf_plain (h : Derives [plainForm] kinds) (more : List TokenKind) :
    negationsOf (kinds ++ more) = negationsOf more := by
  refine negationsFrom_append h ?_ more
  rfl

theorem negationsOf_of_plain (h : Derives [plainForm] kinds) : negationsOf kinds = 0 := by
  have hall := negationsOf_plain h []
  rwa [List.append_nil] at hall

theorem IsLink.plain (h : Nests Rule.settled .free [⟨0, plainForm⟩] marks) : IsLink (kindsOf marks) marks := by
  have hderives : Derives [plainForm] (kindsOf marks) := h.derives fun _ _ _ h => derives_of_settled h
  have hnone : negationsOf (kindsOf marks) = 0 := negationsOf_of_plain hderives
  refine ⟨rfl, fun more => ?_, ?_, fun {depth rest} hrest => ?_⟩
  · rw [negationsOf_plain hderives, hnone, Nat.zero_add]
  · have hsome : marks ≠ [] := by
      rintro rfl
      have hnullable := nullable_of_derives hderives plainForm (by simp)
      exact absurd hnullable (by decide)
    obtain ⟨mark, hmark⟩ := List.exists_mem_of_ne_nil marks hsome
    exact ⟨mark, hmark, hnone ▸ Nat.zero_le _⟩
  · rw [hnone] at hrest
    exact .rule (.right trivial (.both ((h.raise depth).append hrest)))

/-- A negation is a body for what it negates, and for what comes behind that. -/
theorem IsLink.negation (h : IsLink kinds marks) : IsLink (.notKw :: kinds) (⟨1, .notKw⟩ :: deepen 1 marks) := by
  have hone (more : List TokenKind) : negationsOf (.notKw :: more) = 1 + negationsOf more := rfl
  refine ⟨?_, fun more => ?_, ?_, fun {depth rest} hrest => ?_⟩
  · exact congrArg (TokenKind.notKw :: ·) ((kindsOf_deepen 1 marks).trans h.kinds_eq)
  · rw [List.cons_append, hone, hone, h.negations, Nat.add_assoc]
  · obtain ⟨mark, hmark, hdeep⟩ := h.deep
    refine ⟨_, List.mem_cons_of_mem _ (List.mem_map_of_mem hmark), ?_⟩
    rw [hone]
    exact Nat.add_le_add_left hdeep 1
  · rw [hone, ← Nat.add_assoc] at hrest
    have hinner := h.nests hrest
    rw [← deepen_deepen] at hinner
    exact .rule (.left trivial (.both (.token hinner)))

/-- **Two links with a connective between them** make one: the other is behind the negations of the first. -/
theorem IsLink.connective (h : IsLink kinds marks) (hlink : link = .andKw ∨ link = .orKw)
    (hmore : IsLink more rest) : IsLink (kinds ++ link :: more)
      (marks ++ ⟨negationsOf kinds, link⟩ :: deepen (negationsOf kinds) rest) := by
  have hnone (more : List TokenKind) : negationsOf (link :: more) = negationsOf more := by
    rcases hlink with rfl | rfl
    · exact Nat.zero_add _
    · exact Nat.zero_add _
  have hall : negationsOf (kinds ++ link :: more) = negationsOf kinds + negationsOf more := by
    rw [h.negations, hnone]
  refine ⟨?_, fun others => ?_, ?_, fun {depth others} hothers => ?_⟩
  · rw [kindsOf, List.map_append, List.map_cons]
    exact congrArg₂ (· ++ link :: ·) h.kinds_eq ((kindsOf_deepen _ rest).trans hmore.kinds_eq)
  · rw [hall, List.append_assoc, List.cons_append, h.negations, hnone, hmore.negations, Nat.add_assoc]
  · obtain ⟨mark, hmark, hdeep⟩ := hmore.deep
    refine ⟨_, List.mem_append_right _ (List.mem_cons_of_mem _ (List.mem_map_of_mem hmark)), ?_⟩
    rw [hall]
    exact Nat.add_le_add_left hdeep _
  · rw [hall, ← Nat.add_assoc] at hothers
    have hbehind := h.nests (nests_connective hlink (hmore.nests hothers))
    rw [← deepen_deepen] at hbehind
    simpa [deepen] using hbehind

/-- Negations in front of a link are no deeper than the link behind them. -/
theorem IsLink.negated (h : IsLink kinds marks) (k : Nat) :
    ∃ more, IsLink (List.replicate k .notKw ++ kinds) more ∧
      ∀ depth limit, (∀ mark ∈ more, depth + mark.depth ≤ limit) ↔ ∀ mark ∈ marks, depth + k + mark.depth ≤ limit := by
  induction k with
  | zero => exact ⟨marks, h, fun _ _ => Iff.rfl⟩
  | succ k ih =>
    obtain ⟨more, hmore, hshallow⟩ := ih
    refine ⟨_, hmore.negation, fun depth limit => ?_⟩
    have hbehind := hshallow (depth + 1) limit
    rw [Nat.add_right_comm, Nat.add_assoc] at hbehind
    rw [← hbehind, List.forall_mem_cons, deepen, List.forall_mem_map]
    simp only [Nat.add_assoc]
    refine and_iff_right_of_imp fun hall => ?_
    obtain ⟨mark, hmark, -⟩ := hmore.deep
    have hbound := hall mark hmark
    show depth + 1 ≤ limit
    omega

/-- A condition is a negation or a plain condition, and a connective may come behind it, with another condition. -/
theorem condition_cases (h : Derives [.rule .condition] kinds) : ∃ simple choice, kinds = simple ++ choice ∧
    ((∃ inner, simple = .notKw :: inner ∧ Derives [.rule .condition] inner) ∨ Derives [plainForm] simple) ∧
    (choice = [] ∨ ∃ link more, choice = link :: more ∧ (link = .andKw ∨ link = .orKw) ∧
      Derives [.rule .condition] more) := by
  cases h with
  | rule h =>
    obtain ⟨simple, choice, rfl, hsimple, hchoice⟩ := derives_split [_] (derives_both.1 h)
    refine ⟨simple, choice, rfl, ?_, ?_⟩
    · cases hsimple with
      | rule hsimple => exact (derives_either.1 hsimple).imp_left fun h => derives_token.1 (derives_both.1 h)
    · cases hchoice with
      | rule hchoice =>
        rcases derives_either.1 hchoice with hsome | hnone
        · right
          rcases derives_either.1 hsome with hand | hor
          · obtain ⟨more, rfl, hmore⟩ := derives_token.1 (derives_both.1 hand)
            exact ⟨_, more, rfl, .inl rfl, hmore⟩
          · obtain ⟨more, rfl, hmore⟩ := derives_token.1 (derives_both.1 hor)
            exact ⟨_, more, rfl, .inr rfl, hmore⟩
        · exact .inl (derives_nil.1 (derives_empty.1 hnone))

/-- **Every condition is a link.** The induction is on the number of kinds: what is negated has fewer, and so has what
is behind a connective. -/
theorem exists_isLink (h : Derives [.rule .condition] kinds) : ∃ marks, IsLink kinds marks := by
  induction hlength : kinds.length using Nat.strongRecOn generalizing kinds with
  | ind length ih =>
    obtain ⟨simple, choice, rfl, hsimple, hchoice⟩ := condition_cases h
    rw [List.length_append] at hlength
    have hfirst : ∃ marks, IsLink simple marks := by
      rcases hsimple with ⟨inner, rfl, hinner⟩ | hplain
      · have hlt : inner.length < length := by
          rw [List.length_cons] at hlength
          omega
        obtain ⟨marks, hmarks⟩ := ih inner.length hlt hinner rfl
        exact ⟨_, hmarks.negation⟩
      · obtain ⟨marks, rfl, hmarks⟩ := Nestable.of_derives hplain [⟨0, plainForm⟩] rfl
        exact ⟨marks, .plain hmarks⟩
    obtain ⟨marks, hmarks⟩ := hfirst
    rcases hchoice with rfl | ⟨link, more, rfl, hlink, hmore⟩
    · rw [List.append_nil]
      exact ⟨marks, hmarks⟩
    · have hlt : more.length < length := by
        rw [List.length_cons] at hlength
        omega
      obtain ⟨rest, hrest⟩ := ih more.length hlt hmore rfl
      exact ⟨_, hmarks.connective hlink hrest⟩

end Links

end Cal
