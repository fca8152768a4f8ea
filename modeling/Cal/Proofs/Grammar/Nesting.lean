import Cal.Proofs.Grammar.First

/-!
# Derivations that count open bodies

Some alternatives of the grammar are bodies: the statements that have a block of their own, an
expression between `begin` and `end`, a condition in parentheses and a negation. `Nests` derives
marks, kinds that carry the number of bodies around them.

A condition such as `not a = b and c = d` has two derivations, with the connective inside the body
of the negation or outside of it. `Rule.settled` keeps the first: a negation takes every connective
that follows it in its condition. Nothing is lost by that.

* `Nests.split`: what forms in sequence derive can be cut between them, and another end put in.
* `Nestable.of_derives`: whatever the grammar derives has a nesting in which negations reach as far
  as they can.
-/

namespace Cal

/-- A kind, and the number of bodies that are open where it stands. -/
structure Mark where
  depth : Nat
  kind : TokenKind
deriving DecidableEq

/-- A form, and the number of bodies that are open around it. -/
structure Item where
  depth : Nat
  form : Form
deriving DecidableEq

/-- The kinds of marks. -/
abbrev kindsOf (marks : List Mark) : List TokenKind := marks.map Mark.kind

/-- The forms of items. -/
abbrev formsOf (items : List Item) : List Form := items.map Item.form

open TokenKind Form in
/-- The alternatives that are bodies. -/
def bodyForms : List Form :=
  [seq [token beginKw, rule .statementBlock, token endKw],
    seq [token ifKw, rule .condition, token beginKw, rule .statementBlock, token endKw],
    seq [token elseKw, token beginKw, rule .statementBlock, token endKw],
    seq [token whileKw, rule .condition, token beginKw, rule .statementBlock, token endKw],
    seq [token beginKw, rule .expression, token endKw],
    seq [token notKw, rule .condition],
    seq [token leftParen, rule .condition, token rightParen]]

/-- How many bodies an alternative opens. -/
def Form.bodies (form : Form) : Nat := if form ∈ bodyForms then 1 else 0

/-- When the first of two alternatives may be taken, and when it may be passed over, by the kind
that comes next. -/
structure Policy where
  take : Form → Option TokenKind → Prop
  pass : Form → Option TokenKind → Prop

/-- Any alternative may be chosen at any time. -/
def Policy.free : Policy := ⟨fun _ _ => True, fun _ _ => True⟩

/-- The marks that items derive, by the given productions and choosing as a policy permits. An
alternative that is a body is derived one level deeper. -/
inductive Nests (production : Rule → Form) (policy : Policy) : List Item → List Mark → Prop
  | nil : Nests production policy [] []
  | empty {depth items marks} :
    Nests production policy items marks → Nests production policy (⟨depth, .empty⟩ :: items) marks
  | token {depth kind items marks} :
    Nests production policy items marks →
      Nests production policy (⟨depth, .token kind⟩ :: items) (⟨depth, kind⟩ :: marks)
  | rule {depth rule items marks} :
    Nests production policy (⟨depth, production rule⟩ :: items) marks →
      Nests production policy (⟨depth, .rule rule⟩ :: items) marks
  | both {depth first second items marks} :
    Nests production policy (⟨depth, first⟩ :: ⟨depth, second⟩ :: items) marks →
      Nests production policy (⟨depth, .both first second⟩ :: items) marks
  | left {depth left right items marks} :
    policy.take left (kindsOf marks).head? →
      Nests production policy (⟨depth + left.bodies, left⟩ :: items) marks →
        Nests production policy (⟨depth, .either left right⟩ :: items) marks
  | right {depth left right items marks} :
    policy.pass left (kindsOf marks).head? →
      Nests production policy (⟨depth + right.bodies, right⟩ :: items) marks →
        Nests production policy (⟨depth, .either left right⟩ :: items) marks

open TokenKind Form in
/-- The production of each rule, except that nothing follows a negation in its condition: whatever
connectives there are belong to the condition that is negated. -/
def Rule.settled : Rule → Form
  | condition =>
    oneOf [seq [token notKw, .rule condition],
      seq [oneOf [seq [token leftParen, .rule condition, token rightParen],
          seq [.rule expression, .rule compOp, .rule expression]],
        .rule conditionChoice]]
  | other => other.body

theorem settled_eq_body {rule : Rule} (h : rule ≠ .condition) : rule.settled = rule.body := by
  cases rule <;> first | rfl | exact absurd rfl h

section Inversion

variable {production : Rule → Form} {policy : Policy} {depth : Nat} {kind : TokenKind} {rule : Rule}
  {first second left right : Form} {items front : List Item} {marks : List Mark}

theorem nests_empty :
    Nests production policy (⟨depth, .empty⟩ :: items) marks ↔ Nests production policy items marks := by
  constructor
  · intro h; cases h with | empty h => exact h
  · exact .empty

theorem nests_token :
    Nests production policy (⟨depth, .token kind⟩ :: items) marks ↔
      ∃ rest, marks = ⟨depth, kind⟩ :: rest ∧ Nests production policy items rest := by
  constructor
  · intro h; cases h with | token h => exact ⟨_, rfl, h⟩
  · rintro ⟨rest, rfl, h⟩; exact .token h

theorem nests_rule :
    Nests production policy (⟨depth, .rule rule⟩ :: items) marks ↔
      Nests production policy (⟨depth, production rule⟩ :: items) marks := by
  constructor
  · intro h; cases h with | rule h => exact h
  · exact .rule

theorem nests_both :
    Nests production policy (⟨depth, .both first second⟩ :: items) marks ↔
      Nests production policy (⟨depth, first⟩ :: ⟨depth, second⟩ :: items) marks := by
  constructor
  · intro h; cases h with | both h => exact h
  · exact .both

theorem nests_either :
    Nests production policy (⟨depth, .either left right⟩ :: items) marks ↔
      (policy.take left (kindsOf marks).head? ∧
          Nests production policy (⟨depth + left.bodies, left⟩ :: items) marks) ∨
        (policy.pass left (kindsOf marks).head? ∧
          Nests production policy (⟨depth + right.bodies, right⟩ :: items) marks) := by
  constructor
  · intro h
    cases h with
    | left htake h => exact .inl ⟨htake, h⟩
    | right hpass h => exact .inr ⟨hpass, h⟩
  · rintro (⟨htake, h⟩ | ⟨hpass, h⟩)
    · exact .left htake h
    · exact .right hpass h

/-- Without the depths, marks are derived as kinds are. -/
theorem Nests.derives
    (hproduction : ∀ rule forms kinds, Derives (production rule :: forms) kinds →
      Derives (.rule rule :: forms) kinds)
    (h : Nests production policy items marks) : Derives (formsOf items) (kindsOf marks) := by
  induction h with
  | nil => exact .nil
  | empty _ ih => exact .empty ih
  | token _ ih => exact .token ih
  | rule _ ih => exact hproduction _ _ _ ih
  | both _ ih => exact .both ih
  | left _ _ ih => exact .left ih
  | right _ _ ih => exact .right ih

theorem kindsOf_append_congr {pre rest rest' : List Mark} (h : kindsOf rest' = kindsOf rest) :
    kindsOf (pre ++ rest') = kindsOf (pre ++ rest) := by
  simp only [kindsOf, List.map_append] at h ⊢
  rw [h]

/-- **A nesting can be cut between two items.** The items behind the cut, and their marks, may be
replaced by others that show the same kinds. -/
theorem Nests.split (front : List Item) (h : Nests production policy (front ++ items) marks) :
    ∃ pre rest, marks = pre ++ rest ∧ Nests production policy items rest ∧
      ∀ items' rest', kindsOf rest' = kindsOf rest → Nests production policy items' rest' →
        Nests production policy (front ++ items') (pre ++ rest') := by
  generalize hall : front ++ items = all at h
  -- the items of the front are used up one by one, and then the cut is reached
  induction h generalizing front with
  | nil =>
    obtain ⟨rfl, rfl⟩ := List.append_eq_nil_iff.1 hall
    exact ⟨[], [], rfl, .nil, fun _ _ _ h => h⟩
  | @empty depth _ marks h ih =>
    cases front with
    | nil => cases hall; exact ⟨[], marks, rfl, .empty h, fun _ _ _ h => h⟩
    | cons item front =>
      cases hall
      obtain ⟨pre, rest, rfl, hrest, hother⟩ := ih front rfl
      exact ⟨pre, rest, rfl, hrest, fun _ _ hkinds h => .empty (hother _ _ hkinds h)⟩
  | @token depth kind _ marks h ih =>
    cases front with
    | nil => cases hall; exact ⟨[], _ :: marks, rfl, .token h, fun _ _ _ h => h⟩
    | cons item front =>
      cases hall
      obtain ⟨pre, rest, rfl, hrest, hother⟩ := ih front rfl
      exact ⟨⟨depth, kind⟩ :: pre, rest, rfl, hrest,
        fun _ _ hkinds h => .token (hother _ _ hkinds h)⟩
  | @rule depth rule _ marks h ih =>
    cases front with
    | nil => cases hall; exact ⟨[], marks, rfl, .rule h, fun _ _ _ h => h⟩
    | cons item front =>
      cases hall
      obtain ⟨pre, rest, rfl, hrest, hother⟩ := ih (⟨depth, production rule⟩ :: front) rfl
      exact ⟨pre, rest, rfl, hrest, fun _ _ hkinds h => .rule (hother _ _ hkinds h)⟩
  | @both depth first second _ marks h ih =>
    cases front with
    | nil => cases hall; exact ⟨[], marks, rfl, .both h, fun _ _ _ h => h⟩
    | cons item front =>
      cases hall
      obtain ⟨pre, rest, rfl, hrest, hother⟩ :=
        ih (⟨depth, first⟩ :: ⟨depth, second⟩ :: front) rfl
      exact ⟨pre, rest, rfl, hrest, fun _ _ hkinds h => .both (hother _ _ hkinds h)⟩
  | @left depth left right _ marks htake h ih =>
    cases front with
    | nil => cases hall; exact ⟨[], marks, rfl, .left htake h, fun _ _ _ h => h⟩
    | cons item front =>
      cases hall
      obtain ⟨pre, rest, rfl, hrest, hother⟩ := ih (⟨depth + left.bodies, left⟩ :: front) rfl
      refine ⟨pre, rest, rfl, hrest, fun _ _ hkinds h => .left ?_ (hother _ _ hkinds h)⟩
      rwa [kindsOf_append_congr hkinds]
  | @right depth left right _ marks hpass h ih =>
    cases front with
    | nil => cases hall; exact ⟨[], marks, rfl, .right hpass h, fun _ _ _ h => h⟩
    | cons item front =>
      cases hall
      obtain ⟨pre, rest, rfl, hrest, hother⟩ := ih (⟨depth + right.bodies, right⟩ :: front) rfl
      refine ⟨pre, rest, rfl, hrest, fun _ _ hkinds h => .right ?_ (hother _ _ hkinds h)⟩
      rwa [kindsOf_append_congr hkinds]

end Inversion

/-- Items with these forms, whatever their depths, derive marks of these kinds by the settled
productions. -/
def Nestable (forms : List Form) (kinds : List TokenKind) : Prop :=
  ∀ items, formsOf items = forms →
    ∃ marks, kindsOf marks = kinds ∧ Nests Rule.settled .free items marks

namespace Nestable

variable {kind : TokenKind} {kinds : List TokenKind} {first second : Form} {forms : List Form}
  {rule : Rule} {items : List Item} {marks : List Mark}

theorem nil : Nestable [] [] := by
  intro items hitems
  obtain rfl : items = [] := List.map_eq_nil_iff.1 hitems
  exact ⟨[], rfl, .nil⟩

theorem empty (h : Nestable forms kinds) : Nestable (.empty :: forms) kinds := by
  intro items hitems
  obtain ⟨⟨depth, _⟩, items, rfl, rfl, hforms⟩ := List.map_eq_cons_iff.1 hitems
  obtain ⟨marks, hkinds, hnests⟩ := h items hforms
  exact ⟨marks, hkinds, .empty hnests⟩

theorem token (h : Nestable forms kinds) : Nestable (.token kind :: forms) (kind :: kinds) := by
  intro items hitems
  obtain ⟨⟨depth, _⟩, items, rfl, rfl, hforms⟩ := List.map_eq_cons_iff.1 hitems
  obtain ⟨marks, rfl, hnests⟩ := h items hforms
  exact ⟨⟨depth, kind⟩ :: marks, rfl, .token hnests⟩

theorem settled (h : Nestable (rule.settled :: forms) kinds) :
    Nestable (.rule rule :: forms) kinds := by
  intro items hitems
  obtain ⟨⟨depth, _⟩, items, rfl, rfl, hforms⟩ := List.map_eq_cons_iff.1 hitems
  obtain ⟨marks, hkinds, hnests⟩ := h (⟨depth, rule.settled⟩ :: items) (by simpa using hforms)
  exact ⟨marks, hkinds, .rule hnests⟩

theorem both (h : Nestable (first :: second :: forms) kinds) :
    Nestable (.both first second :: forms) kinds := by
  intro items hitems
  obtain ⟨⟨depth, _⟩, items, rfl, rfl, hforms⟩ := List.map_eq_cons_iff.1 hitems
  obtain ⟨marks, hkinds, hnests⟩ :=
    h (⟨depth, first⟩ :: ⟨depth, second⟩ :: items) (by simpa using hforms)
  exact ⟨marks, hkinds, .both hnests⟩

theorem left (h : Nestable (first :: forms) kinds) :
    Nestable (.either first second :: forms) kinds := by
  intro items hitems
  obtain ⟨⟨depth, _⟩, items, rfl, rfl, hforms⟩ := List.map_eq_cons_iff.1 hitems
  obtain ⟨marks, hkinds, hnests⟩ :=
    h (⟨depth + first.bodies, first⟩ :: items) (by simpa using hforms)
  exact ⟨marks, hkinds, .left trivial hnests⟩

theorem right (h : Nestable (second :: forms) kinds) :
    Nestable (.either first second :: forms) kinds := by
  intro items hitems
  obtain ⟨⟨depth, _⟩, items, rfl, rfl, hforms⟩ := List.map_eq_cons_iff.1 hitems
  obtain ⟨marks, hkinds, hnests⟩ :=
    h (⟨depth + second.bodies, second⟩ :: items) (by simpa using hforms)
  exact ⟨marks, hkinds, .right trivial hnests⟩

/-- The depths at which items stand do not matter. -/
theorem of_nests (h : Nests Rule.settled .free items marks) :
    Nestable (formsOf items) (kindsOf marks) := by
  induction h with
  | nil => exact nil
  | empty _ ih => exact ih.empty
  | token _ ih => exact ih.token
  | rule _ ih => exact ih.settled
  | both _ ih => exact ih.both
  | left _ _ ih => exact ih.left
  | right _ _ ih => exact ih.right

theorem negation (h : Nestable (.rule .condition :: forms) kinds) :
    Nestable (.rule .condition :: forms) (.notKw :: kinds) :=
  settled (left (both (token h)))

/-- **A condition takes in the connective that follows it.** The induction is on the number of
marks: a condition is a negation of a shorter one, or a simple condition and then either nothing or
a connective with a shorter one. -/
theorem absorb {depth other : Nat}
    (h : Nests Rule.settled .free
      (⟨depth, .rule .condition⟩ :: ⟨other, .rule .conditionChoice⟩ :: items) marks) :
    Nestable (.rule .condition :: formsOf items) (kindsOf marks) := by
  induction hlength : marks.length using Nat.strongRecOn generalizing depth other marks with
  | ind n ih =>
    -- a connective and the condition behind it, with a choice after that
    have hconnective : ∀ {connective : TokenKind} {depth rest},
        Nests Rule.settled .free (⟨depth, .both (.token connective) (.rule .condition)⟩ ::
          ⟨other, .rule .conditionChoice⟩ :: items) rest → rest.length ≤ marks.length →
        Nestable (.both (.token connective) (.rule .condition) :: formsOf items) (kindsOf rest) := by
      intro connective depth rest hrest hle
      obtain ⟨rest, rfl, hcondition⟩ := nests_token.1 (nests_both.1 hrest)
      have hlt : rest.length < n := by simp only [List.length_cons] at hle; omega
      exact both (token (ih rest.length hlt hcondition rfl))
    rcases nests_either.1 (nests_rule.1 h) with ⟨-, hnegation⟩ | ⟨-, hsimple⟩
    · obtain ⟨rest, rfl, hrest⟩ := nests_token.1 (nests_both.1 hnegation)
      have hlt : rest.length < n := by simp only [List.length_cons] at hlength; omega
      exact negation (ih rest.length hlt hrest rfl)
    · -- a simple condition, and what is chosen behind it
      have hcut := nests_both.1 hsimple
      obtain ⟨pre, rest, rfl, hrest, hother⟩ := hcut.split [⟨_, _⟩]
      have hle : rest.length ≤ (pre ++ rest).length := by simp
      have hchoice : Nestable (.rule .conditionChoice :: formsOf items) (kindsOf rest) := by
        rcases nests_either.1 (nests_rule.1 hrest) with ⟨-, hmore⟩ | ⟨-, hnone⟩
        · rcases nests_either.1 hmore with ⟨-, hand⟩ | ⟨-, hor⟩
          · exact settled (left (left (hconnective hand hle)))
          · exact settled (left (right (hconnective hor hle)))
        · exact of_nests (nests_empty.1 hnone)
      obtain ⟨rest', hkinds, hrest'⟩ := hchoice (⟨depth, .rule .conditionChoice⟩ :: items) rfl
      have hwhole := of_nests (hother _ rest' hkinds hrest')
      rw [kindsOf_append_congr hkinds] at hwhole
      exact settled (right (both hwhole))

theorem condition (h : Nestable (Rule.condition.body :: forms) kinds) :
    Nestable (.rule .condition :: forms) kinds := by
  have hforms : formsOf (forms.map (⟨0, ·⟩)) = forms := by simp [Function.comp_def]
  obtain ⟨marks, rfl, hnests⟩ :=
    h (⟨0, Rule.condition.body⟩ :: forms.map (⟨0, ·⟩)) (by simp [Function.comp_def])
  have hsimple := nests_rule.1 (nests_both.1 hnests)
  rcases nests_either.1 hsimple with ⟨-, hnegation⟩ | ⟨-, hother⟩
  · obtain ⟨rest, rfl, hrest⟩ := nests_token.1 (nests_both.1 hnegation)
    rw [← hforms]
    exact negation (absorb hrest)
  · have := of_nests hother
    simp only [formsOf, List.map_cons] at this hforms
    rw [hforms] at this
    exact settled (right (both this))

/-- **Whatever the grammar derives has a nesting** in which a negation takes every connective that
follows it in its condition. -/
theorem of_derives (h : Derives forms kinds) : Nestable forms kinds := by
  induction h with
  | nil => exact nil
  | empty _ ih => exact ih.empty
  | token _ ih => exact ih.token
  | @rule rule _ _ _ ih =>
    by_cases hrule : rule = .condition
    · subst hrule
      exact condition ih
    · rw [← settled_eq_body hrule] at ih
      exact ih.settled
  | both _ ih => exact ih.both
  | left _ ih => exact ih.left
  | right _ ih => exact ih.right

end Nestable

end Cal
