import Cal.Proofs.Grammar.Nesting

/-!
# What may follow

A nesting is predictable if at every choice the kind that comes next decides: the first alternative
is taken exactly if that kind can begin it. A form *shuns* the kinds that it would have taken in
had they come next where it ended. Forms in sequence are tidy for a kind if no form of them is
followed by that kind and shuns it.

* `clear_settled`: within the settled productions every sequence is tidy, for every kind.
* `clear_body`: in the productions as they are the only conflict is about `and` and `or`.
* `predicts_of_nests`: a nesting of tidy items by the settled productions is predictable.
-/

namespace Cal

/-- The first alternative is taken exactly if the kind that comes next can begin it. -/
def Policy.lookahead : Policy :=
  ⟨fun form next => ∃ kind ∈ next, kind ∈ form.firsts, fun form next => ∀ kind ∈ next, kind ∉ form.firsts⟩

/-- The marks that items derive when one kind of lookahead decides every choice. -/
abbrev Predicts : List Item → List Mark → Prop := Nests Rule.body .lookahead

open TokenKind in
/-- The kinds that may not follow what a rule derives. -/
def Rule.shuns : Rule → List TokenKind
  | declList => declKinds
  | decl | constDecl | expression => [plus, minus, leftParen]
  | functionList => typeKinds
  | parameterList | argList => [identifier, comma]
  | nempParameterList | nempArgList => [comma]
  | statementBlock => statementKinds
  | fragment => [leftParen]
  | condition | conditionChoice | conditionSimple => [andKw, orKw, plus, minus, leftParen]
  | _ => []

/-- The kinds that may not follow what a form derives. -/
def Form.shuns : Form → List TokenKind
  | empty => []
  | token _ => []
  | .rule name => name.shuns
  | both first second => second.shuns ++ if second.nullable then first.shuns else []
  | either left right => left.shuns ++ right.shuns ++ if right.nullable then left.firsts else []

/-- Within a form, nothing is followed by `kind` that shuns it, and `kind` decides every choice. -/
def Form.clear (kind : TokenKind) : Form → Bool
  | both first second =>
    first.clear kind && second.clear kind && !(kind ∈ first.shuns && kind ∈ second.firsts)
  | either left right =>
    left.clear kind && right.clear kind && !left.nullable && !(kind ∈ left.firsts && kind ∈ right.firsts)
  | _ => true

/-- In a sequence of forms, none is followed by `kind` that shuns it. -/
def Tidy (kind : TokenKind) : List Form → Prop
  | [] => True
  | form :: forms =>
    form.clear kind = true ∧ (kind ∈ form.shuns → kind ∉ firstsOf forms) ∧ Tidy kind forms

variable {kind : TokenKind} {first second : Form} {forms : List Form} {rule : Rule}
  {depth : Nat} {items : List Item} {marks : List Mark}

theorem clear_settled (rule : Rule) (kind : TokenKind) :
    rule.settled.clear kind = true ∧ (kind ∈ rule.settled.shuns → kind ∈ rule.shuns) := by
  revert kind
  cases rule <;> decide

theorem clear_body (rule : Rule) (hand : kind ≠ .andKw) (hor : kind ≠ .orKw) :
    rule.body.clear kind = true ∧ (kind ∈ rule.body.shuns → kind ∈ rule.shuns) := by
  revert kind
  cases rule <;> decide

namespace Tidy

theorem tail {form : Form} (h : Tidy kind (form :: forms)) : Tidy kind forms := h.2.2

/-- A rule may be replaced by a production that is clear and shuns no more. -/
theorem production {form : Form} (h : Tidy kind (.rule rule :: forms))
    (hform : form.clear kind = true ∧ (kind ∈ form.shuns → kind ∈ rule.shuns)) :
    Tidy kind (form :: forms) :=
  ⟨hform.1, fun hkind => h.2.1 (hform.2 hkind), h.2.2⟩

theorem both (h : Tidy kind (.both first second :: forms)) : Tidy kind (first :: second :: forms) := by
  obtain ⟨hclear, hshuns, htail⟩ := h
  simp only [Form.clear, Bool.and_eq_true, Bool.not_eq_true', Bool.and_eq_false_iff,
    decide_eq_false_iff_not] at hclear
  simp only [Form.shuns, List.mem_append] at hshuns
  refine ⟨hclear.1.1, ?_, hclear.1.2, fun hkind => hshuns (.inl hkind), htail⟩
  intro hfirst hsecond
  rcases mem_firstsOf_cons.1 hsecond with hsecond | ⟨hnullable, hforms⟩
  · rcases hclear.2 with h | h
    · exact h hfirst
    · exact h hsecond
  · exact hshuns (.inr (by rwa [if_pos hnullable])) hforms

theorem left (h : Tidy kind (.either first second :: forms)) : Tidy kind (first :: forms) := by
  obtain ⟨hclear, hshuns, htail⟩ := h
  simp only [Form.clear, Bool.and_eq_true] at hclear
  simp only [Form.shuns, List.mem_append] at hshuns
  exact ⟨hclear.1.1.1, fun hkind => hshuns (.inl (.inl hkind)), htail⟩

theorem right (h : Tidy kind (.either first second :: forms)) : Tidy kind (second :: forms) := by
  obtain ⟨hclear, hshuns, htail⟩ := h
  simp only [Form.clear, Bool.and_eq_true] at hclear
  simp only [Form.shuns, List.mem_append] at hshuns
  exact ⟨hclear.1.1.2, fun hkind => hshuns (.inl (.inr hkind)), htail⟩

theorem left_not_nullable (h : Tidy kind (.either first second :: forms)) : first.nullable = false := by
  have hclear := h.1
  simp only [Form.clear, Bool.and_eq_true, Bool.not_eq_true'] at hclear
  exact hclear.1.2

/-- A kind that can begin the second alternative, or what follows it, cannot begin the first. -/
theorem pass (h : Tidy kind (.either first second :: forms)) (hkind : kind ∈ firstsOf (second :: forms)) :
    kind ∉ first.firsts := by
  obtain ⟨hclear, hshuns, -⟩ := h
  simp only [Form.clear, Bool.and_eq_true, Bool.not_eq_true', Bool.and_eq_false_iff,
    decide_eq_false_iff_not] at hclear
  intro hfirst
  -- the kind begins the second alternative, or that derives nothing and shuns the kind
  rcases mem_firstsOf_cons.1 hkind with hsecond | ⟨hnullable, hforms⟩
  · rcases hclear.2 with h | h
    · exact h hfirst
    · exact h hsecond
  · refine hshuns ?_ hforms
    simp [Form.shuns, hnullable, hfirst]

end Tidy

/-- The settled productions derive nothing new. -/
theorem derives_of_settled {kinds : List TokenKind} (h : Derives (rule.settled :: forms) kinds) :
    Derives (.rule rule :: forms) kinds := by
  by_cases hrule : rule = .condition
  · subst hrule
    refine .rule (.both (.rule ?_))
    rcases derives_either.1 h with hnegation | hother
    · refine .left (derives_both.2 ?_)
      obtain ⟨rest, rfl, hrest⟩ := derives_token.1 (derives_both.1 hnegation)
      obtain ⟨pre, rest, rfl, hpre, hrest⟩ := derives_split [_] hrest
      exact .token (hpre.append (.rule (.right (.empty hrest))))
    · exact .right (derives_both.1 hother)
  · rw [settled_eq_body hrule] at h
    exact .rule h

theorem derives_of_predicts (h : Predicts items marks) : Derives (formsOf items) (kindsOf marks) :=
  Nests.derives (fun _ _ _ h => .rule h) h

/-- A negation that takes in every connective is followed by no choice of a connective: none may
follow the condition. -/
theorem predicts_condition (h : Predicts (⟨depth, Rule.condition.settled⟩ :: items) marks)
    (hand : .andKw ∉ firstsOf (formsOf items)) (hor : .orKw ∉ firstsOf (formsOf items)) :
    Predicts (⟨depth, .rule .condition⟩ :: items) marks := by
  refine .rule (.both (.rule ?_))
  rcases nests_either.1 h with ⟨htake, hnegation⟩ | ⟨hpass, hother⟩
  · obtain ⟨pre, rest, rfl, hrest, hother⟩ := hnegation.split [⟨_, _⟩]
    -- behind the negation the choice of a connective is passed, since neither comes next
    have hchoice : Predicts (⟨depth, .rule .conditionChoice⟩ :: items) rest := by
      refine .rule (.right ?_ (.empty hrest))
      intro next hnext hconnective
      have hfirst := mem_firstsOf_of_head (derives_of_predicts hrest) hnext
      have : next = .andKw ∨ next = .orKw := by
        simpa [Form.firsts, Form.firstsBy, Form.oneOf, Form.seq, Form.nullable] using hconnective
      rcases this with rfl | rfl
      · exact hand hfirst
      · exact hor hfirst
    exact .left htake (hother _ rest rfl hchoice)
  · exact .right hpass (nests_both.1 hother)

/-- **A nesting of tidy items by the settled productions is predictable.** -/
theorem predicts_of_nests (h : Nests Rule.settled .free items marks)
    (htidy : ∀ kind, Tidy kind (formsOf items)) : Predicts items marks := by
  induction h with
  | nil => exact .nil
  | empty _ ih => exact .empty (ih fun kind => (htidy kind).tail)
  | token _ ih => exact .token (ih fun kind => (htidy kind).tail)
  | @rule depth rule items marks h ih =>
    have hproduction := ih fun kind => (htidy kind).production (clear_settled rule kind)
    by_cases hrule : rule = .condition
    · subst hrule
      have hshuns : ∀ kind ∈ [TokenKind.andKw, .orKw], kind ∈ Rule.condition.shuns := by decide
      exact predicts_condition hproduction ((htidy _).2.1 (hshuns _ (by simp)))
        ((htidy _).2.1 (hshuns _ (by simp)))
    · rw [settled_eq_body hrule] at hproduction
      exact .rule hproduction
  | both _ ih => exact .both (ih fun kind => (htidy kind).both)
  | @left depth left right items marks _ h ih =>
    refine .left ?_ (ih fun kind => (htidy kind).left)
    -- the alternative derives at least one kind, and that can begin it
    have hderives := h.derives fun _ _ _ h => derives_of_settled h
    have hnullable := (htidy .eof).left_not_nullable
    cases marks with
    | nil =>
      have := nullable_of_derives hderives left (by simp)
      simp [hnullable] at this
    | cons mark marks =>
      refine ⟨mark.kind, rfl, ?_⟩
      simpa [hnullable] using mem_firstsOf_cons.1 (mem_firstsOf_of_derives hderives)
  | @right depth left right items marks _ h ih =>
    refine .right ?_ (ih fun kind => (htidy kind).right)
    have hderives := h.derives fun _ _ _ h => derives_of_settled h
    exact fun next hnext => (htidy next).pass (mem_firstsOf_of_head hderives hnext)

end Cal
