import Cal.Proofs.Grammar.Derivation

/-!
# First kinds

`Form.firsts` and `Form.nullable` compute, from the tables of the rules, which kinds can begin what
a form derives and whether it can derive nothing. Both are exact.

* `mem_firstsOf_of_derives`, `nullable_of_derives`: what forms derive begins as computed.
* `begins_of_mem_firstsOf`, `derives_of_nullable`: every computed beginning begins some derivation.
* `derives_some`: every sequence of forms derives something.
-/

namespace Cal

/-- Whether a form can derive nothing. -/
def Form.nullable : Form → Bool
  | empty => true
  | token _ => false
  | .rule name => name.nullable
  | both first second => first.nullable && second.nullable
  | either left right => left.nullable || right.nullable

/-- The kinds that can begin what a form derives, given those of each rule. -/
def Form.firstsBy (enter : Rule → List TokenKind) : Form → List TokenKind
  | empty => []
  | token kind => [kind]
  | .rule name => enter name
  | both first second =>
    first.firstsBy enter ++ if first.nullable then second.firstsBy enter else []
  | either left right => left.firstsBy enter ++ right.firstsBy enter

/-- The kinds that can begin what a form derives, by the tables of the rules. -/
def Form.firsts (form : Form) : List TokenKind := form.firstsBy fun rule => rule.firstSet.kinds

/-- The kinds that can begin what forms in sequence derive. -/
def firstsOf : List Form → List TokenKind
  | [] => []
  | form :: forms => form.firsts ++ if form.nullable then firstsOf forms else []

/-- Forms in sequence derive something that begins with `kind`. -/
def Begins (forms : List Form) (kind : TokenKind) : Prop := ∃ rest, Derives forms (kind :: rest)

variable {kind : TokenKind} {kinds rest : List TokenKind} {form : Form} {forms : List Form}
  {rule : Rule}

theorem mem_firstsOf_cons :
    kind ∈ firstsOf (form :: forms) ↔
      kind ∈ form.firsts ∨ form.nullable = true ∧ kind ∈ firstsOf forms := by
  simp [firstsOf]

theorem mem_firstsOf_append {more : List Form} :
    kind ∈ firstsOf (forms ++ more) ↔
      kind ∈ firstsOf forms ∨ forms.all Form.nullable = true ∧ kind ∈ firstsOf more := by
  induction forms with
  | nil => simp [firstsOf]
  | cons form forms ih =>
    rw [List.cons_append, mem_firstsOf_cons, mem_firstsOf_cons, ih]
    simp only [List.all_cons, Bool.and_eq_true]
    grind

theorem firstsOf_both {first second : Form} :
    firstsOf (.both first second :: forms) = firstsOf (first :: second :: forms) := by
  simp only [firstsOf, Form.firsts, Form.firstsBy, Form.nullable]
  by_cases hfirst : first.nullable = true <;> simp [hfirst]

theorem firstsOf_either {left right : Form} :
    kind ∈ firstsOf (.either left right :: forms) ↔
      kind ∈ firstsOf (left :: forms) ∨ kind ∈ firstsOf (right :: forms) := by
  simp only [mem_firstsOf_cons, Form.firsts, Form.firstsBy, Form.nullable, List.mem_append,
    Bool.or_eq_true]
  grind

/-- The tables contain what the productions say. -/
theorem firsts_body (rule : Rule) : rule.body.firsts ⊆ rule.firstSet.kinds := by
  cases rule <;> decide

theorem nullable_body (rule : Rule) : rule.body.nullable = rule.nullable := by
  cases rule <;> rfl

/-- What derives nothing can be left out. -/
theorem nullable_of_derives (h : Derives forms []) : ∀ form ∈ forms, form.nullable = true := by
  generalize hkinds : ([] : List TokenKind) = kinds at h
  induction h with
  | nil => simp
  | token => simp at hkinds
  | empty _ ih => simpa [Form.nullable] using ih hkinds
  | rule _ ih => simpa [Form.nullable, nullable_body] using ih hkinds
  | both _ ih => simpa [Form.nullable, and_assoc] using ih hkinds
  | left _ ih =>
    obtain ⟨hleft, hforms⟩ := List.forall_mem_cons.1 (ih hkinds)
    exact List.forall_mem_cons.2 ⟨by simp [Form.nullable, hleft], hforms⟩
  | right _ ih =>
    obtain ⟨hright, hforms⟩ := List.forall_mem_cons.1 (ih hkinds)
    exact List.forall_mem_cons.2 ⟨by simp [Form.nullable, hright], hforms⟩

/-- **What forms derive begins with one of their first kinds.** -/
theorem mem_firstsOf_of_derives (h : Derives forms (kind :: rest)) : kind ∈ firstsOf forms := by
  generalize hkinds : kind :: rest = kinds at h
  induction h with
  | nil => simp at hkinds
  | token => simp at hkinds; simp [firstsOf, Form.firsts, Form.firstsBy, hkinds]
  | empty _ ih => rw [mem_firstsOf_cons]; exact .inr ⟨rfl, ih hkinds⟩
  | @rule rule forms _ _ ih =>
    -- the production begins with nothing that the table of the rule does not name
    have hbody := mem_firstsOf_cons.1 (ih hkinds)
    rw [nullable_body] at hbody
    exact mem_firstsOf_cons.2 (hbody.imp_left fun h => firsts_body rule h)
  | both _ ih => rw [firstsOf_both]; exact ih hkinds
  | left _ ih => exact firstsOf_either.2 (.inl (ih hkinds))
  | right _ ih => exact firstsOf_either.2 (.inr (ih hkinds))

theorem mem_firstsOf_of_head (h : Derives forms kinds) (hhead : kinds.head? = some kind) :
    kind ∈ firstsOf forms := by
  obtain ⟨rest, rfl⟩ := List.head?_eq_some_iff.1 hhead
  exact mem_firstsOf_of_derives h

/-- What is nullable can be left out. -/
theorem derives_of_nullable (hform : form.nullable = true) (h : Derives forms kinds) :
    Derives (form :: forms) kinds := by
  induction form generalizing forms with
  | empty => exact .empty h
  | token => simp [Form.nullable] at hform
  | rule rule =>
    -- the nullable rules are those that may be left out
    obtain ⟨body, hbody⟩ : ∃ body, rule.body = .optional body := by
      cases rule <;> first | exact ⟨_, rfl⟩ | simp [Form.nullable, Rule.nullable] at hform
    refine .rule ?_
    rw [hbody]
    exact .right (.empty h)
  | both first second ihFirst ihSecond =>
    simp only [Form.nullable, Bool.and_eq_true] at hform
    exact .both (ihFirst hform.1 (ihSecond hform.2 h))
  | either left right ihLeft ihRight =>
    simp only [Form.nullable, Bool.or_eq_true] at hform
    rcases hform with hleft | hright
    · exact .left (ihLeft hleft h)
    · exact .right (ihRight hright h)

/-- Whether a form derives something, given which rules do. -/
def Form.productiveBy (enter : Rule → Bool) : Form → Bool
  | empty => true
  | token _ => true
  | .rule name => enter name
  | both first second => first.productiveBy enter && second.productiveBy enter
  | either left right => left.productiveBy enter || right.productiveBy enter

/-- Whether a rule derives something without entering more than `n` rules within one another. -/
def Rule.productiveWithin : Nat → Rule → Bool
  | 0, _ => false
  | n + 1, rule => rule.body.productiveBy (productiveWithin n)

theorem derives_of_productive {enter : Rule → Bool}
    (henter : ∀ rule, enter rule = true → ∀ {forms kinds}, Derives forms kinds →
      ∃ more, Derives (.rule rule :: forms) more)
    (hform : form.productiveBy enter = true) (h : Derives forms kinds) :
    ∃ more, Derives (form :: forms) more := by
  induction form generalizing forms kinds with
  | empty => exact ⟨kinds, .empty h⟩
  | token kind => exact ⟨kind :: kinds, .token h⟩
  | rule rule => exact henter rule hform h
  | both first second ihFirst ihSecond =>
    simp only [Form.productiveBy, Bool.and_eq_true] at hform
    obtain ⟨more, hmore⟩ := ihSecond hform.2 h
    obtain ⟨more, hmore⟩ := ihFirst hform.1 hmore
    exact ⟨more, .both hmore⟩
  | either left right ihLeft ihRight =>
    simp only [Form.productiveBy, Bool.or_eq_true] at hform
    rcases hform with hleft | hright
    · exact (ihLeft hleft h).imp fun _ => .left
    · exact (ihRight hright h).imp fun _ => .right

theorem derives_of_productiveWithin {n : Nat} (hrule : rule.productiveWithin n = true)
    (h : Derives forms kinds) : ∃ more, Derives (.rule rule :: forms) more := by
  induction n generalizing rule forms kinds with
  | zero => simp [Rule.productiveWithin] at hrule
  | succ n ih =>
    have hbody := derives_of_productive (fun _ hrule _ _ h => ih hrule h) hrule h
    exact hbody.imp fun _ => .rule

/-- **Every sequence of forms derives something.** -/
theorem derives_some (forms : List Form) : ∃ kinds, Derives forms kinds := by
  -- no rule needs more than six rules within one another to derive something
  have hrules : ∀ rule : Rule, rule.productiveWithin 6 = true := by
    intro rule
    cases rule <;> decide
  have hforms : ∀ form : Form, form.productiveBy (fun _ => true) = true := by
    intro form
    induction form <;> simp_all [Form.productiveBy]
  induction forms with
  | nil => exact ⟨[], .nil⟩
  | cons form forms ih =>
    obtain ⟨kinds, h⟩ := ih
    exact derives_of_productive (fun rule _ _ _ h => derives_of_productiveWithin (hrules rule) h)
      (hforms form) h

theorem begins_of_mem_firstsBy {enter : Rule → List TokenKind}
    (henter : ∀ rule, ∀ kind ∈ enter rule, ∀ forms, Begins (.rule rule :: forms) kind)
    (hkind : kind ∈ form.firstsBy enter) (forms : List Form) : Begins (form :: forms) kind := by
  induction form generalizing forms with
  | empty => simp [Form.firstsBy] at hkind
  | token =>
    obtain rfl : kind = _ := by simpa [Form.firstsBy] using hkind
    exact (derives_some forms).imp fun _ => .token
  | rule rule => exact henter rule kind hkind forms
  | both first second ihFirst ihSecond =>
    simp only [Form.firstsBy, List.mem_append] at hkind
    rcases hkind with hfirst | hsecond
    · exact (ihFirst hfirst (second :: forms)).imp fun _ => .both
    · -- the second form begins what both derive only if the first derives nothing
      split at hsecond
      · rename_i hnullable
        exact (ihSecond hsecond forms).imp fun _ h => .both (derives_of_nullable hnullable h)
      · simp at hsecond
  | either left right ihLeft ihRight =>
    simp only [Form.firstsBy, List.mem_append] at hkind
    rcases hkind with hleft | hright
    · exact (ihLeft hleft forms).imp fun _ => .left
    · exact (ihRight hright forms).imp fun _ => .right

/-- The first kinds of a rule that need no more than `n` rules entered within one another. -/
def Rule.firstsWithin : Nat → Rule → List TokenKind
  | 0, _ => []
  | n + 1, rule => rule.body.firstsBy (firstsWithin n)

theorem begins_of_mem_firstsWithin {n : Nat} (hkind : kind ∈ rule.firstsWithin n)
    (forms : List Form) : Begins (.rule rule :: forms) kind := by
  induction n generalizing rule kind forms with
  | zero => simp [Rule.firstsWithin] at hkind
  | succ n ih =>
    have hbody := begins_of_mem_firstsBy (fun _ _ hkind => ih hkind) hkind forms
    exact hbody.imp fun _ => .rule

/-- The tables contain only what the productions say. -/
theorem firstSet_within (rule : Rule) : rule.firstSet.kinds ⊆ rule.firstsWithin 5 := by
  cases rule <;> decide

/-- **Every first kind of a form begins something that the form derives**, whatever follows. -/
theorem begins_of_mem_firsts (hkind : kind ∈ form.firsts) (forms : List Form) :
    Begins (form :: forms) kind :=
  begins_of_mem_firstsBy (fun rule _ hkind => begins_of_mem_firstsWithin (firstSet_within rule hkind))
    hkind forms

theorem begins_of_mem_firstsOf (hkind : kind ∈ firstsOf forms) : Begins forms kind := by
  induction forms with
  | nil => simp [firstsOf] at hkind
  | cons form forms ih =>
    rcases mem_firstsOf_cons.1 hkind with hform | ⟨hnullable, hforms⟩
    · exact begins_of_mem_firsts hform forms
    · obtain ⟨rest, hrest⟩ := ih hforms
      exact ⟨rest, derives_of_nullable hnullable hrest⟩

end Cal
