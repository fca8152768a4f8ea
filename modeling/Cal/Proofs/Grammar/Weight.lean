import Cal.Proofs.Grammar.Derivation

/-!
# Weights

A scale gives every kind and every rule a weight, so that every production weighs as much as its rule,
whichever of its alternatives is taken. What a rule derives then weighs as much as the rule. A kind that
counts for one and its counterpart that counts against it make a scale on which the two balance.

* `Scale.total_of_derives`: what forms derive weighs as much as the forms.
* `program_counts`: in a program brackets balance, and `main` stands once.
-/

namespace Cal

/-- The sum of two weights, if there are two. -/
def addWeights? : Option Int → Option Int → Option Int
  | some weight, some more => some (weight + more)
  | _, _ => none

/-- What a form weighs, by the weights of kinds and of rules, if all its alternatives weigh the same. -/
def Form.weightBy (weight : TokenKind → Int) (enter : Rule → Int) : Form → Option Int
  | empty => some 0
  | token kind => some (weight kind)
  | .rule name => some (enter name)
  | both first second => addWeights? (first.weightBy weight enter) (second.weightBy weight enter)
  | either left right =>
    if left.weightBy weight enter = right.weightBy weight enter then left.weightBy weight enter else none

/-- The weight of kinds in sequence. -/
def totalWeight (weight : TokenKind → Int) : List TokenKind → Int
  | [] => 0
  | kind :: kinds => weight kind + totalWeight weight kinds

/-- One for a certain kind, and nothing for any other. -/
def unitWeight (kind other : TokenKind) : Int := if other = kind then 1 else 0

theorem totalWeight_unit (kind : TokenKind) (kinds : List TokenKind) :
    totalWeight (unitWeight kind) kinds = kinds.count kind := by
  induction kinds with
  | nil => rfl
  | cons other kinds ih =>
    rw [totalWeight, ih, unitWeight, List.count_cons]
    by_cases hother : other = kind <;> simp [hother, Int.add_comm]

theorem totalWeight_sub (weight more : TokenKind → Int) (kinds : List TokenKind) :
    totalWeight (fun kind => weight kind - more kind) kinds = totalWeight weight kinds - totalWeight more kinds := by
  induction kinds with
  | nil => rfl
  | cons kind kinds ih =>
    rw [totalWeight, totalWeight, totalWeight, ih]
    omega

/-- Weights of kinds and rules on which every production weighs as much as its rule. -/
structure Scale where
  kind : TokenKind → Int
  rule : Rule → Int
  weight_body (name : Rule) : name.body.weightBy kind rule = some (rule name)

namespace Scale

open TokenKind

/-- The scale on which `begin` and `end` balance. -/
def blocks : Scale where
  kind := fun kind => unitWeight beginKw kind - unitWeight endKw kind
  rule _ := 0
  weight_body name := by cases name <;> rfl

/-- The scale on which parentheses balance. -/
def parens : Scale where
  kind := fun kind => unitWeight leftParen kind - unitWeight rightParen kind
  rule _ := 0
  weight_body name := by cases name <;> rfl

/-- The scale that counts each `main`. -/
def mains : Scale where
  kind := unitWeight mainKw
  rule
    | .program | .main => 1
    | _ => 0
  weight_body name := by cases name <;> rfl

variable {scale : Scale} {kinds : List TokenKind} {forms : List Form} {weight : Int}

/-- What a form weighs. -/
def weight? (scale : Scale) (form : Form) : Option Int := form.weightBy scale.kind scale.rule

/-- What forms in sequence weigh. -/
def weights? (scale : Scale) : List Form → Option Int
  | [] => some 0
  | form :: forms => addWeights? (scale.weight? form) (scale.weights? forms)

theorem addWeights?_eq_some {left right : Option Int} (h : addWeights? left right = some weight) :
    ∃ one other, left = some one ∧ right = some other ∧ weight = one + other := by
  unfold addWeights? at h
  split at h <;> cases h
  exact ⟨_, _, rfl, rfl, rfl⟩

theorem weight?_either {left right : Form} (h : scale.weight? (.either left right) = some weight) :
    scale.weight? left = some weight ∧ scale.weight? right = some weight := by
  simp only [weight?, Form.weightBy] at h ⊢
  split at h
  · rename_i hsame
    exact ⟨h, hsame ▸ h⟩
  · cases h

/-- **What forms derive weighs as much as the forms.** -/
theorem total_of_derives (h : Derives forms kinds) (hforms : scale.weights? forms = some weight) :
    totalWeight scale.kind kinds = weight := by
  induction h generalizing weight with
  | nil => exact Option.some.inj hforms
  | empty _ ih =>
    obtain ⟨one, other, hone, hother, rfl⟩ := addWeights?_eq_some hforms
    obtain rfl : 0 = one := Option.some.inj hone
    rw [ih hother, Int.zero_add]
  | @token kind _ kinds _ ih =>
    obtain ⟨one, other, hone, hother, rfl⟩ := addWeights?_eq_some hforms
    obtain rfl : scale.kind kind = one := Option.some.inj hone
    rw [totalWeight, ih hother]
  | @rule rule _ _ _ ih =>
    -- a production weighs what its rule does
    have hbody : scale.weight? rule.body = scale.weight? (.rule rule) := scale.weight_body rule
    exact ih (by rw [weights?, hbody]; exact hforms)
  | @both first second forms _ _ ih =>
    obtain ⟨one, other, hone, hother, rfl⟩ := addWeights?_eq_some hforms
    obtain ⟨weightFirst, weightSecond, hfirst, hsecond, rfl⟩ := addWeights?_eq_some hone
    have hfirst : scale.weight? first = some weightFirst := hfirst
    have hsecond : scale.weight? second = some weightSecond := hsecond
    exact ih (by simp only [weights?, hfirst, hsecond, hother, addWeights?, Int.add_assoc])
  | left _ ih =>
    obtain ⟨one, other, hone, hother, rfl⟩ := addWeights?_eq_some hforms
    exact ih (by rw [weights?, (weight?_either hone).1, hother, addWeights?])
  | right _ ih =>
    obtain ⟨one, other, hone, hother, rfl⟩ := addWeights?_eq_some hforms
    exact ih (by rw [weights?, (weight?_either hone).2, hother, addWeights?])

theorem total_of_isProgram (scale : Scale) (h : IsProgram kinds) :
    totalWeight scale.kind kinds = scale.rule .program := by
  refine total_of_derives h ?_
  simp [weights?, weight?, Form.weightBy, addWeights?]

end Scale

/-- **In a program brackets balance, and `main` stands once.** -/
theorem program_counts {kinds : List TokenKind} (h : IsProgram kinds) :
    kinds.count .beginKw = kinds.count .endKw ∧ kinds.count .leftParen = kinds.count .rightParen ∧
      kinds.count .mainKw = 1 := by
  have hblocks : totalWeight _ kinds = 0 := Scale.blocks.total_of_isProgram h
  have hparens : totalWeight _ kinds = 0 := Scale.parens.total_of_isProgram h
  have hmains : totalWeight _ kinds = 1 := Scale.mains.total_of_isProgram h
  rw [Scale.blocks, totalWeight_sub, totalWeight_unit, totalWeight_unit] at hblocks
  rw [Scale.parens, totalWeight_sub, totalWeight_unit, totalWeight_unit] at hparens
  rw [Scale.mains, totalWeight_unit] at hmains
  omega

end Cal
