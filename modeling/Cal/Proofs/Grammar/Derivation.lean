import Cal.Grammar.Form

/-!
# Derivations

* `derives_token`, `derives_both`, `derives_either`: what a derivation does with the first of its forms.
* `derives_split`, `Derives.append`: forms in sequence derive kinds in sequence.
-/

namespace Cal

variable {kind : TokenKind} {kinds rest : List TokenKind} {form first second : Form}
  {forms more : List Form}

theorem derives_nil : Derives [] kinds ↔ kinds = [] := by
  constructor
  · intro h; cases h; rfl
  · rintro rfl; exact .nil

theorem derives_empty : Derives (.empty :: forms) kinds ↔ Derives forms kinds := by
  constructor
  · intro h; cases h with | empty h => exact h
  · exact .empty

theorem derives_token :
    Derives (.token kind :: forms) kinds ↔ ∃ rest, kinds = kind :: rest ∧ Derives forms rest := by
  constructor
  · intro h; cases h with | token h => exact ⟨_, rfl, h⟩
  · rintro ⟨rest, rfl, h⟩; exact .token h

theorem derives_both :
    Derives (.both first second :: forms) kinds ↔ Derives (first :: second :: forms) kinds := by
  constructor
  · intro h; cases h with | both h => exact h
  · exact .both

theorem derives_either :
    Derives (.either first second :: forms) kinds ↔
      Derives (first :: forms) kinds ∨ Derives (second :: forms) kinds := by
  constructor
  · intro h
    cases h with
    | left h => exact .inl h
    | right h => exact .inr h
  · rintro (h | h)
    · exact .left h
    · exact .right h

/-- **What forms in sequence derive is cut where the one part ends.** -/
theorem derives_split (forms : List Form) (h : Derives (forms ++ more) kinds) :
    ∃ left right, kinds = left ++ right ∧ Derives forms left ∧ Derives more right := by
  generalize hall : forms ++ more = all at h
  -- the forms are taken apart from the front; once they are used up the rest is for `more`
  induction h generalizing forms with
  | nil =>
    obtain ⟨rfl, rfl⟩ := List.append_eq_nil_iff.1 hall
    exact ⟨[], [], rfl, .nil, .nil⟩
  | @empty _ kinds h ih =>
    cases forms with
    | nil => cases hall; exact ⟨[], kinds, rfl, .nil, .empty h⟩
    | cons form forms =>
      cases hall
      obtain ⟨left, right, rfl, hleft, hright⟩ := ih forms rfl
      exact ⟨left, right, rfl, .empty hleft, hright⟩
  | @token kind _ kinds h ih =>
    cases forms with
    | nil => cases hall; exact ⟨[], kind :: kinds, rfl, .nil, .token h⟩
    | cons form forms =>
      cases hall
      obtain ⟨left, right, rfl, hleft, hright⟩ := ih forms rfl
      exact ⟨kind :: left, right, rfl, .token hleft, hright⟩
  | @rule rule _ kinds h ih =>
    cases forms with
    | nil => cases hall; exact ⟨[], kinds, rfl, .nil, .rule h⟩
    | cons form forms =>
      cases hall
      obtain ⟨left, right, rfl, hleft, hright⟩ := ih (rule.body :: forms) rfl
      exact ⟨left, right, rfl, .rule hleft, hright⟩
  | @both first second _ kinds h ih =>
    cases forms with
    | nil => cases hall; exact ⟨[], kinds, rfl, .nil, .both h⟩
    | cons form forms =>
      cases hall
      obtain ⟨left, right, rfl, hleft, hright⟩ := ih (first :: second :: forms) rfl
      exact ⟨left, right, rfl, .both hleft, hright⟩
  | @left first _ _ kinds h ih =>
    cases forms with
    | nil => cases hall; exact ⟨[], kinds, rfl, .nil, .left h⟩
    | cons form forms =>
      cases hall
      obtain ⟨left, right, rfl, hleft, hright⟩ := ih (first :: forms) rfl
      exact ⟨left, right, rfl, .left hleft, hright⟩
  | @right _ second _ kinds h ih =>
    cases forms with
    | nil => cases hall; exact ⟨[], kinds, rfl, .nil, .right h⟩
    | cons form forms =>
      cases hall
      obtain ⟨left, right, rfl, hleft, hright⟩ := ih (second :: forms) rfl
      exact ⟨left, right, rfl, .right hleft, hright⟩

theorem Derives.append (hforms : Derives forms kinds) (hmore : Derives more rest) :
    Derives (forms ++ more) (kinds ++ rest) := by
  induction hforms with
  | nil => exact hmore
  | empty _ ih => exact .empty ih
  | token _ ih => exact .token ih
  | rule _ ih => exact .rule ih
  | both _ ih => exact .both ih
  | left _ ih => exact .left ih
  | right _ ih => exact .right ih

end Cal
