import Cal.Proofs.Grammar.Sentence

/-!
# Sentential forms

A sentential form is what comes of a program and the end of the input behind it when any of its
forms is taken apart, in any order. Where all of them are kinds, it is a sentence.

* `sentential_iff`: the sentential forms of kinds alone are the sentences.
* `Sentential.tidy`: no form of a sentential form is followed by a kind that it shuns, `and` and `or`
  apart.
* `exists_both_choices`: behind a negation a choice of a connective may be followed by another one.
-/

namespace Cal

/-- One step in taking a form apart: a rule becomes its production, two forms in sequence stand for
themselves, and of two alternatives either one may be chosen. -/
inductive Expands : Form → List Form → Prop
  | empty : Expands .empty []
  | rule (rule : Rule) : Expands (.rule rule) [rule.body]
  | both (first second : Form) : Expands (.both first second) [first, second]
  | left (left right : Form) : Expands (.either left right) [left]
  | right (left right : Form) : Expands (.either left right) [right]

/-- The forms that come of a program and the end of the input, wherever they are taken apart. -/
inductive Sentential : List Form → Prop
  | start : Sentential [.rule .program, .token .eof]
  | expand (before : List Form) {form : Form} {parts after : List Form} :
    Sentential (before ++ form :: after) → Expands form parts → Sentential (before ++ (parts ++ after))

/-- The form occurs in some sentential form. -/
def Occurs (form : Form) : Prop := ∃ before after, Sentential (before ++ form :: after)

variable {kind : TokenKind} {kinds : List TokenKind} {form part : Form} {forms before parts after : List Form}

namespace Expands

/-- What the parts of a form derive, the form derives. -/
theorem derives (h : Expands form parts) (hparts : Derives (parts ++ forms) kinds) :
    Derives (form :: forms) kinds := by
  cases h with
  | empty => exact .empty hparts
  | rule => exact .rule hparts
  | both => exact .both hparts
  | left => exact .left hparts
  | right => exact .right hparts

/-- The parts of a form begin with nothing that the form does not begin with. -/
theorem firsts (h : Expands form parts) : firstsOf (parts ++ forms) ⊆ firstsOf (form :: forms) := by
  intro kind hkind
  cases h with
  | empty => exact mem_firstsOf_cons.2 (.inr ⟨rfl, hkind⟩)
  | rule rule =>
    have hbody := mem_firstsOf_cons.1 hkind
    rw [nullable_body] at hbody
    exact mem_firstsOf_cons.2 (hbody.imp_left fun h => firsts_body rule h)
  | both =>
    rw [firstsOf_both]
    exact hkind
  | left => exact firstsOf_either.2 (.inl hkind)
  | right => exact firstsOf_either.2 (.inr hkind)

theorem tidy (h : Expands form parts) (hand : kind ≠ .andKw) (hor : kind ≠ .orKw)
    (htidy : Tidy kind (form :: forms)) : Tidy kind (parts ++ forms) := by
  cases h with
  | empty => exact htidy.tail
  | rule rule => exact htidy.production (clear_body rule hand hor)
  | both => exact htidy.both
  | left => exact htidy.left
  | right => exact htidy.right

end Expands

/-- Taking a form apart behind others lets them be followed by nothing new. -/
theorem Tidy.expand (h : Tidy kind (before ++ form :: after)) (hexpands : Expands form parts)
    (hand : kind ≠ .andKw) (hor : kind ≠ .orKw) : Tidy kind (before ++ (parts ++ after)) := by
  induction before with
  | nil => exact hexpands.tidy hand hor h
  | cons first before ih =>
    obtain ⟨hclear, hshuns, htail⟩ := h
    refine ⟨hclear, fun hkind hfollows => hshuns hkind ?_, ih htail⟩
    -- what follows the forms in front begins as it did, or with less
    refine mem_firstsOf_append.2 ((mem_firstsOf_append.1 hfollows).imp_right ?_)
    exact fun ⟨hnullable, hparts⟩ => ⟨hnullable, hexpands.firsts hparts⟩

theorem Tidy.behind (h : Tidy kind (before ++ after)) : Tidy kind after := by
  induction before with
  | nil => exact h
  | cons first before ih => exact ih h.tail

namespace Sentential

/-- **No form of a sentential form is followed by a kind that it shuns**, `and` and `or` apart. -/
theorem tidy (h : Sentential forms) (hand : kind ≠ .andKw) (hor : kind ≠ .orKw) : Tidy kind forms := by
  induction h with
  | start =>
    exact ⟨rfl, fun hkind => by simp [Form.shuns, Rule.shuns] at hkind, rfl,
      fun hkind => by simp [Form.shuns] at hkind, trivial⟩
  | expand before _ hexpands ih => exact ih.expand hexpands hand hor

/-- What may not follow a form does not follow it in a sentential form. -/
theorem not_begins (h : Sentential (before ++ form :: after)) (hand : kind ≠ .andKw) (hor : kind ≠ .orKw)
    (hkind : kind ∈ form.shuns) : ¬ Begins after kind := by
  rintro ⟨rest, hrest⟩
  have htidy : Tidy kind (form :: after) := (h.tidy hand hor).behind
  exact htidy.2.1 hkind (mem_firstsOf_of_derives hrest)

/-- The second form behind `before` may be taken apart just as well. -/
theorem expand_behind {first : Form} (h : Sentential (before ++ first :: form :: after))
    (hexpands : Expands form parts) : Sentential (before ++ first :: (parts ++ after)) := by
  have hbehind : Sentential ((before ++ [first]) ++ form :: after) := by simpa using h
  simpa using hbehind.expand (before ++ [first]) hexpands

/-- What a sentential form derives is a sentence. -/
theorem isSentence (h : Sentential forms) (hderives : Derives forms kinds) : IsSentence kinds := by
  induction h generalizing kinds with
  | start => exact hderives
  | expand before _ hexpands ih =>
    obtain ⟨left, right, rfl, hleft, hright⟩ := derives_split before hderives
    exact ih (hleft.append (hexpands.derives hright))

/-- The forms at the end of a sentential form may be taken apart until all of them are kinds. -/
theorem of_derives (h : Sentential (before ++ forms)) (hderives : Derives forms kinds) :
    Sentential (before ++ kinds.map .token) := by
  induction hderives generalizing before with
  | nil => exact h
  | empty _ ih => exact ih (h.expand before .empty)
  | @token kind _ _ _ ih =>
    have hkind := @ih (before ++ [.token kind]) (by simpa using h)
    simpa using hkind
  | @rule rule _ _ _ ih => exact ih (h.expand before (.rule rule))
  | @both first second _ _ _ ih => exact ih (h.expand before (.both first second))
  | @left left right _ _ _ ih => exact ih (h.expand before (.left left right))
  | @right left right _ _ _ ih => exact ih (h.expand before (.right left right))

end Sentential

theorem derives_tokens (kinds : List TokenKind) : Derives (kinds.map .token) kinds := by
  induction kinds with
  | nil => exact .nil
  | cons kind kinds ih => exact .token ih

/-- **The sentential forms of kinds alone are the sentences.** -/
theorem sentential_iff : Sentential (kinds.map .token) ↔ IsSentence kinds := by
  constructor
  · exact fun h => h.isSentence (derives_tokens kinds)
  · intro h
    have hstart : Sentential ([] ++ [.rule .program, .token .eof]) := .start
    exact hstart.of_derives h

/-- Whether a form is found in another one, given in which rules it is found. -/
def Form.foundBy (enter : Rule → Bool) (part : Form) : Form → Bool
  | empty => part = empty
  | token kind => part = token kind
  | .rule name => part = .rule name || enter name
  | both first second => part = both first second || part.foundBy enter first || part.foundBy enter second
  | either left right => part = either left right || part.foundBy enter left || part.foundBy enter right

/-- Whether a form is found in what a rule stands for, without entering more than `n` rules within one
another. -/
def Form.foundWithin (part : Form) : Nat → Rule → Bool
  | 0, _ => false
  | n + 1, name => part.foundBy (part.foundWithin n) name.body

theorem occurs_of_foundBy {enter : Rule → Bool}
    (henter : ∀ rule, enter rule = true → Occurs (.rule rule) → Occurs part)
    (hform : part.foundBy enter form = true) (h : Occurs form) : Occurs part := by
  obtain ⟨before, after, h⟩ := h
  induction form generalizing before after with
  | empty =>
    obtain rfl : part = .empty := by simpa [Form.foundBy] using hform
    exact ⟨before, after, h⟩
  | token kind =>
    obtain rfl : part = .token kind := by simpa [Form.foundBy] using hform
    exact ⟨before, after, h⟩
  | rule rule =>
    simp only [Form.foundBy, Bool.or_eq_true, decide_eq_true_eq] at hform
    rcases hform with rfl | hrule
    · exact ⟨before, after, h⟩
    · exact henter rule hrule ⟨before, after, h⟩
  | both first second ihFirst ihSecond =>
    simp only [Form.foundBy, Bool.or_eq_true, decide_eq_true_eq] at hform
    have hparts := h.expand before (.both first second)
    rcases hform with (rfl | hfirst) | hsecond
    · exact ⟨before, after, h⟩
    · exact ihFirst hfirst before _ hparts
    · exact ihSecond hsecond (before ++ [first]) after (by simpa using hparts)
  | either left right ihLeft ihRight =>
    simp only [Form.foundBy, Bool.or_eq_true, decide_eq_true_eq] at hform
    rcases hform with (rfl | hleft) | hright
    · exact ⟨before, after, h⟩
    · exact ihLeft hleft before after (h.expand before (.left left right))
    · exact ihRight hright before after (h.expand before (.right left right))

theorem occurs_of_foundWithin {n : Nat} {rule : Rule} (hrule : part.foundWithin n rule = true)
    (h : Occurs (.rule rule)) : Occurs part := by
  induction n generalizing rule with
  | zero => simp [Form.foundWithin] at hrule
  | succ n ih =>
    obtain ⟨before, after, h⟩ := h
    exact occurs_of_foundBy (fun _ => ih) hrule ⟨before, after, h.expand before (.rule rule)⟩

/-- What is found in a program occurs in some sentential form. -/
theorem occurs_of_program {n : Nat} (h : part.foundWithin n .program = true) : Occurs part :=
  occurs_of_foundWithin h ⟨[], [.token .eof], .start⟩

/-- **Behind a negation a choice of a connective may be followed by another one**, so that there the next
kind does not say which of them takes it. -/
theorem exists_both_choices :
    ∃ before after, Sentential (before ++ .rule .conditionChoice :: .rule .conditionChoice :: after) := by
  have hfound : (Form.rule .condition).foundWithin 4 .program = true := by decide +kernel
  obtain ⟨before, after, h⟩ := occurs_of_program hfound
  -- the condition is a negation of a condition, and both have their own choice
  have houter := (h.expand before (.rule .condition)).expand before (.both _ _)
  have hnegation := (houter.expand before (.rule .conditionSimple)).expand before (.left _ _)
  have hinner := (hnegation.expand before (.both _ _)).expand_behind (.rule .condition)
  have hchoices := hinner.expand_behind (.both _ _)
  exact ⟨before ++ [.token .notKw, .rule .conditionSimple], after, by simpa [Form.seq] using hchoices⟩

end Cal
