import Cal.Proofs.Grammar.Sentence

/-!
# Semicolons and assignments

A semicolon or an assignment stands between two parts of a program and shows where the first one stops. Few
other kinds may come where it may come: its rivals, with which the first part could go on or which begin
another alternative. None of them may come right behind it. So a separator cannot be left out.

* `Predicts.step`, `residual`: sentences that begin alike go on from the same forms.
* `rival_of_sentences`: what may come where a separator may is one of its rivals.
* `not_rival_behind`: no rival of a separator comes right behind it.
* `not_isSentence_without`: a sentence without one of its separators is no sentence.
-/

namespace Cal

open TokenKind in
/-- The kinds that stand between two parts of a program. -/
def separators : List TokenKind := [semicolon, assign]

open TokenKind in
/-- The kinds that may come where a separator may. -/
def TokenKind.rivals : TokenKind → List TokenKind
  | semicolon => [semicolon, plus, minus, leftParen]
  | assign => [assign, leftParen]
  | _ => []

open TokenKind in
/-- The separators that can end what a rule derives. -/
def Rule.lasts : Rule → List TokenKind
  | declList | statementBlock | statement | statementChoice => [semicolon]
  | _ => []

/-- The separators, and the kinds which a form itself names, that can end what it derives. -/
def Form.lasts : Form → List TokenKind
  | empty => []
  | token kind => [kind]
  | .rule name => name.lasts
  | both first second => second.lasts ++ if second.nullable then first.lasts else []
  | either left right => left.lasts ++ right.lasts

/-- A form stops where one of the kinds `next` comes: if a separator may come there, the form could go on with
its rivals alone, and if the form may end in a separator, none of its rivals comes there. -/
def Form.StopsAt (separator : TokenKind) (form : Form) (next : List TokenKind) : Prop :=
  (separator ∈ next → form.shuns ⊆ separator.rivals) ∧
    (separator ∈ form.lasts → ∀ kind ∈ separator.rivals, kind ∉ next)

instance {separator : TokenKind} {form : Form} {next : List TokenKind} :
    Decidable (form.StopsAt separator next) :=
  inferInstanceAs (Decidable (_ ∧ _))

/-- Within a form, the parts stop where the next ones begin, and a choice that can begin with a separator
begins with that or a rival of it. -/
def Form.parted (separator : TokenKind) : Form → Bool
  | both first second =>
    first.parted separator && second.parted separator && first.StopsAt separator second.firsts
  | either left right =>
    left.parted separator && right.parted separator && !left.nullable &&
      (separator ∈ left.firsts ++ right.firsts →
        right.nullable = false ∧ left.firsts ++ right.firsts ⊆ separator.rivals)
  | _ => true

/-- In a sequence of forms, each stops where the next ones begin. -/
def Parted (separator : TokenKind) : List Form → Prop
  | [] => True
  | form :: forms =>
    form.parted separator = true ∧ form.StopsAt separator (firstsOf forms) ∧ Parted separator forms

variable {separator kind : TokenKind} {kinds before rest next : List TokenKind}
  {form part first second : Form} {forms : List Form} {rule : Rule} {items : List Item} {marks : List Mark}

theorem shuns_body (rule : Rule) : rule.body.shuns ⊆ rule.shuns := by
  cases rule <;> decide

theorem parted_body (hseparator : separator ∈ separators) (rule : Rule) :
    rule.body.parted separator = true ∧ (separator ∈ rule.body.lasts → separator ∈ rule.lasts) := by
  revert separator
  cases rule <;> decide

theorem firsts_rule (hseparator : separator ∈ separators) (hrule : separator ∈ rule.firstSet.kinds) :
    rule.nullable = false ∧ rule.firstSet.kinds ⊆ separator.rivals := by
  revert separator
  cases rule <;> decide

theorem mem_rivals (hseparator : separator ∈ separators) : separator ∈ separator.rivals := by
  revert separator
  decide

namespace Form.StopsAt

/-- So does a part at the end of a form. -/
theorem of_part (h : form.StopsAt separator next) (hshuns : part.shuns ⊆ form.shuns)
    (hlasts : separator ∈ part.lasts → separator ∈ form.lasts) : part.StopsAt separator next :=
  ⟨fun hnext => List.Subset.trans hshuns (h.1 hnext), fun hpart => h.2 (hlasts hpart)⟩

theorem cons (h : form.StopsAt separator second.firsts)
    (hforms : second.nullable = true → form.StopsAt separator (firstsOf forms)) :
    form.StopsAt separator (firstsOf (second :: forms)) := by
  constructor
  · intro hnext
    rcases mem_firstsOf_cons.1 hnext with hsecond | ⟨hnullable, hnext⟩
    · exact h.1 hsecond
    · exact (hforms hnullable).1 hnext
  · intro hlast kind hkind hnext
    rcases mem_firstsOf_cons.1 hnext with hsecond | ⟨hnullable, hnext⟩
    · exact h.2 hlast kind hkind hsecond
    · exact (hforms hnullable).2 hlast kind hkind hnext

end Form.StopsAt

namespace Parted

theorem tail (h : Parted separator (form :: forms)) : Parted separator forms := h.2.2

theorem production (hseparator : separator ∈ separators) (h : Parted separator (.rule rule :: forms)) :
    Parted separator (rule.body :: forms) :=
  ⟨(parted_body hseparator rule).1, h.2.1.of_part (shuns_body rule) (parted_body hseparator rule).2, h.2.2⟩

theorem both (h : Parted separator (.both first second :: forms)) :
    Parted separator (first :: second :: forms) := by
  obtain ⟨hparted, hstops, htail⟩ := h
  simp only [Form.parted, Bool.and_eq_true, decide_eq_true_eq] at hparted
  refine ⟨hparted.1.1, hparted.2.cons fun hnullable => ?_, hparted.1.2, ?_, htail⟩
  · exact hstops.of_part (by simp [Form.shuns, hnullable]) (by simp +contextual [Form.lasts, hnullable])
  · exact hstops.of_part (by simp [Form.shuns]) (by simp +contextual [Form.lasts])

theorem left (h : Parted separator (.either first second :: forms)) : Parted separator (first :: forms) := by
  obtain ⟨hparted, hstops, htail⟩ := h
  simp only [Form.parted, Bool.and_eq_true] at hparted
  exact ⟨hparted.1.1.1, hstops.of_part (by simp [Form.shuns]) (by simp +contextual [Form.lasts]), htail⟩

theorem right (h : Parted separator (.either first second :: forms)) : Parted separator (second :: forms) := by
  obtain ⟨hparted, hstops, htail⟩ := h
  simp only [Form.parted, Bool.and_eq_true] at hparted
  exact ⟨hparted.1.1.2, hstops.of_part (by simp [Form.shuns]) (by simp +contextual [Form.lasts]), htail⟩

end Parted

/-- What a form that is left out could have begun with it shuns. -/
theorem firsts_subset_shuns (hform : form.parted separator = true) (hnullable : form.nullable = true) :
    form.firsts ⊆ form.shuns := by
  induction form with
  | empty => exact List.nil_subset _
  | token => simp [Form.nullable] at hnullable
  | rule rule => revert hnullable; cases rule <;> decide
  | both first second ihFirst ihSecond =>
    simp only [Form.parted, Bool.and_eq_true] at hform
    simp only [Form.nullable, Bool.and_eq_true] at hnullable
    have hfirst := ihFirst hform.1.1 hnullable.1
    have hsecond := ihSecond hform.1.2 hnullable.2
    intro kind hkind
    simp only [Form.firsts, Form.firstsBy, hnullable.1, if_true, List.mem_append] at hkind
    simp only [Form.shuns, hnullable.2, if_true, List.mem_append]
    exact hkind.symm.imp (hsecond ·) (hfirst ·)
  | either left right _ ihRight =>
    simp only [Form.parted, Bool.and_eq_true, Bool.not_eq_true'] at hform
    -- the first alternative derives something, so that it is the second that is left out
    have hright : right.nullable = true := by simpa [Form.nullable, hform.1.2] using hnullable
    have hsecond := ihRight hform.1.1.2 hright
    intro kind hkind
    simp only [Form.firsts, Form.firstsBy, List.mem_append] at hkind
    simp only [Form.shuns, hright, if_true, List.mem_append]
    rcases hkind with hkind | hkind
    · exact .inr hkind
    · exact .inl (.inr (hsecond hkind))

/-- Where a separator begins a form, nothing but its rivals does, and the form is not left out. -/
theorem firsts_of_parted (hseparator : separator ∈ separators) (hform : form.parted separator = true)
    (hfirst : separator ∈ form.firsts) : form.nullable = false ∧ form.firsts ⊆ separator.rivals := by
  induction form with
  | empty => simp [Form.firsts, Form.firstsBy] at hfirst
  | token kind =>
    obtain rfl : separator = kind := by simpa [Form.firsts, Form.firstsBy] using hfirst
    exact ⟨rfl, by simpa [Form.firsts, Form.firstsBy] using mem_rivals hseparator⟩
  | rule rule => exact firsts_rule hseparator hfirst
  | both first second ihFirst ihSecond =>
    simp only [Form.parted, Bool.and_eq_true, decide_eq_true_eq] at hform
    obtain ⟨⟨hpartedFirst, hpartedSecond⟩, hstops⟩ := hform
    by_cases hnullable : first.nullable = true
    · -- the separator begins the second, and all that the first could have begun with are rivals as well
      have hfirsts : separator ∉ first.firsts := by
        intro hseparatorFirst
        simp [(ihFirst hpartedFirst hseparatorFirst).1] at hnullable
      simp only [Form.firsts, Form.firstsBy, hnullable, if_true, List.mem_append] at hfirst
      have hnext : separator ∈ second.firsts := hfirst.resolve_left hfirsts
      obtain ⟨hnot, hsecond⟩ := ihSecond hpartedSecond hnext
      refine ⟨by simp [Form.nullable, hnot], ?_⟩
      intro kind hkind
      simp only [Form.firsts, Form.firstsBy, hnullable, if_true, List.mem_append] at hkind
      rcases hkind with hkind | hkind
      · exact hstops.1 hnext (firsts_subset_shuns hpartedFirst hnullable hkind)
      · exact hsecond hkind
    · have hfirsts : (Form.both first second).firsts = first.firsts := by
        simp [Form.firsts, Form.firstsBy, hnullable]
      rw [hfirsts] at hfirst ⊢
      obtain ⟨hnot, hrivals⟩ := ihFirst hpartedFirst hfirst
      exact ⟨by simp [Form.nullable, hnot], hrivals⟩
  | either left right =>
    simp only [Form.parted, Bool.and_eq_true, Bool.not_eq_true', decide_eq_true_eq] at hform
    obtain ⟨hright, hrivals⟩ := hform.2 hfirst
    exact ⟨by simp [Form.nullable, hform.1.2, hright], hrivals⟩

/-- Where a separator may come next, nothing but its rivals may. -/
theorem Parted.firsts (hseparator : separator ∈ separators) (h : Parted separator forms)
    (hfirst : separator ∈ firstsOf forms) : firstsOf forms ⊆ separator.rivals := by
  induction forms with
  | nil => exact List.nil_subset _
  | cons form forms ih =>
    obtain ⟨hparted, hstops, htail⟩ := h
    intro kind hkind
    rcases mem_firstsOf_cons.1 hfirst with hform | ⟨hnullable, hforms⟩
    · obtain ⟨hnot, hrivals⟩ := firsts_of_parted hseparator hparted hform
      rcases mem_firstsOf_cons.1 hkind with hkind | ⟨hnullable, -⟩
      · exact hrivals hkind
      · simp [hnot] at hnullable
    · rcases mem_firstsOf_cons.1 hkind with hkind | ⟨-, hkind⟩
      · exact hstops.1 hforms (firsts_subset_shuns hparted hnullable hkind)
      · exact ih htail hforms hkind

/-- Right behind a separator none of its rivals comes. -/
theorem Parted.behind (hseparator : separator ∈ separators) (h : Derives forms kinds)
    (hparted : Parted separator forms) (hkinds : kinds = before ++ separator :: kind :: rest) :
    kind ∉ separator.rivals := by
  induction h generalizing before with
  | nil => simp at hkinds
  | empty _ ih => exact ih hparted.tail hkinds
  | @token other forms kinds h ih =>
    cases before with
    | nil =>
      -- the separator itself: what comes behind it begins the forms that follow
      obtain ⟨rfl, rfl⟩ := List.cons.inj hkinds
      intro hrival
      exact hparted.2.1.2 (by simp [Form.lasts]) kind hrival (mem_firstsOf_of_derives h)
    | cons _ before => exact ih hparted.tail (List.cons.inj hkinds).2
  | rule _ ih => exact ih (hparted.production hseparator) hkinds
  | both _ ih => exact ih hparted.both hkinds
  | left _ ih => exact ih hparted.left hkinds
  | right _ ih => exact ih hparted.right hkinds

/-- **Items that derive the same kind next go on in the same way**: one kind of lookahead decides every
choice until that kind has been taken. -/
theorem Predicts.step {marks' : List Mark} {kinds' : List TokenKind} (hseparator : separator ∈ separators)
    (h : Predicts items marks) (h' : Predicts items marks') (hkinds : kindsOf marks = kind :: kinds)
    (hkinds' : kindsOf marks' = kind :: kinds') (hparted : Parted separator (formsOf items)) :
    ∃ after rest rest', Predicts after rest ∧ Predicts after rest' ∧ kindsOf rest = kinds ∧
      kindsOf rest' = kinds' ∧ Parted separator (formsOf after) := by
  induction h with
  | nil => simp at hkinds
  | empty _ ih => exact ih (nests_empty.1 h') hkinds hparted.tail
  | @token depth other items marks h _ =>
    obtain ⟨rest', rfl, hrest'⟩ := nests_token.1 h'
    exact ⟨items, marks, rest', h, hrest', (List.cons.inj hkinds).2, (List.cons.inj hkinds').2, hparted.tail⟩
  | rule _ ih => exact ih (nests_rule.1 h') hkinds (hparted.production hseparator)
  | both _ ih => exact ih (nests_both.1 h') hkinds hparted.both
  | left htake _ ih =>
    rcases nests_either.1 h' with ⟨-, hleft⟩ | ⟨hpass, -⟩
    · exact ih hleft hkinds hparted.left
    · obtain ⟨next, hnext, hfirst⟩ := htake
      rw [hkinds] at hnext
      rw [hkinds'] at hpass
      exact absurd hfirst (hpass next hnext)
  | right hpass _ ih =>
    rcases nests_either.1 h' with ⟨⟨next, hnext, hfirst⟩, -⟩ | ⟨-, hright⟩
    · rw [hkinds] at hpass
      rw [hkinds'] at hnext
      exact absurd hfirst (hpass next hnext)
    · exact ih hright hkinds hparted.right

/-- **Items that derive the same kinds first go on from the same forms.** -/
theorem residual {marks' : List Mark} {rest' : List TokenKind} (hseparator : separator ∈ separators)
    (h : Predicts items marks) (h' : Predicts items marks') (hkinds : kindsOf marks = before ++ rest)
    (hkinds' : kindsOf marks' = before ++ rest') (hparted : Parted separator (formsOf items)) :
    ∃ forms, Parted separator forms ∧ Derives forms rest ∧ Derives forms rest' := by
  induction before generalizing items marks marks' with
  | nil =>
    refine ⟨formsOf items, hparted, ?_, ?_⟩
    · rw [List.nil_append] at hkinds
      exact hkinds ▸ derives_of_predicts h
    · rw [List.nil_append] at hkinds'
      exact hkinds' ▸ derives_of_predicts h'
  | cons kind before ih =>
    obtain ⟨after, marks, marks', h, h', hkinds, hkinds', hparted⟩ := h.step hseparator h' hkinds hkinds' hparted
    exact ih h h' hkinds hkinds' hparted

theorem parted_sentence (hseparator : separator ∈ separators) : Parted separator (formsOf sentenceItems) := by
  revert separator
  simp only [Parted, sentenceItems, formsOf, List.map_cons, List.map_nil]
  decide

/-- **What may come where a separator may is one of its rivals.** -/
theorem rival_of_sentences (hseparator : separator ∈ separators) (h : IsSentence (before ++ separator :: kinds))
    (h' : IsSentence (before ++ kind :: rest)) : kind ∈ separator.rivals := by
  obtain ⟨marks, hkinds, hnesting⟩ := exists_isNesting h
  obtain ⟨marks', hkinds', hnesting'⟩ := exists_isNesting h'
  obtain ⟨forms, hparted, hseparates, hother⟩ :=
    residual hseparator (predicts_of_isNesting hnesting) (predicts_of_isNesting hnesting') hkinds hkinds'
      (parted_sentence hseparator)
  exact hparted.firsts hseparator (mem_firstsOf_of_derives hseparates) (mem_firstsOf_of_derives hother)

/-- **No rival of a separator comes right behind it.** -/
theorem not_rival_behind (hseparator : separator ∈ separators)
    (h : IsSentence (before ++ separator :: kind :: rest)) : kind ∉ separator.rivals :=
  (parted_sentence hseparator).behind hseparator h rfl

/-- **A sentence without one of its separators is no sentence.** -/
theorem not_isSentence_without (hseparator : separator ∈ separators)
    (h : IsSentence (before ++ separator :: rest)) : ¬ IsSentence (before ++ rest) := by
  intro hwithout
  cases rest with
  | nil =>
    -- the separator would be the last kind of the sentence, which is the end of the input
    obtain ⟨program, hkinds, -⟩ := isSentence_iff.1 h
    obtain ⟨-, hlast⟩ := List.append_inj' hkinds rfl
    cases hlast
    exact absurd hseparator (by decide)
  | cons kind rest => exact not_rival_behind hseparator h (rival_of_sentences hseparator h hwithout)

end Cal
