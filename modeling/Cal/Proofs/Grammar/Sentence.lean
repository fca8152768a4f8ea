import Cal.Proofs.Grammar.Follow

/-!
# Sentences and viable prefixes

A sentence is a program followed by the end of the input. A sequence of kinds is viable if some
sentence begins with it. A nesting of a sentence says of each of its kinds how many bodies are open
there.

* `isSentence_iff`, `eq_nil_of_eof`: a sentence ends the input once, after a program.
* `exists_isNesting`, `predicts_of_isNesting`: every sentence has a nesting, and one kind of
  lookahead is enough to follow it.
-/

namespace Cal

/-- A program and the end of the input after it. -/
def IsSentence (kinds : List TokenKind) : Prop := Derives [.rule .program, .token .eof] kinds

/-- Some sentence begins with these kinds. -/
def Viable (kinds : List TokenKind) : Prop := ∃ rest, IsSentence (kinds ++ rest)

/-- The forms of a sentence, with no body open around them. -/
def sentenceItems : List Item := [⟨0, .rule .program⟩, ⟨0, .token .eof⟩]

/-- The kinds of a sentence, each with the number of bodies that are open there: the statements
with a block of their own, the expressions between `begin` and `end`, the conditions in parentheses
and the negations around it, a negation reaching to the end of its condition. -/
def IsNesting (marks : List Mark) : Prop := Nests Rule.settled .free sentenceItems marks

variable {kinds rest : List TokenKind} {kind : TokenKind} {marks : List Mark} {forms : List Form}

theorem exists_isNesting (h : IsSentence kinds) : ∃ marks, kindsOf marks = kinds ∧ IsNesting marks :=
  Nestable.of_derives h sentenceItems rfl

theorem predicts_of_isNesting (h : IsNesting marks) : Predicts sentenceItems marks := by
  refine predicts_of_nests h fun kind => ?_
  exact ⟨rfl, fun hkind => by simp [Form.shuns, Rule.shuns] at hkind, rfl,
    fun hkind => by simp [Form.shuns] at hkind, trivial⟩

/-- The kinds that a form names. -/
def Form.names : Form → List TokenKind
  | empty => []
  | token kind => [kind]
  | .rule _ => []
  | both first second => first.names ++ second.names
  | either left right => left.names ++ right.names

/-- What forms derive holds no kind that neither they nor the productions name. -/
theorem not_mem_of_derives (hbody : ∀ rule : Rule, kind ∉ rule.body.names) (h : Derives forms kinds)
    (hforms : ∀ form ∈ forms, kind ∉ form.names) : kind ∉ kinds := by
  induction h with
  | nil => simp
  | empty _ ih => exact ih (List.forall_mem_cons.1 hforms).2
  | @token other forms kinds _ ih =>
    obtain ⟨hother, hforms⟩ := List.forall_mem_cons.1 hforms
    have : kind ≠ other := by simpa [Form.names] using hother
    simpa [this] using ih hforms
  | @rule rule _ _ _ ih =>
    exact ih (List.forall_mem_cons.2 ⟨hbody rule, (List.forall_mem_cons.1 hforms).2⟩)
  | both _ ih => exact ih (by simpa [Form.names, and_assoc] using hforms)
  | left _ ih => exact ih (by simp_all [Form.names])
  | right _ ih => exact ih (by simp_all [Form.names])

theorem eof_not_mem (h : IsProgram kinds) : .eof ∉ kinds := by
  refine not_mem_of_derives (fun rule => ?_) h (by simp [Form.names])
  cases rule <;> decide

/-- **A sentence ends the input once**, after a program. -/
theorem isSentence_iff : IsSentence kinds ↔ ∃ program, kinds = program ++ [.eof] ∧ IsProgram program := by
  constructor
  · intro h
    obtain ⟨program, last, rfl, hprogram, hlast⟩ := derives_split [_] h
    obtain ⟨rest, rfl, hrest⟩ := derives_token.1 hlast
    exact ⟨program, by rw [derives_nil.1 hrest], hprogram⟩
  · rintro ⟨program, rfl, hprogram⟩
    exact hprogram.append (.token .nil)

/-- Nothing comes behind the end of the input. -/
theorem eq_nil_of_eof (h : IsSentence (kinds ++ rest)) (heof : .eof ∈ kinds) : rest = [] := by
  obtain ⟨program, hkinds, hprogram⟩ := isSentence_iff.1 h
  rcases List.eq_nil_or_concat rest with hnil | ⟨more, last, rfl⟩
  · exact hnil
  · -- were there more, the end of the input would lie within the program
    rw [List.concat_eq_append, ← List.append_assoc] at hkinds
    obtain ⟨hbegin, -⟩ := List.append_inj' hkinds rfl
    rw [← hbegin] at hprogram
    exact absurd (List.mem_append_left more heof) (eof_not_mem hprogram)

theorem Viable.of_begin {more : List TokenKind} (h : Viable more) (hbegin : kinds <+: more) :
    Viable kinds := by
  obtain ⟨rest, rfl⟩ := hbegin
  obtain ⟨after, hsentence⟩ := h
  exact ⟨rest ++ after, by rwa [← List.append_assoc]⟩

end Cal
