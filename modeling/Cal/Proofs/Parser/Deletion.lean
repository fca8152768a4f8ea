import Cal.Proofs.Grammar.Separator
import Cal.Proofs.Grammar.Weight
import Cal.Proofs.Parser.Language
import Cal.Proofs.Parser.OnDemand

/-!
# Structural tokens cannot be left out

Semicolons, assignments, `main` and brackets hold a program together: what is left of a program without one
of them is no program, and its parse fails. Brackets and `main` are missed because a program has as many of
the one as of the other, separators because nothing that can take their place comes right behind them.
-/

namespace Cal

open TokenKind in
/-- The kinds that hold a program together. -/
def structuralKinds : List TokenKind := [semicolon, assign, mainKw, beginKw, endKw, leftParen, rightParen]

variable {kind : TokenKind} {kinds more : List TokenKind} {before after : List Token} {token : Token}

/-- **A program without one of its structural kinds is no program.** -/
theorem not_isProgram_without (hkind : kind ∈ structuralKinds) (h : IsProgram (kinds ++ kind :: more)) :
    ¬ IsProgram (kinds ++ more) := by
  intro hwithout
  by_cases hseparator : kind ∈ separators
  · have hsentence : IsSentence (kinds ++ kind :: (more ++ [.eof])) :=
      isSentence_iff.2 ⟨_, by simp, h⟩
    exact not_isSentence_without hseparator hsentence (isSentence_iff.2 ⟨_, by simp, hwithout⟩)
  · -- the others are counted
    obtain ⟨hblocks, hparens, hmains⟩ := program_counts h
    obtain ⟨hblocks', hparens', hmains'⟩ := program_counts hwithout
    simp only [List.count_append, List.count_cons] at hblocks hparens hmains hblocks' hparens' hmains'
    cases kind <;> simp_all [structuralKinds, separators] <;> omega

theorem kindsBeforeEof_append (hbefore : ∀ earlier ∈ before, earlier.isEof = false) :
    kindsBeforeEof (before ++ after) = kindsIn before ++ kindsBeforeEof after := by
  have hothers : ∀ earlier ∈ before, (!earlier.isEof) = true := by simpa using hbefore
  rw [kindsBeforeEof, List.takeWhile_append_of_pos hothers, List.map_append, kindsBeforeEof]

theorem kindsBeforeEof_cons (htoken : token.isEof = false) :
    kindsBeforeEof (token :: after) = token.kind :: kindsBeforeEof after := by
  simp [kindsBeforeEof, htoken]

/-- Tokens that are of other kinds do not end the input. -/
theorem isEof_of_kindsIn {tokens : List Token} (h : .eof ∉ kindsIn tokens) :
    ∀ token ∈ tokens, token.isEof = false := by
  intro token htoken
  simp only [Token.isEof, decide_eq_false_iff_not]
  intro hkind
  exact h (List.mem_map.2 ⟨token, htoken, hkind⟩)

/-- The limit that a parse of tokens comes to is the nesting limit. -/
theorem limit_of_tooDeep {tokens : List Token} {limit : Nat} {position : Position}
    (h : parseTokens tokens = .error (.tooDeep limit position)) : limit = nestingLimit := by
  obtain ⟨n, stage, hstage, hends, -⟩ := program_ends (reads_ofList tokens)
  have houtcome : (Parser.ofSource (TokenList.ofList tokens)).outcome = .error (.tooDeep limit position) := h
  rw [houtcome] at hends
  cases hends with
  | tooDeep hagenda hplan hlimit =>
    have hsome : stage.parser.standing.limit = some nestingLimit :=
      (Stage.sound_after rfl (reads_ofList tokens) hstage).limit
    rw [Standing.exhausted?, hsome, Option.filter_eq_some_iff] at hlimit
    exact (Option.some.inj hlimit.1).symm

/-- **Without one of its structural tokens an accepted list is never accepted**: the parse refuses a token
or comes to the nesting limit. -/
theorem structural_deletion (haccepted : parseTokens (before ++ token :: after) = .ok ())
    (hbefore : ∀ earlier ∈ before, earlier.isEof = false) (hkind : token.kind ∈ structuralKinds) :
    (∃ error, parseTokens (before ++ after) = .error (.unexpected error)) ∨
      ∃ position, parseTokens (before ++ after) = .error (.tooDeep nestingLimit position) := by
  have htoken : token.isEof = false := by
    simp only [Token.isEof, decide_eq_false_iff_not]
    intro heof
    rw [heof] at hkind
    exact absurd hkind (by decide)
  have hprogram := isProgram_of_ok haccepted
  rw [kindsBeforeEof_append hbefore, kindsBeforeEof_cons htoken] at hprogram
  cases hparse : parseTokens (before ++ after) with
  | ok value =>
    have hwithout := isProgram_of_ok hparse
    rw [kindsBeforeEof_append hbefore] at hwithout
    exact absurd hwithout (not_isProgram_without hkind hprogram)
  | error error =>
    cases error with
    | lexical error => exact absurd hparse (parseTokens_ne_lexical _ error)
    | unexpected error => exact .inl ⟨error, rfl⟩
    | tooDeep limit position =>
      obtain rfl := limit_of_tooDeep hparse
      exact .inr ⟨position, rfl⟩

/-- The semicolon of `main begin skip ; end` cannot be left out. -/
theorem structural_deletion_of_semicolon :
    let before := tokensOf [.mainKw, .beginKw, .skipKw]
    let token := Token.ofKind .semicolon .start
    let after := tokensOf [.endKw]
    parseTokens (before ++ token :: after) = .ok () ∧
      ((∃ error, parseTokens (before ++ after) = .error (.unexpected error)) ∨
        ∃ position, parseTokens (before ++ after) = .error (.tooDeep nestingLimit position)) := by
  intro before token after
  have haccepted : parseTokens (before ++ token :: after) = .ok () := by decide +kernel
  exact ⟨haccepted, structural_deletion haccepted (by decide) (by decide)⟩

end Cal
