import Cal.Proofs.Parser.Refusal
import Mathlib.Data.List.TakeWhile

/-!
# The language of the parser

A parse of tokens accepts the programs of the grammar and nothing else, unless they are nested too
deeply. Where it refuses, it does so at the first token that cannot come there, except that a probe
may refuse an opening parenthesis for the sake of the token behind it, and what it expects are the
kinds that can come there, except that an opening parenthesis is missing where a probe has missed.
-/

namespace Cal

/-- Tokens of the given kinds, all at one place. -/
def tokensOf (kinds : List TokenKind) : List Token := kinds.map fun kind => .ofKind kind .start

variable {tokens other : List Token} {error : SyntaxError} {n : Nat}

theorem viable_of_isProgram (h : IsProgram (kindsBeforeEof tokens))
    (heof : .eof ∉ takenOf (streamOf tokens) n) : Viable (takenOf (streamOf tokens) (n + 1)) := by
  have hsentence : IsSentence (kindsBeforeEof tokens ++ [.eof]) := isSentence_iff.2 ⟨_, rfl, h⟩
  have hviable : Viable (kindsBeforeEof tokens ++ [.eof]) := ⟨[], by rwa [List.append_nil]⟩
  refine hviable.of_begin ?_
  rw [← takenOf_closed]
  exact takenOf_begin (Nat.succ_le_succ (le_of_eof_not_mem heof))

/-- **A refusal and a program differ by then.** Tokens that agree with those of a program are refused
at their last one at the earliest, and there only if it is an opening parenthesis. -/
theorem Refusal.differs (h : Refusal tokens error) (hprogram : IsProgram (kindsBeforeEof other))
    (hsame : ∀ k < n, streamOf tokens k = streamOf other k) :
    n ≤ (consumedTokens tokens).length + 1 ∧
      (n = (consumedTokens tokens).length + 1 → error.unexpected.kind = .leftParen) := by
  obtain ⟨g, hg⟩ : ∃ g, (consumedTokens tokens).length = g := ⟨_, rfl⟩
  have hkinds := h.kinds
  rw [hg] at hkinds
  have hunexpected := h.unexpected
  have htaken : ∀ m ≤ n, takenOf (streamOf tokens) m = takenOf (streamOf other) m := by
    intro m hm
    refine List.map_congr_left fun k hk => ?_
    rw [hsame k (by have := List.mem_range.1 hk; omega)]
  have hongoing := h.ongoing
  rw [hkinds] at hongoing
  have hdead := h.dead
  rw [hg] at hunexpected hdead ⊢
  rw [hkinds, hunexpected, ← takenOf_succ] at hdead
  have hparen : g + 1 ≤ n → (streamOf tokens g).kind = .leftParen ∧ ¬ g + 2 ≤ n := by
    intro hle
    -- the refused token comes there in the program, so that a probe must have missed
    have hviable : Viable (takenOf (streamOf tokens) (g + 1)) := by
      rw [htaken _ hle]
      exact viable_of_isProgram hprogram (htaken g (by omega) ▸ hongoing)
    obtain ⟨-, hnext, hdead⟩ := hdead.resolve_left (not_not_intro hviable)
    refine ⟨hnext, fun hle => hdead ?_⟩
    have hmore : takenOf (streamOf tokens) g ++
        [(streamOf tokens g).kind, (streamOf tokens (g + 1)).kind] = takenOf (streamOf tokens) (g + 2) := by
      rw [takenOf_succ, takenOf_succ, List.append_assoc]
      rfl
    rw [hmore, htaken _ hle]
    refine viable_of_isProgram hprogram ?_
    rw [← htaken _ (by omega), takenOf_succ, hnext]
    simpa using hongoing
  constructor
  · by_contra hlt
    exact (hparen (by omega)).2 (by omega)
  · intro hn
    rw [hunexpected]
    exact (hparen (by omega)).1

theorem eof_not_mem_kindsBeforeEof (tokens : List Token) : .eof ∉ kindsBeforeEof tokens := by
  intro h
  obtain ⟨token, htoken, hkind⟩ := List.mem_map.1 h
  have hother := List.mem_takeWhile_imp htoken
  simp [Token.isEof, hkind] at hother

/-- What is accepted is a program. -/
theorem isProgram_of_ok (h : parseTokens tokens = .ok ()) : IsProgram (kindsBeforeEof tokens) := by
  obtain ⟨n, stage, hstage, hends, -⟩ := program_ends (reads_ofList tokens)
  have hsound := (Stage.sound_after rfl (reads_ofList tokens) hstage).faithful.sound
  have houtcome : (Parser.ofSource (TokenList.ofList tokens)).outcome = .ok () := h
  rw [houtcome] at hends
  cases hends with
  | accepted hagenda =>
    rw [hagenda] at hsound
    have hsentence := hsound [] .nil
    rw [List.append_nil] at hsentence
    obtain ⟨program, hkinds, hprogram⟩ := isSentence_iff.1 hsentence
    suffices hsame : program = kindsBeforeEof tokens by rwa [hsame] at hprogram
    -- the last token taken is the first that ends the input
    obtain ⟨g, hg⟩ : ∃ g, stage.parser.standing.generation = g + 1 := by
      cases hg : stage.parser.standing.generation with
      | zero => rw [hg] at hkinds; simp [takenOf] at hkinds
      | succ g => exact ⟨g, rfl⟩
    rw [hg, takenOf_succ] at hkinds
    obtain ⟨rfl, hlast⟩ := List.append_inj' hkinds rfl
    have hbefore : takenOf (streamOf tokens) (kindsBeforeEof tokens).length = kindsBeforeEof tokens :=
      (TokenList.shown_before tokens .start).1
    rcases Nat.lt_or_eq_of_le (le_of_eof_not_mem (eof_not_mem hprogram)) with hlt | heq
    · have hbegin : takenOf (streamOf tokens) (g + 1) <+:
          takenOf (streamOf tokens) (kindsBeforeEof tokens).length := takenOf_begin hlt
      rw [hbefore, takenOf_succ, hlast] at hbegin
      exact absurd (hbegin.subset (by simp)) (eof_not_mem_kindsBeforeEof tokens)
    · rw [heq, hbefore]

/-- A parse of tokens sees the same where the tokens are the same. -/
theorem streamOf_congr (hlength : n ≤ tokens.length) (htake : other.take n = tokens.take n) :
    ∀ k < n, streamOf other k = streamOf tokens k := by
  have hshown : ∀ (finish : Position) (tokens other : List Token) (n : Nat), n ≤ tokens.length →
      other.take n = tokens.take n → ∀ k < n,
        (TokenList.mk other finish).shown k = (TokenList.mk tokens finish).shown k := by
    intro finish tokens
    induction tokens generalizing finish with
    | nil =>
      intro other n hlength _ k hk
      simp only [List.length_nil] at hlength
      omega
    | cons token tokens ih =>
      intro other n hlength htake k hk
      obtain ⟨n, rfl⟩ : ∃ m, n = m + 1 := ⟨n - 1, by omega⟩
      cases other with
      | nil => simp at htake
      | cons first other =>
        rw [List.take_succ_cons, List.take_succ_cons] at htake
        obtain ⟨rfl, hrest⟩ := List.cons.inj htake
        cases k with
        | zero => rw [TokenList.shown, TokenList.shown]
        | succ k =>
          rw [TokenList.shown, TokenList.shown]
          rw [ih first.finish other n (by simpa using hlength) hrest k (by omega)]
  exact hshown .start tokens other n hlength htake

/-- **The parser recognises the programs of the grammar.** What it accepts is a program; and a program
is accepted unless it is nested too deeply, and never refused as a matter of syntax. -/
theorem parseTokens_recognises (tokens : List Token) :
    (parseTokens tokens = .ok () → IsProgram (kindsBeforeEof tokens)) ∧
      (IsProgram (kindsBeforeEof tokens) → parseTokens tokens = .ok () ∨
        ∃ position, parseTokens tokens = .error (.tooDeep nestingLimit position)) := by
  refine ⟨isProgram_of_ok, fun hprogram => ?_⟩
  obtain ⟨n, stage, hstage, hends, -⟩ := program_ends (reads_ofList tokens)
  have houtcome : (Parser.ofSource (TokenList.ofList tokens)).outcome = parseTokens tokens := rfl
  have hsound := Stage.sound_after rfl (reads_ofList tokens) hstage
  rw [houtcome] at hends
  cases hparse : parseTokens tokens with
  | ok value => exact .inl rfl
  | error error =>
    right
    cases error with
    | lexical error =>
      rw [hparse] at hends
      cases hends
    | unexpected error =>
      -- a program agrees with itself at all tokens, and cannot differ from itself by any
      have hdiffers := (refusal hparse).differs (n := (consumedTokens tokens).length + 2) hprogram
        fun _ _ => rfl
      omega
    | tooDeep limit position =>
      rw [hparse] at hends
      cases hends with
      | tooDeep hagenda hplan hlimit =>
        have hsome : stage.parser.standing.limit = some nestingLimit := hsound.limit
        rw [Standing.exhausted?, hsome, Option.filter_eq_some_iff] at hlimit
        obtain ⟨hlimit, -⟩ := hlimit
        cases hlimit
        exact ⟨_, rfl⟩

/-- **The expected kinds are those that can come**, an opening parenthesis apart: that is missing
exactly at the start of a simple condition and right after the identifier with which a fragment has
begun. After an identifier that a fragment negates it is not missing, since it cannot come there. -/
theorem expected_exact (h : parseTokens tokens = .error (.unexpected error)) :
    (∃ finish, consumedTokens tokens ++ [error.unexpected] <+: tokens ++ [.eof finish]) ∧
      (∀ kind ∈ error.expected, Viable (kindsIn (consumedTokens tokens) ++ [kind])) ∧
      (∀ kind, Viable (kindsIn (consumedTokens tokens) ++ [kind]) → kind ∉ error.expected →
        kind = .leftParen) ∧
      (Viable (kindsIn (consumedTokens tokens) ++ [.leftParen]) ∧ .leftParen ∉ error.expected ↔
        ComesToProbe tokens (consumedTokens tokens)) ∧
      ∀ earlier sign name, ComesTo tokens .fragment earlier → sign.kind = .minus →
        name.kind = .identifier → consumedTokens tokens = earlier ++ [sign, name] →
          ¬ Viable (kindsIn (consumedTokens tokens) ++ [.leftParen]) := by
  have hrefusal := refusal h
  refine ⟨hrefusal.stands, ?_, ?_, ?_, ?_⟩
  · intro kind hkind
    exact (hrefusal.expects kind).2 (.inl hkind)
  · intro kind hviable hother
    exact ((hrefusal.expects kind).1 hviable).resolve_left hother |>.2
  · constructor
    · rintro ⟨hviable, hother⟩
      exact ((hrefusal.expects _).1 hviable).resolve_left hother |>.1
    · intro hprobe
      exact ⟨(hrefusal.expects _).2 (.inr ⟨hprobe, rfl⟩), hrefusal.omits hprobe⟩
  · intro earlier sign name hfragment hsign hname hconsumed
    exact not_viable_after_negative hfragment hsign hname hconsumed

/-- After `main begin x := y` a closing parenthesis is refused, and an opening one is not expected. -/
theorem expected_exact_after_identifier :
    let tokens := tokensOf [.mainKw, .beginKw, .identifier, .assign, .identifier, .rightParen]
    let expected := KindSet.ofList [.semicolon, .plus, .minus]
    parseTokens tokens = .error (.unexpected ⟨.ofKind .rightParen .start, expected⟩) ∧
      (Viable (kindsIn (consumedTokens tokens) ++ [.leftParen]) ∧ .leftParen ∉ expected ↔
        ComesToProbe tokens (consumedTokens tokens)) := by
  intro tokens expected
  have hrefused : parseTokens tokens = .error (.unexpected ⟨.ofKind .rightParen .start, expected⟩) := by
    decide +kernel
  exact ⟨hrefused, (expected_exact hrefused).2.2.2.1⟩

/-- **A token is refused only if it is the first that cannot come.** What has been consumed can always
be continued to a sentence. A token that is refused cannot come after it, or it is an opening
parenthesis at a probe and cannot come there with the token behind it. -/
theorem refused_first (tokens : List Token) :
    (∃ finish, consumedTokens tokens <+: tokens ++ [.eof finish]) ∧
      Viable (kindsIn (consumedTokens tokens)) ∧
      ∀ error, parseTokens tokens = .error (.unexpected error) →
        (∃ finish, consumedTokens tokens ++ [error.unexpected] <+: tokens ++ [.eof finish]) ∧
        (¬ Viable (kindsIn (consumedTokens tokens) ++ [error.unexpected.kind]) ∨
          error.unexpected.kind = .leftParen ∧ ComesToProbe tokens (consumedTokens tokens) ∧
            ∃ second finish,
              consumedTokens tokens ++ [error.unexpected, second] <+: tokens ++ [.eof finish] ∧
                ¬ Viable (kindsIn (consumedTokens tokens) ++ [.leftParen, second.kind])) ∧
          ∀ accepted n, parseTokens accepted = .ok () → n ≤ accepted.length →
            tokens.take n = accepted.take n →
              n ≤ (consumedTokens tokens).length + 1 ∧
                (n = (consumedTokens tokens).length + 1 → error.unexpected.kind = .leftParen) := by
  refine ⟨consumedTokens_begin tokens, viable_consumedTokens tokens, fun error h => ⟨?_, ?_, ?_⟩⟩
  · exact (refusal h).stands
  · have hrefusal := refusal h
    refine hrefusal.dead.imp_right ?_
    rintro ⟨hprobe, hnext, hdead⟩
    refine ⟨hnext, hprobe, ?_⟩
    obtain ⟨finish, hbegin⟩ := hrefusal.stands_second (by rw [hnext]; decide)
    rw [hnext] at hdead
    exact ⟨_, finish, hbegin, hdead⟩
  · intro accepted n haccepted hlength htake
    exact (refusal h).differs (isProgram_of_ok haccepted) (streamOf_congr hlength htake)

end Cal
