import Cal.Lexer.Basic
import Cal.Proofs.Lexer.Gap
import Cal.Proofs.Lexer.Word
import Cal.Proofs.Lookahead.Outlook

/-!
# A lexer reads by the lexical definition

* `Reads.delivers`: a lexer replies the words that the definition reads.
* `exists_front`: what stands at the front of a text.
* `exists_reads`: the definition reads every text up to its end, or to a block comment that is never
  closed, or to a character that begins no word.
* `lexText_reads`: the tokens of a text, and its first error, in terms of the definition.
-/

namespace Cal

open Lexer

variable {position stop : Position} {c : Char} {gap word body text rest : List Char} {kind : TokenKind}
  {words : List Token}

namespace Lexer

/-- Behind the longest gap a lexer replies the longest word. -/
theorem next_word (position : Position) (hgap : Longest Trivia.Gap gap (word ++ text))
    (hword : Longest Lexeme.IsWord word text) (hkind : Lexeme.Belongs kind word) :
    next (ready ⟨position, gap ++ (word ++ text)⟩) =
      .ok ⟨kind, String.ofList word, position.afterAll gap⟩
        (ready ⟨(position.afterAll gap).afterAll word, text⟩) := by
  have hread := Lexeme.read?_of_longest hword hkind
  have hopen : ¬ ['/', '*'] <+: word ++ text := by
    rintro ⟨body, hbody⟩
    rw [← hbody] at hread
    cases hread
  simp only [next, Trivia.skip_longest hgap hopen]
  obtain ⟨c, chars, rfl⟩ := List.exists_cons_of_ne_nil hkind.ne_nil
  rw [List.cons_append] at hread ⊢
  simp only [read, hread]

theorem next_end (position : Position) (hgap : Longest Trivia.Gap gap []) :
    next (ready ⟨position, gap ++ []⟩) =
      .ok (.eof (position.afterAll gap)) (ready ⟨position.afterAll gap, []⟩) := by
  have hopen : ¬ ['/', '*'] <+: ([] : List Char) := by simp
  simp only [next, Trivia.skip_longest hgap hopen, read]

theorem next_unexpected (position : Position) (hgap : Longest Trivia.Gap gap (c :: text))
    (hopen : ¬ ['/', '*'] <+: c :: text) (hword : Lexeme.NoWord (c :: text)) :
    next (ready ⟨position, gap ++ c :: text⟩) =
      .error (.unexpectedChar c (position.afterAll gap)) (past c (position.afterAll gap) text) := by
  simp only [next, Trivia.skip_longest hgap hopen, read, Lexeme.read?_of_noWord hword]

theorem next_unterminated (position : Position) (hgap : Longest Trivia.Gap gap ('/' :: '*' :: text)) :
    next (ready ⟨position, gap ++ '/' :: '*' :: text⟩) =
      .error (.unterminatedComment (position.afterAll gap))
        (ready ⟨position.afterAll (gap ++ '/' :: '*' :: text), []⟩) := by
  simp only [next, Trivia.skip_unclosed position hgap]

end Lexer

namespace Reads

/-- **A lexer replies the words that the definition reads**, one after the other. It has the last gap,
and what stands behind it, to read then. -/
theorem delivers (h : Reads position text words stop rest) :
    ∃ before gap, Source.Delivers (ready ⟨position, text⟩) words (ready ⟨before, gap ++ rest⟩) ∧
      Longest Trivia.Gap gap rest ∧ stop = before.afterAll gap := by
  induction h with
  | @stop position gap rest hgap => exact ⟨position, gap, .nil _, hgap, rfl⟩
  | @word position stop gap word text rest kind tokens hgap hword hkind _ ih =>
    obtain ⟨before, last, hdelivers, hlast, hstop⟩ := ih
    have hnext := next_word position hgap hword hkind
    have hother : kind ≠ .eof := hkind.not_eof
    exact ⟨before, last, .cons hnext (by simpa [Token.isEof]) hdelivers, hlast, hstop⟩

/-- Nothing of a text is lost: it is gaps and words in turn, then a last gap, and what is left. -/
theorem interleaves (h : Reads position text words stop rest) :
    ∃ gaps last, gaps.length = words.length ∧
      (∀ gap ∈ gaps ++ [last], ∃ behind, Trivia.Gap gap behind) ∧
      text = (List.zipWith (fun gap word => gap ++ word.lexeme.toList) gaps words).flatten ++ (last ++ rest) := by
  induction h with
  | @stop position gap rest hgap => exact ⟨[], gap, rfl, by simpa using ⟨rest, hgap.holds⟩, rfl⟩
  | @word position stop gap word text rest kind tokens hgap _ _ _ ih =>
    obtain ⟨gaps, last, hlength, hgaps, htext⟩ := ih
    refine ⟨gap :: gaps, last, by simp [hlength], ?_, ?_⟩
    · rw [List.cons_append, List.forall_mem_cons]
      exact ⟨⟨_, hgap.holds⟩, hgaps⟩
    · rw [htext]
      simp

theorem isEof_eq_false (h : Reads position text words stop rest) : ∀ word ∈ words, word.isEof = false := by
  induction h with
  | stop => simp
  | word _ _ hkind _ ih =>
    rw [List.forall_mem_cons]
    exact ⟨by simpa [Token.isEof] using hkind.not_eof, ih⟩

end Reads

/-- A text begins with a longest word, or with none. -/
theorem exists_word (text : List Char) :
    Lexeme.NoWord text ∨ ∃ word rest kind, text = word ++ rest ∧ Longest Lexeme.IsWord word rest ∧
      Lexeme.Belongs kind word := by
  by_cases hword : Lexeme.NoWord text
  · exact .inl hword
  obtain ⟨kind, word, hkind, rest, rfl⟩ :
      ∃ kind word, Lexeme.Belongs kind word ∧ word <+: text := by simpa [Lexeme.NoWord] using hword
  have hsome : Lexeme.IsWord word rest := ⟨kind, hkind⟩
  obtain ⟨longest, remaining, htext, hlongest⟩ := Longest.exists_of hsome
  obtain ⟨kind, hkind⟩ := hlongest.holds
  exact .inr ⟨longest, remaining, kind, htext.symm, hlongest, hkind⟩

/-- How a reading can come to an end: with the text, at a block comment, or at a character that begins
no word. -/
inductive Stops : List Char → Prop
  | finished : Stops []
  | comment (body : List Char) : Stops ('/' :: '*' :: body)
  | strange {c : Char} {text : List Char} : ¬ ['/', '*'] <+: c :: text → Lexeme.NoWord (c :: text) →
    Stops (c :: text)

/-- **What stands at the front of a text**: the longest gap, and behind it an end or the longest word. -/
theorem exists_front (text : List Char) :
    ∃ gap rest, text = gap ++ rest ∧ Longest Trivia.Gap gap rest ∧
      (Stops rest ∨ ∃ word remaining kind, rest = word ++ remaining ∧ Longest Lexeme.IsWord word remaining ∧
        Lexeme.Belongs kind word) := by
  obtain ⟨gap, rest, htext, hgap⟩ := Longest.exists_of (Trivia.Gap.nil text)
  rw [List.nil_append] at htext
  refine ⟨gap, rest, htext.symm, hgap, ?_⟩
  by_cases hopen : ['/', '*'] <+: rest
  · obtain ⟨body, rfl⟩ := hopen
    exact .inl (.comment body)
  match rest with
  | [] => exact .inl .finished
  | c :: chars => exact (exists_word (c :: chars)).imp_left (.strange hopen)

/-- **The definition reads every text** up to one of these ends. -/
theorem exists_reads (position : Position) (text : List Char) :
    ∃ words stop rest, Reads position text words stop rest ∧ Stops rest := by
  induction hlength : text.length using Nat.strongRecOn generalizing position text with
  | ind n ih =>
    obtain ⟨gap, rest, rfl, hgap, hstops | ⟨word, remaining, kind, rfl, hword, hkind⟩⟩ := exists_front text
    · exact ⟨[], _, _, .stop hgap, hstops⟩
    · have hpos : 0 < word.length := List.length_pos_iff.2 hkind.ne_nil
      simp only [List.length_append] at hlength
      obtain ⟨words, stop, rest, hreads, hstops⟩ :=
        ih remaining.length (by omega) ((position.afterAll gap).afterAll word) remaining rfl
      exact ⟨_, stop, rest, .word hgap hword hkind hreads, hstops⟩

section Text

variable {source : String}

theorem lexText_end (h : Reads .start source.toList words stop []) :
    lexText source = .ok (words ++ [.eof stop]) := by
  obtain ⟨before, gap, hdelivers, hgap, rfl⟩ := h.delivers
  exact FiniteSource.drain_of_eof hdelivers (next_end before hgap) rfl

theorem lexText_unexpected (h : Reads .start source.toList words stop (c :: rest))
    (hopen : ¬ ['/', '*'] <+: c :: rest) (hword : Lexeme.NoWord (c :: rest)) :
    lexText source = .error (.unexpectedChar c stop) := by
  obtain ⟨before, gap, hdelivers, hgap, rfl⟩ := h.delivers
  exact FiniteSource.drain_of_error hdelivers (next_unexpected before hgap hopen hword)

theorem lexText_unterminated (h : Reads .start source.toList words stop ('/' :: '*' :: body)) :
    lexText source = .error (.unterminatedComment stop) ∧ Trivia.NeverClosed body := by
  obtain ⟨before, gap, hdelivers, hgap, rfl⟩ := h.delivers
  exact ⟨FiniteSource.drain_of_error hdelivers (next_unterminated before hgap),
    Trivia.neverClosed_of_longest hgap⟩

/-- **What comes of a text**, in terms of its reading. -/
theorem lexText_cases (source : String) :
    (∃ words stop, Reads .start source.toList words stop [] ∧
      lexText source = .ok (words ++ [.eof stop])) ∨
    (∃ words stop c rest, Reads .start source.toList words stop (c :: rest) ∧
      ¬ ['/', '*'] <+: c :: rest ∧ Lexeme.NoWord (c :: rest) ∧
      lexText source = .error (.unexpectedChar c stop)) ∨
    ∃ words stop body, Reads .start source.toList words stop ('/' :: '*' :: body) ∧
      Trivia.NeverClosed body ∧ lexText source = .error (.unterminatedComment stop) := by
  obtain ⟨words, stop, rest, hreads, hstops⟩ := exists_reads .start source.toList
  cases hstops with
  | finished => exact .inl ⟨words, stop, hreads, lexText_end hreads⟩
  | comment body =>
    obtain ⟨hlex, hclosed⟩ := lexText_unterminated hreads
    exact .inr (.inr ⟨words, stop, body, hreads, hclosed, hlex⟩)
  | @strange c rest hopen hword =>
    have hlex := lexText_unexpected hreads hopen hword
    exact .inr (.inl ⟨words, stop, c, rest, hreads, hopen, hword, hlex⟩)

/-- The tokens of a text make it up, with the gaps in front of them. -/
theorem interleaves_of_lexText {tokens : List Token} (h : lexText source = .ok tokens) :
    (∀ token ∈ tokens.dropLast, token.isEof = false) ∧
      ∃ gaps, gaps.length = tokens.length ∧ (∀ gap ∈ gaps, ∃ behind, Trivia.Gap gap behind) ∧
        source.toList =
          (List.zipWith (fun gap token => gap ++ token.lexeme.toList) gaps tokens).flatten := by
  obtain ⟨words, stop, hreads, hlex⟩ | ⟨_, _, _, _, _, _, _, hlex⟩ | ⟨_, _, _, _, _, hlex⟩ :=
    lexText_cases source <;> rw [h] at hlex <;> cases hlex
  obtain ⟨gaps, last, hlength, hgaps, htext⟩ := hreads.interleaves
  refine ⟨by simpa using hreads.isEof_eq_false, gaps ++ [last], by simp [hlength], hgaps, ?_⟩
  rw [List.zipWith_append hlength, htext]
  simp [Token.eof]

end Text

/-- **A text is read by longest matches.** Its tokens are the words that the definition reads, if that
comes to the end of the text, and one end of the input behind them. Else the error is the character where
no word begins, or the block comment that is never closed, behind the words read so far. With the gaps
between them the tokens make up the text. -/
theorem lexText_reads (text : String) :
    (∀ tokens, lexText text = .ok tokens ↔
      ∃ words stop, Reads .start text.toList words stop [] ∧ tokens = words ++ [.eof stop]) ∧
    (∀ c position, lexText text = .error (.unexpectedChar c position) ↔
      ∃ words rest, Reads .start text.toList words position (c :: rest) ∧
        ¬ ['/', '*'] <+: c :: rest ∧ Lexeme.NoWord (c :: rest)) ∧
    (∀ position, lexText text = .error (.unterminatedComment position) ↔
      ∃ words body, Reads .start text.toList words position ('/' :: '*' :: body) ∧
        Trivia.NeverClosed body) ∧
    (∀ position, lexText text ≠ .error (.insideCharacter position)) ∧
    ∀ tokens, lexText text = .ok tokens → (∀ token ∈ tokens.dropLast, token.isEof = false) ∧
      ∃ gaps, gaps.length = tokens.length ∧ (∀ gap ∈ gaps, ∃ behind, Trivia.Gap gap behind) ∧
        text.toList = (List.zipWith (fun gap token => gap ++ token.lexeme.toList) gaps tokens).flatten := by
  refine ⟨fun tokens => ⟨fun h => ?_, ?_⟩, fun c position => ⟨fun h => ?_, ?_⟩,
    fun position => ⟨fun h => ?_, ?_⟩, fun position h => ?_, fun tokens h => interleaves_of_lexText h⟩
  · obtain ⟨words, stop, hreads, hlex⟩ | ⟨_, _, _, _, _, _, _, hlex⟩ | ⟨_, _, _, _, _, hlex⟩ :=
      lexText_cases text <;> rw [h] at hlex <;> cases hlex
    exact ⟨words, stop, hreads, rfl⟩
  · rintro ⟨words, stop, hreads, rfl⟩
    exact lexText_end hreads
  · obtain ⟨_, _, _, hlex⟩ | ⟨words, stop, c, rest, hreads, hopen, hword, hlex⟩ |
      ⟨_, _, _, _, _, hlex⟩ := lexText_cases text <;> rw [h] at hlex <;> cases hlex
    exact ⟨words, rest, hreads, hopen, hword⟩
  · rintro ⟨words, rest, hreads, hopen, hword⟩
    exact lexText_unexpected hreads hopen hword
  · obtain ⟨_, _, _, hlex⟩ | ⟨_, _, _, _, _, _, _, hlex⟩ | ⟨words, stop, body, hreads, hclosed, hlex⟩ :=
      lexText_cases text <;> rw [h] at hlex <;> cases hlex
    exact ⟨words, body, hreads, hclosed⟩
  · rintro ⟨words, body, hreads, -⟩
    exact (lexText_unterminated hreads).1
  · obtain ⟨_, _, _, hlex⟩ | ⟨_, _, _, _, _, _, _, hlex⟩ | ⟨_, _, _, _, _, hlex⟩ :=
      lexText_cases text <;> rw [h] at hlex <;> cases hlex

end Cal
