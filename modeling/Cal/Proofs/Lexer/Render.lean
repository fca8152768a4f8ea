import Cal.Proofs.Lexer.Tokenise

/-!
# Writing words out and reading them back

A list of words can be written as a text in many ways: any filler may stand in front of the first
word and behind the last, and any filler that is not empty between two words. All of these texts
have the same tokens, wherever they stand.

* `Filler`, `Trailing`: what may stand between words, and at the end of a text.
* `longest_word`, `longest_gap`: a word ends where filler begins, and filler where a word begins.
* `Rendering`: a list of words with filler around them, and `Rendering.reads`, how it is read.
* `lexText_rendering`: every rendering reads back as its words, and every text that has tokens has
  those of its words written with a space between them.
-/

namespace Cal

/-- A word of the language, with its kind. -/
structure Word where
  kind : TokenKind
  chars : List Char
  belongs : Lexeme.Belongs kind chars

/-- What a word is and how it is written. -/
def Word.spelling (word : Word) : TokenKind × String := (word.kind, String.ofList word.chars)

/-- What a token is and how it is written, wherever it stands. -/
def Token.spelling (token : Token) : TokenKind × String := (token.kind, token.lexeme)

namespace Trivia

/-- Blanks, line comments together with the ends of their lines, and complete block comments. -/
inductive Filler : List Char → Prop
  | nil : Filler []
  | blank {c : Char} {gap : List Char} : isBlank c = true → Filler gap → Filler (c :: gap)
  | line {comment gap : List Char} : '\n' ∉ comment → Filler gap →
    Filler ('/' :: '/' :: (comment ++ '\n' :: gap))
  | block {comment gap : List Char} : Enclosed comment → Filler gap →
    Filler ('/' :: '*' :: (comment ++ gap))

/-- Filler at the end of a text, where a line comment may go on to the end. -/
inductive Trailing : List Char → Prop
  | filler {gap : List Char} : Filler gap → Trailing gap
  | comment {gap comment : List Char} : Filler gap → '\n' ∉ comment →
    Trailing (gap ++ '/' :: '/' :: comment)

/-- Filler can begin with this character. -/
def Opens (c : Char) : Prop := isBlank c = true ∨ c = '/'

instance (c : Char) : Decidable (Opens c) := inferInstanceAs (Decidable (isBlank c = true ∨ c = '/'))

variable {c : Char} {gap rest text : List Char} {position : Position}

/-- Filler is a gap before everything. -/
theorem Filler.toGap (h : Filler gap) (rest : List Char) : Gap gap rest := by
  induction h with
  | nil => exact .nil rest
  | blank hc _ ih => exact .blank hc ih
  | line hline _ ih =>
    have hbreak : Gap ('\n' :: _) rest := .blank rfl ih
    exact .line hline (by simp) hbreak
  | block henclosed _ ih => exact .block henclosed ih

theorem Trailing.toGap (h : Trailing gap) : Gap gap [] := by
  cases h with
  | filler hfiller => exact hfiller.toGap []
  | @comment gap comment hfiller hline =>
    have hlast : Gap ('/' :: '/' :: (comment ++ [])) [] := .line hline (by simp) (.nil [])
    rw [List.append_nil] at hlast
    exact (hfiller.toGap _).append hlast (List.append_nil _).symm

theorem Filler.opens (h : Filler gap) : ∀ c ∈ gap.head?, Opens c := by
  intro c hc
  cases h with
  | nil => cases hc
  | blank hblank _ =>
    cases hc
    exact .inl hblank
  | line | block =>
    cases hc
    exact .inr rfl

theorem Trailing.opens (h : Trailing gap) : ∀ c ∈ gap.head?, Opens c := by
  cases h with
  | filler hfiller => exact hfiller.opens
  | @comment gap comment hfiller hline =>
    intro c hc
    rw [List.head?_append, Option.mem_def, Option.or_eq_some_iff] at hc
    rcases hc with hc | ⟨-, hc⟩
    · exact hfiller.opens c hc
    · cases hc
      exact .inr rfl

/-- Skipping stops at a character that begins no filler. -/
theorem skip_of_not_opens (hc : ¬ Opens c) :
    skip .blanks position (c :: text) = .reached ⟨position, c :: text⟩ := by
  obtain ⟨hblank, hslash⟩ : isBlank c = false ∧ c ≠ '/' := by simpa [Opens] using hc
  unfold skip
  split <;> simp_all

/-- A gap is the longest one if skipping stops behind it. -/
theorem longest_of_skip (hgap : Gap gap rest)
    (hstop : ∀ position, skip .blanks position rest = .reached ⟨position, rest⟩) :
    Longest Gap gap rest := by
  refine ⟨hgap, fun {other left} htext hother => ?_⟩
  have hskip : skip .blanks .start (other ++ left) = .reached ⟨Position.start.afterAll gap, rest⟩ := by
    rw [htext, skip_gap hgap, hstop]
  rw [skip_gap hother] at hskip
  have hle : rest.length ≤ left.length := (suffix_of_skip hskip).length_le
  have hlength := congrArg List.length htext
  simp only [List.length_append] at hlength
  omega

end Trivia

namespace Lexeme

variable {c : Char} {kind : TokenKind} {word gap rest : List Char}

theorem not_opens_of_isWordChar (h : isWordChar c = true) : ¬ Trivia.Opens c := by
  rintro (hblank | rfl)
  · have hcases : (((c = ' ' ∨ c = '\t') ∨ c = '\r') ∨ c = '\n') ∨ c = '\x0c' := by
      simpa [Trivia.isBlank] using hblank
    obtain (((rfl | rfl) | rfl) | rfl) | rfl := hcases <;> exact absurd h (by decide)
  · exact absurd h (by decide)

theorem not_opens_of_mem_marks (h : c ∈ marks) : ¬ Trivia.Opens c := by
  have hall : marks.all (¬ Trivia.Opens ·) = true := by decide
  simpa using List.all_eq_true.1 hall c h

/-- **No word has a character in it that begins filler.** -/
theorem Belongs.not_opens (h : Belongs kind word) : ∀ c ∈ word, ¬ Trivia.Opens c := fun c hc =>
  (h.characters c hc).elim not_opens_of_isWordChar not_opens_of_mem_marks

/-- **A word ends where filler begins**, or at the end of the text. -/
theorem longest_word (h : Belongs kind word) (hrest : ∀ c ∈ rest.head?, Trivia.Opens c) :
    Longest IsWord word rest := by
  refine ⟨⟨kind, h⟩, fun {other left} htext => ?_⟩
  rintro ⟨otherKind, hother⟩
  by_contra hlonger
  have hprefix : word <+: other :=
    List.prefix_of_prefix_length_le ⟨rest, htext.symm⟩ ⟨left, rfl⟩ (by omega)
  obtain ⟨more, rfl⟩ := hprefix
  match more with
  | [] => simp at hlonger
  | c :: more =>
    have hrest' : c :: (more ++ left) = rest := by simpa using htext
    have hopens : Trivia.Opens c := hrest c (by simp [← hrest'])
    exact hother.not_opens c (by simp) hopens

/-- **A gap ends where a word begins.** -/
theorem longest_gap (h : Belongs kind word) (hgap : Trivia.Gap gap (word ++ rest)) :
    Longest Trivia.Gap gap (word ++ rest) := by
  obtain ⟨c, chars, rfl⟩ := List.exists_cons_of_ne_nil h.ne_nil
  have hc : ¬ Trivia.Opens c := h.not_opens c (by simp)
  exact Trivia.longest_of_skip hgap fun position => Trivia.skip_of_not_opens hc

end Lexeme

/-- Words written out: each with the filler in front of it, which is not empty between two words, and
what stands behind the last one. -/
structure Rendering where
  pieces : List (List Char × Word)
  last : List Char
  filled : ∀ piece ∈ pieces, Trivia.Filler piece.1
  apart : ∀ piece ∈ pieces.tail, piece.1 ≠ []
  closed : Trivia.Trailing last

namespace Rendering

/-- The characters of a rendering. -/
def chars (rendering : Rendering) : List Char :=
  rendering.pieces.flatMap (fun piece => piece.1 ++ piece.2.chars) ++ rendering.last

/-- The text of a rendering. -/
def text (rendering : Rendering) : String := String.ofList rendering.chars

/-- The words of a rendering. -/
def words (rendering : Rendering) : List Word := rendering.pieces.map (·.2)

/-- Behind a word the rest of a rendering begins with filler, if anything is left of it. -/
theorem opens (rendering : Rendering) (hfirst : ∀ piece ∈ rendering.pieces, piece.1 ≠ []) :
    ∀ c ∈ rendering.chars.head?, Trivia.Opens c := by
  obtain ⟨pieces, last, hfilled, hapart, hclosed⟩ := rendering
  match pieces with
  | [] => exact hclosed.opens
  | (gap, word) :: pieces =>
    obtain ⟨c, rest, rfl⟩ := List.exists_cons_of_ne_nil (hfirst (gap, word) (by simp))
    have hfiller : Trivia.Filler (c :: rest) := hfilled (c :: rest, word) (by simp)
    simpa [chars] using hfiller.opens

/-- **A rendering is read as its words.** -/
theorem reads (rendering : Rendering) (position : Position) :
    ∃ tokens stop, Reads position rendering.chars tokens stop [] ∧
      tokens.map Token.spelling = rendering.words.map Word.spelling := by
  obtain ⟨pieces, last, hfilled, hapart, hclosed⟩ := rendering
  induction pieces generalizing position with
  | nil =>
    have hgap : Longest Trivia.Gap last [] := Trivia.longest_of_skip hclosed.toGap fun _ => rfl
    have hreads : Reads position (last ++ []) [] (position.afterAll last) [] := .stop hgap
    rw [List.append_nil] at hreads
    exact ⟨[], _, hreads, rfl⟩
  | cons piece pieces ih =>
    obtain ⟨gap, word⟩ := piece
    obtain ⟨hfiller, hpieces⟩ := List.forall_mem_cons.1 hfilled
    have hlater : ∀ piece ∈ pieces.tail, piece.1 ≠ [] :=
      fun piece hpiece => hapart piece (List.mem_of_mem_tail hpiece)
    -- What stands behind the word is a rendering too, whose first filler is not empty.
    let behind : Rendering := ⟨pieces, last, hpieces, hlater, hclosed⟩
    obtain ⟨tokens, stop, hreads, hspelled⟩ := ih ((position.afterAll gap).afterAll word.chars) hpieces hlater
    have hword : Longest Lexeme.IsWord word.chars behind.chars :=
      Lexeme.longest_word word.belongs (opens behind hapart)
    have hgap : Longest Trivia.Gap gap (word.chars ++ behind.chars) :=
      Lexeme.longest_gap word.belongs (hfiller.toGap _)
    refine ⟨_, stop, by simpa [chars, behind] using Reads.word hgap hword word.belongs hreads, ?_⟩
    rw [List.map_cons, hspelled]
    rfl

theorem lexText_text (rendering : Rendering) :
    (lexText rendering.text).map (·.map Token.spelling) =
      .ok (rendering.words.map Word.spelling ++ [(.eof, "")]) := by
  obtain ⟨tokens, stop, hreads, hspelled⟩ := rendering.reads .start
  rw [← String.toList_ofList (l := rendering.chars)] at hreads
  rw [text, lexText_end hreads, ← hspelled]
  simp [Except.map, Token.spelling, Token.eof]

/-- Words with a space between any two neighbours. -/
def spaced (words : List Word) {last : List Char} (closed : Trivia.Trailing last) : Rendering where
  pieces := match words with
    | [] => []
    | word :: words => ([], word) :: words.map ([' '], ·)
  last := last
  filled := by
    have hspace : Trivia.Filler [' '] := .blank rfl .nil
    have hnone : Trivia.Filler [] := .nil
    cases words <;> simp [hspace, hnone]
  apart := by
    cases words <;> simp
  closed := closed

variable {last : List Char} {closed : Trivia.Trailing last}

theorem words_spaced (words : List Word) : (spaced words closed).words = words := by
  cases words <;> simp [spaced, Rendering.words, Function.comp_def]

theorem intercalate_cons {α : Type} (between piece : List α) (pieces : List (List α)) :
    between.intercalate (piece :: pieces) = piece ++ pieces.flatMap (between ++ ·) := by
  induction pieces generalizing piece with
  | nil => simp [List.intercalate]
  | cons next pieces ih => rw [List.intercalate_cons_cons, ih, List.flatMap_cons, List.append_assoc, List.append_assoc]

theorem text_spaced (words : List Word) :
    (spaced words (.filler .nil)).text = " ".intercalate (words.map (·.spelling.2)) := by
  rw [← String.toList_inj, String.toList_intercalate, text, String.toList_ofList]
  match words with
  | [] => rfl
  | word :: words =>
    rw [List.map_cons, List.map_cons, intercalate_cons]
    simp [spaced, chars, Word.spelling, List.flatMap_map]

/-- Behind the last word there is one more space, before the end of the input, which is not written. -/
theorem text_spaced_eof (word : Word) (words : List Word) :
    (spaced (word :: words) (.filler (.blank rfl .nil : Trivia.Filler [' ']))).text =
      " ".intercalate ((word :: words).map (·.spelling.2) ++ [""]) := by
  rw [← String.toList_inj, String.toList_intercalate, text, String.toList_ofList]
  rw [List.map_append, List.map_cons, List.map_cons, List.cons_append, intercalate_cons]
  simp [spaced, chars, Word.spelling, List.flatMap_map]

end Rendering

/-- What is read are words. -/
theorem Reads.exists_words {position stop : Position} {text rest : List Char} {tokens : List Token}
    (h : Reads position text tokens stop rest) :
    ∃ words : List Word, tokens.map Token.spelling = words.map Word.spelling := by
  induction h with
  | stop => exact ⟨[], rfl⟩
  | @word _ _ _ word _ _ kind _ _ _ hkind _ ih =>
    obtain ⟨words, hwords⟩ := ih
    refine ⟨⟨kind, word, hkind⟩ :: words, ?_⟩
    rw [List.map_cons, hwords]
    rfl

/-- **Words that are written out read back as themselves**, whatever filler stands between and around
them. The tokens of any text are such words and an end of the input, so that its lexemes with a space
between any two, that of the end of the input included or not, have the same tokens up to their
positions. -/
theorem lexText_rendering :
    (∀ rendering : Rendering, (lexText rendering.text).map (·.map Token.spelling) =
      .ok (rendering.words.map Word.spelling ++ [(.eof, "")])) ∧
    ∀ text tokens, lexText text = .ok tokens →
      (∃ words : List Word, tokens.map Token.spelling = words.map Word.spelling ++ [(.eof, "")]) ∧
      (lexText (" ".intercalate (tokens.map Token.lexeme))).map (·.map Token.spelling) =
        .ok (tokens.map Token.spelling) ∧
      (lexText (" ".intercalate (tokens.dropLast.map Token.lexeme))).map (·.map Token.spelling) =
        .ok (tokens.map Token.spelling) := by
  refine ⟨Rendering.lexText_text, fun text tokens htokens => ?_⟩
  obtain ⟨read, stop, hreads, hlex⟩ | ⟨_, _, _, _, _, _, _, hlex⟩ | ⟨_, _, _, _, _, hlex⟩ :=
    lexText_cases text <;> rw [htokens] at hlex <;> cases hlex
  obtain ⟨words, hwords⟩ := hreads.exists_words
  have hspelled : (read ++ [Token.eof stop]).map Token.spelling = words.map Word.spelling ++ [(.eof, "")] := by
    rw [List.map_append, hwords]
    rfl
  have hlexemes : read.map Token.lexeme = words.map (·.spelling.2) := by
    have hseconds := congrArg (List.map Prod.snd) hwords
    simpa [Token.spelling, Function.comp_def] using hseconds
  have hspaced : (lexText (" ".intercalate (words.map (·.spelling.2)))).map (·.map Token.spelling) =
      .ok (words.map Word.spelling ++ [(.eof, "")]) := by
    rw [← Rendering.text_spaced, Rendering.lexText_text, Rendering.words_spaced]
  refine ⟨⟨words, hspelled⟩, ?_, ?_⟩
  · rw [hspelled, List.map_append, hlexemes]
    cases words with
    | nil => exact hspaced
    | cons word words =>
      have hlast := Rendering.lexText_text (.spaced (word :: words) (.filler (.blank rfl .nil : Trivia.Filler [' '])))
      rwa [Rendering.text_spaced_eof, Rendering.words_spaced] at hlast
  · rwa [hspelled, List.dropLast_concat, hlexemes]

example : (lexText "-/* one /* // */ two */1//").map (·.map Token.spelling) =
    .ok [(.minus, "-"), (.number, "1"), (.eof, "")] := rfl

end Cal
