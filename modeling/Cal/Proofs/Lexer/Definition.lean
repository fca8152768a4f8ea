import Cal.Lexer.Lexeme
import Cal.Lexer.Trivia
import Cal.Token.Basic

/-!
# The lexical definition of CAL

What the tokens of a text are, with no account of how they are found.

* `Gap`: blanks and complete comments, one after the other.
* `Belongs`: the words of each kind, as a class of texts.
* `Longest`: the longest piece at the front of a text that is of some sort.
* `Reads`: the longest gap and then the longest word are taken off a text, again and again.
-/

namespace Cal

/-- The piece `taken` at the front of a text is of the sort `P` before what remains, and no longer
piece at the front of that text is. -/
structure Longest (P : List Char → List Char → Prop) (taken rest : List Char) : Prop where
  holds : P taken rest
  maximal : ∀ {other left}, other ++ left = taken ++ rest → P other left → other.length ≤ taken.length

namespace Longest

variable {P : List Char → List Char → Prop} {taken rest other left : List Char}

/-- If some piece at the front of a text is of a sort, then one of them is the longest. -/
theorem exists_of (h : P taken rest) :
    ∃ longest remaining, longest ++ remaining = taken ++ rest ∧ Longest P longest remaining := by
  induction hlength : rest.length using Nat.strongRecOn generalizing taken rest with
  | ind n ih =>
    by_cases hlonger : ∃ other left, other ++ left = taken ++ rest ∧ P other left ∧
        taken.length < other.length
    · obtain ⟨other, left, htext, hother, hlt⟩ := hlonger
      have htotal := congrArg List.length htext
      simp only [List.length_append] at htotal
      obtain ⟨longest, remaining, hlongest, hmaximal⟩ := ih left.length (by omega) hother rfl
      exact ⟨longest, remaining, hlongest.trans htext, hmaximal⟩
    · refine ⟨taken, rest, rfl, h, fun htext hother => ?_⟩
      exact Nat.le_of_not_lt fun hlt => hlonger ⟨_, _, htext, hother, hlt⟩

end Longest

namespace Trivia

/-- The characters from behind the opening of a block comment up to its closing, which is included.
Within them complete comments may stand. -/
inductive Enclosed : List Char → Prop
  | close : Enclosed ['*', '/']
  | nested {inner outer : List Char} : Enclosed inner → Enclosed outer →
    Enclosed ('/' :: '*' :: (inner ++ outer))
  | other {c : Char} {chars : List Char} : ¬ ['/', '*'] <+: c :: chars → ¬ ['*', '/'] <+: c :: chars →
    Enclosed chars → Enclosed (c :: chars)

/-- Blanks, line comments and complete block comments, before `rest`. A line comment goes on to the end
of its line. -/
inductive Gap : List Char → List Char → Prop
  | nil (rest : List Char) : Gap [] rest
  | blank {c : Char} {gap rest : List Char} : isBlank c = true → Gap gap rest → Gap (c :: gap) rest
  | line {comment gap rest : List Char} : '\n' ∉ comment → (∀ c ∈ (gap ++ rest).head?, c = '\n') →
    Gap gap rest → Gap ('/' :: '/' :: (comment ++ gap)) rest
  | block {comment gap rest : List Char} : Enclosed comment → Gap gap rest →
    Gap ('/' :: '*' :: (comment ++ gap)) rest

/-- A block comment that is open in front of `text` is not closed in it. -/
def NeverClosed (text : List Char) : Prop := ∀ comment, Enclosed comment → ¬ comment <+: text

end Trivia

namespace Lexeme

/-- The words of a kind: its fixed text; zero, or a number that does not begin with it, with or without
a minus sign; or a name that is no fixed text. -/
inductive Belongs : TokenKind → List Char → Prop
  | fixed {kind : TokenKind} {word : List Char} : kind.text? = some (String.ofList word) → Belongs kind word
  | zero : Belongs .number ['0']
  | unsigned {c : Char} {digits : List Char} : isLeadingDigit c = true → (∀ d ∈ digits, d.isDigit = true) →
    Belongs .number (c :: digits)
  | negative {c : Char} {digits : List Char} : isLeadingDigit c = true → (∀ d ∈ digits, d.isDigit = true) →
    Belongs .number ('-' :: c :: digits)
  | name {c : Char} {chars : List Char} : c.isAlpha = true → (∀ d ∈ chars, isWordChar d = true) →
    (∀ kind : TokenKind, kind.text? ≠ some (String.ofList (c :: chars))) → Belongs .identifier (c :: chars)

/-- A text is a word of some kind, whatever follows it. -/
def IsWord (word _rest : List Char) : Prop := ∃ kind, Belongs kind word

/-- No word stands at the front of a text. -/
def NoWord (text : List Char) : Prop := ∀ kind word, Belongs kind word → ¬ word <+: text

end Lexeme

/-- From a text at a position on, these words are read one after the other, each of which is the longest
word behind the longest gap. Behind the last word and the gap after it the position is `stop`, and `rest`
is left. -/
inductive Reads : Position → List Char → List Token → Position → List Char → Prop
  | stop {position : Position} {gap rest : List Char} : Longest Trivia.Gap gap rest →
    Reads position (gap ++ rest) [] (position.afterAll gap) rest
  | word {position stop : Position} {gap word text rest : List Char} {kind : TokenKind} {tokens : List Token} :
    Longest Trivia.Gap gap (word ++ text) → Longest Lexeme.IsWord word text → Lexeme.Belongs kind word →
    Reads ((position.afterAll gap).afterAll word) text tokens stop rest →
    Reads position (gap ++ (word ++ text)) (⟨kind, String.ofList word, position.afterAll gap⟩ :: tokens)
      stop rest

end Cal
