import Cal.Token.Kind

/-!
# Lexemes

The characters of a token, read off the front of a text. Of the operators the longer one is taken;
a minus sign directly before a digit from one to nine begins a number; a number that begins with
zero is that zero alone; and a word is a keyword or else an identifier. Letters and digits are the
ASCII ones, so that every other character belongs to no token.
-/

namespace Cal

/-- The characters of a token, their kind, and the characters after them. -/
structure Lexeme where
  kind : TokenKind
  chars : List Char
  rest : List Char
deriving DecidableEq

namespace Lexeme

/-- An operator of two characters. -/
def pair? : List Char → Option Lexeme
  | ':' :: '=' :: rest => some ⟨.assign, [':', '='], rest⟩
  | '<' :: '>' :: rest => some ⟨.notEqual, ['<', '>'], rest⟩
  | '<' :: '=' :: rest => some ⟨.lessEqual, ['<', '='], rest⟩
  | '>' :: '=' :: rest => some ⟨.greaterEqual, ['>', '='], rest⟩
  | _ => none

/-- Whether a character can begin a number other than zero. -/
def isLeadingDigit (c : Char) : Bool := c.isDigit && c != '0'

/-- A number with a minus sign. -/
def negative? : List Char → Option Lexeme
  | '-' :: c :: rest =>
    if isLeadingDigit c then
      some ⟨.number, '-' :: c :: rest.takeWhile Char.isDigit, rest.dropWhile Char.isDigit⟩
    else none
  | _ => none

/-- The kind that a character is by itself. -/
def single? : Char → Option TokenKind
  | '(' => some .leftParen
  | ')' => some .rightParen
  | ',' => some .comma
  | ':' => some .colon
  | ';' => some .semicolon
  | '+' => some .plus
  | '-' => some .minus
  | '=' => some .equal
  | '<' => some .less
  | '>' => some .greater
  | _ => none

/-- A token of one character. -/
def punctuation? : List Char → Option Lexeme
  | c :: rest => (single? c).map fun kind => ⟨kind, [c], rest⟩
  | [] => none

/-- A number without a sign. -/
def number? : List Char → Option Lexeme
  | c :: rest =>
    if c = '0' then some ⟨.number, [c], rest⟩
    else if c.isDigit then
      some ⟨.number, c :: rest.takeWhile Char.isDigit, rest.dropWhile Char.isDigit⟩
    else none
  | [] => none

/-- Whether a character can stand in a word after its first. -/
def isWordChar (c : Char) : Bool := c.isAlphanum || c = '_'

/-- The kind of a word. -/
def wordKind (word : List Char) : TokenKind :=
  (TokenKind.keyword? (String.ofList word)).getD .identifier

/-- A keyword or an identifier. -/
def word? : List Char → Option Lexeme
  | c :: rest =>
    if c.isAlpha then
      some ⟨wordKind (c :: rest.takeWhile isWordChar), c :: rest.takeWhile isWordChar,
        rest.dropWhile isWordChar⟩
    else none
  | [] => none

/-- The token at the front of a text, if its first character begins one. -/
def read? (text : List Char) : Option Lexeme :=
  pair? text <|> negative? text <|> punctuation? text <|> number? text <|> word? text

/-- A lexeme and what follows it are the text it was read from, and the lexeme is not empty. -/
def Splits (lexeme : Lexeme) (text : List Char) : Prop :=
  lexeme.chars ++ lexeme.rest = text ∧ lexeme.chars ≠ []

variable {text : List Char} {lexeme : Lexeme}

theorem splits_of_pair? (h : pair? text = some lexeme) : lexeme.Splits text := by
  unfold pair? at h
  split at h <;> cases h <;> simp [Splits]

theorem splits_of_negative? (h : negative? text = some lexeme) : lexeme.Splits text := by
  unfold negative? at h
  split at h
  · split at h <;> cases h
    simp [Splits]
  · cases h

theorem splits_of_punctuation? (h : punctuation? text = some lexeme) : lexeme.Splits text := by
  cases text with
  | nil => cases h
  | cons c rest =>
    obtain ⟨kind, _, rfl⟩ := Option.map_eq_some_iff.1 h
    simp [Splits]

theorem splits_of_number? (h : number? text = some lexeme) : lexeme.Splits text := by
  cases text with
  | nil => cases h
  | cons c rest =>
    simp only [number?] at h
    split at h
    · cases h; simp [Splits]
    · split at h <;> cases h
      simp [Splits]

theorem splits_of_word? (h : word? text = some lexeme) : lexeme.Splits text := by
  cases text with
  | nil => cases h
  | cons c rest =>
    simp only [word?] at h
    split at h <;> cases h
    simp [Splits]

/-- **A token is taken off the front of a text**, and nothing of the text is lost. -/
theorem splits_of_read? (h : read? text = some lexeme) : lexeme.Splits text := by
  simp only [read?, Option.orElse_eq_orElse, Option.orElse_eq_or, Option.or_eq_some_iff] at h
  rcases h with h | ⟨_, h | ⟨_, h | ⟨_, h | ⟨_, h⟩⟩⟩⟩
  · exact splits_of_pair? h
  · exact splits_of_negative? h
  · exact splits_of_punctuation? h
  · exact splits_of_number? h
  · exact splits_of_word? h

theorem Splits.rest_lt (h : lexeme.Splits text) : lexeme.rest.length < text.length := by
  have := List.length_pos_iff.2 h.2
  rw [← h.1, List.length_append]
  omega

end Lexeme

end Cal
