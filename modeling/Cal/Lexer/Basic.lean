import Cal.Lexer.Lexeme
import Cal.Lexer.Trivia
import Cal.Source.Basic

/-!
# The lexer

The lexer is a source of tokens over a text. It skips blanks and comments, takes a token off the
front of the rest, and replies the end of the input for ever once the text is used up. After an
error it can be asked again: past a comment that never ends there is nothing left, and past a
character that begins no token it goes on with the next one. A lexer reads a text by its bytes, so
after such a character of more than one byte it stands within the character, and there it stays.
-/

namespace Cal

/-- What a lexer has still to read: the text from a cursor on, or nothing because it stands within
the character that ends at `position`. -/
inductive Lexer
  | ready (cursor : Cursor)
  | stranded (position : Position)
deriving DecidableEq

namespace Lexer

/-- The lexer at the beginning of a text. -/
def ofString (text : String) : Lexer := ready (.ofString text)

/-- The lexer after the character `c`, which stands at `position` and begins no token. -/
def past (c : Char) (position : Position) (rest : List Char) : Lexer :=
  if c.utf8Size = 1 then ready ⟨position.after c, rest⟩ else stranded (position.after c)

/-- Reads a token at a place where no blank or comment begins. -/
def read : Cursor → EStateM.Result LexError Lexer Token
  | ⟨position, []⟩ => .ok (.eof position) (ready ⟨position, []⟩)
  | ⟨position, c :: rest⟩ =>
    match Lexeme.read? (c :: rest) with
    | some lexeme =>
      .ok ⟨lexeme.kind, String.ofList lexeme.chars, position⟩
        (ready ⟨position.afterAll lexeme.chars, lexeme.rest⟩)
    | none => .error (.unexpectedChar c position) (past c position rest)

/-- Reads the next token. -/
def next : EStateM LexError Lexer Token
  | stranded position => .error (.insideCharacter position) (stranded position)
  | ready cursor =>
    match Trivia.skip .blanks cursor.position cursor.rest with
    | .reached cursor => read cursor
    | .unclosed opened stop => .error (.unterminatedComment opened) (ready ⟨stop, []⟩)

instance : Source Lexer := ⟨next⟩

/-- The characters a lexer has still to read. -/
def rest : Lexer → List Char
  | ready cursor => cursor.rest
  | stranded _ => []

/-- **A token other than the end of the input takes at least one character.** -/
theorem rest_lt_of_next {lexer after : Lexer} {token : Token} (h : lexer.next = .ok token after) :
    token.isEof = true ∨ after.rest.length < lexer.rest.length := by
  match lexer with
  | stranded position => cases h
  | ready cursor =>
    simp only [next] at h
    split at h
    · rename_i reached hskip
      have hsuffix := (Trivia.suffix_of_skip hskip).length_le
      match reached with
      | ⟨position, []⟩ => cases h; exact .inl rfl
      | ⟨position, c :: chars⟩ =>
        simp only [read] at h
        split at h
        · rename_i lexeme hread
          cases h
          exact .inr (Nat.lt_of_lt_of_le (Lexeme.splits_of_read? hread).rest_lt hsuffix)
        · cases h
    · cases h

theorem settles (lexer : Lexer) : Source.Settles (lexer.rest.length + 1) lexer := by
  induction h : lexer.rest.length using Nat.strongRecOn generalizing lexer with
  | ind n ih =>
    unfold Source.Settles
    split
    · rename_i token after hnext
      refine (rest_lt_of_next hnext).imp_right fun hlt => ?_
      exact (ih _ (h ▸ hlt) after rfl).mono (by omega)
    · trivial

instance : FiniteSource Lexer where
  bound lexer := lexer.rest.length + 1
  settles := settles

end Lexer

/-- The tokens of a text, ending with the end of the input, or the first error. -/
def lexText (text : String) : Except LexError (List Token) := FiniteSource.drain (Lexer.ofString text)

end Cal
