import Cal.Position
import Cal.Token.Kind

/-!
# Tokens

A token is a kind, the text it was written as, and the position of its first character.
-/

namespace Cal

/-- One word of a program: what it is, how it is written, and where it stands. -/
structure Token where
  kind : TokenKind
  lexeme : String
  position : Position
deriving DecidableEq

namespace Token

/-- The token of a kind written as its fixed text, which is empty for a class of lexemes. -/
def ofKind (kind : TokenKind) (position : Position) : Token :=
  ⟨kind, kind.text?.getD "", position⟩

/-- The token that ends an input. -/
def eof (position : Position) : Token := ⟨.eof, "", position⟩

/-- Whether a token ends the input. -/
def isEof (token : Token) : Bool := token.kind = .eof

/-- The position just past a token, whose lexeme stands on one line. -/
def finish (token : Token) : Position := token.position.advanceColumns token.lexeme.length

@[simp]
theorem isEof_eof (position : Position) : (eof position).isEof := rfl

end Token

end Cal
