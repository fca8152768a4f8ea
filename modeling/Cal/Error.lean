import Cal.Text.Quoted
import Cal.Token.Basic
import Cal.Token.KindSet

/-!
# What can be wrong with a program

A text can hold characters that belong to no token, or a comment that never ends. A sequence of
tokens can stop being the beginning of a program, and then the first token that does not fit is
reported together with the kinds that would have. A program can also be nested deeper than a
parser is willing to go. Each cause has one message.
-/

namespace Cal

/-- What is wrong with the characters of a text. -/
inductive LexError
  /-- The character `ch` begins no token. -/
  | unexpectedChar (ch : Char) (position : Position)
  /-- The comment that opens at `position` is never closed. -/
  | unterminatedComment (position : Position)
  /-- The text was to be read on from within a character, which ends at `position`. -/
  | insideCharacter (position : Position)
deriving DecidableEq

/-- The first token that does not fit, and the kinds that would have. -/
structure SyntaxError where
  unexpected : Token
  expected : KindSet
deriving DecidableEq

/-- Why a program is refused. -/
inductive ParseError
  | lexical (error : LexError)
  | unexpected (error : SyntaxError)
  /-- The token at `position` would open one more body than the `limit`. -/
  | tooDeep (limit : Nat) (position : Position)
deriving DecidableEq

namespace LexError

/-- Where the text is wrong. -/
def position : LexError → Position
  | unexpectedChar _ position | unterminatedComment position | insideCharacter position => position

/-- What is wrong there. -/
def reason : LexError → String
  | unexpectedChar ch _ => "unexpected character " ++ Text.quote ch
  | unterminatedComment _ => "unterminated block comment"
  | insideCharacter _ => "resumed inside a character"

/-- The message for people. -/
def message (error : LexError) : String :=
  "Lexical error at " ++ error.position.text ++ ": " ++ error.reason

end LexError

namespace SyntaxError

/-- Whether `kind` would have fitted. -/
def expects (error : SyntaxError) (kind : TokenKind) : Bool := kind ∈ error.expected

/-- The unexpected token as messages show it. -/
def encountered (token : Token) : String :=
  if token.isEof then TokenKind.eof.image else "\"" ++ token.lexeme ++ "\""

/-- The lines that list the kinds that would have fitted, one line per kind. -/
def wanted : List TokenKind → String
  | [] => ""
  | [kind] => "\nWas expecting:\n    " ++ kind.image ++ " ..."
  | kinds =>
    "\nWas expecting one of:" ++ String.join (kinds.map fun kind => "\n    " ++ kind.image ++ " ...")

/-- The message for people. -/
def message (error : SyntaxError) : String :=
  "Encountered " ++ encountered error.unexpected ++ " at " ++ error.unexpected.position.text ++ "." ++
    wanted error.expected.kinds

end SyntaxError

/-- The message for people. -/
def ParseError.message : ParseError → String
  | lexical error => error.message
  | unexpected error => error.message
  | tooDeep limit position => s!"Nesting depth exceeds {limit} at " ++ position.text

end Cal
