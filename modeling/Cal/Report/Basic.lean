import Cal.Parse
import Cal.Report.Json

/-!
# Reports

The outcome of a parse for machines: a JSON object that says whether the program was accepted and,
if it was not, what kind of error it is and all that belongs to it.
-/

namespace Cal

open Json

/-- A position in a report. -/
def Position.toJson (position : Position) : Json :=
  object [("line", number position.line.toNat), ("column", number position.column.toNat)]

/-- A kind in a report. -/
def TokenKind.toJson (kind : TokenKind) : Json := string kind.tag

/-- A token in a report. -/
def Token.toJson (token : Token) : Json :=
  object [("kind", token.kind.toJson), ("lexeme", string token.lexeme),
    ("position", token.position.toJson)]

/-- The members of a report that tell a lexical error. -/
def LexError.members : LexError → List (String × Json)
  | unexpectedChar ch position =>
    [("kind", string "unexpected_char"), ("ch", string ch.toString), ("position", position.toJson)]
  | unterminatedComment position =>
    [("kind", string "unterminated_comment"), ("position", position.toJson)]
  | insideCharacter position => [("kind", string "inside_character"), ("position", position.toJson)]

/-- The members of a report that tell an error. -/
def ParseError.members : ParseError → List (String × Json)
  | lexical error => ("type", string "lex") :: error.members
  | unexpected error =>
    [("type", string "syntax"), ("unexpected", error.unexpected.toJson),
      ("expected", array (error.expected.kinds.map TokenKind.toJson))]
  | tooDeep limit position =>
    [("type", string "too_deep"), ("limit", number limit), ("position", position.toJson)]

/-- The report on an outcome. -/
def Outcome.report : Outcome → Json
  | .ok _ => object [("status", string "ok")]
  | .error error => object [("status", string "error"), ("error", object error.members)]

end Cal
