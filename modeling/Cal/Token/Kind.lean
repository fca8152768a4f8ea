/-!
# Kinds of tokens

The terminal symbols of CAL, in the order in which diagnostics list them. A kind either has one
fixed text (keywords, punctuation and operators) or stands for a class of lexemes (numbers,
identifiers, and the end of the input).
-/

namespace Cal

/-- A terminal symbol of CAL. The order of the constructors is the order of the kinds. -/
inductive TokenKind
  | eof
  | variableKw
  | constantKw
  | returnKw
  | integerKw
  | booleanKw
  | voidKw
  | mainKw
  | ifKw
  | elseKw
  | trueKw
  | falseKw
  | whileKw
  | skipKw
  | comma
  | semicolon
  | colon
  | assign
  | beginKw
  | isKw
  | endKw
  | leftParen
  | rightParen
  | plus
  | minus
  | notKw
  | andKw
  | orKw
  | equal
  | notEqual
  | less
  | lessEqual
  | greater
  | greaterEqual
  | number
  | identifier
deriving DecidableEq

namespace TokenKind

/-- Every kind, in ascending order. -/
def all : List TokenKind :=
  [eof, variableKw, constantKw, returnKw, integerKw, booleanKw, voidKw, mainKw, ifKw, elseKw, trueKw,
    falseKw, whileKw, skipKw, comma, semicolon, colon, assign, beginKw, isKw, endKw, leftParen,
    rightParen, plus, minus, notKw, andKw, orKw, equal, notEqual, less, lessEqual, greater,
    greaterEqual, number, identifier]

/-- The place of a kind in `all`. -/
def rank (kind : TokenKind) : Nat := kind.ctorIdx

instance : LT TokenKind := ⟨fun a b => a.rank < b.rank⟩

instance : LE TokenKind := ⟨fun a b => a.rank ≤ b.rank⟩

instance (a b : TokenKind) : Decidable (a < b) := inferInstanceAs (Decidable (a.rank < b.rank))

instance (a b : TokenKind) : Decidable (a ≤ b) := inferInstanceAs (Decidable (a.rank ≤ b.rank))

theorem mem_all (kind : TokenKind) : kind ∈ all := by cases kind <;> decide

instance {p : TokenKind → Prop} [DecidablePred p] : Decidable (∀ kind, p kind) :=
  decidable_of_iff (∀ kind ∈ all, p kind) ⟨fun h kind => h kind (mem_all kind), fun h kind _ => h kind⟩

theorem all_ascending : all.Pairwise (· < ·) := by decide

/-- The text of a kind that is always written the same way. -/
def text? : TokenKind → Option String
  | eof | number | identifier => none
  | variableKw => some "variable"
  | constantKw => some "constant"
  | returnKw => some "return"
  | integerKw => some "integer"
  | booleanKw => some "boolean"
  | voidKw => some "void"
  | mainKw => some "main"
  | ifKw => some "if"
  | elseKw => some "else"
  | trueKw => some "true"
  | falseKw => some "false"
  | whileKw => some "while"
  | skipKw => some "skip"
  | comma => some ","
  | semicolon => some ";"
  | colon => some ":"
  | assign => some ":="
  | beginKw => some "begin"
  | isKw => some "is"
  | endKw => some "end"
  | leftParen => some "("
  | rightParen => some ")"
  | plus => some "+"
  | minus => some "-"
  | notKw => some "not"
  | andKw => some "and"
  | orKw => some "or"
  | equal => some "="
  | notEqual => some "<>"
  | less => some "<"
  | lessEqual => some "<="
  | greater => some ">"
  | greaterEqual => some ">="

/-- The name of a class of lexemes, for the kinds without a fixed text. -/
def className : TokenKind → String
  | eof => "EOF"
  | number => "NUMBER"
  | identifier => "ID"
  | _ => ""

/-- How diagnostics write a kind: its text in quotes, or its class in angle brackets. -/
def image (kind : TokenKind) : String :=
  match kind.text? with
  | some text => "\"" ++ text ++ "\""
  | none => "<" ++ kind.className ++ ">"

/-- How reports name a kind. -/
def tag : TokenKind → String
  | eof => "eof"
  | comma => "comma"
  | semicolon => "semicolon"
  | colon => "colon"
  | assign => "assign"
  | leftParen => "l_paren"
  | rightParen => "r_paren"
  | plus => "plus"
  | minus => "minus"
  | equal => "equal"
  | notEqual => "not_equal"
  | less => "less"
  | lessEqual => "less_equal"
  | greater => "greater"
  | greaterEqual => "greater_equal"
  | number => "number"
  | identifier => "identifier"
  | keyword => keyword.text?.getD ""

/-- The reserved words. -/
def keywords : List TokenKind :=
  [variableKw, constantKw, returnKw, integerKw, booleanKw, voidKw, mainKw, ifKw, elseKw, trueKw,
    falseKw, whileKw, skipKw, beginKw, isKw, endKw, notKw, andKw, orKw]

/-- The reserved word that is written `word`, if there is one. Case matters. -/
def keyword? (word : String) : Option TokenKind := keywords.find? (·.text? = some word)

end TokenKind

end Cal
