import Cal.Grammar.Rule

/-!
# The grammar of CAL

A form describes token kinds in sequence: a literal kind, what a rule derives, one form after
another, or one of two. `Rule.body` gives the production of every rule, and `Derives` reads
the productions as a plain context-free grammar: any alternative may be taken, without regard to
the kind that comes next and without a limit on nesting.
-/

namespace Cal

/-- A description of token kinds in sequence. -/
inductive Form
  | empty
  | token (kind : TokenKind)
  | rule (rule : Rule)
  | both (first second : Form)
  | either (left right : Form)
deriving DecidableEq

namespace Form

/-- The forms of a list, one after the other. -/
def seq : List Form → Form
  | [] => empty
  | [form] => form
  | form :: forms => both form (seq forms)

/-- One of the forms of a list, or nothing at all if the list is empty. -/
def oneOf : List Form → Form
  | [] => empty
  | [form] => form
  | form :: forms => either form (oneOf forms)

/-- A form that may be left out. -/
def optional (form : Form) : Form := either form empty

end Form

open TokenKind Form in
/-- The production of each rule. -/
def Rule.body : Rule → Form
  | program => seq [rule declList, rule functionList, rule main]
  | declList => optional (seq [rule decl, token semicolon, rule declList])
  | decl => oneOf [rule varDecl, rule constDecl]
  | varDecl => seq [token variableKw, token identifier, token colon, rule type]
  | constDecl =>
    seq [token constantKw, token identifier, token colon, rule type, token assign, rule expression]
  | functionList => optional (seq [rule function, rule functionList])
  | function =>
    seq [rule type, token identifier, token leftParen, rule parameterList, token rightParen,
      token isKw, rule declList, token beginKw, rule statementBlock, token returnKw,
      token leftParen, optional (rule expression), token rightParen, token semicolon, token endKw]
  | type => oneOf [token integerKw, token booleanKw, token voidKw]
  | parameterList => optional (rule nempParameterList)
  | nempParameterList =>
    seq [token identifier, token colon, rule type,
      optional (seq [token comma, rule nempParameterList])]
  | main =>
    seq [token mainKw, token beginKw, rule declList, rule statementBlock, token endKw]
  | statementBlock => optional (seq [rule statement, rule statementBlock])
  | statement =>
    oneOf [seq [token identifier, rule statementChoice],
      seq [token beginKw, rule statementBlock, token endKw],
      seq [token ifKw, rule condition, token beginKw, rule statementBlock, token endKw],
      seq [token elseKw, token beginKw, rule statementBlock, token endKw],
      seq [token whileKw, rule condition, token beginKw, rule statementBlock, token endKw],
      seq [token skipKw, token semicolon]]
  | statementChoice =>
    oneOf [seq [token assign, rule expression, token semicolon],
      seq [token leftParen, rule argList, token rightParen, token semicolon]]
  | expression => seq [rule fragment, optional (seq [rule binaryArithOp, rule fragment])]
  | binaryArithOp => oneOf [token plus, token minus]
  | fragment =>
    oneOf [seq [token identifier, optional (seq [token leftParen, rule argList, token rightParen])],
      seq [token minus, token identifier],
      token number,
      token trueKw,
      token falseKw,
      seq [token beginKw, rule expression, token endKw]]
  | condition => seq [rule conditionSimple, rule conditionChoice]
  | conditionChoice =>
    optional (oneOf [seq [token andKw, rule condition], seq [token orKw, rule condition]])
  | conditionSimple =>
    oneOf [seq [token notKw, rule condition],
      seq [token leftParen, rule condition, token rightParen],
      seq [rule expression, rule compOp, rule expression]]
  | compOp => oneOf (comparisonKinds.map token)
  | argList => optional (rule nempArgList)
  | nempArgList => seq [token identifier, optional (seq [token comma, rule nempArgList])]

/-- Which kinds in sequence the forms of a list derive, one form after the other. -/
inductive Derives : List Form → List TokenKind → Prop
  | nil : Derives [] []
  | empty {forms kinds} : Derives forms kinds → Derives (.empty :: forms) kinds
  | token {kind forms kinds} : Derives forms kinds → Derives (.token kind :: forms) (kind :: kinds)
  | rule {rule forms kinds} : Derives (rule.body :: forms) kinds → Derives (.rule rule :: forms) kinds
  | both {first second forms kinds} :
    Derives (first :: second :: forms) kinds → Derives (.both first second :: forms) kinds
  | left {left right forms kinds} :
    Derives (left :: forms) kinds → Derives (.either left right :: forms) kinds
  | right {left right forms kinds} :
    Derives (right :: forms) kinds → Derives (.either left right :: forms) kinds

/-- The kinds in sequence that are a program of CAL. -/
def IsProgram (kinds : List TokenKind) : Prop := Derives [.rule .program] kinds

end Cal
