import Cal.Token.KindSet

/-!
# Rules of the grammar

The productions of CAL by name, with two tables about them: which kinds can begin what a rule
derives, and which rules can derive nothing at all. What each rule derives is in
`Cal.Grammar.Form`.
-/

namespace Cal

/-- The name of a production of CAL. -/
inductive Rule
  | program
  | declList
  | decl
  | varDecl
  | constDecl
  | functionList
  | function
  | type
  | parameterList
  | nempParameterList
  | main
  | statementBlock
  | statement
  | statementChoice
  | expression
  | binaryArithOp
  | fragment
  | condition
  | conditionChoice
  | conditionSimple
  | compOp
  | argList
  | nempArgList
deriving DecidableEq

open TokenKind

/-- The kinds that begin a declaration. -/
def declKinds : List TokenKind := [variableKw, constantKw]

/-- The kinds that are a type. -/
def typeKinds : List TokenKind := [integerKw, booleanKw, voidKw]

/-- The kinds that begin a statement. -/
def statementKinds : List TokenKind := [ifKw, elseKw, whileKw, skipKw, beginKw, identifier]

/-- The kinds that begin an expression. -/
def expressionKinds : List TokenKind := [trueKw, falseKw, beginKw, minus, number, identifier]

/-- The kinds that compare two expressions. -/
def comparisonKinds : List TokenKind := [equal, notEqual, less, lessEqual, greater, greaterEqual]

namespace Rule

/-- Every rule, from the whole program inwards. -/
def all : List Rule :=
  [program, declList, decl, varDecl, constDecl, functionList, function, type, parameterList,
    nempParameterList, main, statementBlock, statement, statementChoice, expression, binaryArithOp,
    fragment, condition, conditionChoice, conditionSimple, compOp, argList, nempArgList]

/-- How traces name a rule. -/
def name : Rule → String
  | program => "Program"
  | declList => "DeclList"
  | decl => "Decl"
  | varDecl => "VarDecl"
  | constDecl => "ConstDecl"
  | functionList => "FunctionList"
  | function => "Function"
  | type => "Type"
  | parameterList => "ParameterList"
  | nempParameterList => "NempParameterList"
  | main => "Main"
  | statementBlock => "StatementBlock"
  | statement => "Statement"
  | statementChoice => "StatementChoice"
  | expression => "Expression"
  | binaryArithOp => "BinaryArithOp"
  | fragment => "Fragment"
  | condition => "Condition"
  | conditionChoice => "ConditionChoice"
  | conditionSimple => "ConditionSimple"
  | compOp => "CompOp"
  | argList => "ArgList"
  | nempArgList => "NempArgList"

/-- The kinds that can begin a non-empty text of a rule. -/
def firstSet (rule : Rule) : KindSet :=
  .ofList <| match rule with
    | program => declKinds ++ typeKinds ++ [mainKw]
    | declList | decl => declKinds
    | varDecl => [variableKw]
    | constDecl => [constantKw]
    | functionList | function | type => typeKinds
    | parameterList | nempParameterList | argList | nempArgList => [identifier]
    | main => [mainKw]
    | statementBlock | statement => statementKinds
    | statementChoice => [assign, leftParen]
    | expression | fragment => expressionKinds
    | binaryArithOp => [plus, minus]
    | condition | conditionSimple => [notKw, leftParen] ++ expressionKinds
    | conditionChoice => [andKw, orKw]
    | compOp => comparisonKinds

/-- Whether a rule can match without consuming anything. -/
def nullable : Rule → Bool
  | declList | functionList | parameterList | statementBlock | conditionChoice | argList => true
  | _ => false

end Rule

end Cal
