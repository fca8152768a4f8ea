import Cal.Parser.Basic

/-!
# Goals

A parse is driven by an agenda: the goals that are still to be met, in order. A goal is a literal
token, a rule of the grammar or a part of one, or the end of a body. `Goal.step` takes one step
towards a goal: it consumes a token, or chooses by the next token (and where that is not enough, by
a probe) which goals stand in its place, or refuses the next token.

A step that has just seen the kind of the next token leaves a goal that says so: `seen kind` for
the token itself, and `decl`, `function`, `statement` or `binaryArithOp` where the construct that
begins with it is known but not yet its alternative.
-/

namespace Cal

/-- What a parser has still to do. -/
inductive Goal
  /-- A token of one kind. -/
  | token (kind : TokenKind)
  /-- The next token, whose kind has been seen. -/
  | seen (kind : TokenKind)
  | declList
  | decl
  | functionList
  | function
  | type
  | parameterList
  | nempParameterList
  | parameterListTail
  | returnValue
  | main
  | statementBlock
  | statement
  | statementChoice
  | expression
  | expressionTail
  | binaryArithOp
  | fragment
  | callSuffix
  | condition
  | conditionChoice
  | conditionSimple
  | compOp
  | argList
  | nempArgList
  | argListTail
  /-- The end of the innermost body. -/
  | endBody
deriving DecidableEq

namespace Goal

/-- The form of the tokens that meet a goal. -/
def form : Goal → Form
  | token kind | seen kind => .token kind
  | declList => .rule .declList
  | decl => .rule .decl
  | functionList => .rule .functionList
  | function => .rule .function
  | type => .rule .type
  | parameterList => .rule .parameterList
  | nempParameterList => .rule .nempParameterList
  | parameterListTail => .optional (.seq [.token .comma, .rule .nempParameterList])
  | returnValue => .optional (.rule .expression)
  | main => .rule .main
  | statementBlock => .rule .statementBlock
  | statement => .rule .statement
  | statementChoice => .rule .statementChoice
  | expression => .rule .expression
  | expressionTail => .optional (.seq [.rule .binaryArithOp, .rule .fragment])
  | binaryArithOp => .rule .binaryArithOp
  | fragment => .rule .fragment
  | callSuffix => .optional Probe.callSuffix.form
  | condition => .rule .condition
  | conditionChoice => .rule .conditionChoice
  | conditionSimple => .rule .conditionSimple
  | compOp => .rule .compOp
  | argList => .rule .argList
  | nempArgList => .rule .nempArgList
  | argListTail => .optional (.seq [.token .comma, .rule .nempArgList])
  | endBody => .empty

open ParseM

variable {σ : Type} [Source σ]

/-- The goals of a construct that has a body of its own, which is opened here. -/
def withBody (goals : List Goal) : ParseM σ (List Goal) := do
  openBody
  return goals ++ [endBody]

/-- Chooses a type by the next token. -/
def chooseType : ParseM σ (List Goal) := do
  match ← nextKind with
  | .integerKw => return [seen .integerKw]
  | .booleanKw => return [seen .booleanKw]
  | .voidKw => return [seen .voidKw]
  | _ => refuseAt .type

/-- Chooses a statement by the next token. -/
def chooseStatement : ParseM σ (List Goal) := do
  match ← nextKind with
  | .identifier => return [seen .identifier, statementChoice]
  | .beginKw => withBody [seen .beginKw, statementBlock, token .endKw]
  | .ifKw => withBody [seen .ifKw, condition, token .beginKw, statementBlock, token .endKw]
  | .whileKw => withBody [seen .whileKw, condition, token .beginKw, statementBlock, token .endKw]
  | .elseKw => withBody [seen .elseKw, token .beginKw, statementBlock, token .endKw]
  | .skipKw => return [seen .skipKw, token .semicolon]
  | _ => refuseAt .statement

/-- Chooses a fragment of an expression by the next token. -/
def chooseFragment : ParseM σ (List Goal) := do
  match ← nextKind with
  | .identifier => return [seen .identifier, callSuffix]
  | .minus => return [seen .minus, token .identifier]
  | .number => return [seen .number]
  | .trueKw => return [seen .trueKw]
  | .falseKw => return [seen .falseKw]
  | .beginKw => withBody [seen .beginKw, expression, token .endKw]
  | _ => refuseAt .fragment

/-- Chooses a comparison operator by the next token. -/
def chooseCompOp : ParseM σ (List Goal) := do
  match ← nextKind with
  | .equal => return [seen .equal]
  | .notEqual => return [seen .notEqual]
  | .less => return [seen .less]
  | .lessEqual => return [seen .lessEqual]
  | .greater => return [seen .greater]
  | .greaterEqual => return [seen .greaterEqual]
  | _ => refuseAt .compOp

/-- Chooses a simple condition: a negation by the next token, a condition in parentheses by a
probe, and a comparison by the next token. -/
def chooseCondition : ParseM σ (List Goal) := do
  if ← selects .negation then
    withBody [seen .notKw, condition]
  else if ← tries .parenCondition then
    withBody [seen .leftParen, condition, token .rightParen]
  else if ← selects .comparison then
    return [expression, compOp, expression]
  else
    refuse none

/-- Takes one step towards a goal, and says which goals stand in its place. -/
def step : Goal → ParseM σ (List Goal)
  | token kind | seen kind => do
    expect kind
    return []
  | declList => do
    if ← selects .declList then return [decl, token .semicolon, declList]
    return []
  | decl => do
    match ← nextKind with
    | .variableKw => return [seen .variableKw, token .identifier, token .colon, type]
    | .constantKw =>
      return [seen .constantKw, token .identifier, token .colon, type, token .assign, expression]
    | _ => refuseAt .decl
  | functionList => do
    if ← selects .functionList then return [function, functionList]
    return []
  | function => do
    let result ← chooseType
    return result ++
      [token .identifier, token .leftParen, parameterList, token .rightParen, token .isKw, declList,
        token .beginKw, statementBlock, token .returnKw, token .leftParen, returnValue,
        token .rightParen, token .semicolon, token .endKw]
  | type => chooseType
  | parameterList => do
    if ← selects .parameterList then return [nempParameterList]
    return []
  | nempParameterList => return [token .identifier, token .colon, type, parameterListTail]
  | parameterListTail => do
    if ← selects .parameterListTail then return [seen .comma, nempParameterList]
    return []
  | returnValue => do
    if ← selects .returnValue then return [expression]
    return []
  | main => return [token .mainKw, token .beginKw, declList, statementBlock, token .endKw]
  | statementBlock => do
    if ← selects .statementBlock then return [statement, statementBlock]
    return []
  | statement => chooseStatement
  | statementChoice => do
    match ← nextKind with
    | .assign => return [seen .assign, expression, token .semicolon]
    | .leftParen => return [seen .leftParen, argList, token .rightParen, token .semicolon]
    | _ => refuseAt .statementChoice
  | expression => return [fragment, expressionTail]
  | expressionTail => do
    if ← selects .expressionTail then return [binaryArithOp, fragment]
    return []
  | binaryArithOp => do
    match ← nextKind with
    | .plus => return [seen .plus]
    | .minus => return [seen .minus]
    | _ => refuseAt .binaryArithOp
  | fragment => chooseFragment
  | callSuffix => do
    if ← tries .callSuffix then return [seen .leftParen, argList, token .rightParen]
    return []
  | condition => return [conditionSimple, conditionChoice]
  | conditionChoice => do
    if ← selects .conditionChoice then return [seen (← nextKind), condition]
    return []
  | conditionSimple => chooseCondition
  | compOp => chooseCompOp
  | argList => do
    if ← selects .argList then return [nempArgList]
    return []
  | nempArgList => return [token .identifier, argListTail]
  | argListTail => do
    if ← selects .argListTail then return [seen .comma, nempArgList]
    return []
  | endBody => do
    closeBody
    return []

/-- The goals of a whole program, up to the end of the input. -/
def program : List Goal := [declList, functionList, main, token .eof]

end Goal

end Cal
