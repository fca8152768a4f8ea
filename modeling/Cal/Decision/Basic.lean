import Cal.Grammar.Rule

/-!
# Decision points

The places in the grammar where the next token chooses how to go on. A point lists its
alternatives, each by the kinds that trigger it; the kinds of all alternatives together are the
first set of the point. Where no alternative is triggered, either the construct may be left out
or the parse has failed.
-/

namespace Cal

/-- A place in the grammar where the next token selects an alternative. -/
inductive Decision
  | declList
  | decl
  | functionList
  | returnValue
  | type
  | parameterList
  | parameterListTail
  | statementBlock
  | statement
  | statementChoice
  | expressionTail
  | binaryArithOp
  | fragment
  | conditionChoice
  | negation
  | comparison
  | compOp
  | argList
  | argListTail
deriving DecidableEq

namespace Decision

/-- The number of decision points. -/
def count : Nat := 19

/-- Every decision point, in the order in which diagnostics go through them. -/
def all : List Decision :=
  [declList, decl, functionList, returnValue, type, parameterList, parameterListTail, statementBlock,
    statement, statementChoice, expressionTail, binaryArithOp, fragment, conditionChoice, negation,
    comparison, compOp, argList, argListTail]

/-- The place of a point in `all`. -/
def index (point : Decision) : Fin count :=
  ⟨point.ctorIdx, by cases point <;> decide⟩

theorem mem_all (point : Decision) : point ∈ all := by cases point <;> decide

/-- How a point is named. -/
def name : Decision → String
  | declList => "DeclList"
  | decl => "Decl"
  | functionList => "FunctionList"
  | returnValue => "ReturnValue"
  | type => "Type"
  | parameterList => "ParameterList"
  | parameterListTail => "ParameterListTail"
  | statementBlock => "StatementBlock"
  | statement => "Statement"
  | statementChoice => "StatementChoice"
  | expressionTail => "ExpressionTail"
  | binaryArithOp => "BinaryArithOp"
  | fragment => "Fragment"
  | conditionChoice => "ConditionChoice"
  | negation => "Negation"
  | comparison => "Comparison"
  | compOp => "CompOp"
  | argList => "ArgList"
  | argListTail => "ArgListTail"

/-- The rule in whose production a decision is taken. -/
def rule : Decision → Rule
  | declList => .declList
  | decl => .decl
  | functionList => .functionList
  | returnValue => .function
  | type => .type
  | parameterList => .parameterList
  | parameterListTail => .nempParameterList
  | statementBlock => .statementBlock
  | statement => .statement
  | statementChoice => .statementChoice
  | expressionTail => .expression
  | binaryArithOp => .binaryArithOp
  | fragment => .fragment
  | conditionChoice => .conditionChoice
  | negation | comparison => .conditionSimple
  | compOp => .compOp
  | argList => .argList
  | argListTail => .nempArgList

open TokenKind in
/-- The kinds that trigger each alternative, in the order in which the alternatives are tried. -/
def alternatives : Decision → List (List TokenKind)
  | declList => [declKinds]
  | decl => [[variableKw], [constantKw]]
  | functionList => [typeKinds]
  | returnValue | comparison => [expressionKinds]
  | type => [[integerKw], [booleanKw], [voidKw]]
  | parameterList | argList => [[identifier]]
  | parameterListTail | argListTail => [[comma]]
  | statementBlock => [statementKinds]
  | statement => [[identifier], [beginKw], [ifKw], [elseKw], [whileKw], [skipKw]]
  | statementChoice => [[assign], [leftParen]]
  | expressionTail => [[plus, minus]]
  | binaryArithOp => [[plus], [minus]]
  | fragment => [[identifier], [minus], [number], [trueKw], [falseKw], [beginKw]]
  | conditionChoice => [[andKw], [orKw]]
  | negation => [[notKw]]
  | compOp => comparisonKinds.map fun kind => [kind]

/-- The place of the first alternative that `kind` triggers. -/
def select (point : Decision) (kind : TokenKind) : Option Nat :=
  point.alternatives.findIdx? (kind ∈ ·)

/-- The kinds that trigger some alternative, in the order of the alternatives. -/
def firstKinds (point : Decision) : List TokenKind := point.alternatives.flatten

/-- A kind selects an alternative exactly if it triggers one. -/
theorem select_isSome {point : Decision} {kind : TokenKind} :
    (point.select kind).isSome ↔ kind ∈ point.firstKinds := by
  simp [select, firstKinds]

end Decision

end Cal
