import Cal.Proofs.Parser.Script

/-!
# The routine of a step

A step is made of a few operations: it looks at the next kind, asks a decision point or a probe, opens or closes
a body, expects a kind, or refuses the next token. A routine names them one by one, with what follows each answer,
so that what a parser is about can be told between any two of them.

* `run_routine`: a step towards a goal runs the routine of that goal.
* `run_eq_operate`: one operation first, and then what is left of the routine.
* `Routine.Sound`: every operation that relies on the next token comes when enough is known of it.
* `sound_routine`: the routine of every goal is sound, if what comes before the goal has seen what it relies on.
-/

namespace Cal

open ParseM

/-- What is left of a step: the operation that comes next, and what follows each of its answers. -/
inductive Routine
  /-- Nothing is left, and these goals stand in the place of the goal. -/
  | done (goals : List Goal)
  /-- The kind of the next token is looked at. -/
  | look (next : TokenKind → Routine)
  /-- A decision point is asked whether the next token selects an alternative. -/
  | select (point : Decision) (next : Bool → Routine)
  /-- A probe is asked. -/
  | ask (probe : Probe) (next : Bool → Routine)
  /-- The next token is taken, which has to be of a kind. -/
  | expect (kind : TokenKind)
  /-- A body is opened for these goals. -/
  | openBody (goals : List Goal)
  /-- The innermost body is closed. -/
  | closeBody
  /-- The next token is refused at a decision point that has to select an alternative. -/
  | refuseAt (point : Decision)
  /-- The next token is refused where nothing else is left. -/
  | refuse

namespace Routine

/-- A decision point that may be passed over. -/
def option (point : Decision) (goals : List Goal) : Routine :=
  .select point fun selected => .done (if selected then goals else [])

variable {σ : Type} [Source σ]

/-- Runs what is left of a step. -/
def run : Routine → ParseM σ (List Goal)
  | done goals => return goals
  | look next => do (next (← nextKind)).run
  | select point next => do (next (← selects point)).run
  | ask probe next => do (next (← tries probe)).run
  | expect kind => do
    ParseM.expect kind
    return []
  | openBody goals => Goal.withBody goals
  | closeBody => do
    ParseM.closeBody
    return []
  | refuseAt point => ParseM.refuseAt point
  | refuse => ParseM.refuse none

/-- Performs the next operation, and says what is left then. -/
def operate : Routine → ParseM σ Routine
  | done goals => return done goals
  | look next => return next (← nextKind)
  | select point next => return next (← selects point)
  | ask probe next => return next (← tries probe)
  | expect kind => do
    ParseM.expect kind
    return done []
  | openBody goals => return done (← Goal.withBody goals)
  | closeBody => do
    ParseM.closeBody
    return done []
  | refuseAt point => ParseM.refuseAt point
  | refuse => ParseM.refuse none

/-- **One operation first**, and then what is left. -/
theorem run_eq_operate (routine : Routine) : routine.run (σ := σ) = routine.operate >>= run := by
  cases routine with
  | done | look | select | ask | expect | closeBody => simp only [operate, bind_assoc, pure_bind, run]
  | openBody => simp only [operate, bind_assoc, pure_bind, run, bind_pure]
  | refuseAt => exact (Goal.bind_refuseAt _ _).symm
  | refuse => exact (Goal.bind_refuse _ _).symm

end Routine

namespace Goal

open Routine in
/-- The operations of a step towards a goal. -/
def routine : Goal → Routine
  | token kind | seen kind => .expect kind
  | declList => option .declList [decl, token .semicolon, declList]
  | decl => look fun
    | .variableKw => done [seen .variableKw, token .identifier, token .colon, type]
    | .constantKw =>
      done [seen .constantKw, token .identifier, token .colon, type, token .assign, expression]
    | _ => .refuseAt .decl
  | functionList => option .functionList [function, functionList]
  | function => look fun next =>
    if next ∈ typeKinds then
      done [seen next, token .identifier, token .leftParen, parameterList, token .rightParen, token .isKw,
        declList, token .beginKw, statementBlock, token .returnKw, token .leftParen, returnValue,
        token .rightParen, token .semicolon, token .endKw]
    else .refuseAt .type
  | type => look fun next => if next ∈ typeKinds then done [seen next] else .refuseAt .type
  | parameterList => option .parameterList [nempParameterList]
  | nempParameterList => done [token .identifier, token .colon, type, parameterListTail]
  | parameterListTail => option .parameterListTail [seen .comma, nempParameterList]
  | returnValue => option .returnValue [expression]
  | main => done [token .mainKw, token .beginKw, declList, statementBlock, token .endKw]
  | statementBlock => option .statementBlock [statement, statementBlock]
  | statement => look fun
    | .identifier => done [seen .identifier, statementChoice]
    | .beginKw => .openBody [seen .beginKw, statementBlock, token .endKw]
    | .ifKw => .openBody [seen .ifKw, condition, token .beginKw, statementBlock, token .endKw]
    | .whileKw => .openBody [seen .whileKw, condition, token .beginKw, statementBlock, token .endKw]
    | .elseKw => .openBody [seen .elseKw, token .beginKw, statementBlock, token .endKw]
    | .skipKw => done [seen .skipKw, token .semicolon]
    | _ => .refuseAt .statement
  | statementChoice => look fun
    | .assign => done [seen .assign, expression, token .semicolon]
    | .leftParen => done [seen .leftParen, argList, token .rightParen, token .semicolon]
    | _ => .refuseAt .statementChoice
  | expression => done [fragment, expressionTail]
  | expressionTail => option .expressionTail [binaryArithOp, fragment]
  | binaryArithOp => look fun
    | .plus => done [seen .plus]
    | .minus => done [seen .minus]
    | _ => .refuseAt .binaryArithOp
  | fragment => look fun
    | .identifier => done [seen .identifier, callSuffix]
    | .minus => done [seen .minus, token .identifier]
    | .number => done [seen .number]
    | .trueKw => done [seen .trueKw]
    | .falseKw => done [seen .falseKw]
    | .beginKw => .openBody [seen .beginKw, expression, token .endKw]
    | _ => .refuseAt .fragment
  | callSuffix =>
    ask .callSuffix fun hit => done (if hit then [seen .leftParen, argList, token .rightParen] else [])
  | condition => done [conditionSimple, conditionChoice]
  | conditionChoice => select .conditionChoice fun
    | true => look fun next => done [seen next, condition]
    | false => done []
  | conditionSimple => select .negation fun
    | true => .openBody [seen .notKw, condition]
    | false => ask .parenCondition fun
      | true => .openBody [seen .leftParen, condition, token .rightParen]
      | false => select .comparison fun
        | true => done [expression, compOp, expression]
        | false => refuse
  | compOp => look fun next => if next ∈ comparisonKinds then done [seen next] else .refuseAt .compOp
  | argList => option .argList [nempArgList]
  | nempArgList => done [token .identifier, argListTail]
  | argListTail => option .argListTail [seen .comma, nempArgList]
  | endBody => .closeBody

variable {σ : Type} [Source σ]

theorem run_option (point : Decision) (goals : List Goal) :
    (Routine.option point goals).run (σ := σ) = (do if ← selects point then return goals else return []) := by
  refine congrArg (selects point >>= ·) (funext fun selected => ?_)
  cases selected <;> rfl

/-- A routine that goes by the next kind alone: what it does for each kind is to be shown. -/
theorem run_look {next : TokenKind → Routine} {choose : TokenKind → ParseM σ (List Goal)}
    (h : ∀ kind, (next kind).run = choose kind) : (Routine.look next).run = nextKind >>= choose :=
  congrArg (nextKind >>= ·) (funext h)

/-- **A step runs the routine of its goal.** -/
theorem run_routine (goal : Goal) : goal.routine.run (σ := σ) = goal.step := by
  cases goal with
  | token | seen | nempParameterList | main | expression | condition | nempArgList | endBody => rfl
  | declList | functionList | statementBlock | parameterList | parameterListTail | returnValue
  | expressionTail | argList | argListTail => exact run_option _ _
  | type | decl | statementChoice | binaryArithOp | compOp | statement | fragment =>
    exact run_look fun kind => by cases kind <;> rfl
  | function =>
    refine (run_look fun kind => ?_).trans (bind_assoc _ _ _).symm
    cases kind <;> first | rfl | exact (bind_refuseAt _ _).symm
  | callSuffix =>
    refine congrArg (tries .callSuffix >>= ·) (funext fun hit => ?_)
    cases hit <;> rfl
  | conditionChoice =>
    refine congrArg (selects .conditionChoice >>= ·) (funext fun selected => ?_)
    cases selected <;> rfl
  | conditionSimple =>
    refine congrArg (selects .negation >>= ·) (funext fun negated => ?_)
    cases negated with
    | true => rfl
    | false =>
      refine congrArg (tries .parenCondition >>= ·) (funext fun hit => ?_)
      cases hit with
      | true => rfl
      | false =>
        refine congrArg (selects .comparison >>= ·) (funext fun compared => ?_)
        cases compared <;> rfl

end Goal

/-- Whether every token that comes to a decision point has been found to be of its first kinds before. -/
def Decision.foregone : Decision → Bool
  | decl | statement | binaryArithOp => true
  | _ => false

/-- What may be known of the kind of the next token when a step towards a goal begins. -/
def Goal.heralds : Goal → List (Option TokenKind)
  | seen kind => [some kind]
  | decl => declKinds.map some
  | function => typeKinds.map some
  | statement => statementKinds.map some
  | binaryArithOp => [some .plus, some .minus]
  | _ => [none]

namespace Routine

/-- The kinds that the next token may be of, by what is known. -/
def fitting : Option TokenKind → List TokenKind
  | none => TokenKind.all
  | some kind => [kind]

/-- Enough is known for the first of some goals, the others rely on nothing, and none of them ends a body. -/
def Heralds (known : Option TokenKind) (goals : List Goal) : Prop :=
  .endBody ∉ goals ∧ (∀ goal ∈ goals.head?, known ∈ goal.heralds ∨ none ∈ goal.heralds) ∧
    ∀ goal ∈ goals.tail, none ∈ goal.heralds

instance (known : Option TokenKind) (goals : List Goal) : Decidable (Heralds known goals) :=
  inferInstanceAs (Decidable (_ ∧ _ ∧ _))

/-- Whatever the next token is, an operation that relies on it comes when enough is known. `known` is the kind of
that token if it has been seen, and `missed` says whether a decision point has been missed since it came. -/
def Sound (goal : Goal) : Routine → Option TokenKind → Bool → Prop
  | done goals, known, _ => Heralds known goals
  | look next, known, missed => ∀ kind ∈ fitting known, (next kind).Sound goal (some kind) missed
  | select point next, known, missed => ∀ kind ∈ fitting known,
    (kind ∈ point.firstKinds → (next true).Sound goal (some kind) missed) ∧
      (kind ∉ point.firstKinds → point.foregone = false ∧ (next false).Sound goal (some kind) true)
  | ask _ next, known, missed => ∀ kind ∈ fitting known,
    (kind = .leftParen → (next true).Sound goal (some kind) missed) ∧
      (next false).Sound goal (some kind) missed
  | expect kind, known, _ => goal = .seen kind → known = some kind
  | openBody goals, known, _ => known ≠ none ∧ Heralds known goals
  | closeBody, _, _ => False
  | refuseAt point, known, _ => point.foregone = false ∧ ∃ kind ∈ known, kind ∉ point.firstKinds
  | refuse, known, missed => known ≠ none ∧ missed = true

instance decidableSound (goal : Goal) : (routine : Routine) → (known : Option TokenKind) → (missed : Bool) →
    Decidable (routine.Sound goal known missed)
  | done _, _, _ => inferInstanceAs (Decidable (Heralds _ _))
  | look next, known, missed =>
    have (kind : TokenKind) := decidableSound goal (next kind) (some kind) missed
    List.decidableBAll (fun kind => (next kind).Sound goal (some kind) missed) (fitting known)
  | select point next, known, missed =>
    have (kind : TokenKind) := decidableSound goal (next true) (some kind) missed
    have (kind : TokenKind) := decidableSound goal (next false) (some kind) true
    List.decidableBAll (fun kind => (kind ∈ point.firstKinds → (next true).Sound goal (some kind) missed) ∧
      (kind ∉ point.firstKinds → point.foregone = false ∧ (next false).Sound goal (some kind) true)) (fitting known)
  | ask _ next, known, missed =>
    have (kind : TokenKind) := decidableSound goal (next true) (some kind) missed
    have (kind : TokenKind) := decidableSound goal (next false) (some kind) missed
    List.decidableBAll (fun kind => (kind = TokenKind.leftParen → (next true).Sound goal (some kind) missed) ∧
      (next false).Sound goal (some kind) missed) (fitting known)
  | expect kind, known, _ => inferInstanceAs (Decidable (goal = .seen kind → known = some kind))
  | openBody goals, known, _ => inferInstanceAs (Decidable (known ≠ none ∧ Heralds known goals))
  | closeBody, _, _ => inferInstanceAs (Decidable False)
  | refuseAt point, known, _ =>
    inferInstanceAs (Decidable (point.foregone = false ∧ ∃ kind ∈ known, kind ∉ point.firstKinds))
  | refuse, known, missed => inferInstanceAs (Decidable (known ≠ none ∧ missed = true))

end Routine

/-- **The routine of every goal is sound** from what may be known when its step begins. -/
theorem sound_routine {goal : Goal} (h : goal ≠ .endBody) {known : Option TokenKind}
    (hknown : known ∈ goal.heralds) : goal.routine.Sound goal known false := by
  revert known
  cases goal with
  | token kind => exact fun _ => nofun
  | seen kind => exact fun hknown _ => List.mem_singleton.1 hknown
  | endBody => exact absurd rfl h
  | _ => decide +kernel

end Cal
