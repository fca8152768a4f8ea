import Cal.Decision.Log
import Cal.Parser.Event

/-!
# Parsers

A parser reads the tokens of a source through a buffer. It counts the tokens it has consumed (its
generation), logs the decision points that found no alternative, counts the bodies that are open,
and keeps the events it has reported. The operations here are all that the productions of the
grammar are made of: look at the kind of the next token, expect a kind, enter a decision point,
refuse the next token, probe, and open or close a body.
-/

namespace Cal

/-- How many bodies may be open at once: bodies of statements, negations, conditions in parentheses
and expressions between `begin` and `end`. -/
def nestingLimit : Nat := 256

/-- The state of a parse. -/
structure Parser (σ : Type) where
  buffer : Buffer σ
  /-- How many tokens have been consumed. -/
  generation : Nat
  decisions : Decision.Log
  /-- How many bodies are open. -/
  depth : Nat
  /-- How many bodies may be open, if there is a limit. -/
  limit : Option Nat
  /-- The events reported so far, latest first. -/
  events : List Event

/-- Actions of a parser, which may end in an error and keep the state they reached. -/
abbrev ParseM (σ : Type) := EStateM ParseError (Parser σ)

namespace Parser

variable {σ : Type}

/-- A parser that has read nothing. -/
def ofSource (source : σ) : Parser σ :=
  { buffer := .ofSource source
    generation := 0
    decisions := .empty
    depth := 0
    limit := some nestingLimit
    events := [] }

/-- The parser without a limit on nesting. -/
def unlimited (parser : Parser σ) : Parser σ := { parser with limit := none }

/-- The parser with one more event reported. -/
def report (parser : Parser σ) (event : Event) : Parser σ :=
  { parser with events := event :: parser.events }

/-- The limit on open bodies, if it has been reached. -/
def exhausted? (parser : Parser σ) : Option Nat := parser.limit.filter (· ≤ parser.depth)

/-- The decision points that found no alternative since the last token was consumed. -/
def live (parser : Parser σ) : List Decision := parser.decisions.live parser.generation

/-- What is wrong if `token` is next and neither a live decision point nor `wanted` admits it. -/
def diagnose (parser : Parser σ) (token : Token) (wanted : Option TokenKind) : SyntaxError :=
  let expected := parser.decisions.expected parser.generation
  ⟨token, wanted.elim expected expected.insert⟩

/-- The event that reports a syntax error. -/
def diagnosisEvent (parser : Parser σ) (error : SyntaxError) : Event :=
  .refused error.unexpected.position error.unexpected.kind error.expected.size
    (parser.live.map Decision.rule)

end Parser

namespace ParseM

variable {σ α : Type}

/-- An action on the buffer of a parser. -/
def onBuffer (action : EStateM LexError (Buffer σ) α) : ParseM σ α := fun parser =>
  match action parser.buffer with
  | .ok value buffer => .ok value { parser with buffer }
  | .error error buffer => .error (.lexical error) { parser with buffer }

/-- Stamps a decision point that found no alternative. -/
def miss (point : Decision) : ParseM σ Unit :=
  modify fun parser => { parser with decisions := parser.decisions.record point parser.generation }

variable [Source σ]

/-- The next token. -/
def nextToken : ParseM σ Token := onBuffer (Buffer.peek 0)

/-- The kind of the next token. -/
def nextKind : ParseM σ TokenKind := return (← nextToken).kind

/-- Refuses the next token where `wanted`, if it is given, was the only way to go on. -/
def refuse (wanted : Option TokenKind) : ParseM σ α := do
  let token ← nextToken
  let parser ← get
  let error := parser.diagnose token wanted
  set (parser.report (parser.diagnosisEvent error))
  throw (.unexpected error)

/-- Consumes the next token, which has to be of the given kind. -/
def expect (kind : TokenKind) : ParseM σ Unit := do
  if (← nextKind) = kind then
    let _ ← onBuffer Buffer.advance
    modify fun parser => { parser with generation := parser.generation + 1 }
  else
    refuse (some kind)

/-- Whether the next token selects an alternative of a decision point; a miss is stamped. -/
def selects (point : Decision) : ParseM σ Bool := do
  if (point.select (← nextKind)).isSome then
    return true
  else
    miss point
    return false

/-- Refuses the next token at a decision point that has to select an alternative. -/
def refuseAt (point : Decision) : ParseM σ α := do
  miss point
  refuse none

/-- Whether the form of a probe is to be taken. -/
def tries (probe : Probe) : ParseM σ Bool := do
  let sighting ← onBuffer probe.run
  modify fun parser => parser.report (.probed probe sighting.hit sighting.seen)
  return sighting.hit

/-- Opens a body, unless too many are open already. -/
def openBody : ParseM σ Unit := do
  let parser ← get
  match parser.exhausted? with
  | some limit => throw (.tooDeep limit (← nextToken).position)
  | none => set { parser with depth := parser.depth + 1 }

/-- Closes the innermost body. -/
def closeBody : ParseM σ Unit := modify fun parser => { parser with depth := parser.depth - 1 }

end ParseM

end Cal
