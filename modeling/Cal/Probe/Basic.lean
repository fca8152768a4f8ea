import Cal.Grammar.Form
import Cal.Buffer.Basic

/-!
# Probes

In two places one token does not tell how to go on: after an identifier within an expression an
opening parenthesis may begin a call, and at the start of a simple condition it may begin a
condition in parentheses. A probe tries the form in question on the tokens that are still to come,
without taking any. It reads the productions of the grammar in order, takes the first alternative
that does not fail, and goes back over tokens it has seen at no cost; but it may see no more than
`Probe.budget` tokens, and once so many have matched it is decided in favour of the form, whatever
follows.
-/

namespace Cal

/-- A form that is tried before it is taken. -/
inductive Probe
  | callSuffix
  | parenCondition
deriving DecidableEq

namespace Probe

/-- The form that is tried. -/
def form : Probe → Form
  | callSuffix => .seq [.token .leftParen, .rule .argList, .token .rightParen]
  | parenCondition => .seq [.token .leftParen, .rule .condition, .token .rightParen]

/-- How a probe is named. -/
def name : Probe → String
  | callSuffix => "CallSuffix"
  | parenCondition => "ParenCondition"

/-- How many tokens a probe may see. -/
def budget : Nat := 2

/-- How many rules a probe enters within one another, at most: two tokens do not lead deeper. -/
def callDepth : Nat := 8

/-- Why a scan stops before the end of its form: the token it is at does not match, enough tokens
have matched, the source of the tokens failed, or rules were entered too deeply. -/
inductive Stop
  | mismatch
  | decided
  | lexical (error : LexError)
  | rulesTooDeep
deriving DecidableEq

/-- A scan under way: how many tokens are behind it, how many it has seen in all, and how many more
it may see. -/
structure Scan (σ : Type) where
  buffer : Buffer σ
  behind : Nat
  seen : Nat
  budget : Nat

/-- The scan with one more token behind it. The first sight of a token spends one unit of the
budget, whether the token matches or not. -/
def Scan.pass {σ : Type} (scan : Scan σ) (buffer : Buffer σ) : Scan σ :=
  if scan.behind = scan.seen then
    ⟨buffer, scan.behind + 1, scan.seen + 1, scan.budget - 1⟩
  else
    ⟨buffer, scan.behind + 1, scan.seen, scan.budget⟩

@[simp]
theorem Scan.buffer_pass {σ : Type} (scan : Scan σ) (buffer : Buffer σ) :
    (scan.pass buffer).buffer = buffer := by
  unfold pass; split <;> rfl

variable {σ : Type} [Source σ]

/-- Scans, which may stop. -/
abbrev ScanM (σ : Type) := EStateM Stop (Scan σ)

/-- Scans one token. A match at the furthest token with nothing left to spend decides the probe. -/
def scanToken (kind : TokenKind) : ScanM σ Unit := fun scan =>
  match Buffer.peek scan.behind scan.buffer with
  | .error error buffer => .error (.lexical error) (scan.pass buffer)
  | .ok token buffer =>
    let scan := scan.pass buffer
    if token.kind ≠ kind then .error .mismatch scan
    else if scan.budget = 0 ∧ scan.behind = scan.seen then .error .decided scan
    else .ok () scan

/-- Scans with `left`, or from the same place with `right` if `left` comes to a token that does not
match. -/
def choose (left right : ScanM σ Unit) : ScanM σ Unit := fun scan =>
  match left scan with
  | .error .mismatch after => right { after with behind := scan.behind }
  | result => result

/-- Scans a form, given how to scan a rule. -/
def scanForm (scanRule : Rule → ScanM σ Unit) : Form → ScanM σ Unit
  | .empty => pure ()
  | .token kind => scanToken kind
  | .rule rule => scanRule rule
  | .both first second => do
    scanForm scanRule first
    scanForm scanRule second
  | .either left right => choose (scanForm scanRule left) (scanForm scanRule right)

/-- Scans the production of a rule, entering rules within it to a given depth. -/
def scanRule : Nat → Rule → ScanM σ Unit
  | 0, _ => throw .rulesTooDeep
  | depth + 1, rule => scanForm (scanRule depth) rule.body

/-- What a probe found: whether the form is to be taken, and how many tokens were seen. -/
structure Sighting where
  hit : Bool
  seen : Nat
deriving DecidableEq

/-- Tries a form on the tokens of a buffer, which keeps what was seen and loses nothing. -/
def run (probe : Probe) : EStateM LexError (Buffer σ) Sighting := fun buffer =>
  match scanForm (scanRule callDepth) probe.form ⟨buffer, 0, 0, budget⟩ with
  | .ok _ scan | .error .decided scan => .ok ⟨true, scan.seen⟩ scan.buffer
  | .error .mismatch scan | .error .rulesTooDeep scan => .ok ⟨false, scan.seen⟩ scan.buffer
  | .error (.lexical error) scan => .error error scan.buffer

end Probe

end Cal
