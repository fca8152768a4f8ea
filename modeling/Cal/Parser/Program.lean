import Cal.Parser.Progress

/-!
# Parsing a program

`Parser.program` meets the goals of a whole program, the end of the input included. The state of
the parser is kept either way: after a failure the unexpected token is still the next one, and a
later call goes on from there.
-/

namespace Cal.Parser

variable {σ : Type} [FiniteSource σ]

/-- A bound on the tokens that are left, the end of the input apart. -/
def tokensLeft (parser : Parser σ) : Nat := parser.buffer.waiting + FiniteSource.bound parser.buffer.source

theorem remaining_tokensLeft (parser : Parser σ) :
    Buffer.Remaining parser.tokensLeft parser.buffer :=
  .inr ⟨_, FiniteSource.settles _, Nat.le_succ _⟩

/-- How many steps are enough to parse what is left. -/
def steps (parser : Parser σ) : Nat := 32 * parser.tokensLeft + 9

theorem run_program_isSome (parser : Parser σ) :
    (run parser.steps Goal.program parser).isSome = true := by
  refine run_isSome parser.remaining_tokensLeft (steady_of_calm (by decide)) ?_
  have hweight : Goal.totalWeight Goal.program = 9 := by decide
  simp only [steps, Goal.tokenWeight, hweight]
  omega

/-- The parser with all bodies closed, as a failure leaves it. -/
def abandon (parser : Parser σ) : Parser σ := { parser with depth := 0 }

/-- Parses a program and the end of the input after it. -/
def program : ParseM σ Unit := fun parser =>
  match (run parser.steps Goal.program parser).get parser.run_program_isSome with
  | .ok _ after => .ok () after
  | .error error after => .error error after.abandon

end Cal.Parser
