import Cal.Parser.Goal

/-!
# Runs

A run takes the goals of an agenda one step at a time: the goals that a step leaves come before the
rest of the agenda. It ends when no goal is left, or with the first error.
-/

namespace Cal

namespace Parser

variable {σ : Type} [Source σ]

/-- Meets the goals of an agenda in at most `n` steps, if so many are enough. -/
def run : Nat → List Goal → Parser σ → Option (EStateM.Result ParseError (Parser σ) Unit)
  | _, [], parser => some (.ok () parser)
  | 0, _ :: _, _ => none
  | n + 1, goal :: rest, parser =>
    match goal.step parser with
    | .ok goals after => run n (goals ++ rest) after
    | .error error after => some (.error error after)

end Parser

end Cal
