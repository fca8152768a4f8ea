import Cal.Decision.Basic
import Cal.Position
import Cal.Probe.Basic

/-!
# Events

What a parser reports about its own work as it goes: every probe that came to an answer, and the
diagnosis of a syntax error at the moment it is made.
-/

namespace Cal

/-- How much detail an event belongs to. -/
inductive Level
  | debug
  | trace
deriving DecidableEq

/-- What a parser reports about its work. -/
inductive Event
  /-- A probe saw `seen` tokens and came to an answer. -/
  | probed (probe : Probe) (hit : Bool) (seen : Nat)
  /-- The token of kind `found` fits none of the `expected` many kinds; `rules` are those of the
  decision points that are live. -/
  | refused (position : Position) (found : TokenKind) (expected : Nat) (rules : List Rule)
deriving DecidableEq

namespace Event

/-- The level of an event. -/
def level : Event → Level
  | probed .. => .trace
  | refused .. => .debug

/-- What an event says. -/
def message : Event → String
  | probed .. => "speculation"
  | refused .. => "syntax error"

/-- How an event writes the rules it names. -/
def rulesText (rules : List Rule) : String :=
  "[" ++ ", ".intercalate (rules.map Rule.name) ++ "]"

end Event

end Cal
