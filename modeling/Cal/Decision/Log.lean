import Cal.Decision.Basic

/-!
# The log of missed decisions

A generation is the number of tokens consumed so far. Each decision point that finds no
alternative for the next token is stamped with the generation of that moment, and a later miss of
the same point replaces the stamp. The points stamped with the present generation are live: each
of them could have gone on with any of its first kinds, and the input did not. What a diagnostic
lists as expected is the union of those first kinds.
-/

namespace Cal

/-- For each decision point, the generation at which it last found no alternative. -/
structure Decision.Log where
  stamps : Vector (Option Nat) Decision.count
deriving DecidableEq

namespace Decision.Log

/-- The log in which no point has been stamped. -/
def empty : Decision.Log := ⟨.replicate _ none⟩

/-- The generation at which `point` last found no alternative. -/
def stamp? (log : Decision.Log) (point : Decision) : Option Nat := log.stamps[point.index]

/-- Stamps `point` with `generation`. -/
def record (log : Decision.Log) (point : Decision) (generation : Nat) : Decision.Log :=
  ⟨log.stamps.set point.index (some generation)⟩

/-- The points stamped with `generation`, in the order of the points. -/
def live (log : Decision.Log) (generation : Nat) : List Decision :=
  Decision.all.filter (log.stamp? · = some generation)

/-- The kinds that the points live at `generation` would have gone on with. -/
def expected (log : Decision.Log) (generation : Nat) : KindSet :=
  .ofList ((log.live generation).flatMap Decision.firstKinds)

@[simp]
theorem stamp?_empty (point : Decision) : empty.stamp? point = none := by
  simp [stamp?, empty]

/-- Stamping a point changes the stamp of that point only. -/
theorem stamp?_record (log : Decision.Log) (point other : Decision) (generation : Nat) :
    (log.record point generation).stamp? other =
      if other = point then some generation else log.stamp? other := by
  have hindex : point.index = other.index ↔ other = point := by
    cases point <;> cases other <;> decide
  simp only [stamp?, record, Fin.getElem_fin, Vector.getElem_set, Fin.val_inj, hindex]

theorem mem_live {log : Decision.Log} {generation : Nat} {point : Decision} :
    point ∈ log.live generation ↔ log.stamp? point = some generation := by
  simp [live, Decision.mem_all]

end Decision.Log

end Cal
