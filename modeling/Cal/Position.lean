/-!
# Positions in a text

A position is the line and the column of a character, both counted from one. A line ends after
its line feed; a column counts characters, whatever their width in bytes. Positions are ordered
by line and then by column, which is the order of the characters of a text.
-/

namespace Cal

/-- Where a character stands: its line and its column, counted from one. -/
structure Position where
  line : UInt32
  column : UInt32
deriving DecidableEq

namespace Position

/-- The position of the first character of a text. -/
def start : Position := ⟨1, 1⟩

/-- The position after the character `c` that stands at `p`. -/
def after (p : Position) (c : Char) : Position :=
  if c = '\n' then ⟨p.line + 1, 1⟩ else ⟨p.line, p.column + 1⟩

/-- The position after the characters `cs`, the first of which stands at `p`. -/
def afterAll (p : Position) (cs : List Char) : Position := cs.foldl after p

@[simp]
theorem afterAll_nil (p : Position) : p.afterAll [] = p := rfl

@[simp]
theorem afterAll_cons (p : Position) (c : Char) (cs : List Char) :
    p.afterAll (c :: cs) = (p.after c).afterAll cs := rfl

theorem afterAll_append (p : Position) (cs ds : List Char) :
    p.afterAll (cs ++ ds) = (p.afterAll cs).afterAll ds := List.foldl_append

/-- The position `width` columns further on the same line, or the last column if there are fewer. -/
def advanceColumns (p : Position) (width : Nat) : Position :=
  ⟨p.line, UInt32.ofNat (min (p.column.toNat + width) (UInt32.size - 1))⟩

instance : LT Position := ⟨fun p q => p.line < q.line ∨ p.line = q.line ∧ p.column < q.column⟩

instance : LE Position := ⟨fun p q => ¬ q < p⟩

instance (p q : Position) : Decidable (p < q) :=
  inferInstanceAs (Decidable (p.line < q.line ∨ p.line = q.line ∧ p.column < q.column))

instance (p q : Position) : Decidable (p ≤ q) := inferInstanceAs (Decidable (¬ q < p))

/-- How a position is written in messages. -/
def text (p : Position) : String := s!"line {p.line.toNat}, column {p.column.toNat}"

end Position

end Cal
