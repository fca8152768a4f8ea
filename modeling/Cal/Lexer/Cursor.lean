import Cal.Position

/-!
# Places in a text

A cursor is a place in a text: the position there and the characters that are still to come.
-/

namespace Cal

/-- A place in a text: where it is, and the characters from there on. -/
structure Cursor where
  position : Position
  rest : List Char
deriving DecidableEq

/-- The beginning of a text. -/
def Cursor.ofString (text : String) : Cursor := ⟨.start, text.toList⟩

end Cal
