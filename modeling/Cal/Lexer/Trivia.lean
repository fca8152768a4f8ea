import Cal.Lexer.Cursor

/-!
# Blanks and comments

Between tokens a text may hold blanks (space, tab, carriage return, line feed, form feed), line
comments, which begin with two slashes and end with the line, and block comments, which may be
nested. `Trivia.skip` reads over all of it in one pass over the characters, keeping in mind where
in a comment it is. A block comment that is still open at the end of the text is an error at the
place where the outermost one opened.
-/

namespace Cal.Trivia

/-- Whether a character is a blank. -/
def isBlank (c : Char) : Bool := c = ' ' || c = '\t' || c = '\r' || c = '\n' || c = '\x0c'

/-- What is being skipped: blanks, a line comment, or a block comment that opened at `opened` and
has `inner` more comments open within it. -/
inductive Mode
  | blanks
  | line
  | block (opened : Position) (inner : Nat)
deriving DecidableEq

/-- Where skipping comes to an end: at a character that is no part of blanks or comments or at the
end of the text, or at the end of the text within a block comment. -/
inductive Outcome
  | reached (cursor : Cursor)
  | unclosed (opened stop : Position)
deriving DecidableEq

/-- Skips blanks and comments from `position` on, within what `mode` says. -/
def skip : Mode → Position → List Char → Outcome
  | .blanks, position, [] => .reached ⟨position, []⟩
  | .blanks, position, '/' :: '/' :: rest => skip .line (position.afterAll ['/', '/']) rest
  | .blanks, position, '/' :: '*' :: rest => skip (.block position 0) (position.afterAll ['/', '*']) rest
  | .blanks, position, c :: rest =>
    if isBlank c then skip .blanks (position.after c) rest else .reached ⟨position, c :: rest⟩
  | .line, position, [] => .reached ⟨position, []⟩
  | .line, position, c :: rest =>
    skip (if c = '\n' then .blanks else .line) (position.after c) rest
  | .block opened _, position, [] => .unclosed opened position
  | .block opened inner, position, '/' :: '*' :: rest =>
    skip (.block opened (inner + 1)) (position.afterAll ['/', '*']) rest
  | .block opened inner, position, '*' :: '/' :: rest =>
    skip (if inner = 0 then .blanks else .block opened (inner - 1)) (position.afterAll ['*', '/']) rest
  | .block opened inner, position, c :: rest => skip (.block opened inner) (position.after c) rest

/-- What is left after skipping is an end part of the text. -/
theorem suffix_of_skip {mode : Mode} {position : Position} {text : List Char} {cursor : Cursor}
    (h : skip mode position text = .reached cursor) : cursor.rest <:+ text := by
  fun_induction skip mode position text with
  | case1 | case5 | case6 => cases h; exact List.suffix_rfl
  | case8 => cases h
  | case2 _ _ ih | case3 _ _ ih | case9 _ _ _ _ ih | case10 _ _ _ _ ih =>
    exact ((ih h).trans (List.suffix_cons ..)).trans (List.suffix_cons ..)
  | case4 _ _ _ _ _ _ ih | case7 _ _ _ ih | case11 _ _ _ _ _ _ _ ih =>
    exact (ih h).trans (List.suffix_cons ..)

end Cal.Trivia
