import Cal.Text.Unprintable

/-!
# Quoted characters

A message that names a single character writes it between single quotes, in a form in which it
can be seen: a short escape for the common control characters, the quote and the backslash, the
code point in hexadecimal for any other unprintable character, and the character itself otherwise.
-/

namespace Cal.Text

/-- A hexadecimal numeral in lower case, without leading zeros. -/
def hex (n : Nat) : String := String.ofList (Nat.toDigits 16 n)

/-- A character as it stands between single quotes. -/
def escape (c : Char) : String :=
  if c = '\x00' then "\\0"
  else if c = '\t' then "\\t"
  else if c = '\n' then "\\n"
  else if c = '\r' then "\\r"
  else if c = '\'' then "\\'"
  else if c = '\\' then "\\\\"
  else if isUnprintable c then "\\u\x7b" ++ hex c.toNat ++ "\x7d"
  else c.toString

/-- A character between single quotes. -/
def quote (c : Char) : String := "'" ++ escape c ++ "'"

end Cal.Text
