/-!
# JSON values

The values that reports are made of, and how they are written: on one line, without blanks, and
with the members of an object in their order. A string is written as it is, apart from the quote,
the backslash and the characters below the space, so that the line holds no control character.
-/

namespace Cal

/-- A JSON value of the kinds that reports need. -/
inductive Json
  | number (value : Nat)
  | string (value : String)
  | array (items : List Json)
  | object (members : List (String × Json))

namespace Json

/-- A digit of a hexadecimal numeral in lower case. -/
def hexDigit (n : Nat) : Char := Nat.digitChar (n % 16)

/-- The characters that stand for a character within a string. -/
def escapeChar (c : Char) : List Char :=
  if c = '"' then ['\\', '"']
  else if c = '\\' then ['\\', '\\']
  else if c = '\x08' then ['\\', 'b']
  else if c = '\t' then ['\\', 't']
  else if c = '\n' then ['\\', 'n']
  else if c = '\x0c' then ['\\', 'f']
  else if c = '\r' then ['\\', 'r']
  else if c.toNat < 0x20 then ['\\', 'u', '0', '0', hexDigit (c.toNat / 16), hexDigit c.toNat]
  else [c]

/-- A string between quotes. -/
def quoteString (text : String) : String :=
  "\"" ++ String.ofList (text.toList.flatMap escapeChar) ++ "\""

mutual

/-- How a value is written. -/
def render : Json → String
  | number value => toString value
  | string value => quoteString value
  | array items => "[" ++ ",".intercalate (renderItems items) ++ "]"
  | object members => "\x7b" ++ ",".intercalate (renderMembers members) ++ "\x7d"

/-- How the items of an array are written. -/
def renderItems : List Json → List String
  | [] => []
  | item :: items => render item :: renderItems items

/-- How the members of an object are written. -/
def renderMembers : List (String × Json) → List String
  | [] => []
  | (key, value) :: members => (quoteString key ++ ":" ++ render value) :: renderMembers members

end

end Json

end Cal
