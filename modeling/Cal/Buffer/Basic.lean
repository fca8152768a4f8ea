import Cal.Source.Basic

/-!
# Lookahead

A buffer stands between a source and its reader. It keeps every token that the source has replied,
so that looking at the same place twice shows the same token, and it asks the source only for
tokens that are wanted. Once the source has ended the input it is not asked again: every place from
there on shows that same end. If the source fails, the buffer keeps what it has and takes nothing
for the place that was wanted; the next request for it asks the source again.
-/

namespace Cal

/-- A source, the tokens already taken from the buffer (latest first), and the tokens that have
been looked at but not taken. -/
structure Buffer (σ : Type) where
  source : σ
  past : List Token
  ahead : List Token

namespace Buffer

variable {σ : Type}

/-- The buffer that has not asked its source for anything. -/
def ofSource (source : σ) : Buffer σ := ⟨source, [], []⟩

/-- How many tokens have been taken. -/
def consumed (buffer : Buffer σ) : Nat := buffer.past.length

/-- Every token the buffer keeps, in the order of the input. -/
def cached (buffer : Buffer σ) : List Token := buffer.past.reverse ++ buffer.ahead

/-- The last token the buffer keeps. -/
def newest? (buffer : Buffer σ) : Option Token := buffer.ahead.getLast? <|> buffer.past.head?

/-- Whether the end of the input has been seen. -/
def ended (buffer : Buffer σ) : Bool := buffer.newest?.any Token.isEof

variable [Source σ]

/-- Asks the source for one more token. -/
def ask : EStateM LexError (Buffer σ) Token := fun buffer =>
  match Source.next buffer.source with
  | .ok token source => .ok token { buffer with source, ahead := buffer.ahead ++ [token] }
  | .error error source => .error error { buffer with source }

/-- Keeps one more token: the end of the input again if it has been seen, or the source's reply. -/
def pull : EStateM LexError (Buffer σ) Token := fun buffer =>
  match buffer.newest? with
  | some token =>
    if token.isEof then .ok token { buffer with ahead := buffer.ahead ++ [token] } else ask buffer
  | none => ask buffer

/-- Keeps `n + 1` more tokens and shows the last of them. -/
def pullMore : Nat → EStateM LexError (Buffer σ) Token
  | 0 => pull
  | n + 1 => do
    let _ ← pull
    pullMore n

/-- Shows the token `k` places after the next one. -/
def peek (k : Nat) : EStateM LexError (Buffer σ) Token := fun buffer =>
  match buffer.ahead[k]? with
  | some token => .ok token buffer
  | none => pullMore (k - buffer.ahead.length) buffer

/-- Takes the next token. -/
def advance : EStateM LexError (Buffer σ) Token := do
  let token ← peek 0
  modify fun buffer => { buffer with past := token :: buffer.past, ahead := buffer.ahead.tail }
  pure token

end Buffer

end Cal
