import Cal.Source.Basic

/-!
# Lists of tokens as sources

Tokens that are already at hand, in a list. The list may lack the token that ends the input: past
its last token the source replies one that stands just after that token, or at the beginning if
there was none.
-/

namespace Cal

/-- Tokens at hand, and where the input ends if they do not say so themselves. -/
structure TokenList where
  tokens : List Token
  finish : Position
deriving DecidableEq

namespace TokenList

/-- The source that replies the tokens of a list. -/
def ofList (tokens : List Token) : TokenList := ⟨tokens, .start⟩

/-- Replies the next token of the list, or the end of the input. -/
def next : EStateM LexError TokenList Token
  | ⟨token :: tokens, _⟩ => .ok token ⟨tokens, token.finish⟩
  | ⟨[], finish⟩ => .ok (.eof finish) ⟨[], finish⟩

instance : Source TokenList := ⟨next⟩

theorem settles (tokens : List Token) (finish : Position) :
    Source.Settles (tokens.length + 1) (TokenList.mk tokens finish) := by
  induction tokens generalizing finish with
  | nil => exact .inl rfl
  | cons token tokens ih => exact .inr (ih token.finish)

instance : FiniteSource TokenList where
  bound source := source.tokens.length + 1
  settles source := settles source.tokens source.finish

end TokenList

end Cal
