import Cal.Error

/-!
# Sources of tokens

A source hands out tokens one at a time; asked for the next one it replies with a token or with a
lexical error, and it may be asked again after either. A source settles if, asked again and again,
it comes to an end of the input or to an error after finitely many replies. Nothing else is asked
of a source: it need not end, and what it replies after its end or after an error is its own affair.
-/

namespace Cal

/-- States that can be asked for the next token. -/
class Source (σ : Type) where
  next : EStateM LexError σ Token

namespace Source

variable {σ : Type} [Source σ]

/-- A source ends its input or fails within its next `n` replies. -/
def Settles : Nat → σ → Prop
  | 0, _ => False
  | n + 1, source =>
    match next source with
    | .ok token source => token.isEof = true ∨ Settles n source
    | .error _ _ => True

theorem Settles.mono {n m : Nat} {source : σ} (h : Settles n source) (hnm : n ≤ m) :
    Settles m source := by
  induction n generalizing m source with
  | zero => exact h.elim
  | succ n ih =>
    obtain ⟨m, rfl⟩ : ∃ k, m = k + 1 := ⟨m - 1, by omega⟩
    unfold Settles at h ⊢
    split
    · rename_i hnext
      rw [hnext] at h
      exact h.imp_right fun h => ih h (by omega)
    · trivial

end Source

/-- Sources that settle, whatever state they are in. -/
class FiniteSource (σ : Type) extends Source σ where
  /-- How many replies at most end the input or fail. -/
  bound : σ → Nat
  settles : ∀ source : σ, Source.Settles (bound source) source

namespace FiniteSource

variable {σ : Type} [FiniteSource σ]

/-- The tokens a source replies up to its end or its first error, at most `n`, after `tokens`. -/
def collect : Nat → List Token → σ → Except LexError (List Token)
  | 0, tokens, _ => .ok tokens.reverse
  | n + 1, tokens, source =>
    match Source.next source with
    | .ok token source =>
      if token.isEof then .ok (token :: tokens).reverse else collect n (token :: tokens) source
    | .error error _ => .error error

/-- All tokens of a source, the end of the input included, or the first error. -/
def drain (source : σ) : Except LexError (List Token) := collect (bound source) [] source

end FiniteSource

end Cal
