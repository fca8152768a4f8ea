import Cal.Proofs.Lookahead.Outlook
import Cal.Source.TokenList

/-!
# What a list of tokens shows

A parse of tokens sees the tokens of the list up to the first one that ends the input, and that one
for ever after; where there is none it sees the end that stands past the last token.

* `shows_ofList`: the view of a parse of tokens, at every place.
-/

namespace Cal

/-- The token that a list shows at a place. -/
def TokenList.shown : TokenList → Nat → Token
  | ⟨[], finish⟩, _ => .eof finish
  | ⟨token :: _, _⟩, 0 => token
  | ⟨token :: tokens, _⟩, k + 1 => if token.isEof then token else shown ⟨tokens, token.finish⟩ k

/-- Tokens, and behind them the end of the input, which stands at `finish` if there are none. -/
def withEnd (finish : Position) : List Token → List Token
  | [] => [.eof finish]
  | token :: tokens => token :: withEnd token.finish tokens

/-- The tokens that a parse of tokens sees, place by place. -/
def streamOf (tokens : List Token) : Nat → Token := (TokenList.ofList tokens).shown

/-- The kinds of a list of tokens before the first that ends the input. -/
def kindsBeforeEof (tokens : List Token) : List TokenKind :=
  (tokens.takeWhile fun token => !token.isEof).map Token.kind

namespace TokenList

variable {finish : Position} {n k : Nat}

theorem withEnd_eq (tokens : List Token) (finish : Position) :
    ∃ last, withEnd finish tokens = tokens ++ [.eof last] := by
  induction tokens generalizing finish with
  | nil => exact ⟨finish, rfl⟩
  | cons token tokens ih =>
    obtain ⟨last, hlast⟩ := ih token.finish
    exact ⟨last, by rw [withEnd, hlast]; rfl⟩

/-- Up to the first token that ends the input, the tokens shown are those of the list. -/
theorem shown_begin (tokens : List Token) (h : ∀ k < n, ((mk tokens finish).shown k).isEof = false) :
    (List.range (n + 1)).map (mk tokens finish).shown <+: withEnd finish tokens := by
  induction tokens generalizing n finish with
  | nil =>
    cases n with
    | zero => simp [shown, withEnd]
    | succ n => exact absurd (h 0 (Nat.succ_pos n)) (by simp [shown])
  | cons token tokens ih =>
    cases n with
    | zero => simp [shown, withEnd]
    | succ n =>
      -- the first token does not end the input, so that the others are shown behind it
      have hother : token.isEof = false := h 0 (Nat.succ_pos n)
      have hshown (k : Nat) : (mk (token :: tokens) finish).shown (k + 1) =
          (mk tokens token.finish).shown k := by
        simp [shown, hother]
      have hrest := @ih token.finish n fun k hk => hshown k ▸ h (k + 1) (by omega)
      rw [List.range_succ_eq_map, List.map_cons, List.map_map]
      have hmap : (mk (token :: tokens) finish).shown ∘ Nat.succ = (mk tokens token.finish).shown :=
        funext hshown
      rw [hmap, withEnd, shown, List.cons_prefix_cons]
      exact ⟨rfl, hrest⟩

/-- Before the end of the input stand the kinds of the list up to there. -/
theorem shown_before (tokens : List Token) (finish : Position) :
    (List.range (kindsBeforeEof tokens).length).map (fun k => ((mk tokens finish).shown k).kind) =
        kindsBeforeEof tokens ∧
      ∀ k, (kindsBeforeEof tokens).length ≤ k → ((mk tokens finish).shown k).kind = .eof := by
  induction tokens generalizing finish with
  | nil => exact ⟨rfl, fun k _ => by simp [shown, Token.eof]⟩
  | cons token tokens ih =>
    by_cases heof : token.isEof = true
    · have hkinds : kindsBeforeEof (token :: tokens) = [] := by simp [kindsBeforeEof, heof]
      rw [hkinds]
      refine ⟨rfl, fun k _ => ?_⟩
      have hkind : token.kind = .eof := by simpa [Token.isEof] using heof
      cases k with
      | zero => rw [shown, hkind]
      | succ k => simp [shown, heof, hkind]
    · have hkinds : kindsBeforeEof (token :: tokens) = token.kind :: kindsBeforeEof tokens := by
        simp [kindsBeforeEof, heof]
      obtain ⟨hbefore, hbeyond⟩ := ih token.finish
      have hshown (k : Nat) : (mk (token :: tokens) finish).shown (k + 1) =
          (mk tokens token.finish).shown k := by
        simp [shown, heof]
      rw [hkinds]
      constructor
      · rw [List.length_cons, List.range_succ_eq_map, List.map_cons, List.map_map]
        have hmap : (fun k => ((mk (token :: tokens) finish).shown k).kind) ∘ Nat.succ =
            fun k => ((mk tokens token.finish).shown k).kind :=
          funext fun k => congrArg Token.kind (hshown k)
        rw [hmap, hbefore, shown]
      · intro k hk
        cases k with
        | zero => simp at hk
        | succ k =>
          rw [hshown]
          exact hbeyond k (by simpa using hk)

end TokenList

/-- A list of tokens comes to the tokens that it shows. -/
theorem TokenList.outlook_eq (tokens : List Token) (finish : Position) (k : Nat) :
    Source.outlook (mk tokens finish) k = .ok ((mk tokens finish).shown k) := by
  induction k generalizing tokens finish with
  | zero =>
    cases tokens with
    | nil => rfl
    | cons token tokens => rw [shown]; rfl
  | succ k ih =>
    cases tokens with
    | nil => rfl
    | cons token tokens =>
      rw [shown, apply_ite Except.ok, ← ih]
      rfl

/-- **What a parse of tokens has in view** before it takes the first. -/
theorem Buffer.shows_ofList (tokens : List Token) :
    Shows (fun k => .ok (streamOf tokens k)) []
      (Buffer.ofSource (TokenList.ofList tokens)) := by
  refine ⟨funext fun k => ?_, rfl⟩
  rw [view_eq]
  exact TokenList.outlook_eq tokens .start k

end Cal
