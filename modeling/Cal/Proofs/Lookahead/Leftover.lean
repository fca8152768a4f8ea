import Cal.Proofs.Lookahead.Outlook

/-!
# What is left in a buffer

A reader that stops leaves tokens in its buffer that it has looked at, and the source behind them. Put
together they are a source again, from which a new buffer can be filled.

* `Closed`: the end of the input lasts, in every view of a buffer.
* `Leftover`: the tokens held, the end of the input for ever if it has been kept, else the source.
* `view_leftover`: a new buffer on what is left shows what the old one shows.
-/

namespace Cal

open Source

/-- The end of the input lasts: where it is in view, it is in view at every place behind. -/
def Closed (view : Nat → Except LexError Token) : Prop :=
  ∀ k token, view k = .ok token → token.isEof = true → view (k + 1) = .ok token

namespace Closed

variable {view : Nat → Except LexError Token} {token : Token} {k : Nat}

theorem behind (h : Closed view) (hk : view k = .ok token) (heof : token.isEof = true) (j : Nat) :
    view (k + j) = .ok token := by
  induction j with
  | zero => exact hk
  | succ j ih => exact h (k + j) token ih heof

/-- It still lasts if the next token is taken. -/
theorem shift (h : Closed view) : Closed fun k => view (k + 1) :=
  fun k token hk heof => h (k + 1) token hk heof

theorem outlook {σ : Type} [Source σ] (source : σ) : Closed (outlook source) := by
  intro k token hk heof
  induction k generalizing source with
  | zero =>
    cases hnext : next source with
    | error error after => simp [Source.outlook, hnext] at hk
    | ok shown after =>
      obtain rfl : shown = token := by simpa [Source.outlook, hnext] using hk
      exact outlook_of_eof hnext heof 1
  | succ k ih =>
    cases hnext : next source with
    | error error after => simp [Source.outlook, hnext] at hk
    | ok shown after =>
      cases hshown : shown.isEof with
      | true =>
        rw [outlook_of_eof hnext hshown] at hk ⊢
        exact hk
      | false =>
        have hafter : Source.outlook after k = .ok token := by
          simpa [Source.outlook, hnext, hshown] using hk
        have hlater := ih after hafter
        simpa [Source.outlook, hnext, hshown] using hlater

/-- It still lasts after a look ahead that failed. -/
theorem recalls {σ : Type} [Source σ] {past : List Token} {buffer : Buffer σ} (h : Closed view)
    (hrecalls : Buffer.Recalls view past buffer) : Closed buffer.view := by
  intro k token hk heof
  cases hkept : buffer.ahead[k]? with
  | some shown =>
    rw [Buffer.view_of_kept hkept] at hk
    obtain rfl : shown = token := Except.ok.inj hk
    exact hrecalls.shown (h k shown (hrecalls.kept hkept) heof)
  | none =>
    -- neither this place nor the one behind is kept
    have hlength : buffer.ahead.length ≤ k := List.getElem?_eq_none_iff.1 hkept
    have hbehind : buffer.ahead[k + 1]? = none := List.getElem?_eq_none (Nat.le_succ_of_le hlength)
    rw [Buffer.view_eq, hkept] at hk
    rw [Buffer.view_eq, hbehind]
    cases hended : buffer.newest?.filter Token.isEof with
    | some eof =>
      rw [hended] at hk
      exact hk
    | none =>
      rw [hended] at hk
      have hlater := Closed.outlook buffer.source _ token hk heof
      rwa [← Nat.sub_add_comm hlength] at hlater

end Closed

/-- What is left in a buffer: the tokens that it holds, the end of the input if it has kept that, and its
source. -/
structure Leftover (σ : Type) where
  held : List Token
  eof? : Option Token
  source : σ

namespace Leftover

variable {σ : Type} [Source σ]

/-- First come the tokens held, then the end of the input for ever, or what the source replies. -/
def next : EStateM LexError (Leftover σ) Token
  | ⟨token :: held, eof?, source⟩ => .ok token ⟨held, eof?, source⟩
  | ⟨[], some eof, source⟩ => .ok eof ⟨[], some eof, source⟩
  | ⟨[], none, source⟩ =>
    match Source.next source with
    | .ok token source => .ok token ⟨[], none, source⟩
    | .error error source => .error error ⟨[], none, source⟩

instance : Source (Leftover σ) := ⟨next⟩

/-- What is in view in what is left. -/
def view (leftover : Leftover σ) (k : Nat) : Except LexError Token :=
  match leftover.held[k]? with
  | some token => .ok token
  | none =>
    match leftover.eof? with
    | some eof => .ok eof
    | none => outlook leftover.source (k - leftover.held.length)

theorem outlook_source (source : σ) (k : Nat) :
    outlook (Leftover.mk [] none source) k = outlook source k := by
  have hnext : Source.next (Leftover.mk [] none source) =
      match Source.next source with
      | .ok token source => .ok token ⟨[], none, source⟩
      | .error error source => .error error ⟨[], none, source⟩ := rfl
  induction k generalizing source with
  | zero =>
    rw [outlook, outlook, hnext]
    cases Source.next source <;> rfl
  | succ k ih =>
    rw [outlook, outlook, hnext]
    cases Source.next source with
    | error error after => rfl
    | ok token after =>
      dsimp only
      rw [ih after rfl]

/-- **What is left comes to what is in view in it**, since nothing else comes behind the end of the
input. -/
theorem outlook_eq (leftover : Leftover σ) (hclosed : Closed leftover.view)
    (heof : ∀ eof ∈ leftover.eof?, eof.isEof = true) : outlook leftover = leftover.view := by
  obtain ⟨held, eof?, source⟩ := leftover
  induction held with
  | nil =>
    funext k
    cases eof? with
    | none => exact outlook_source source k
    | some eof =>
      have hnext : Source.next (Leftover.mk [] (some eof) source) = .ok eof ⟨[], some eof, source⟩ := rfl
      exact outlook_of_eof hnext (heof eof rfl) k
  | cons token held ih =>
    have hnext : Source.next (Leftover.mk (token :: held) eof? source) = .ok token ⟨held, eof?, source⟩ := rfl
    have hshift : (fun k => (Leftover.mk (token :: held) eof? source).view (k + 1)) =
        (Leftover.mk held eof? source).view := by
      funext k
      simp only [view, List.getElem?_cons_succ, List.length_cons, Nat.add_sub_add_right]
    have hheld := ih (hshift ▸ hclosed.shift) heof
    funext k
    cases hlast : token.isEof with
    | true =>
      have hview := hclosed.behind (k := 0) rfl hlast k
      rw [Nat.zero_add] at hview
      rw [outlook_of_eof hnext hlast, hview]
    | false =>
      cases k with
      | zero => simp [outlook, hnext, view]
      | succ k =>
        have hlater : outlook (Leftover.mk (token :: held) eof? source) (k + 1) =
            outlook (Leftover.mk held eof? source) k := by
          simp [outlook, hnext, hlast]
        rw [hlater, hheld, ← hshift]

end Leftover

namespace Buffer

variable {σ : Type} {buffer : Buffer σ}

/-- What is left in a buffer. -/
def leftover (buffer : Buffer σ) : Leftover σ :=
  ⟨buffer.ahead, buffer.newest?.filter Token.isEof, buffer.source⟩

/-- **A new buffer on what is left shows what the old one shows.** -/
theorem view_leftover [Source σ] (h : Closed buffer.view) : (ofSource buffer.leftover).view = buffer.view := by
  have hview : buffer.leftover.view = buffer.view := by
    funext k
    rw [view_eq]
    rfl
  have heof : ∀ eof ∈ buffer.leftover.eof?, eof.isEof = true := by
    intro eof hmem
    exact (Option.filter_eq_some_iff.1 hmem).2
  rw [view_ofSource, Leftover.outlook_eq buffer.leftover (hview ▸ h) heof, hview]

end Buffer

end Cal
