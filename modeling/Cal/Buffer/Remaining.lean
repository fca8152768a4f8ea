import Cal.Buffer.Basic

/-!
# How much input is left

`Remaining n buffer` bounds what a buffer can still show: at most `n` tokens other than the end of
the input. Looking ahead keeps the bound, and taking a token other than the end lowers it by one.
So whatever reads from a source that settles can take only finitely many tokens.
-/

namespace Cal.Buffer

variable {σ : Type} {buffer after : Buffer σ} {token : Token} {n : Nat}

/-- How many tokens other than the end of the input have been looked at but not taken. -/
def waiting (buffer : Buffer σ) : Nat := buffer.ahead.countP (! ·.isEof)

/-- The last token looked at is the last token kept. -/
theorem newest?_append (source : σ) (past ahead : List Token) (token : Token) :
    (Buffer.mk source past (ahead ++ [token])).newest? = some token := by
  simp [newest?]

variable [Source σ]

/-- A buffer will show at most `n` more tokens other than the end of the input. -/
def Remaining (n : Nat) (buffer : Buffer σ) : Prop :=
  (buffer.ended = true ∧ buffer.waiting ≤ n) ∨
    ∃ m, Source.Settles m buffer.source ∧ buffer.waiting + m ≤ n + 1

theorem Remaining.waiting_le (h : Remaining n buffer) : buffer.waiting ≤ n := by
  rcases h with ⟨_, h⟩ | ⟨m, hm, h⟩
  · exact h
  · cases m with
    | zero => exact hm.elim
    | succ m => omega

theorem Remaining.ask (h : Remaining n buffer) (hended : buffer.ended = false)
    (hask : ask buffer = .ok token after) : Remaining n after := by
  unfold Buffer.ask at hask
  split at hask
  · rename_i token source hnext
    cases hask
    rcases h with ⟨h, _⟩ | ⟨m, hm, hle⟩
    · simp [hended] at h
    · cases m with
      | zero => exact hm.elim
      | succ m =>
        unfold Source.Settles at hm
        rw [hnext] at hm
        simp only [waiting] at hle
        -- the token that the source gave ends the input, or one fewer can come after it
        rcases hm with heof | hm
        · refine .inl ⟨by simp [ended, newest?_append, heof], ?_⟩
          simp only [waiting, List.countP_append, List.countP_singleton, heof]
          simp; omega
        · refine .inr ⟨m, hm, ?_⟩
          simp only [waiting, List.countP_append, List.countP_singleton]
          split <;> omega
  · cases hask

theorem Remaining.pull (h : Remaining n buffer) (hpull : pull buffer = .ok token after) :
    Remaining n after := by
  unfold Buffer.pull at hpull
  split at hpull
  · rename_i newest hnewest
    split at hpull
    · rename_i heof
      cases hpull
      refine .inl ⟨by simp [ended, newest?_append, heof], ?_⟩
      have := h.waiting_le
      simpa [waiting, heof] using this
    · rename_i heof
      exact h.ask (by simp [ended, hnewest, heof]) hpull
  · rename_i hnewest
    exact h.ask (by simp [ended, hnewest]) hpull

/-- A property of buffers that keeping one more token does not change. -/
def Lasting (P : Buffer σ → Prop) : Prop :=
  ∀ {buffer after token}, P buffer → pull buffer = .ok token after → P after

/-- Looking ahead does not change a lasting property. -/
theorem Lasting.pullMore {P : Buffer σ → Prop} (hP : Lasting P) {k : Nat} (h : P buffer)
    (hpull : pullMore k buffer = .ok token after) : P after := by
  induction k generalizing buffer with
  | zero => exact hP h hpull
  | succ k ih =>
    simp only [Buffer.pullMore, bind, EStateM.bind] at hpull
    split at hpull
    · rename_i hone
      exact ih (hP h hone) hpull
    · cases hpull

theorem Lasting.peek {P : Buffer σ → Prop} (hP : Lasting P) {k : Nat} (h : P buffer)
    (hpeek : peek k buffer = .ok token after) : P after := by
  unfold Buffer.peek at hpeek
  split at hpeek
  · cases hpeek; exact h
  · exact hP.pullMore h hpeek

theorem Remaining.lasting : Lasting (Remaining (σ := σ) n) := Remaining.pull

theorem ahead_of_pull (h : pull buffer = .ok token after) : after.ahead = buffer.ahead ++ [token] := by
  unfold pull ask at h
  split at h
  · split at h
    · cases h; rfl
    · split at h <;> cases h; rfl
  · split at h <;> cases h; rfl

/-- The next token stays the next token while one looks ahead. -/
theorem head_lasting (token : Token) :
    Lasting (σ := σ) fun buffer => buffer.ahead.head? = some token := by
  intro buffer after other h hpull
  rw [ahead_of_pull hpull, List.head?_append, h, Option.some_or]

/-- The next token, once looked at, is at the front of the buffer. -/
theorem head_of_peek (h : peek 0 buffer = .ok token after) : after.ahead.head? = some token := by
  unfold peek at h
  split at h
  · rename_i hhead
    cases h
    rw [List.head?_eq_getElem?, hhead]
  · rename_i hhead
    have hnil : buffer.ahead = [] := by simpa using hhead
    rw [hnil] at h
    rw [ahead_of_pull h, hnil]
    rfl

/-- A token that has been looked at is looked at again without asking the source. -/
theorem peek_of_head (h : buffer.ahead.head? = some token) : peek 0 buffer = .ok token buffer := by
  obtain ⟨tail, htail⟩ := List.head?_eq_some_iff.1 h
  simp [peek, htail]

/-- The token that is taken is the one that has been looked at. -/
theorem advance_of_head (h : buffer.ahead.head? = some token) :
    advance buffer =
      .ok token { buffer with past := token :: buffer.past, ahead := buffer.ahead.tail } := by
  simp only [advance, bind, EStateM.bind, peek_of_head h]
  rfl

/-- Taking a token other than the end of the input leaves one fewer. -/
theorem Remaining.advance (h : Remaining n buffer) (hadvance : advance buffer = .ok token after) :
    Remaining n after ∧ (token.isEof = false → ∃ m, n = m + 1 ∧ Remaining m after) := by
  simp only [Buffer.advance, bind, EStateM.bind] at hadvance
  split at hadvance
  · rename_i peeked hpeek
    cases hadvance
    have hleft := Remaining.lasting.peek h hpeek
    obtain ⟨tail, htail⟩ := List.head?_eq_some_iff.1 (head_of_peek hpeek)
    -- taking a token moves it to the past, where it still is the newest if none is kept ahead
    have hended : peeked.ended = (Buffer.mk peeked.source (token :: peeked.past) tail).ended := by
      cases h : tail.getLast? <;> simp [ended, newest?, htail, List.getLast?_cons, h]
    have hwaiting : peeked.waiting = tail.countP (! ·.isEof) + if token.isEof = false then 1 else 0 := by
      simp [waiting, htail, List.countP_cons]
    unfold Remaining at hleft
    rw [hended, hwaiting] at hleft
    simp only [htail, List.tail_cons]
    constructor
    · refine hleft.imp (fun ⟨hend, hle⟩ => ⟨hend, ?_⟩) fun ⟨m, hm, hle⟩ => ⟨m, hm, ?_⟩ <;>
        simp only [waiting] <;> omega
    · intro hother
      rw [if_pos hother] at hleft
      have hpos : 1 ≤ n := by
        have := (Remaining.lasting.peek h hpeek).waiting_le
        rw [hwaiting, if_pos hother] at this
        omega
      refine ⟨n - 1, by omega, hleft.imp (fun ⟨hend, hle⟩ => ⟨hend, ?_⟩) fun ⟨m, hm, hle⟩ => ⟨m, hm, ?_⟩⟩ <;>
        simp only [waiting] <;> omega
  · cases hadvance

end Cal.Buffer
