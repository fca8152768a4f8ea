import Cal.Buffer.Remaining

/-!
# What a buffer has in view

`Buffer.view` says what a buffer shows at each place from the next one on: the token there, or the
error that keeps it from being seen. A reader can tell two buffers with the same view apart only by
what it has taken from them.

* `shows_lasting`: looking ahead changes neither the view nor what has been taken.
* `peek_of_hidden`: a look ahead that fails leaves the tokens in view.
* `shows_advance`: taking a token moves the view by one place.
-/

namespace Cal.Buffer

variable {σ : Type} [Source σ] {buffer after : Buffer σ} {token : Token} {k : Nat}
  {seen : Nat → Except LexError Token} {past : List Token}

/-- What a buffer shows `k` places after the next one. -/
def view (buffer : Buffer σ) (k : Nat) : Except LexError Token :=
  match peek k buffer with
  | .ok token _ => .ok token
  | .error error _ => .error error

/-- A buffer with a given view, from which given tokens have been taken. -/
def Shows (seen : Nat → Except LexError Token) (past : List Token) (buffer : Buffer σ) : Prop :=
  buffer.view = seen ∧ buffer.past = past

theorem past_of_pull (h : pull buffer = .ok token after) : after.past = buffer.past := by
  unfold pull ask at h
  split at h
  · split at h
    · cases h; rfl
    · split at h <;> cases h; rfl
  · split at h <;> cases h; rfl

/-- Keeping one more token does not change what is shown. -/
theorem view_of_pull (h : pull buffer = .ok token after) : after.view = buffer.view := by
  have hahead := ahead_of_pull h
  funext k
  unfold view peek
  rw [hahead]
  -- the place is one that was kept before, the one that is kept now, or one beyond
  rcases Nat.lt_trichotomy k buffer.ahead.length with hlt | rfl | hgt
  · rw [List.getElem?_append_left hlt, List.getElem?_eq_getElem hlt]
  · rw [List.getElem?_concat_length, List.getElem?_eq_none (Nat.le_refl _)]
    simp only [Nat.sub_self, pullMore, h]
  · obtain ⟨n, hn⟩ : ∃ n, k - buffer.ahead.length = n + 1 := ⟨k - buffer.ahead.length - 1, by omega⟩
    have hn' : k - (buffer.ahead ++ [token]).length = n := by
      simp only [List.length_append, List.length_singleton]; omega
    rw [List.getElem?_eq_none (by simp; omega), List.getElem?_eq_none (by omega)]
    simp only [hn, hn', pullMore, bind, EStateM.bind, h]

theorem shows_lasting (seen : Nat → Except LexError Token) (past : List Token) :
    Lasting (Shows (σ := σ) seen past) := by
  rintro buffer after token ⟨hview, hpast⟩ hpull
  exact ⟨(view_of_pull hpull).trans hview, (past_of_pull hpull).trans hpast⟩

theorem ahead_of_pullMore (h : pullMore k buffer = .ok token after) :
    ∃ more, more.length = k ∧ after.ahead = buffer.ahead ++ (more ++ [token]) := by
  induction k generalizing buffer with
  | zero => exact ⟨[], rfl, ahead_of_pull h⟩
  | succ k ih =>
    simp only [pullMore, bind, EStateM.bind] at h
    cases hpull : pull buffer with
    | error error between => rw [hpull] at h; cases h
    | ok first between =>
      rw [hpull] at h
      obtain ⟨more, hlength, hahead⟩ := ih h
      refine ⟨first :: more, by simp [hlength], ?_⟩
      rw [hahead, ahead_of_pull hpull]
      simp

/-- A token that has been shown is shown again, and nothing else is kept for it. -/
theorem peek_again (h : peek k buffer = .ok token after) : peek k after = .ok token after := by
  suffices hkept : after.ahead[k]? = some token by simp only [peek, hkept]
  unfold peek at h
  cases hahead : buffer.ahead[k]? with
  | some shown =>
    rw [hahead] at h
    cases h
    exact hahead
  | none =>
    rw [hahead] at h
    obtain ⟨more, hlength, hmore⟩ := ahead_of_pullMore h
    have hk : buffer.ahead.length ≤ k := by simpa using hahead
    have hlast : k = (buffer.ahead ++ more).length := by simp [hlength]; omega
    rw [hmore, ← List.append_assoc, hlast, List.getElem?_concat_length]

/-- A token that is in view is shown. -/
theorem peek_of_shows (h : Shows seen past buffer) (hview : seen k = .ok token) :
    ∃ after, peek k buffer = .ok token after ∧ Shows seen past after := by
  obtain ⟨rfl, rfl⟩ := h
  unfold Buffer.view at hview
  split at hview
  · rename_i hpeek
    cases hview
    exact ⟨_, hpeek, Lasting.peek (shows_lasting _ _) ⟨rfl, rfl⟩ hpeek⟩
  · cases hview

/-- What is left of a view when a look ahead has failed: what has been taken is the same, all that is
kept was in view, and every token that was in view still is. Past those the source may reply otherwise
when it is asked again. -/
structure Recalls (seen : Nat → Except LexError Token) (past : List Token) (buffer : Buffer σ) : Prop where
  past : buffer.past = past
  kept {j : Nat} {token : Token} : buffer.ahead[j]? = some token → seen j = .ok token
  shown {j : Nat} {token : Token} : seen j = .ok token → buffer.view j = .ok token

theorem view_of_kept (h : buffer.ahead[k]? = some token) : buffer.view k = .ok token := by
  simp only [view, peek, h]

theorem Shows.recalls (h : Shows seen past buffer) : Recalls seen past buffer := by
  obtain ⟨rfl, rfl⟩ := h
  exact ⟨rfl, view_of_kept, fun hview => hview⟩

/-- Where the source fails at once, just the tokens kept are in view. -/
theorem recalls_of_pull {error : LexError} (h : pull buffer = .error error after) :
    Recalls buffer.view buffer.past after := by
  have hsame : after.past = buffer.past ∧ after.ahead = buffer.ahead := by
    unfold pull ask at h
    split at h
    · split at h
      · cases h
      · split at h <;> cases h; exact ⟨rfl, rfl⟩
    · split at h <;> cases h; exact ⟨rfl, rfl⟩
  obtain ⟨hpast, hahead⟩ := hsame
  refine ⟨hpast, fun hkept => view_of_kept (hahead ▸ hkept), fun {j token} hview => view_of_kept ?_⟩
  rw [hahead]
  -- a token that is not kept would have to be pulled first, and the first pull fails
  cases hkept : buffer.ahead[j]? with
  | some other => simpa [view, peek, hkept] using hview
  | none =>
    simp only [view, peek, hkept] at hview
    cases hmore : j - buffer.ahead.length with
    | zero => simp [hmore, pullMore, h] at hview
    | succ n => simp [hmore, pullMore, bind, EStateM.bind, h] at hview

theorem recalls_of_pullMore {error : LexError} (h : pullMore k buffer = .error error after) :
    Recalls buffer.view buffer.past after := by
  induction k generalizing buffer with
  | zero => exact recalls_of_pull h
  | succ k ih =>
    simp only [pullMore, bind, EStateM.bind] at h
    cases hpull : pull buffer with
    | error other between =>
      rw [hpull] at h
      cases h
      exact recalls_of_pull hpull
    | ok token between =>
      rw [hpull] at h
      rw [← view_of_pull hpull, ← past_of_pull hpull]
      exact ih h

/-- **Where a look ahead fails**, what was in view of the tokens before still is. -/
theorem peek_of_hidden {error : LexError} (h : Shows seen past buffer) (hview : seen k = .error error) :
    ∃ after, peek k buffer = .error error after ∧ Recalls seen past after := by
  obtain ⟨rfl, rfl⟩ := h
  unfold Buffer.view at hview
  split at hview
  · cases hview
  · rename_i other after hpeek
    cases hview
    refine ⟨after, hpeek, ?_⟩
    unfold peek at hpeek
    split at hpeek
    · cases hpeek
    · exact recalls_of_pullMore hpeek

/-- `after` is `before` with `token`, its next token, taken. -/
structure Taken (token : Token) (before after : Buffer σ) : Prop where
  source : after.source = before.source
  past : after.past = token :: before.past
  ahead : before.ahead = token :: after.ahead

/-- The same token comes of both results, and `token` is all that they differ in; or the same
error. -/
def TakenAlike (token : Token) :
    EStateM.Result LexError (Buffer σ) Token → EStateM.Result LexError (Buffer σ) Token → Prop
  | .ok shown before, .ok shown' after => shown' = shown ∧ Taken token before after
  | .error error _, .error error' _ => error' = error
  | _, _ => False

omit [Source σ] in
theorem Taken.newest? (h : Taken token buffer after) : after.newest? = buffer.newest? := by
  unfold Buffer.newest?
  rw [h.ahead, h.past, List.getLast?_cons]
  cases after.ahead.getLast? <;> rfl

theorem Taken.ask (h : Taken token buffer after) : TakenAlike token (ask buffer) (ask after) := by
  unfold Buffer.ask
  rw [h.source]
  cases hnext : Source.next buffer.source with
  | ok newest source => exact ⟨rfl, rfl, h.past, by simp [h.ahead]⟩
  | error error source => rfl

theorem Taken.pull (h : Taken token buffer after) : TakenAlike token (pull buffer) (pull after) := by
  unfold Buffer.pull
  rw [h.newest?]
  cases hnewest : buffer.newest? with
  | none => exact h.ask
  | some newest =>
    by_cases heof : newest.isEof = true
    · simp only [heof, if_true]
      exact ⟨rfl, h.source, h.past, by simp [h.ahead]⟩
    · simp only [heof]
      exact h.ask

theorem Taken.pullMore (h : Taken token buffer after) :
    TakenAlike token (pullMore k buffer) (pullMore k after) := by
  induction k generalizing buffer after with
  | zero => exact h.pull
  | succ k ih =>
    have hpull := h.pull
    simp only [Buffer.pullMore, bind, EStateM.bind]
    cases hbefore : Buffer.pull buffer with
    | ok shown before =>
      cases hafter : Buffer.pull after with
      | ok shown' taken => rw [hbefore, hafter] at hpull; exact ih hpull.2
      | error error taken => rw [hbefore, hafter] at hpull; exact hpull.elim
    | error error before =>
      cases hafter : Buffer.pull after with
      | ok shown' taken => rw [hbefore, hafter] at hpull; exact hpull.elim
      | error error' taken => rw [hbefore, hafter] at hpull; exact hpull

/-- Taking the next token moves the view by one place. -/
theorem Taken.view (h : Taken token buffer after) (k : Nat) : after.view k = buffer.view (k + 1) := by
  have hmore := h.pullMore (k := k - after.ahead.length)
  unfold Buffer.view Buffer.peek
  rw [h.ahead, List.getElem?_cons_succ, List.length_cons, Nat.add_sub_add_right]
  cases hahead : after.ahead[k]? with
  | some shown => rfl
  | none =>
    dsimp only
    -- the token is not kept yet, and both buffers have to pull equally often for it
    cases hbefore : Buffer.pullMore (k - after.ahead.length) buffer <;>
      cases hafter : Buffer.pullMore (k - after.ahead.length) after <;>
      rw [hbefore, hafter] at hmore <;> first | exact hmore.elim | skip
    · rw [hmore.1]
    · dsimp only; rw [show _ = _ from hmore]

/-- **Taking a token moves the view by one place**, and the token taken is the one in view. -/
theorem shows_advance (h : Shows seen past buffer) (hview : seen 0 = .ok token) :
    ∃ after, advance buffer = .ok token after ∧
      Shows (fun k => seen (k + 1)) (token :: past) after := by
  obtain ⟨peeked, hpeek, hview, hpast⟩ := peek_of_shows h hview
  have hhead := head_of_peek hpeek
  obtain ⟨tail, htail⟩ := List.head?_eq_some_iff.1 hhead
  refine ⟨{ peeked with past := token :: peeked.past, ahead := peeked.ahead.tail }, ?_, ?_, ?_⟩
  · simp only [advance, bind, EStateM.bind, hpeek]
    rfl
  · have htaken : Taken token peeked
        { peeked with past := token :: peeked.past, ahead := peeked.ahead.tail } :=
      ⟨rfl, rfl, by rw [htail]; rfl⟩
    funext k
    rw [htaken.view, hview]
  · simp [hpast]

end Cal.Buffer
