import Cal.Proofs.Lookahead.View

/-!
# What a source has to offer

`Source.outlook` says what a source will come to if it is asked again and again: the token at each
place, its end for ever once it has ended, or the error that keeps a place from being reached. A buffer
shows what it has kept, and behind that the outlook of its source.

* `view_eq`: the view of a buffer in these terms.
* `Delivers`: tokens that a source replies one after the other, without ending the input.
* `drain_cases`: the tokens of a whole source, or its first error.
-/

namespace Cal

/-- The reply that a result is, and the state after it. -/
def replyOf {ε σ α : Type} : EStateM.Result ε σ α → Except ε α × σ
  | .ok value after => (.ok value, after)
  | .error error after => (.error error, after)

namespace Source

variable {σ : Type} [Source σ] {source after : σ} {token : Token} {tokens : List Token} {k : Nat}

/-- What a source comes to `k` places on. -/
def outlook : σ → Nat → Except LexError Token
  | source, 0 =>
    match next source with
    | .ok token _ => .ok token
    | .error error _ => .error error
  | source, k + 1 =>
    match next source with
    | .ok token after => if token.isEof then .ok token else outlook after k
    | .error error _ => .error error

/-- A source replies these tokens, none of which ends the input, and is in the state `after` then. -/
inductive Delivers : σ → List Token → σ → Prop
  | nil (source : σ) : Delivers source [] source
  | cons {source between after : σ} {token : Token} {tokens : List Token} :
    next source = .ok token between → token.isEof = false → Delivers between tokens after →
      Delivers source (token :: tokens) after

theorem outlook_of_error {error : LexError} (h : next source = .error error after) (k : Nat) :
    outlook source k = .error error := by
  cases k <;> simp [outlook, h]

theorem outlook_of_eof (h : next source = .ok token after) (heof : token.isEof = true) (k : Nat) :
    outlook source k = .ok token := by
  cases k <;> simp [outlook, h, heof]

/-- The tokens that a source delivers come first, and then what it comes to behind them. -/
theorem outlook_of_delivers (h : Delivers source tokens after) (k : Nat) :
    outlook source k =
      match tokens[k]? with
      | some token => .ok token
      | none => outlook after (k - tokens.length) := by
  induction h generalizing k with
  | nil => simp
  | cons hnext hother _ ih =>
    cases k with
    | zero => simp [outlook, hnext]
    | succ k =>
      rw [List.getElem?_cons_succ, List.length_cons, Nat.add_sub_add_right, ← ih]
      simp [outlook, hnext, hother]

/-- A source that settles delivers some tokens, and then it ends the input or fails. -/
theorem Settles.delivers {n : Nat} (h : Settles n source) :
    ∃ tokens last, Delivers source tokens last ∧
      ((∃ eof after, next last = .ok eof after ∧ eof.isEof = true) ∨
        ∃ error after, next last = .error error after) := by
  induction n generalizing source with
  | zero => exact h.elim
  | succ n ih =>
    unfold Settles at h
    cases hnext : next source with
    | error error after => exact ⟨[], source, .nil _, .inr ⟨error, after, hnext⟩⟩
    | ok token after =>
      rw [hnext] at h
      cases heof : token.isEof with
      | true => exact ⟨[], source, .nil _, .inl ⟨token, after, hnext, heof⟩⟩
      | false =>
        obtain ⟨tokens, last, hdelivers, hlast⟩ := ih (h.resolve_left (by simp [heof]))
        exact ⟨token :: tokens, last, .cons hnext heof hdelivers, hlast⟩

end Source

namespace FiniteSource

open Source

variable {σ : Type} [FiniteSource σ] {source last after : σ} {tokens : List Token} {n : Nat}

theorem collect_of_delivers (h : Delivers source tokens last) (hn : Settles n source)
    (before : List Token) :
    ∃ m, Settles m last ∧ collect n before source = collect m (tokens.reverse ++ before) last := by
  induction h generalizing n before with
  | nil => exact ⟨n, hn, rfl⟩
  | @cons source between last token tokens hnext hother _ ih =>
    cases n with
    | zero => exact hn.elim
    | succ n =>
      unfold Settles at hn
      rw [hnext] at hn
      obtain ⟨m, hm, hcollect⟩ := ih (hn.resolve_left (by simp [hother])) (token :: before)
      refine ⟨m, hm, ?_⟩
      simp [collect, hnext, hother, hcollect]

/-- All tokens of a source that ends the input behind those it delivers. -/
theorem drain_of_eof {eof : Token} (h : Delivers source tokens last)
    (hlast : next last = .ok eof after) (heof : eof.isEof = true) :
    drain source = .ok (tokens ++ [eof]) := by
  obtain ⟨m, hm, hcollect⟩ := collect_of_delivers h (settles source) []
  cases m with
  | zero => exact hm.elim
  | succ m => simp [drain, hcollect, collect, hlast, heof]

/-- The first error of a source that fails behind the tokens it delivers. -/
theorem drain_of_error {error : LexError} (h : Delivers source tokens last)
    (hlast : next last = .error error after) : drain source = .error error := by
  obtain ⟨m, hm, hcollect⟩ := collect_of_delivers h (settles source) []
  cases m with
  | zero => exact hm.elim
  | succ m => simp [drain, hcollect, collect, hlast]

/-- **How a source ends**: behind the tokens that it delivers it ends the input, or it fails. -/
theorem drain_cases (source : σ) :
    ∃ tokens last, Delivers source tokens last ∧
      ((∃ eof after, next last = .ok eof after ∧ eof.isEof = true ∧
          drain source = .ok (tokens ++ [eof])) ∨
        ∃ error after, next last = .error error after ∧ drain source = .error error) := by
  obtain ⟨tokens, last, hdelivers, ⟨eof, after, hlast, heof⟩ | ⟨error, after, hlast⟩⟩ :=
    (settles source).delivers
  · exact ⟨tokens, last, hdelivers, .inl ⟨eof, after, hlast, heof, drain_of_eof hdelivers hlast heof⟩⟩
  · exact ⟨tokens, last, hdelivers, .inr ⟨error, after, hlast, drain_of_error hdelivers hlast⟩⟩

end FiniteSource

namespace Buffer

open Source

variable {σ : Type} [Source σ] {buffer : Buffer σ} {token : Token}

/-- Taking the next token takes what a peek at it shows. -/
theorem advance_of_ok {after : Buffer σ} (h : peek 0 buffer = .ok token after) :
    advance buffer = .ok token { after with past := token :: after.past, ahead := after.ahead.tail } := by
  simp only [advance, bind, EStateM.bind, h]
  rfl

theorem advance_of_error {after : Buffer σ} {error : LexError} (h : peek 0 buffer = .error error after) :
    advance buffer = .error error after := by
  simp only [advance, bind, EStateM.bind, h]

/-- Once the end of the input is kept, it is kept once more. -/
theorem pull_of_ended (hnewest : buffer.newest? = some token) (heof : token.isEof = true) :
    pull buffer = .ok token { buffer with ahead := buffer.ahead ++ [token] } := by
  simp only [pull, hnewest, heof, if_true]

/-- As long as the end of the input is not kept, the source is asked. -/
theorem pull_of_open (h : buffer.ended = false) : pull buffer = ask buffer := by
  unfold pull
  cases hnewest : buffer.newest? with
  | none => rfl
  | some token =>
    have heof : token.isEof = false := by simpa [ended, hnewest] using h
    simp [heof]

/-- Pulling comes to the end of the input if that is kept, and otherwise to what the source comes to. -/
theorem pullMore_ended (n : Nat) (hnewest : buffer.newest? = some token) (heof : token.isEof = true) :
    (replyOf (pullMore n buffer)).1 = .ok token := by
  have hpull := pull_of_ended hnewest heof
  induction n generalizing buffer with
  | zero => rw [pullMore, hpull, replyOf]
  | succ n ih =>
    have hkept := newest?_append buffer.source buffer.past buffer.ahead token
    simp only [pullMore, bind, EStateM.bind, hpull]
    exact ih hkept (pull_of_ended hkept heof)

theorem pullMore_open (n : Nat) (hopen : buffer.ended = false) :
    (replyOf (pullMore n buffer)).1 = outlook buffer.source n := by
  have hpull := pull_of_open hopen
  induction n generalizing buffer with
  | zero =>
    rw [pullMore, hpull, ask, outlook]
    cases next buffer.source <;> rfl
  | succ n ih =>
    simp only [pullMore, bind, EStateM.bind, hpull, ask, outlook]
    cases hnext : next buffer.source with
    | error error after => rfl
    | ok token after =>
      have hkept := newest?_append after buffer.past buffer.ahead token
      cases heof : token.isEof with
      | true => simpa [heof] using pullMore_ended n hkept heof
      | false =>
        have hopen : (Buffer.mk after buffer.past (buffer.ahead ++ [token])).ended = false := by
          simp [ended, hkept, heof]
        simpa [heof] using ih hopen (pull_of_open hopen)

theorem view_eq_replyOf (buffer : Buffer σ) (k : Nat) : buffer.view k = (replyOf (peek k buffer)).1 := by
  unfold view
  cases peek k buffer <;> rfl

/-- **What a buffer shows**: the tokens that it keeps; behind them the end of the input if that is kept,
and otherwise what its source comes to. -/
theorem view_eq (buffer : Buffer σ) (k : Nat) :
    buffer.view k =
      match buffer.ahead[k]? with
      | some token => .ok token
      | none =>
        match buffer.newest?.filter Token.isEof with
        | some eof => .ok eof
        | none => outlook buffer.source (k - buffer.ahead.length) := by
  rw [view_eq_replyOf, peek]
  cases buffer.ahead[k]? with
  | some token => rfl
  | none =>
    cases hended : buffer.newest?.filter Token.isEof with
    | some eof =>
      obtain ⟨hnewest, heof⟩ := Option.filter_eq_some_iff.1 hended
      exact pullMore_ended _ hnewest heof
    | none =>
      refine pullMore_open _ ?_
      unfold ended
      cases hnewest : buffer.newest? with
      | none => rfl
      | some token => simpa [hnewest, Option.filter] using hended

/-- Before anything is taken, a buffer shows what its source comes to. -/
theorem view_ofSource (source : σ) : (ofSource source).view = outlook source := by
  funext k
  rw [view_eq]
  rfl

end Buffer

end Cal
