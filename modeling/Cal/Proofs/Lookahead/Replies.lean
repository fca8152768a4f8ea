import Cal.Proofs.Lookahead.Outlook
import Cal.Parser.Leads

/-!
# What a buffer keeps of its source

A source that counts how often it is asked behaves as before, and tells which of its replies a buffer
has had. Requests to a buffer are peeks at any place and takings of the next token, in any order, each
made whether or not those before it have failed.

* `Holds`: after any requests the buffer keeps the tokens that the source has replied, in order, and
  behind them copies of the first end of the input. The source is not asked after that.
* `Answers`: what one more request is answered, what it asks of the source, and what is kept after it.
* `buffer_faithful`: both hold after all requests, for every source.
-/

namespace Cal

namespace Source

variable {σ : Type} [Source σ]

/-- A source after `n` replies, whatever they were. -/
def skip : Nat → σ → σ
  | 0, source => source
  | n + 1, source => skip n (replyOf (next source)).2

/-- The first `n` replies of a source. -/
def replies : Nat → σ → List (Except LexError Token)
  | 0, _ => []
  | n + 1, source => (replyOf (next source)).1 :: replies n (replyOf (next source)).2

theorem skip_succ (n : Nat) (source : σ) : skip (n + 1) source = (replyOf (next (skip n source))).2 := by
  induction n generalizing source with
  | zero => rfl
  | succ n ih => exact ih _

theorem replies_succ (n : Nat) (source : σ) :
    replies (n + 1) source = replies n source ++ [(replyOf (next (skip n source))).1] := by
  induction n generalizing source with
  | zero => rfl
  | succ n ih => exact congrArg _ (ih _)

/-- The tokens that a source delivers are its first replies. -/
theorem replies_of_delivers {source last : σ} {tokens : List Token} (h : Delivers source tokens last) :
    skip tokens.length source = last ∧
      ∀ n (hn : n < tokens.length), (replyOf (next (skip n source))).1 = .ok tokens[n] ∧
        tokens[n].isEof = false := by
  induction h with
  | nil => exact ⟨rfl, fun n hn => absurd hn (Nat.not_lt_zero n)⟩
  | @cons source between last token tokens hnext hother _ ih =>
    have hafter : (replyOf (next source)).2 = between := by rw [hnext, replyOf]
    refine ⟨by rw [List.length_cons, skip, hafter, ih.1], fun n hn => ?_⟩
    cases n with
    | zero =>
      rw [skip, hnext, replyOf]
      exact ⟨rfl, hother⟩
    | succ n =>
      rw [skip, hafter]
      exact ih.2 n (by simpa using hn)

/-- Whether a reply ends the input. -/
def endsInput : Except LexError Token → Bool
  | .ok token => token.isEof
  | .error _ => false

/-- The tokens among replies. -/
def tokensIn (replies : List (Except LexError Token)) : List Token := replies.filterMap Except.toOption

@[simp]
theorem tokensIn_append (some more : List (Except LexError Token)) :
    tokensIn (some ++ more) = tokensIn some ++ tokensIn more := List.filterMap_append

@[simp]
theorem tokensIn_ok (token : Token) : tokensIn [.ok token] = [token] := rfl

@[simp]
theorem tokensIn_error (error : LexError) : tokensIn [.error error] = [] := rfl

end Source

/-- A source that counts how often it is asked. -/
structure Counted (σ : Type) where
  source : σ
  asked : Nat

namespace Counted

variable {σ : Type} [Source σ]

/-- A source that has not been asked. -/
def ofSource (source : σ) : Counted σ := ⟨source, 0⟩

/-- All replies so far, if the source has begun as `source`. -/
def replies (counted : Counted σ) (source : σ) : List (Except LexError Token) :=
  Source.replies counted.asked source

/-- Replies as the source does, and counts. -/
def next : EStateM LexError (Counted σ) Token
  | ⟨source, asked⟩ =>
    match Source.next source with
    | .ok token after => .ok token ⟨after, asked + 1⟩
    | .error error after => .error error ⟨after, asked + 1⟩

instance : Source (Counted σ) := ⟨next⟩

end Counted

namespace Buffer

/-- A request to a buffer: to show the token so many places after the next one, or to take the next. -/
inductive Request
  | peek (k : Nat)
  | advance
deriving DecidableEq

/-- The place in the input that a request is for. -/
def Request.place {σ : Type} (buffer : Buffer σ) : Request → Nat
  | peek k => buffer.consumed + k
  | advance => buffer.consumed

variable {σ : Type} [Source σ]

/-- Answers a request. -/
def serve (buffer : Buffer σ) : Request → Except LexError Token × Buffer σ
  | .peek k => replyOf (peek k buffer)
  | .advance => replyOf (advance buffer)

/-- The buffer after requests, each made whatever came of those before it. -/
def serveAll (buffer : Buffer σ) (requests : List Request) : Buffer σ :=
  requests.foldl (fun buffer request => (buffer.serve request).2) buffer

omit [Source σ] in
theorem newest?_eq (buffer : Buffer σ) : buffer.newest? = buffer.cached.getLast? := by
  simp [newest?, cached]

/-- A buffer that has had the first replies of a source, as many as it has asked for: it keeps the
tokens among them, and then copies of the end of the input. After that end it has not asked again. -/
structure Holds (source : σ) (buffer : Buffer (Counted σ)) : Prop where
  stands : buffer.source.source = Source.skip buffer.source.asked source
  cached : ∃ copies, buffer.cached = Source.tokensIn (buffer.source.replies source) ++ copies ∧
    ∀ copy ∈ copies, copy.isEof = true ∧ (Source.tokensIn (buffer.source.replies source)).getLast? = some copy
  unended : ∀ reply ∈ (buffer.source.replies source).dropLast, Source.endsInput reply = false

/-- `after` is `before` when the source has been asked for more: it has replied `tokens` and then
`failure`, if there was one. The tokens are kept, and copies of the end of the input behind them. -/
structure Fetches (source : σ) (before : Buffer (Counted σ)) (tokens copies : List Token)
    (failure : Option LexError) (after : Buffer (Counted σ)) : Prop where
  holds : Holds source after
  past : after.past = before.past
  ahead : after.ahead = before.ahead ++ (tokens ++ copies)
  replied : after.source.replies source =
    before.source.replies source ++ (tokens.map .ok ++ (failure.map .error).toList)

section Pull

variable {source : σ} {before after : Buffer (Counted σ)} {token : Token}

/-- Where the end of the input is kept, all tokens kept behind the replies are that end. -/
theorem Holds.pad (h : Holds source before) (hnewest : before.newest? = some token)
    (heof : token.isEof = true) :
    Fetches source before [] [token] none { before with ahead := before.ahead ++ [token] } := by
  refine ⟨⟨h.stands, ?_, h.unended⟩, rfl, rfl, by simp [Counted.replies]⟩
  obtain ⟨copies, hcached, hcopies⟩ := h.cached
  refine ⟨copies ++ [token], ?_, ?_⟩
  · rw [← List.append_assoc, ← hcached]
    simp [Buffer.cached]
  · intro copy hcopy
    rcases List.mem_append.1 hcopy with hcopy | hcopy
    · exact hcopies copy hcopy
    · obtain rfl : copy = token := by simpa using hcopy
      refine ⟨heof, ?_⟩
      rw [newest?_eq, hcached] at hnewest
      cases hlast : copies.getLast? with
      | none =>
        obtain rfl : copies = [] := by simpa using hlast
        simpa using hnewest
      | some last =>
        obtain rfl : last = copy := by simpa [hlast] using hnewest
        exact (hcopies last (List.mem_of_getLast? hlast)).2

/-- As long as the end of the input is not kept, what is kept are the tokens replied. -/
theorem Holds.cached_eq (h : Holds source before) (hended : before.ended = false) :
    before.cached = Source.tokensIn (before.source.replies source) := by
  obtain ⟨copies, hcached, hcopies⟩ := h.cached
  cases hlast : copies.getLast? with
  | none =>
    obtain rfl : copies = [] := by simpa using hlast
    simpa using hcached
  | some last =>
    have heof := (hcopies last (List.mem_of_getLast? hlast)).1
    rw [ended, newest?_eq, hcached] at hended
    simp [hlast, heof] at hended

/-- As long as the end of the input is not kept, the source has not replied it. -/
theorem Holds.open (h : Holds source before) (hended : before.ended = false) :
    ∀ reply ∈ before.source.replies source, Source.endsInput reply = false := by
  intro reply hreply
  rcases List.eq_nil_or_concat (before.source.replies source) with hnil | ⟨first, last, hsplit⟩
  · simp [hnil] at hreply
  have hunended := h.unended
  rw [List.concat_eq_append] at hsplit
  rw [hsplit] at hunended hreply
  rcases List.mem_append.1 hreply with hfirst | hlast
  · exact hunended reply (by simpa using hfirst)
  · obtain rfl : reply = last := by simpa using hlast
    cases reply with
    | error error => rfl
    | ok token =>
      have hnewest : before.newest? = some token := by
        rw [newest?_eq, h.cached_eq hended, hsplit]
        simp
      simpa [ended, hnewest, Source.endsInput] using hended

/-- The source is asked, and what it replies is kept if it is a token. -/
theorem Holds.leads_ask (h : Holds source before) (hended : before.ended = false) :
    Leads ask before (fun token after => Fetches source before [token] [] none after)
      fun error after => Fetches source before [] [] (some error) after := by
  have hcached := h.cached_eq hended
  have hopen := h.open hended
  obtain ⟨⟨inner, asked⟩, past, ahead⟩ := before
  obtain rfl : inner = Source.skip asked source := h.stands
  have hskip := Source.skip_succ asked source
  have hreplies := Source.replies_succ asked source
  unfold Leads Buffer.ask
  simp only [Source.next, Counted.next]
  cases hnext : Source.next (Source.skip asked source) with
  | ok token later =>
    simp only [hnext, replyOf] at hskip hreplies
    refine ⟨⟨hskip.symm, ⟨[], ?_, by simp⟩, ?_⟩, rfl, by simp, by simpa [Counted.replies] using hreplies⟩
    · simp only [Counted.replies, hreplies, Buffer.cached] at hcached ⊢
      simp [← List.append_assoc, hcached]
    · simpa [Counted.replies, hreplies] using hopen
  | error error later =>
    simp only [hnext, replyOf] at hskip hreplies
    refine ⟨⟨hskip.symm, ⟨[], ?_, by simp⟩, ?_⟩, rfl, by simp, by simpa [Counted.replies] using hreplies⟩
    · simpa [Counted.replies, hreplies, Buffer.cached] using hcached
    · simpa [Counted.replies, hreplies] using hopen

/-- One more token is kept: the next reply of the source, or the end of the input once more. -/
theorem Holds.leads_pull (h : Holds source before) :
    Leads pull before
      (fun token after => after.newest? = some token ∧
        (before.ended = true ∧ token.isEof = true ∧ Fetches source before [] [token] none after ∨
          before.ended = false ∧ Fetches source before [token] [] none after))
      fun error after => before.ended = false ∧ Fetches source before [] [] (some error) after := by
  cases hended : before.ended with
  | true =>
    obtain ⟨newest, hnewest, heof⟩ := (Option.any_eq_true _ _).1 hended
    rw [Leads, pull_of_ended hnewest heof]
    exact ⟨newest?_append .., .inl ⟨rfl, heof, h.pad hnewest heof⟩⟩
  | false =>
    rw [Leads, pull_of_open hended]
    refine (h.leads_ask hended).imp ?_ fun error after hfetches => ⟨rfl, hfetches⟩
    intro token after hfetches
    exact ⟨by simp [newest?_eq, Buffer.cached, hfetches.ahead], .inr ⟨rfl, hfetches⟩⟩

theorem Fetches.trans {between : Buffer (Counted σ)} {tokens copies more copies' : List Token}
    {failure : Option LexError} (h : Fetches source before tokens copies none between)
    (hmore : Fetches source between more copies' failure after) (hapart : copies = [] ∨ more = []) :
    Fetches source before (tokens ++ more) (copies ++ copies') failure after := by
  refine ⟨hmore.holds, hmore.past.trans h.past, ?_, ?_⟩
  · rw [hmore.ahead, h.ahead]
    rcases hapart with rfl | rfl <;> simp
  · rw [hmore.replied, h.replied]
    simp

/-- Nothing that is kept changes where the source fails at once. -/
theorem Fetches.ended_of_failure {error : LexError}
    (h : Fetches source before [] [] (some error) after) : after.ended = before.ended := by
  simp [ended, newest?_eq, Buffer.cached, h.past, h.ahead]

/-- **So many tokens more are kept**, unless the source fails before. -/
theorem Holds.leads_pullMore (h : Holds source before) (n : Nat) :
    Leads (pullMore n) before
      (fun token after => after.newest? = some token ∧ ∃ tokens copies,
        Fetches source before tokens copies none after ∧ tokens.length + copies.length = n + 1 ∧
          (tokens = [] ↔ before.ended = true))
      fun error after => before.ended = false ∧ after.ended = false ∧ ∃ tokens,
        Fetches source before tokens [] (some error) after ∧ tokens.length ≤ n := by
  induction n generalizing before with
  | zero =>
    refine h.leads_pull.imp ?_ ?_
    · rintro token after ⟨hnewest, ⟨hended, -, hfetches⟩ | ⟨hended, hfetches⟩⟩
      · exact ⟨hnewest, _, _, hfetches, rfl, by simp [hended]⟩
      · exact ⟨hnewest, _, _, hfetches, rfl, by simp [hended]⟩
    · rintro error after ⟨hended, hfetches⟩
      exact ⟨hended, hfetches.ended_of_failure.trans hended, _, hfetches, Nat.le_refl _⟩
  | succ n ih =>
    refine leads_bind (h.leads_pull.imp ?_ ?_)
    · rintro first between ⟨hfirst, ⟨hended, heof, hfetches⟩ | ⟨hended, hfetches⟩⟩
      · have hstill : between.ended = true := by simp [ended, hfirst, heof]
        refine (ih hfetches.holds).imp ?_ ?_
        · rintro token after ⟨hnewest, tokens, copies, hmore, hlength, htokens⟩
          obtain rfl := htokens.2 hstill
          refine ⟨hnewest, _, _, hfetches.trans hmore (.inr rfl), ?_, by simp [hended]⟩
          simp only [List.length_append, List.length_nil, List.length_singleton] at hlength ⊢
          omega
        · rintro error after ⟨hopen, -⟩
          rw [hstill] at hopen
          cases hopen
      · refine (ih hfetches.holds).imp ?_ ?_
        · rintro token after ⟨hnewest, tokens, copies, hmore, hlength, -⟩
          refine ⟨hnewest, _, _, hfetches.trans hmore (.inl rfl), ?_, by simp [hended]⟩
          simp only [List.length_append, List.length_singleton, List.length_nil]
          omega
        · rintro error after ⟨-, hstill, tokens, hmore, hlength⟩
          refine ⟨hended, hstill, _, hfetches.trans hmore (.inl rfl), ?_⟩
          simp only [List.length_append, List.length_singleton]
          omega
    · rintro error after ⟨hended, hfetches⟩
      exact ⟨hended, hfetches.ended_of_failure.trans hended, _, hfetches, Nat.zero_le _⟩

end Pull

/-- What comes of a request for a place in the input. -/
inductive Answer (source : σ) (place : Nat) (before after : Buffer (Counted σ)) :
    Except LexError Token → Prop
  /-- The token is kept already, and the source is not asked. -/
  | kept {token : Token} : before.cached[place]? = some token → after.cached = before.cached →
    after.source = before.source → Answer source place before after (.ok token)
  /-- All tokens up to the place are kept now. The source has replied `tokens`, unless it had ended the
  input before, and its end stands at all places behind those. -/
  | fetched {token : Token} {tokens copies : List Token} : before.cached.length ≤ place →
    (tokens = [] ↔ before.ended = true) →
    after.source.replies source = before.source.replies source ++ tokens.map .ok →
    after.cached = before.cached ++ (tokens ++ copies) → after.cached.length = place + 1 →
    after.cached[place]? = some token → Answer source place before after (.ok token)
  /-- The source has failed behind `tokens`, at a place for which nothing is kept. -/
  | failed {error : LexError} {tokens : List Token} : before.ended = false → after.ended = false →
    after.source.replies source = before.source.replies source ++ (tokens.map .ok ++ [.error error]) →
    after.cached = before.cached ++ tokens → after.cached.length ≤ place →
    Answer source place before after (.error error)

section Serve

variable {source : σ} {place k : Nat} {before after peeked : Buffer (Counted σ)} {token : Token}
  {reply : Except LexError Token}

omit [Source σ] in
theorem ended_congr {buffer other : Buffer σ} (h : other.cached = buffer.cached) :
    other.ended = buffer.ended := by
  rw [ended, ended, newest?_eq, newest?_eq, h]

omit [Source σ] in
theorem cached_getElem? (buffer : Buffer σ) (k : Nat) :
    buffer.cached[buffer.consumed + k]? = buffer.ahead[k]? := by
  rw [cached, consumed, List.getElem?_append_right (by simp)]
  simp

/-- What is kept, and what has been replied, is not a matter of how much has been taken. -/
theorem Holds.congr (h : Holds source before) (hsource : after.source = before.source)
    (hcached : after.cached = before.cached) : Holds source after := by
  obtain ⟨hstands, hkept, hunended⟩ := h
  exact ⟨hsource ▸ hstands, by rwa [hsource, hcached], hsource ▸ hunended⟩

theorem Answer.congr (h : Answer source place before peeked reply) (hsource : after.source = peeked.source)
    (hcached : after.cached = peeked.cached) : Answer source place before after reply := by
  cases h with
  | kept hplace hkept hasked => exact .kept hplace (hcached.trans hkept) (hsource.trans hasked)
  | fetched hlength htokens hreplies hkept hlast hplace =>
    exact .fetched hlength htokens (by rw [hsource, hreplies]) (hcached.trans hkept) (by rw [hcached, hlast])
      (by rw [hcached, hplace])
  | failed hopen hstill hreplies hkept hlength =>
    exact .failed hopen ((ended_congr hcached).trans hstill) (by rw [hsource, hreplies])
      (hcached.trans hkept) (by rwa [hcached])

/-- Nothing that is kept is lost. -/
theorem Answer.begins (h : Answer source place before after reply) : before.cached <+: after.cached := by
  cases h with
  | kept _ hkept => exact hkept ▸ List.prefix_refl _
  | fetched _ _ _ hkept => rw [hkept]; exact List.prefix_append _ _
  | failed _ _ _ hkept => rw [hkept]; exact List.prefix_append _ _

/-- The token that is answered is kept at its place. -/
theorem Answer.stands (h : Answer source place before after (.ok token)) :
    after.cached[place]? = some token := by
  cases h with
  | kept hplace hkept => rw [hkept, hplace]
  | fetched _ _ _ _ _ hplace => exact hplace

/-- **What comes of a peek.** -/
theorem Holds.serve_peek (h : Holds source before) (k : Nat) :
    Holds source (before.serve (.peek k)).2 ∧ (before.serve (.peek k)).2.past = before.past ∧
      Answer source (before.consumed + k) before (before.serve (.peek k)).2 (before.serve (.peek k)).1 := by
  cases hahead : before.ahead[k]? with
  | some token =>
    have hserve : before.serve (.peek k) = (.ok token, before) := by
      simp only [serve, peek, hahead, replyOf]
    rw [hserve]
    exact ⟨h, rfl, .kept ((cached_getElem? before k).trans hahead) rfl rfl⟩
  | none =>
    have hk : before.ahead.length ≤ k := by simpa using hahead
    have hlength : before.cached.length = before.consumed + before.ahead.length := by
      simp [Buffer.cached, consumed]
    have hpulled := h.leads_pullMore (k - before.ahead.length)
    unfold Leads at hpulled
    cases hpull : Buffer.pullMore (k - before.ahead.length) before with
    | ok token after =>
      rw [hpull] at hpulled
      obtain ⟨hnewest, tokens, copies, hfetches, hmore, htokens⟩ := hpulled
      have hserve : before.serve (.peek k) = (.ok token, after) := by
        simp only [serve, peek, hahead, hpull, replyOf]
      have hkept : after.cached = before.cached ++ (tokens ++ copies) := by
        simp [Buffer.cached, hfetches.past, hfetches.ahead]
      have hlast : after.cached.length = before.consumed + k + 1 := by
        rw [hkept, List.length_append, List.length_append]
        omega
      rw [hserve]
      refine ⟨hfetches.holds, hfetches.past, .fetched (by omega) htokens ?_ hkept hlast ?_⟩
      · simpa using hfetches.replied
      · rw [newest?_eq, List.getLast?_eq_getElem?, hlast] at hnewest
        exact hnewest
    | error error after =>
      rw [hpull] at hpulled
      obtain ⟨hopen, hstill, tokens, hfetches, hmore⟩ := hpulled
      have hserve : before.serve (.peek k) = (.error error, after) := by
        simp only [serve, peek, hahead, hpull, replyOf]
      have hkept : after.cached = before.cached ++ tokens := by
        simp [Buffer.cached, hfetches.past, hfetches.ahead]
      rw [hserve]
      refine ⟨hfetches.holds, hfetches.past, .failed hopen hstill ?_ hkept ?_⟩
      · simpa using hfetches.replied
      · rw [hkept, List.length_append]
        omega

/-- Taking the next token takes what a peek at it shows. -/
theorem serve_advance (buffer : Buffer σ) :
    (buffer.serve .advance).1 = (buffer.serve (.peek 0)).1 ∧
      (buffer.serve .advance).2.source = (buffer.serve (.peek 0)).2.source ∧
      (buffer.serve .advance).2.cached = (buffer.serve (.peek 0)).2.cached ∧
      (buffer.serve .advance).2.consumed = (buffer.serve (.peek 0)).2.consumed +
        if (buffer.serve .advance).1.isOk then 1 else 0 := by
  cases hpeek : peek 0 buffer with
  | error error peeked =>
    simp [serve, advance_of_error hpeek, hpeek, replyOf, Except.isOk, Except.toBool]
  | ok token peeked =>
    obtain ⟨tail, htail⟩ := List.head?_eq_some_iff.1 (head_of_peek hpeek)
    simp [serve, advance_of_ok hpeek, hpeek, replyOf, Except.isOk, Except.toBool, cached, consumed, htail]

theorem Holds.serve (h : Holds source before) (request : Request) :
    Holds source (before.serve request).2 ∧
      Answer source (request.place before) before (before.serve request).2 (before.serve request).1 := by
  cases request with
  | peek k =>
    obtain ⟨hholds, -, hanswer⟩ := h.serve_peek k
    exact ⟨hholds, hanswer⟩
  | advance =>
    obtain ⟨hholds, -, hanswer⟩ := h.serve_peek 0
    obtain ⟨hreply, hsource, hcached, -⟩ := serve_advance before
    rw [hreply]
    exact ⟨hholds.congr hsource hcached, hanswer.congr hsource hcached⟩

theorem Holds.serveAll (h : Holds source before) (requests : List Request) :
    Holds source (before.serveAll requests) ∧ before.cached <+: (before.serveAll requests).cached := by
  induction requests generalizing before with
  | nil => exact ⟨h, List.prefix_refl _⟩
  | cons request requests ih =>
    obtain ⟨hholds, hanswer⟩ := h.serve request
    obtain ⟨hall, hbegins⟩ := ih hholds
    exact ⟨hall, hanswer.begins.trans hbegins⟩

theorem Holds.start (source : σ) : Holds source (ofSource (Counted.ofSource source)) := by
  exact ⟨rfl, ⟨[], rfl, by simp⟩, by simp [ofSource, Counted.ofSource, Counted.replies, Source.replies]⟩

/-- A token that has been answered is answered again, and the source is not asked for it. -/
theorem serve_again {later : Buffer σ} (hcached : later.cached[place]? = some token)
    (hplace : later.consumed + k = place) : later.serve (.peek k) = (.ok token, later) := by
  rw [← hplace, cached_getElem?] at hcached
  simp only [serve, peek, hcached, replyOf]

end Serve

section Uncounted

/-- The buffer over the same source, which does not count. -/
def uncounted (buffer : Buffer (Counted σ)) : Buffer σ := ⟨buffer.source.source, buffer.past, buffer.ahead⟩

/-- Two actions go the same way but for the counting. -/
def Uncounts (counting : EStateM LexError (Buffer (Counted σ)) Token)
    (plain : EStateM LexError (Buffer σ) Token) : Prop :=
  ∀ buffer, replyOf (plain buffer.uncounted) =
    ((replyOf (counting buffer)).1, (replyOf (counting buffer)).2.uncounted)

theorem uncounts_pull : Uncounts (σ := σ) pull pull := by
  intro buffer
  have hask : replyOf (ask buffer.uncounted) =
      ((replyOf (ask buffer)).1, (replyOf (ask buffer)).2.uncounted) := by
    obtain ⟨⟨source, asked⟩, past, ahead⟩ := buffer
    simp only [ask, uncounted, Source.next, Counted.next]
    cases Source.next source <;> rfl
  have hnewest : buffer.uncounted.newest? = buffer.newest? := rfl
  unfold pull
  rw [hnewest]
  cases buffer.newest? with
  | none => exact hask
  | some token =>
    cases heof : token.isEof with
    | true => simp [heof, replyOf, uncounted]
    | false => simpa [heof] using hask

theorem uncounts_pullMore (n : Nat) : Uncounts (σ := σ) (pullMore n) (pullMore n) := by
  induction n with
  | zero => exact uncounts_pull
  | succ n ih =>
    intro buffer
    have hpull := uncounts_pull buffer
    simp only [pullMore, bind, EStateM.bind]
    cases hcounting : pull buffer with
    | ok token after =>
      rw [hcounting] at hpull
      cases hplain : pull buffer.uncounted with
      | ok other taken =>
        rw [hplain] at hpull
        obtain ⟨-, rfl⟩ := Prod.mk.inj hpull
        exact ih after
      | error error taken => rw [hplain] at hpull; cases hpull
    | error error after =>
      rw [hcounting] at hpull
      cases hplain : pull buffer.uncounted with
      | ok other taken => rw [hplain] at hpull; cases hpull
      | error other taken => rw [hplain] at hpull; exact hpull

theorem uncounts_peek (k : Nat) : Uncounts (σ := σ) (peek k) (peek k) := by
  intro buffer
  have hahead : buffer.uncounted.ahead = buffer.ahead := rfl
  unfold peek
  rw [hahead]
  cases buffer.ahead[k]? with
  | some token => rfl
  | none => exact uncounts_pullMore _ buffer

/-- **Counting changes nothing** about what a buffer answers and keeps. -/
theorem serve_uncounted (buffer : Buffer (Counted σ)) (request : Request) :
    buffer.uncounted.serve request = ((buffer.serve request).1, (buffer.serve request).2.uncounted) := by
  cases request with
  | peek k => exact uncounts_peek k buffer
  | advance =>
    have hpeek := uncounts_peek 0 buffer
    simp only [serve]
    cases hcounting : peek 0 buffer with
    | ok token after =>
      rw [hcounting] at hpeek
      cases hplain : peek 0 buffer.uncounted with
      | ok other taken =>
        rw [hplain] at hpeek
        obtain ⟨hsame, rfl⟩ := Prod.mk.inj hpeek
        cases hsame
        rw [advance_of_ok hcounting, advance_of_ok hplain]
        rfl
      | error error taken => rw [hplain] at hpeek; cases hpeek
    | error error after =>
      rw [hcounting] at hpeek
      cases hplain : peek 0 buffer.uncounted with
      | ok other taken => rw [hplain] at hpeek; cases hpeek
      | error other taken =>
        rw [hplain] at hpeek
        obtain ⟨hsame, rfl⟩ := Prod.mk.inj hpeek
        cases hsame
        rw [advance_of_error hcounting, advance_of_error hplain]
        rfl

theorem serveAll_uncounted (buffer : Buffer (Counted σ)) (requests : List Request) :
    buffer.uncounted.serveAll requests = (buffer.serveAll requests).uncounted := by
  induction requests generalizing buffer with
  | nil => rfl
  | cons request requests ih =>
    simp only [serveAll, List.foldl_cons] at ih ⊢
    rw [serve_uncounted]
    exact ih _

end Uncounted

/-- **A buffer is a faithful view of its source**, whatever the source replies and whatever is asked of
the buffer. It keeps the tokens that the source has replied, and then copies of its first end. A request
for a place is answered with the token that is kept there, which stays there for all later requests, or
with an error of the source at a place for which nothing is kept. The source is asked only for places
for which nothing is kept, one after the other, and not after its end. -/
theorem buffer_faithful (source : σ) (requests : List Request) (request : Request) :
    let before := (ofSource (Counted.ofSource source)).serveAll requests
    let reply := (before.serve request).1
    let after := (before.serve request).2
    (Holds source before ∧ Holds source after) ∧
      Answer source (request.place before) before after reply ∧
      before.cached <+: after.cached ∧
      after.consumed = before.consumed + (if request = .advance ∧ reply.isOk then 1 else 0) ∧
      (before.serve .advance).1 = (before.serve (.peek 0)).1 ∧
      (∀ token, reply = .ok token → after.cached[request.place before]? = some token ∧
        ∀ more k, (after.serveAll more).consumed + k = request.place before →
          (after.serveAll more).serve (.peek k) = (.ok token, after.serveAll more)) ∧
      (ofSource source).serveAll requests = before.uncounted ∧
      before.uncounted.serve request = (reply, after.uncounted) := by
  intro before reply after
  have hbefore : Holds source before := ((Holds.start source).serveAll requests).1
  obtain ⟨hafter, hanswer⟩ : Holds source after ∧
      Answer source (request.place before) before after reply := hbefore.serve request
  refine ⟨⟨hbefore, hafter⟩, hanswer, hanswer.begins, ?_, (serve_advance before).1, ?_, ?_, ?_⟩
  · cases request with
    | peek k =>
      have hpast := (hbefore.serve_peek k).2.1
      simp [after, consumed, hpast]
    | advance =>
      have hpast := (hbefore.serve_peek 0).2.1
      have hconsumed := (serve_advance before).2.2.2
      simpa [after, reply, consumed, hpast] using hconsumed
  · intro token hreply
    rw [hreply] at hanswer
    have hplace := hanswer.stands
    refine ⟨hplace, fun more k hk => ?_⟩
    obtain ⟨rest, hrest⟩ := (hafter.serveAll more).2
    refine serve_again ?_ hk
    rw [← hrest, List.getElem?_append_left (List.getElem?_eq_some_iff.1 hplace).1]
    exact hplace
  · exact serveAll_uncounted (ofSource (Counted.ofSource source)) requests
  · exact serve_uncounted before request

end Buffer

end Cal
