import Cal.Proofs.Lookahead.Replies
import Cal.Proofs.Parser.Conduct
import Cal.Proofs.Parser.OnDemand

/-!
# How often a parser asks its source

A step looks at the next token and at the one behind it, and takes a token only after all its looks. So a
source is never asked for more than two tokens beyond those that have been consumed.

* `Near`: what holds of a buffer between any two requests of a parse, as long as the source has not failed.
* `asks_step`: the requests of one step, and the bound at every moment between them.
* `looked_after`: the same at every stage of a parse, for every source.
-/

namespace Cal

open Buffer

/-- So many requests, so many replies. -/
theorem Counted.length_replies {σ : Type} [Source σ] (counted : Counted σ) (source : σ) :
    (counted.replies source).length = counted.asked := by
  unfold Counted.replies
  generalize counted.asked = n
  induction n generalizing source with
  | zero => rfl
  | succ n ih => rw [Source.replies, List.length_cons, ih]

namespace Buffer

variable {σ : Type} [Source σ] {source : σ} {start buffer : Buffer (Counted σ)} {requests : List Request}
  {request : Request} {k : Nat}

/-- The source has been asked for two tokens beyond those consumed, at most, and not again after it has
ended the input. -/
structure Bounded (source : σ) (buffer : Buffer (Counted σ)) : Prop where
  asked : buffer.source.asked ≤ buffer.consumed + 2
  unended : ∀ reply ∈ (buffer.source.replies source).dropLast, Source.endsInput reply = false

/-- All that the source has been asked for is kept, and no more than two tokens of it are ahead. -/
structure Near (source : σ) (buffer : Buffer (Counted σ)) : Prop where
  holds : Holds source buffer
  asked : buffer.source.asked ≤ buffer.cached.length
  ahead : buffer.ahead.length ≤ 2

omit [Source σ] in
theorem length_cached (buffer : Buffer σ) : buffer.cached.length = buffer.consumed + buffer.ahead.length := by
  simp [cached, consumed]

theorem Near.bounded (h : Near source buffer) : Bounded source buffer := by
  refine ⟨?_, h.holds.unended⟩
  have hasked := h.asked
  have hahead := h.ahead
  rw [length_cached] at hasked
  omega

theorem Near.fresh (source : σ) : Near source (ofSource (Counted.ofSource source)) :=
  ⟨.start source, Nat.le_refl _, Nat.zero_le _⟩

/-- **A look at one of the next two tokens** keeps the bound. If the source fails there, it has been asked
once for nothing. -/
theorem Near.serve_peek (h : Near source buffer) (hk : k ≤ 1) :
    Bounded source (buffer.serve (.peek k)).2 ∧
      ((buffer.serve (.peek k)).1.isOk = true → Near source (buffer.serve (.peek k)).2) := by
  obtain ⟨hholds, hpast, hanswer⟩ := h.holds.serve_peek k
  generalize (buffer.serve (.peek k)).2 = after at hholds hpast hanswer ⊢
  generalize (buffer.serve (.peek k)).1 = reply at hanswer ⊢
  have hconsumed : after.consumed = buffer.consumed := congrArg List.length hpast
  have hasked := h.asked
  have hbefore := length_cached buffer
  have hlength := length_cached after
  have hreplies := Counted.length_replies after.source source
  have hreplied := Counted.length_replies buffer.source source
  cases hanswer with
  | kept _ hkept hsource =>
    have hahead := h.ahead
    have hsame : after.cached.length = buffer.cached.length := congrArg List.length hkept
    have hnear : Near source after := ⟨hholds, by rw [hsource, hkept]; exact hasked, by omega⟩
    exact ⟨hnear.bounded, fun _ => hnear⟩
  | fetched hplace _ hmore hkept hlast =>
    have hgrown := congrArg List.length hmore
    have hcached := congrArg List.length hkept
    simp only [List.length_append, List.length_map] at hgrown hcached
    have hnear : Near source after := ⟨hholds, by omega, by omega⟩
    exact ⟨hnear.bounded, fun _ => hnear⟩
  | failed _ _ hmore hkept hplace =>
    have hgrown := congrArg List.length hmore
    have hcached := congrArg List.length hkept
    simp only [List.length_append, List.length_map, List.length_singleton] at hgrown hcached
    refine ⟨⟨by omega, hholds.unended⟩, fun hok => ?_⟩
    cases hok

/-- Taking the next token keeps it as well. -/
theorem Near.serve_advance (h : Near source buffer) :
    Bounded source (buffer.serve .advance).2 ∧
      ((buffer.serve .advance).1.isOk = true → Near source (buffer.serve .advance).2) := by
  obtain ⟨hbounded, hnear⟩ := h.serve_peek (Nat.zero_le 1)
  obtain ⟨hreply, hsource, hcached, hconsumed⟩ := Buffer.serve_advance buffer
  have hlength := length_cached (buffer.serve .advance).2
  have hlength' := length_cached (buffer.serve (.peek 0)).2
  rw [hcached] at hlength
  refine ⟨⟨?_, ?_⟩, fun hok => ?_⟩
  · have hasked := hbounded.asked
    rw [hsource]
    omega
  · rw [hsource]
    exact hbounded.unended
  · obtain ⟨hholds, hasked, hahead⟩ := hnear (hreply ▸ hok)
    exact ⟨hholds.congr hsource hcached, by rw [hsource, hcached]; exact hasked, by omega⟩

/-- Requests lead from one buffer to another, and the bound is kept at every moment between them. -/
def Paced (source : σ) (requests : List Request) (start buffer : Buffer (Counted σ)) : Prop :=
  start.serveAll requests = buffer ∧ ∀ made, made <+: requests → Bounded source (start.serveAll made)

theorem Paced.concat (h : Paced source requests start buffer)
    (hbounded : Bounded source (buffer.serve request).2) :
    Paced source (requests ++ [request]) start (buffer.serve request).2 := by
  obtain ⟨rfl, hmoments⟩ := h
  have hlast : start.serveAll (requests ++ [request]) = ((start.serveAll requests).serve request).2 := by
    simp [serveAll]
  refine ⟨hlast, fun made hmade => ?_⟩
  rcases List.prefix_concat_iff.1 hmade with rfl | hearlier
  · rw [hlast]
    exact hbounded
  · exact hmoments made hearlier

/-- A step is looking ahead: it has taken nothing, and the source has not failed. -/
def Looking (source : σ) (start buffer : Buffer (Counted σ)) : Prop :=
  Near source buffer ∧ ∃ requests, .advance ∉ requests ∧ Paced source requests start buffer

/-- A step has been taken: a token was taken with its last request, if at all. -/
def Looked (source : σ) (start buffer : Buffer (Counted σ)) : Prop :=
  ∃ requests, .advance ∉ requests.dropLast ∧ Paced source requests start buffer

theorem Near.looking (h : Near source buffer) : Looking source buffer buffer := by
  refine ⟨h, [], List.not_mem_nil, rfl, fun made hmade => ?_⟩
  rw [List.prefix_nil.1 hmade]
  exact h.bounded

theorem Looking.looked (h : Looking source start buffer) : Looked source start buffer := by
  obtain ⟨-, requests, hrequests, hpaced⟩ := h
  exact ⟨requests, fun hmem => hrequests (List.dropLast_subset _ hmem), hpaced⟩

theorem Looking.serve (h : Looking source start buffer)
    (hbounded : Bounded source (buffer.serve request).2) : Looked source start (buffer.serve request).2 := by
  obtain ⟨-, requests, hrequests, hpaced⟩ := h
  refine ⟨requests ++ [request], ?_, hpaced.concat hbounded⟩
  rw [List.dropLast_concat]
  exact hrequests

theorem Looking.leads_peek (h : Looking source start buffer) (hk : k ≤ 1) :
    Leads (peek k) buffer (fun _ after => Looking source start after)
      fun _ after => Looked source start after := by
  obtain ⟨hbounded, hnear⟩ := h.1.serve_peek hk
  have hlooked := h.serve hbounded
  obtain ⟨-, requests, hrequests, hpaced⟩ := h
  have hmore := hpaced.concat hbounded
  unfold Leads
  simp only [Buffer.serve] at hnear hlooked hmore
  cases hpeek : peek k buffer with
  | ok token after =>
    rw [hpeek] at hnear hmore
    exact ⟨hnear rfl, _, by simpa using hrequests, hmore⟩
  | error error after =>
    rw [hpeek] at hlooked
    exact hlooked

theorem Looking.leads_advance (h : Looking source start buffer) :
    Leads advance buffer (fun _ after => Near source after ∧ Looked source start after)
      fun _ after => Looked source start after := by
  obtain ⟨hbounded, hnear⟩ := h.1.serve_advance
  have hlooked := h.serve hbounded
  unfold Leads
  simp only [Buffer.serve] at hnear hlooked
  cases hadvance : advance buffer with
  | ok token after =>
    rw [hadvance] at hnear hlooked
    exact ⟨hnear rfl, hlooked⟩
  | error error after =>
    rw [hadvance] at hlooked
    exact hlooked

end Buffer

section Step

variable {σ : Type} [Source σ] {source : σ} {start : Buffer (Counted σ)} {parser : Parser (Counted σ)}

/-- What a step asks of its source, as long as it looks ahead, and at its end. -/
theorem conduct_looking (source : σ) (start : Buffer (Counted σ)) :
    Conduct (Looking source start) (fun after => Near source after ∧ Looked source start after)
      (Looked source start) where
  peek hk h := h.leads_peek hk
  advance h := h.leads_advance
  rest h := ⟨h.1, h.looked⟩
  refuse h := h.looked

/-- **What a step asks of its source**: the bound is kept at every moment, and a token is taken with the
last request, if at all. -/
theorem asks_step (goal : Goal) (h : Near source parser.buffer) :
    Leads goal.step parser (fun _ after => Near source after.buffer ∧ Looked source parser.buffer after.buffer)
      fun _ after => Looked source parser.buffer after.buffer :=
  (conduct_looking source parser.buffer).leads_step goal h.looking

/-- As long as a parse goes on, all that its source was asked for is kept. -/
theorem near_after {stage : Stage (Counted σ)} {n : Nat}
    (h : (Stage.ofSource (Counted.ofSource source)).after n = some stage) : Near source stage.parser.buffer := by
  induction n generalizing stage with
  | zero =>
    cases h
    exact .fresh source
  | succ n ih =>
    obtain ⟨before, hbefore, hnext⟩ := Stage.after_succ.1 h
    obtain ⟨goal, rest, goals, -, hstep, -⟩ := Stage.next?_eq_some.1 hnext
    exact ((asks_step goal (ih hbefore)).of_ok hstep).1

/-- **At every stage of a parse** the next step keeps the bound, whether it fails or not. -/
theorem looked_after {goal : Goal} {rest : List Goal} {n : Nat}
    (h : (Stage.ofSource (Counted.ofSource source)).after n = some ⟨goal :: rest, parser⟩) :
    Looked source parser.buffer (replyOf (goal.step parser)).2.buffer := by
  have hasks := asks_step goal (near_after h)
  cases hstep : goal.step parser with
  | ok goals after => exact (hasks.of_ok hstep).2
  | error error after => exact hasks.of_error hstep

end Step

end Cal
