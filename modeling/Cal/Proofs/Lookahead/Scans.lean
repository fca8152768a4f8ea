import Cal.Proofs.Lookahead.Probe
import Cal.Proofs.Lookahead.Replies

/-!
# Scans without a bound on rules

The rules that a scan enters call one another without end. `Scans` says how a scan goes when nothing
bounds how deeply they may be entered, and at which places it looks on its way.

* `scans_of_scanForm`: a scan that does not come to its bound on rules goes as without one.
* `Scans.at_last`: with one token to see, a scan looks at that token alone.
* `run_two_tokens`: every probe comes to an end, and it is a test of two tokens with no effect but the
  two looks.
-/

namespace Cal.Probe

open Buffer

variable {σ : Type} [Source σ]

/-- How the scan of a form goes: the places at which it looks, in order, and its result. -/
inductive Scans : Form → Scan σ → List Nat → EStateM.Result Stop (Scan σ) Unit → Prop
  | empty (scan : Scan σ) : Scans .empty scan [] (.ok () scan)
  | token (kind : TokenKind) (scan : Scan σ) :
    Scans (.token kind) scan [scan.behind] (scanToken kind scan)
  | rule {rule scan looks result} :
    Scans rule.body scan looks result → Scans (.rule rule) scan looks result
  | both {first second scan between looks more result} :
    Scans first scan looks (.ok () between) → Scans second between more result →
      Scans (.both first second) scan (looks ++ more) result
  | stopped {first second scan after looks stop} :
    Scans first scan looks (.error stop after) →
      Scans (.both first second) scan looks (.error stop after)
  | left {left right scan looks result} :
    Scans left scan looks result → (∀ after, result ≠ .error .mismatch after) →
      Scans (.either left right) scan looks result
  | right {left right scan after looks more result} :
    Scans left scan looks (.error .mismatch after) →
      Scans right { after with behind := scan.behind } more result →
        Scans (.either left right) scan (looks ++ more) result

variable {form : Form} {scan : Scan σ} {looks : List Nat} {result : EStateM.Result Stop (Scan σ) Unit}

/-- **A scan goes in one way only.** -/
theorem Scans.unique {looks' : List Nat} {result' : EStateM.Result Stop (Scan σ) Unit}
    (h : Scans form scan looks result) (h' : Scans form scan looks' result') :
    looks' = looks ∧ result' = result := by
  induction h generalizing looks' result' with
  | empty scan => cases h'; exact ⟨rfl, rfl⟩
  | token kind scan => cases h'; exact ⟨rfl, rfl⟩
  | rule _ ih => cases h' with | rule h' => exact ih h'
  | both _ _ ihFirst ihSecond =>
    cases h' with
    | both hfirst hsecond =>
      obtain ⟨rfl, hbetween⟩ := ihFirst hfirst
      cases hbetween
      obtain ⟨rfl, rfl⟩ := ihSecond hsecond
      exact ⟨rfl, rfl⟩
    | stopped hfirst => cases (ihFirst hfirst).2
  | stopped _ ih =>
    cases h' with
    | both hfirst hsecond => cases (ih hfirst).2
    | stopped hfirst => exact ih hfirst
  | left _ hother ih =>
    cases h' with
    | left hleft _ => exact ih hleft
    | right hleft hright => exact absurd (ih hleft).2.symm (hother _)
  | right _ _ ihLeft ihRight =>
    cases h' with
    | left hleft hother => exact absurd (ihLeft hleft).2 (hother _)
    | right hleft hright =>
      obtain ⟨rfl, hafter⟩ := ihLeft hleft
      cases hafter
      obtain ⟨rfl, rfl⟩ := ihRight hright
      exact ⟨rfl, rfl⟩

omit [Source σ] in
theorem choose_of_mismatch {left right : ScanM σ Unit} {after : Scan σ}
    (h : left scan = .error .mismatch after) :
    choose left right scan = right { after with behind := scan.behind } := by
  simp only [choose, h]

omit [Source σ] in
/-- The first alternative counts unless it comes to a token that does not match. -/
theorem choose_of_other {left right : ScanM σ Unit} (h : ∀ after, left scan ≠ .error .mismatch after) :
    choose left right scan = left scan := by
  unfold choose
  split
  · rename_i after hleft
    exact absurd hleft (h after)
  · rfl

/-- A scan does not come to its bound on the rules that are entered within one another. -/
def Unbounded (result : EStateM.Result Stop (Scan σ) Unit) : Prop :=
  ∀ after, result ≠ .error .rulesTooDeep after

/-- **A scan that does not come to its bound goes as without one**, given that for each rule. -/
theorem scans_of_scanForm {enter : Rule → ScanM σ Unit}
    (henter : ∀ rule scan, Unbounded (enter rule scan) →
      ∃ looks, Scans (.rule rule) scan looks (enter rule scan))
    (form : Form) (scan : Scan σ) (h : Unbounded (scanForm enter form scan)) :
    ∃ looks, Scans form scan looks (scanForm enter form scan) := by
  induction form generalizing scan with
  | empty => exact ⟨[], .empty scan⟩
  | token kind => exact ⟨_, .token kind scan⟩
  | rule rule => exact henter rule scan h
  | both first second ihFirst ihSecond =>
    simp only [scanForm, bind, EStateM.bind] at h ⊢
    cases hfirst : scanForm enter first scan with
    | ok value between =>
      rw [hfirst] at h
      obtain ⟨looks, hlooks⟩ := ihFirst scan (by rw [hfirst]; simp [Unbounded])
      obtain ⟨more, hmore⟩ := ihSecond between h
      rw [hfirst] at hlooks
      exact ⟨_, .both hlooks hmore⟩
    | error stop after =>
      rw [hfirst] at h
      obtain ⟨looks, hlooks⟩ := ihFirst scan (by rw [hfirst]; exact h)
      rw [hfirst] at hlooks
      exact ⟨_, .stopped hlooks⟩
  | either left right ihLeft ihRight =>
    have hscan : scanForm enter (.either left right) scan =
        choose (scanForm enter left) (scanForm enter right) scan := rfl
    by_cases hmismatch : ∃ after, scanForm enter left scan = .error .mismatch after
    · obtain ⟨after, hleft⟩ := hmismatch
      rw [hscan, choose_of_mismatch hleft] at h ⊢
      obtain ⟨looks, hlooks⟩ := ihLeft scan (by rw [hleft]; simp [Unbounded])
      obtain ⟨more, hmore⟩ := ihRight _ h
      rw [hleft] at hlooks
      exact ⟨_, .right hlooks hmore⟩
    · have hother : ∀ after, scanForm enter left scan ≠ .error .mismatch after := by
        simpa using hmismatch
      rw [hscan, choose_of_other hother] at h ⊢
      obtain ⟨looks, hlooks⟩ := ihLeft scan h
      exact ⟨looks, .left hlooks hother⟩

theorem scans_of_scanRule (depth : Nat) (rule : Rule) (scan : Scan σ)
    (h : Unbounded (scanRule depth rule scan)) :
    ∃ looks, Scans (.rule rule) scan looks (scanRule depth rule scan) := by
  induction depth generalizing rule scan with
  | zero => exact absurd rfl (h scan)
  | succ depth ih =>
    obtain ⟨looks, hlooks⟩ := scans_of_scanForm ih rule.body scan h
    exact ⟨looks, .rule hlooks⟩

/-- One token is behind a scan that may see one more, or has seen that one before. -/
structure AtLast (scan : Scan σ) : Prop where
  behind : scan.behind = 1
  budget : scan.seen = 1 ∧ scan.budget = 1 ∨ scan.seen = 2 ∧ scan.budget = 0

omit [Source σ] in
theorem AtLast.pass (h : AtLast scan) (buffer : Buffer σ) : scan.pass buffer = ⟨buffer, 2, 2, 0⟩ := by
  obtain ⟨hbehind, ⟨hseen, hbudget⟩ | ⟨hseen, hbudget⟩⟩ := h
  · rw [Scan.pass, if_pos (by omega), hbehind, hseen, hbudget]
  · rw [Scan.pass, if_neg (by omega), hbehind, hseen, hbudget]

/-- What is left after a scan that had one token to see: that token still, or nothing. -/
def Spends : EStateM.Result Stop (Scan σ) Unit → Prop
  | .ok _ after => AtLast after
  | .error .mismatch after => after.seen = 2 ∧ after.budget = 0
  | .error _ _ => True

theorem AtLast.scanToken (h : AtLast scan) (kind : TokenKind) : Spends (scanToken kind scan) := by
  unfold Probe.scanToken
  rw [h.behind]
  cases Buffer.peek 1 scan.buffer with
  | error error after => trivial
  | ok token after =>
    simp only [h.pass]
    by_cases hkind : token.kind = kind
    · simp [hkind, Spends]
    · simp [hkind, Spends]

/-- **With one token to see, a scan looks at that token alone.** It goes on only if it has not looked, and
tries another alternative from where it was. -/
theorem Scans.at_last (h : Scans form scan looks result) (hlast : AtLast scan) :
    (∀ look ∈ looks, look = 1) ∧ Spends result := by
  induction h with
  | empty scan => exact ⟨by simp, hlast⟩
  | token kind scan => exact ⟨by simp [hlast.behind], hlast.scanToken kind⟩
  | rule _ ih => exact ih hlast
  | both _ _ ihFirst ihSecond =>
    obtain ⟨hfirst, hbetween⟩ := ihFirst hlast
    obtain ⟨hsecond, hafter⟩ := ihSecond hbetween
    exact ⟨List.forall_mem_append.2 ⟨hfirst, hsecond⟩, hafter⟩
  | stopped _ ih => exact ih hlast
  | left _ _ ih => exact ih hlast
  | right _ _ ihLeft ihRight =>
    obtain ⟨hleft, hspent⟩ := ihLeft hlast
    obtain ⟨hright, hafter⟩ := ihRight ⟨hlast.behind, .inr hspent⟩
    exact ⟨List.forall_mem_append.2 ⟨hleft, hright⟩, hafter⟩

/-- A scan before its first token. -/
def Scan.start (buffer : Buffer σ) : Scan σ := ⟨buffer, 0, 0, Probe.budget⟩

/-- A probe looks at the next token and the one behind it, and no further. -/
theorem Scans.looks_lt {probe : Probe} {buffer : Buffer σ}
    (h : Scans probe.form (Scan.start buffer) looks result) : ∀ look ∈ looks, look < 2 := by
  obtain ⟨form, hform, -⟩ := judge_seconds probe
  rw [hform] at h
  -- behind the parenthesis one token is left to see
  have hfirst {kind : TokenKind} {between : Scan σ}
      (hscan : scanToken kind (Scan.start buffer) = .ok () between) : AtLast between := by
    unfold scanToken at hscan
    split at hscan
    · cases hscan
    · dsimp only at hscan
      split at hscan
      · cases hscan
      · split at hscan <;> cases hscan
        exact ⟨rfl, .inl ⟨rfl, rfl⟩⟩
  cases h with
  | both htoken hrest =>
    generalize hscan : EStateM.Result.ok () _ = first at htoken
    cases htoken with
    | token kind scan =>
      have hlooks := (hrest.at_last (hfirst hscan.symm)).1
      simp only [List.singleton_append, List.forall_mem_cons]
      refine ⟨by simp [Scan.start], fun look hlook => ?_⟩
      rw [hlooks look hlook]
      exact Nat.one_lt_two
  | stopped htoken =>
    generalize hscan : EStateM.Result.error _ _ = first at htoken
    cases htoken with
    | token kind scan => simp [Scan.start]

/-- What a probe makes of the result of its scan. -/
def conclude : EStateM.Result Stop (Scan σ) Unit → EStateM.Result LexError (Buffer σ) Sighting
  | .ok _ scan | .error .decided scan => .ok ⟨true, scan.seen⟩ scan.buffer
  | .error .mismatch scan | .error .rulesTooDeep scan => .ok ⟨false, scan.seen⟩ scan.buffer
  | .error (.lexical error) scan => .error error scan.buffer

/-- **A probe comes to an end**, however deeply its rules may be entered. -/
theorem exists_scans (probe : Probe) (buffer : Buffer σ) :
    ∃ looks result, Scans probe.form (Scan.start buffer) looks result ∧ Unbounded result ∧
      conclude result = probe.run buffer := by
  obtain ⟨stop, scan, hscan, hends⟩ := scan_ends probe buffer
  have hunbounded : Unbounded (scanForm (scanRule callDepth) probe.form (Scan.start buffer)) := by
    intro after hdeep
    rw [Scan.start, hscan] at hdeep
    cases hdeep
    -- the scan stops at a token, and so not for the depth of its rules
    split at hends
    · cases hends.1
    · split at hends
      · split at hends
        · cases hends.1
        · obtain ⟨hstop, -⟩ := hends
          split at hstop <;> cases hstop
      · cases hends.1
  obtain ⟨looks, hlooks⟩ := scans_of_scanForm (scans_of_scanRule callDepth) probe.form _ hunbounded
  exact ⟨looks, _, hlooks, hunbounded, rfl⟩

/-- The looks that a probe comes to. -/
def requests (buffer : Buffer σ) : List Request :=
  match buffer.view 0 with
  | .ok next => if next.kind = .leftParen then [.peek 0, .peek 1] else [.peek 0]
  | .error _ => [.peek 0]

/-- What a probe is answered, by what is in view. -/
inductive Answered (probe : Probe) (buffer : Buffer σ) : Except LexError Sighting → Prop
  | hidden {error : LexError} : buffer.view 0 = .error error → Answered probe buffer (.error error)
  | other {next : Token} : buffer.view 0 = .ok next → next.kind ≠ .leftParen →
    Answered probe buffer (.ok ⟨false, 1⟩)
  | behind {next : Token} {error : LexError} : buffer.view 0 = .ok next → next.kind = .leftParen →
    buffer.view 1 = .error error → Answered probe buffer (.error error)
  | second {next second : Token} : buffer.view 0 = .ok next → next.kind = .leftParen →
    buffer.view 1 = .ok second → Answered probe buffer (.ok ⟨second.kind ∈ probe.seconds, 2⟩)

/-- **What comes of a probe**: its answer, and the buffer after its looks. -/
theorem run_answered (probe : Probe) (buffer : Buffer σ) :
    Answered probe buffer (replyOf (probe.run buffer)).1 ∧
      (replyOf (probe.run buffer)).2 = buffer.serveAll (requests buffer) ∧
      (replyOf (probe.run buffer)).2.past = buffer.past := by
  have hshows : Shows buffer.view buffer.past buffer := ⟨rfl, rfl⟩
  rw [run_eq_glance]
  simp only [glance, requests, bind, EStateM.bind]
  cases hnext : buffer.view 0 with
  | error error =>
    obtain ⟨after, hpeek, hafter⟩ := peek_of_hidden hshows hnext
    rw [hpeek]
    exact ⟨.hidden hnext, by simp [serveAll, serve, hpeek, replyOf], hafter.past⟩
  | ok next =>
    obtain ⟨after, hpeek, hafter⟩ := peek_of_shows hshows hnext
    rw [hpeek]
    by_cases hkind : next.kind = .leftParen
    · -- the second look shows what was in view behind the parenthesis before the first
      simp only [hkind, if_true]
      cases hsecond : buffer.view 1 with
      | error error =>
        obtain ⟨last, hlast, hpast⟩ := peek_of_hidden hafter hsecond
        simp only [EStateM.bind, hlast]
        exact ⟨.behind hnext hkind hsecond, by simp [serveAll, serve, hpeek, hlast, replyOf], hpast.past⟩
      | ok second =>
        obtain ⟨last, hlast, hpast⟩ := peek_of_shows hafter hsecond
        simp only [EStateM.bind, hlast]
        exact ⟨.second hnext hkind hsecond,
          by simp [serveAll, serve, hpeek, hlast, replyOf, pure, EStateM.pure], hpast.2⟩
    · simp only [hkind, if_false]
      exact ⟨.other hnext hkind, by simp [serveAll, serve, hpeek, replyOf, pure, EStateM.pure], hafter.2⟩

/-- A probe fails where a token that it looks at cannot be seen. -/
theorem Answered.error_iff {probe : Probe} {buffer : Buffer σ} {reply : Except LexError Sighting}
    (h : Answered probe buffer reply) (error : LexError) :
    reply = .error error ↔ buffer.view 0 = .error error ∨
      ∃ next, buffer.view 0 = .ok next ∧ next.kind = .leftParen ∧ buffer.view 1 = .error error := by
  cases h with
  | hidden hnext => simp [hnext]
  | other hnext hkind => simp [hnext, hkind]
  | behind hnext hkind hsecond => simp [hnext, hkind, hsecond]
  | second hnext hkind hsecond => simp [hnext, hsecond]

/-- A probe that does not fail hits by the two kinds it has seen. -/
theorem Answered.sighting {probe : Probe} {buffer : Buffer σ} {sighting : Sighting}
    (h : Answered probe buffer (.ok sighting)) :
    ∃ next, buffer.view 0 = .ok next ∧
      sighting.seen = (if next.kind = .leftParen then 2 else 1) ∧
      (sighting.hit = true ↔ next.kind = .leftParen ∧
        ∃ second, buffer.view 1 = .ok second ∧ second.kind ∈ probe.seconds) := by
  cases h with
  | @other next hnext hkind => exact ⟨next, hnext, by simp [hkind], by simp [hkind]⟩
  | @second next second hnext hkind hsecond =>
    exact ⟨next, hnext, by simp [hkind], by simp [hkind, hsecond]⟩

/-- **A probe is a test of two tokens**, on every source and in every state of the buffer. Without a bound
on the rules that may be entered it comes to one end, and looks at no place behind the second. It fails
where the next token cannot be seen, or the one behind an opening parenthesis. Otherwise it has seen one
token, or two if the first is an opening parenthesis, and hits exactly if the second is then one of those
that decide for its form. The buffer is as after the looks at these tokens, and nothing is taken. -/
theorem run_two_tokens (probe : Probe) (buffer : Buffer σ) :
    let reply := (replyOf (probe.run buffer)).1
    let after := (replyOf (probe.run buffer)).2
    (∃ looks result, Scans probe.form (Scan.start buffer) looks result ∧ Unbounded result ∧
      (∀ looks' result', Scans probe.form (Scan.start buffer) looks' result' →
        looks' = looks ∧ result' = result) ∧
      (∀ look ∈ looks, look < 2) ∧ conclude result = probe.run buffer) ∧
    (∀ error, reply = .error error ↔ buffer.view 0 = .error error ∨
      ∃ next, buffer.view 0 = .ok next ∧ next.kind = .leftParen ∧ buffer.view 1 = .error error) ∧
    (∀ sighting, reply = .ok sighting → ∃ next, buffer.view 0 = .ok next ∧
      sighting.seen = (if next.kind = .leftParen then 2 else 1) ∧
      (sighting.hit = true ↔ next.kind = .leftParen ∧
        ∃ second, buffer.view 1 = .ok second ∧ second.kind ∈ probe.seconds)) ∧
    after = buffer.serveAll (requests buffer) ∧ after.consumed = buffer.consumed := by
  intro reply after
  obtain ⟨hanswered, hafter, hpast⟩ := run_answered probe buffer
  obtain ⟨looks, result, hscans, hunbounded, hrun⟩ := exists_scans probe buffer
  refine ⟨?_, hanswered.error_iff, fun sighting hreply => ?_, hafter, ?_⟩
  · exact ⟨looks, result, hscans, hunbounded, fun _ _ h => hscans.unique h, hscans.looks_lt, hrun⟩
  · have hsighted : Answered probe buffer reply := hanswered
    rw [hreply] at hsighted
    exact hsighted.sighting
  · exact congrArg List.length hpast

end Cal.Probe
