import Cal.Probe.Lasting
import Cal.Proofs.Lookahead.View

/-!
# What a probe finds

A probe looks at the next token, and if that is an opening parenthesis also at the one behind it,
which then decides: once it matches, both tokens of the budget have matched.

* `reflects_scanForm`: with one token left to see, a scan is a matter of that token alone.
* `run_eq_glance`: a probe in short, on every source.
* `run_of_shows`, `run_of_hidden`: what a probe finds in a view, and what of that it leaves in view.
-/

namespace Cal.Probe

open Buffer

/-- The kinds that decide a probe in favour of its form when they come behind the parenthesis. -/
def seconds : Probe → List TokenKind
  | callSuffix => [.identifier, .rightParen]
  | parenCondition => [.notKw, .leftParen] ++ expressionKinds

/-- Whether a probe finds its form, by the kinds of the next two tokens. -/
def hits (probe : Probe) (next second : TokenKind) : Bool :=
  next = .leftParen && second ∈ probe.seconds

/-- What comes of a form when only one more token may be seen. -/
inductive Verdict
  | decided
  | mismatch
  | passed
  | rulesTooDeep
deriving DecidableEq

/-- What a token of the given kind does to a form, given what it does to each rule. -/
def judgeForm (kind : TokenKind) (judgeRule : Rule → Verdict) : Form → Verdict
  | .empty => .passed
  | .token other => if kind = other then .decided else .mismatch
  | .rule rule => judgeRule rule
  | .both first second =>
    match judgeForm kind judgeRule first with
    | .passed => judgeForm kind judgeRule second
    | verdict => verdict
  | .either left right =>
    match judgeForm kind judgeRule left with
    | .mismatch => judgeForm kind judgeRule right
    | verdict => verdict

/-- What a token of the given kind does to a rule, entering rules within it to a given depth. -/
def judgeRule (kind : TokenKind) : Nat → Rule → Verdict
  | 0, _ => .rulesTooDeep
  | depth + 1, rule => judgeForm kind (judgeRule kind depth) rule.body

/-- Whether a form begins with a token, at its first alternatives. -/
def demands (enter : Rule → Bool) : Form → Bool
  | .empty => false
  | .token _ => true
  | .rule rule => enter rule
  | .both first _ => demands enter first
  | .either left _ => demands enter left

/-- Whether a rule begins with a token, entering rules within it to a given depth. -/
def ruleDemands : Nat → Rule → Bool
  | 0, _ => false
  | depth + 1, rule => demands (ruleDemands depth) rule.body

variable {σ : Type} [Source σ] {scan : Scan σ} {shown : Buffer σ} {second : Token} {error : LexError}

/-- One token is behind a scan, and it may see one more, which is `second`, or has just seen that. -/
structure AtSecond (second : Token) (shown : Buffer σ) (scan : Scan σ) : Prop where
  peek : peek 1 scan.buffer = .ok second shown
  behind : scan.behind = 1
  budget : scan.seen = 1 ∧ scan.budget = 1 ∨ scan.seen = 2 ∧ scan.budget = 0

/-- The token behind the first has been seen. -/
structure SawSecond (shown : Buffer σ) (scan : Scan σ) : Prop where
  buffer : scan.buffer = shown
  seen : scan.seen = 2
  budget : scan.budget = 0

/-- A scan went as a verdict says. -/
def Reflects (second : Token) (shown : Buffer σ) :
    Verdict → EStateM.Result Stop (Scan σ) Unit → Prop
  | .decided, .error .decided scan => SawSecond shown scan
  | .mismatch, .error .mismatch scan => SawSecond shown scan
  | .passed, .ok _ scan => AtSecond second shown scan
  | .rulesTooDeep, .error .rulesTooDeep _ => True
  | _, _ => False

theorem reflects_scanToken (kind : TokenKind) (h : AtSecond second shown scan) :
    Reflects second shown (if second.kind = kind then .decided else .mismatch)
      (scanToken kind scan) := by
  obtain ⟨hpeek, hbehind, hbudget⟩ := h
  -- the budget is used up by this token, or was by an alternative before
  have hpass : scan.pass shown = ⟨shown, 2, 2, 0⟩ := by
    unfold Scan.pass
    rcases hbudget with ⟨hseen, hbudget⟩ | ⟨hseen, hbudget⟩
    · rw [if_pos (by omega), hbehind, hseen, hbudget]
    · rw [if_neg (by omega), hbehind, hseen, hbudget]
  unfold scanToken
  rw [hbehind, hpeek]
  simp only [hpass]
  by_cases hkind : second.kind = kind
  · rw [if_pos hkind, if_neg (not_not_intro hkind), if_pos ⟨trivial, trivial⟩]
    exact ⟨rfl, rfl, rfl⟩
  · rw [if_neg hkind, if_pos hkind]
    exact ⟨rfl, rfl, rfl⟩

theorem reflects_scanForm {enter : Rule → ScanM σ Unit} {judge : Rule → Verdict}
    (hagain : Buffer.peek 1 shown = .ok second shown)
    (henter : ∀ rule scan, AtSecond second shown scan →
      Reflects second shown (judge rule) (enter rule scan))
    (form : Form) (h : AtSecond second shown scan) :
    Reflects second shown (judgeForm second.kind judge form) (scanForm enter form scan) := by
  induction form generalizing scan with
  | empty => exact h
  | token kind => exact reflects_scanToken kind h
  | rule rule => exact henter rule scan h
  | both first other ihFirst ihOther =>
    have hfirst := ihFirst h
    simp only [scanForm, judgeForm, bind, EStateM.bind]
    cases hverdict : judgeForm second.kind judge first <;>
      cases hscan : scanForm enter first scan <;> rw [hverdict, hscan] at hfirst <;>
      first | exact hfirst | exact hfirst.elim | exact ihOther hfirst
  | either left right ihLeft ihRight =>
    have hleft := ihLeft h
    simp only [scanForm, judgeForm, choose]
    cases hverdict : judgeForm second.kind judge left with
    | mismatch =>
      cases hscan : scanForm enter left scan with
      | ok value after => rw [hverdict, hscan] at hleft; exact hleft.elim
      | error stop after =>
        rw [hverdict, hscan] at hleft
        cases stop <;> first | exact hleft.elim | skip
        refine ihRight ⟨?_, h.behind, .inr ⟨hleft.seen, hleft.budget⟩⟩
        rw [hleft.buffer]
        exact hagain
    | decided | passed | rulesTooDeep =>
      cases hscan : scanForm enter left scan with
      | ok value after => rw [hverdict, hscan] at hleft; exact hleft
      | error stop after =>
        rw [hverdict, hscan] at hleft
        cases stop <;> first | exact hleft.elim | exact hleft

theorem reflects_scanRule (hagain : Buffer.peek 1 shown = .ok second shown) (depth : Nat) (rule : Rule)
    (h : AtSecond second shown scan) :
    Reflects second shown (judgeRule second.kind depth rule) (scanRule depth rule scan) := by
  induction depth generalizing rule scan with
  | zero => trivial
  | succ depth ih => exact reflects_scanForm hagain (fun rule _ h => ih rule h) rule.body h

/-- A scan that is to begin with a token fails where the source does. -/
theorem scanForm_of_error {enter : Rule → ScanM σ Unit} {entered : Rule → Bool}
    (hpeek : Buffer.peek scan.behind scan.buffer = .error error shown)
    (henter : ∀ rule, entered rule = true → enter rule scan = .error (.lexical error) (scan.pass shown))
    (form : Form) (h : demands entered form = true) :
    scanForm enter form scan = .error (.lexical error) (scan.pass shown) := by
  induction form with
  | empty => cases h
  | token kind => simp only [scanForm, scanToken, hpeek]
  | rule rule => exact henter rule h
  | both first _ ih => simp only [scanForm, bind, EStateM.bind, ih h]
  | either left _ ih => simp only [scanForm, choose, ih h]

theorem scanRule_of_error (hpeek : Buffer.peek scan.behind scan.buffer = .error error shown) (depth : Nat)
    (rule : Rule) (h : ruleDemands depth rule = true) :
    scanRule depth rule scan = .error (.lexical error) (scan.pass shown) := by
  induction depth generalizing rule with
  | zero => cases h
  | succ depth ih => exact scanForm_of_error hpeek (fun rule h => ih rule h) rule.body h

/-- The token behind the parenthesis decides a probe. -/
theorem judge_seconds (probe : Probe) : ∃ form, probe.form = .both (.token .leftParen) form ∧
    demands (ruleDemands callDepth) form = true ∧ ∀ kind,
      judgeForm kind (judgeRule kind callDepth) form =
        if kind ∈ probe.seconds then .decided else .mismatch := by
  cases probe with
  | callSuffix => exact ⟨_, rfl, by decide, by decide +kernel⟩
  | parenCondition => exact ⟨_, rfl, by decide, by decide +kernel⟩

/-- Where the token behind the parenthesis decides, it has been seen. -/
theorem stops_of_reflects {chosen : Prop} [Decidable chosen] {result : EStateM.Result Stop (Scan σ) Unit}
    (h : Reflects second shown (if chosen then .decided else .mismatch) result) :
    ∃ scan, result = .error (if chosen then .decided else .mismatch) scan ∧ SawSecond shown scan := by
  by_cases hchosen : chosen
  · rw [if_pos hchosen] at h ⊢
    cases result with
    | ok value scan => exact h.elim
    | error stop scan => cases stop <;> first | exact h.elim | exact ⟨scan, rfl, h⟩
  · rw [if_neg hchosen] at h ⊢
    cases result with
    | ok value scan => exact h.elim
    | error stop scan => cases stop <;> first | exact h.elim | exact ⟨scan, rfl, h⟩

/-- **How the scan of a probe ends.** It stops at the next token or, behind an opening parenthesis, at
the one after it. -/
theorem scan_ends (probe : Probe) (buffer : Buffer σ) :
    ∃ stop scan, scanForm (scanRule callDepth) probe.form ⟨buffer, 0, 0, budget⟩ = .error stop scan ∧
      match Buffer.peek 0 buffer with
      | .error error after => stop = .lexical error ∧ scan.buffer = after
      | .ok next after =>
        if next.kind = .leftParen then
          match Buffer.peek 1 after with
          | .error error shown => stop = .lexical error ∧ scan.buffer = shown
          | .ok second shown =>
            stop = (if second.kind ∈ probe.seconds then .decided else .mismatch) ∧ SawSecond shown scan
        else stop = .mismatch ∧ scan.buffer = after ∧ scan.seen = 1 := by
  obtain ⟨form, hform, hdemands, hjudge⟩ := judge_seconds probe
  rw [hform]
  simp only [scanForm, bind, EStateM.bind, scanToken]
  cases hnext : Buffer.peek 0 buffer with
  | error error after => exact ⟨_, _, rfl, rfl, Scan.buffer_pass _ _⟩
  | ok next after =>
    by_cases hkind : next.kind = .leftParen
    · -- the parenthesis is behind the scan, and one token may still be seen
      simp only [hkind, Scan.pass, budget, if_true]
      cases hpeek : Buffer.peek 1 after with
      | error error shown =>
        have hscan : scanForm (scanRule callDepth) form ⟨after, 1, 1, 1⟩ =
            .error (.lexical error) (Scan.pass ⟨after, 1, 1, 1⟩ shown) :=
          scanForm_of_error hpeek (fun rule => scanRule_of_error hpeek callDepth rule) form hdemands
        exact ⟨_, _, hscan, rfl, Scan.buffer_pass _ _⟩
      | ok second shown =>
        have hagain := peek_again hpeek
        have hat : AtSecond second shown ⟨after, 1, 1, 1⟩ := ⟨hpeek, rfl, .inl ⟨rfl, rfl⟩⟩
        have hreflects := reflects_scanForm hagain
          (fun rule _ => reflects_scanRule hagain callDepth rule) form hat
        rw [hjudge] at hreflects
        obtain ⟨scan, hscan, hsaw⟩ := stops_of_reflects hreflects
        exact ⟨_, scan, hscan, rfl, hsaw⟩
    · simp only [hkind, Scan.pass, if_true, if_false, ne_eq, not_false_eq_true]
      exact ⟨_, _, rfl, rfl, rfl, rfl⟩

/-- What a probe comes to, in short: it looks at the next token, and behind an opening parenthesis at
one more. -/
def glance (probe : Probe) : EStateM LexError (Buffer σ) Sighting := do
  let next ← Buffer.peek 0
  if next.kind = .leftParen then
    let second ← Buffer.peek 1
    return ⟨second.kind ∈ probe.seconds, 2⟩
  else
    return ⟨false, 1⟩

/-- **A probe is a glance** at no more than two tokens, on every source. -/
theorem run_eq_glance (probe : Probe) (buffer : Buffer σ) : probe.run buffer = probe.glance buffer := by
  obtain ⟨stop, scan, hscan, hends⟩ := scan_ends probe buffer
  unfold run glance
  rw [hscan]
  simp only [bind, EStateM.bind]
  cases hnext : Buffer.peek 0 buffer with
  | error error after =>
    rw [hnext] at hends
    obtain ⟨rfl, rfl⟩ := hends
    rfl
  | ok next after =>
    rw [hnext] at hends
    by_cases hkind : next.kind = .leftParen
    · simp only [hkind, if_true] at hends ⊢
      cases hpeek : Buffer.peek 1 after with
      | error error shown =>
        rw [hpeek] at hends
        obtain ⟨rfl, rfl⟩ := hends
        simp only [EStateM.bind, hpeek]
      | ok second shown =>
        rw [hpeek] at hends
        obtain ⟨rfl, hsaw⟩ := hends
        by_cases hmem : second.kind ∈ probe.seconds
        · simp [hmem, hsaw.seen, hsaw.buffer, EStateM.bind, hpeek]
          rfl
        · simp [hmem, hsaw.seen, hsaw.buffer, EStateM.bind, hpeek]
          rfl
    · simp only [hkind, if_false] at hends ⊢
      obtain ⟨rfl, rfl, hseen⟩ := hends
      simp only [hseen]
      rfl

/-- Whether a probe finds its form in what is seen, if the next token has the kind `next`. -/
def sight (probe : Probe) (seen : Nat → Except LexError Token) (next : TokenKind) : Except LexError Bool :=
  if next = .leftParen then
    match seen 1 with
    | .ok second => .ok (second.kind ∈ probe.seconds)
    | .error error => .error error
  else .ok false

variable {probe : Probe} {buffer : Buffer σ} {seen : Nat → Except LexError Token} {past : List Token}
  {next : Token} {hit : Bool}

theorem sight_leftParen (probe : Probe) (seen : Nat → Except LexError Token) :
    probe.sight seen .leftParen = (seen 1).map fun second => decide (second.kind ∈ probe.seconds) := by
  simp only [sight, if_true]
  cases seen 1 <;> rfl

theorem sight_of_ok (hsecond : seen 1 = .ok second) (next : TokenKind) :
    probe.sight seen next = .ok (probe.hits next second.kind) := by
  unfold sight hits
  by_cases hnext : next = .leftParen <;> simp [hnext, hsecond]

/-- How many tokens a probe sees, if the next token has the kind `next`. -/
def reach (next : TokenKind) : Nat := if next = .leftParen then 2 else 1

/-- **What a probe finds.** Neither the view nor what has been taken changes. -/
theorem run_of_shows (h : Shows seen past buffer) (hnext : seen 0 = .ok next)
    (hsight : probe.sight seen next.kind = .ok hit) :
    ∃ after, probe.run buffer = .ok ⟨hit, reach next.kind⟩ after ∧ Shows seen past after := by
  obtain ⟨peeked, hpeek, hpeeked⟩ := peek_of_shows h hnext
  simp only [run_eq_glance, glance, bind, EStateM.bind, hpeek]
  unfold sight at hsight
  unfold reach
  by_cases hkind : next.kind = .leftParen
  · rw [if_pos hkind] at hsight ⊢
    rw [if_pos hkind]
    cases hsecond : seen 1 with
    | error error => rw [hsecond] at hsight; cases hsight
    | ok second =>
      rw [hsecond] at hsight
      cases hsight
      obtain ⟨after, hpeek, hafter⟩ := peek_of_shows hpeeked hsecond
      exact ⟨after, by simp only [EStateM.bind, hpeek]; rfl, hafter⟩
  · rw [if_neg hkind] at hsight ⊢
    rw [if_neg hkind]
    cases hsight
    exact ⟨peeked, rfl, hpeeked⟩

theorem sight_of_ne {next : TokenKind} (h : next ≠ .leftParen) : probe.sight seen next = .ok false :=
  if_neg h

/-- A probe fails where the next token cannot be seen. -/
theorem run_of_blank (probe : Probe) (h : Shows seen past buffer) (hnext : seen 0 = .error error) :
    ∃ after, probe.run buffer = .error error after ∧ Recalls seen past after := by
  obtain ⟨after, hpeek, hafter⟩ := peek_of_hidden h hnext
  exact ⟨after, by simp only [run_eq_glance, glance, bind, EStateM.bind, hpeek], hafter⟩

/-- A probe fails where the token behind an opening parenthesis cannot be seen. -/
theorem run_of_hidden (h : Shows seen past buffer) (hnext : seen 0 = .ok next)
    (hsight : probe.sight seen next.kind = .error error) :
    ∃ after, probe.run buffer = .error error after ∧ Recalls seen past after := by
  obtain ⟨peeked, hpeek, hpeeked⟩ := peek_of_shows h hnext
  simp only [run_eq_glance, glance, bind, EStateM.bind, hpeek]
  unfold sight at hsight
  by_cases hkind : next.kind = .leftParen
  · rw [if_pos hkind] at hsight ⊢
    cases hsecond : seen 1 with
    | ok second => rw [hsecond] at hsight; cases hsight
    | error error =>
      rw [hsecond] at hsight
      cases hsight
      obtain ⟨after, hpeek, hafter⟩ := peek_of_hidden hpeeked hsecond
      exact ⟨after, by simp only [EStateM.bind, hpeek], hafter⟩
  · rw [if_neg hkind] at hsight
    cases hsight

end Cal.Probe
