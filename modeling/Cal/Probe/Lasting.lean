import Cal.Probe.Basic
import Cal.Buffer.Remaining

/-!
# Probes take nothing

A probe only looks ahead, so whatever lookahead does not change about a buffer (the input that is
left, the token that is next) a probe does not change either. A probe that finds its form has seen
an opening parenthesis as the next token.
-/

namespace Cal.Probe

open Buffer

variable {σ : Type} {P : Buffer σ → Prop}

/-- A property of the buffer that a scan has arrived at, unless the source failed. -/
def Kept (P : Buffer σ → Prop) : EStateM.Result Stop (Scan σ) Unit → Prop
  | .ok _ scan => P scan.buffer
  | .error (.lexical _) _ => True
  | .error _ scan => P scan.buffer

/-- A scan keeps a property of the buffer, unless the source fails. -/
def Keeps (P : Buffer σ → Prop) (step : ScanM σ Unit) : Prop :=
  ∀ scan, P scan.buffer → Kept P (step scan)

theorem keeps_choose {left right : ScanM σ Unit} (hleft : Keeps P left) (hright : Keeps P right) :
    Keeps P (choose left right) := by
  intro scan h
  have hleft := hleft scan h
  unfold choose
  split
  · rename_i hscan
    rw [hscan] at hleft
    exact hright _ hleft
  · exact hleft

theorem keeps_bind {first second : ScanM σ Unit} (hfirst : Keeps P first) (hsecond : Keeps P second) :
    Keeps P (first >>= fun _ => second) := by
  intro scan h
  have hfirst := hfirst scan h
  simp only [bind, EStateM.bind]
  split
  · rename_i hscan
    rw [hscan] at hfirst
    exact hsecond _ hfirst
  · rename_i hscan
    rw [hscan] at hfirst
    exact hfirst

variable [Source σ]

theorem keeps_scanToken (hP : Lasting P) (kind : TokenKind) : Keeps P (scanToken kind) := by
  intro scan h
  unfold scanToken
  split
  · trivial
  · rename_i hpeek
    have hlast := hP.peek h hpeek
    split
    · simpa [Kept] using hlast
    · dsimp only
      split <;> simpa [Kept] using hlast

theorem keeps_scanForm (hP : Lasting P) {enter : Rule → ScanM σ Unit}
    (henter : ∀ rule, Keeps P (enter rule)) (form : Form) : Keeps P (scanForm enter form) := by
  induction form with
  | empty => intro scan h; exact h
  | token kind => exact keeps_scanToken hP kind
  | rule rule => exact henter rule
  | both first second ihFirst ihSecond => exact keeps_bind ihFirst ihSecond
  | either left right ihLeft ihRight => exact keeps_choose ihLeft ihRight

theorem keeps_scanRule (hP : Lasting P) (depth : Nat) (rule : Rule) :
    Keeps P (scanRule depth rule) := by
  induction depth generalizing rule with
  | zero => intro scan h; exact h
  | succ depth ih => exact keeps_scanForm hP ih rule.body

variable {probe : Probe} {buffer after : Buffer σ} {sighting : Sighting}

/-- **A probe keeps whatever lookahead keeps.** -/
theorem keeps_run (hP : Lasting P) (h : P buffer) (hrun : probe.run buffer = .ok sighting after) :
    P after := by
  have hkept := keeps_scanForm hP (keeps_scanRule hP callDepth) probe.form ⟨buffer, 0, 0, budget⟩ h
  unfold run at hrun
  split at hrun <;> rename_i hscan <;> rw [hscan] at hkept <;> cases hrun <;> exact hkept

/-- **A probe that finds its form has seen an opening parenthesis** as the next token. -/
theorem leftParen_of_hit (hrun : probe.run buffer = .ok sighting after) (hhit : sighting.hit = true) :
    ∃ token, after.ahead.head? = some token ∧ token.kind = .leftParen := by
  obtain ⟨form, hform⟩ : ∃ form, probe.form = .both (.token .leftParen) form := by
    cases probe <;> exact ⟨_, rfl⟩
  unfold run at hrun
  rw [hform] at hrun
  simp only [scanForm, bind, EStateM.bind, scanToken] at hrun
  cases hpeek : peek 0 buffer with
  | error error seen => simp [hpeek] at hrun
  | ok token seen =>
    by_cases hkind : token.kind = .leftParen
    · -- the rest of the form is scanned with the parenthesis still at the front
      have hkept := keeps_scanForm (head_lasting token)
        (keeps_scanRule (head_lasting token) callDepth) form ⟨seen, 1, 1, 1⟩ (head_of_peek hpeek)
      simp [hpeek, hkind, Scan.pass, budget] at hrun
      split at hrun <;> rename_i hscan <;> rw [hscan] at hkept <;> cases hrun
      · exact ⟨token, hkept, hkind⟩
      · exact ⟨token, hkept, hkind⟩
      · cases hhit
      · cases hhit
    · simp [hpeek, hkind] at hrun
      obtain ⟨rfl, rfl⟩ := hrun
      cases hhit

end Cal.Probe
