/-!
# Where an action leads

`Leads action state good bad` says what is known after an action that may fail: `good` of its value
and the state after it, or `bad` of its error and the state in which it failed. The lemmas take a
statement about an action apart into statements about its steps.
-/

namespace Cal

variable {ε σ α β : Type} {state : σ} {action : EStateM ε σ α} {good : α → σ → Prop} {bad : ε → σ → Prop}

/-- An action leads from `state` to a value and state in `good`, or to an error and state in `bad`. -/
def Leads (action : EStateM ε σ α) (state : σ) (good : α → σ → Prop) (bad : ε → σ → Prop) : Prop :=
  match action state with
  | .ok value after => good value after
  | .error error after => bad error after

/-- What is known after an action that has come to a value. -/
theorem Leads.of_ok {value : α} {after : σ} (h : Leads action state good bad)
    (hrun : action state = .ok value after) : good value after := by
  unfold Leads at h
  rwa [hrun] at h

/-- What is known after an action that has failed. -/
theorem Leads.of_error {error : ε} {after : σ} (h : Leads action state good bad)
    (hrun : action state = .error error after) : bad error after := by
  unfold Leads at h
  rwa [hrun] at h

theorem leads_pure {value : α} (h : good value state) :
    Leads (pure value : EStateM ε σ α) state good bad := h

theorem leads_bind {next : α → EStateM ε σ β} {good : β → σ → Prop}
    (h : Leads action state (fun value after => Leads (next value) after good bad) bad) :
    Leads (action >>= next) state good bad := by
  unfold Leads at *
  simp only [bind, EStateM.bind]
  cases hrun : action state with
  | ok value after => rw [hrun] at h; exact h
  | error error after => rw [hrun] at h; exact h

theorem leads_get {good : σ → σ → Prop} (h : good state state) :
    Leads (get : EStateM ε σ σ) state good bad := h

theorem leads_set {good : PUnit → σ → Prop} {after : σ} (h : good ⟨⟩ after) :
    Leads (set after : EStateM ε σ PUnit) state good bad := h

theorem leads_modify {good : PUnit → σ → Prop} {change : σ → σ} (h : good ⟨⟩ (change state)) :
    Leads (modify change : EStateM ε σ PUnit) state good bad := h

theorem leads_throw {error : ε} (h : bad error state) :
    Leads (throw error : EStateM ε σ α) state good bad := h

/-- Where nothing is said of errors, only the values of an action count. -/
theorem leads_of_ok (h : ∀ value after, action state = .ok value after → good value after) :
    Leads action state good fun _ _ => True := by
  unfold Leads
  split
  · rename_i hrun; exact h _ _ hrun
  · trivial

theorem leads_trivial : Leads action state (fun _ _ => True) (fun _ _ => True) := by
  unfold Leads
  split <;> trivial

/-- What is known after an action may be weakened. -/
theorem Leads.imp {good' : α → σ → Prop} {bad' : ε → σ → Prop} (h : Leads action state good bad)
    (hgood : ∀ value after, good value after → good' value after)
    (hbad : ∀ error after, bad error after → bad' error after) : Leads action state good' bad' := by
  unfold Leads at *
  split
  · rename_i hrun; rw [hrun] at h; exact hgood _ _ h
  · rename_i hrun; rw [hrun] at h; exact hbad _ _ h

/-- One action after another. -/
theorem Leads.bind {next : α → EStateM ε σ β} {good' : β → σ → Prop}
    (h : Leads action state good bad)
    (hnext : ∀ value after, good value after → Leads (next value) after good' bad) :
    Leads (action >>= next) state good' bad :=
  leads_bind (h.imp hnext fun _ _ h => h)

end Cal
