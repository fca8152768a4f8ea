import Cal.Proofs.Parser.Kinds

/-!
# Arguments in parentheses

What makes a call of an identifier: identifiers in parentheses, separated by commas.

* `derives_call`: which kinds in sequence are the arguments of a call.
* `Arrives`: how a parse goes on by the kinds that come next.
* `Arrives.call`: a parse that has turned to the arguments of a call takes them.
-/

namespace Cal

/-- So many identifiers, separated by commas. -/
def argumentKinds (n : Nat) : List TokenKind := (List.replicate n .identifier).intersperse .comma

/-- So many identifiers, separated by commas and in parentheses. -/
def callKinds (n : Nat) : List TokenKind := .leftParen :: (argumentKinds n ++ [.rightParen])

/-- Tokens that make a call of an identifier before them: arguments in parentheses. -/
def IsCall (call : List Token) : Prop := ∃ n, kindsIn call = callKinds n

section Kinds

variable {kinds : List TokenKind} {n : Nat}

theorem argumentKinds_succ (n : Nat) :
    argumentKinds (n + 2) = .identifier :: .comma :: argumentKinds (n + 1) := rfl

/-- The induction is on the number of kinds: behind a comma there are fewer. -/
theorem derives_nempArgList (h : Derives [.rule .nempArgList] kinds) :
    ∃ n, kinds = argumentKinds (n + 1) := by
  induction hlength : kinds.length using Nat.strongRecOn generalizing kinds with
  | ind length ih =>
    cases h with
    | rule h =>
      obtain ⟨rest, rfl, htail⟩ := derives_token.1 (derives_both.1 h)
      rcases derives_either.1 htail with hmore | hnone
      · obtain ⟨more, rfl, harguments⟩ := derives_token.1 (derives_both.1 hmore)
        have hlt : more.length < length := by
          simp only [List.length_cons] at hlength
          omega
        obtain ⟨n, rfl⟩ := ih more.length hlt harguments rfl
        exact ⟨n + 1, rfl⟩
      · rw [derives_nil.1 (derives_empty.1 hnone)]
        exact ⟨0, rfl⟩

/-- **What makes a call** is as many arguments as one likes. -/
theorem derives_call (h : Derives [Probe.callSuffix.form] kinds) : ∃ n, kinds = callKinds n := by
  obtain ⟨inner, rfl, hinner⟩ := derives_token.1 (derives_both.1 h)
  obtain ⟨arguments, last, rfl, harguments, hlast⟩ := derives_split [_] (derives_both.1 hinner)
  obtain ⟨rest, rfl, hrest⟩ := derives_token.1 hlast
  obtain rfl := derives_nil.1 hrest
  cases harguments with
  | rule harguments =>
    rcases derives_either.1 harguments with hsome | hnone
    · obtain ⟨n, rfl⟩ := derives_nempArgList hsome
      exact ⟨n + 1, rfl⟩
    · rw [derives_nil.1 (derives_empty.1 hnone)]
      exact ⟨0, rfl⟩

theorem eof_not_mem_callKinds (n : Nat) : .eof ∉ callKinds n := by
  have harguments : ∀ n, .eof ∉ argumentKinds n := by
    intro n
    induction n with
    | zero => decide
    | succ n ih =>
      cases n with
      | zero => decide
      | succ n => simpa [argumentKinds_succ] using ih
  simp [callKinds, harguments n]

/-- Behind the parenthesis of a call comes what the probe for calls looks for. -/
theorem hits_callKinds (n : Nat) :
    ∃ second more, callKinds n = .leftParen :: second :: more ∧ Probe.callSuffix.hits .leftParen second = true := by
  cases n with
  | zero => exact ⟨.rightParen, [], rfl, by decide⟩
  | succ n =>
    cases n with
    | zero => exact ⟨.identifier, _, rfl, by decide⟩
    | succ n => exact ⟨.identifier, _, rfl, by decide⟩

theorem IsCall.isEof {call : List Token} (h : IsCall call) : ∀ token ∈ call, token.isEof = false := by
  obtain ⟨n, hkinds⟩ := h
  exact isEof_of_kindsIn (hkinds ▸ eof_not_mem_callKinds n)

end Kinds

/-- Kinds with which a list begins are those of its first tokens. -/
theorem exists_of_kindsBeforeEof {kinds : List TokenKind} {after : List Token} (h : kinds <+: kindsBeforeEof after) :
    ∃ call more, after = call ++ more ∧ kindsIn call = kinds := by
  obtain ⟨rest, hrest⟩ := h
  obtain ⟨call, others, hsplit, hcall, -⟩ := List.map_eq_append_iff.1 hrest.symm
  refine ⟨call, others ++ after.dropWhile fun token => !token.isEof, ?_, hcall⟩
  rw [← List.append_assoc, ← hsplit, List.takeWhile_append_dropWhile]

/-- From a place on a stream shows tokens of the given kinds. -/
def Coming (stream : Nat → Token) : Nat → List TokenKind → Prop
  | _, [] => True
  | n, kind :: kinds => (stream n).kind = kind ∧ Coming stream (n + 1) kinds

theorem coming_of_getElem {stream : Nat → Token} {kinds : List TokenKind} {n : Nat}
    (h : ∀ k (hk : k < kinds.length), (stream (n + k)).kind = kinds[k]) : Coming stream n kinds := by
  induction kinds generalizing n with
  | nil => trivial
  | cons kind kinds ih =>
    refine ⟨h 0 (by simp), ih fun k hk => ?_⟩
    rw [Nat.add_right_comm, Nat.add_assoc]
    exact h (k + 1) (by simpa using hk)

/-- A goal is replaced by others in one step. -/
theorem next_of_go {tokens : List Token} {goal : Goal} {goals rest : List Goal} {missed : List Decision}
    {parser : Parser TokenList} {m : Nat} (hstage : (Stage.ofTokens tokens).after m = some ⟨goal :: rest, parser⟩)
    (hplan : goal.planAt (streamOf tokens) parser.generation = .go missed false goals) :
    ∃ after, (Stage.ofTokens tokens).after (m + 1) = some ⟨goals ++ rest, after⟩ ∧
      after.generation = parser.generation ∧ after.depth = parser.depth := by
  have hreads := (Stage.sound_after rfl (reads_ofList tokens) hstage).reads
  obtain ⟨after, hafter, hreached⟩ := Stage.exists_next hstage hreads (by rw [hplan]; rfl)
  have hstands := hreached.stands
  exact ⟨after, hafter, congrArg Standing.generation hstands, congrArg Standing.depth hstands⟩

/-- After `m` steps or more a parse comes to an agenda, when it has taken so many tokens and so many bodies are
open. -/
def Arrives (tokens : List Token) (m : Nat) (agenda : List Goal) (taken depth : Nat) : Prop :=
  ∃ n parser, m ≤ n ∧ (Stage.ofTokens tokens).after n = some ⟨agenda, parser⟩ ∧ parser.generation = taken ∧
    parser.depth = depth

namespace Arrives

variable {tokens : List Token} {goal : Goal} {goals rest : List Goal} {missed : List Decision}
  {m n taken depth : Nat}

theorem of_stage {parser : Parser TokenList} (h : (Stage.ofTokens tokens).after m = some ⟨rest, parser⟩) :
    Arrives tokens m rest parser.generation parser.depth :=
  ⟨m, parser, Nat.le_refl m, h, rfl, rfl⟩

/-- A goal is replaced by others. -/
theorem go (h : Arrives tokens m (goal :: rest) taken depth)
    (hplan : goal.planAt (streamOf tokens) taken = .go missed false goals) :
    Arrives tokens (m + 1) (goals ++ rest) taken depth := by
  obtain ⟨n, parser, hn, hstage, rfl, rfl⟩ := h
  obtain ⟨after, hafter, hgeneration, hdepth⟩ := next_of_go hstage hplan
  exact ⟨n + 1, after, by omega, hafter, hgeneration, hdepth⟩

/-- The next token is taken. -/
theorem take (h : Arrives tokens m (goal :: rest) taken depth)
    (hplan : goal.planAt (streamOf tokens) taken = .take) :
    Arrives tokens (m + 1) rest (taken + 1) depth := by
  obtain ⟨n, parser, hn, hstage, rfl, rfl⟩ := h
  have hreads := (Stage.sound_after rfl (reads_ofList tokens) hstage).reads
  obtain ⟨after, hafter, hreached⟩ := Stage.exists_next hstage hreads (by rw [hplan]; rfl)
  have hstands := hreached.stands
  exact ⟨n + 1, after, by omega, hafter, congrArg Standing.generation hstands, congrArg Standing.depth hstands⟩

theorem mono (h : Arrives tokens n rest taken depth) (hm : m ≤ n) : Arrives tokens m rest taken depth := by
  obtain ⟨k, parser, hk, hstage⟩ := h
  exact ⟨k, parser, by omega, hstage⟩

/-- **Arguments are taken** up to the parenthesis that closes them. The induction is on their number. -/
theorem arguments (h : Arrives tokens m (.nempArgList :: .token .rightParen :: rest) taken depth)
    (hcoming : Coming (streamOf tokens) taken (argumentKinds (n + 1) ++ [.rightParen])) :
    Arrives tokens m rest (taken + (argumentKinds (n + 1)).length + 1) depth := by
  induction n generalizing m taken with
  | zero =>
    obtain ⟨hname, hclose, -⟩ := hcoming
    have hargument := h.go rfl
    have hnamed := hargument.take (by rw [Goal.planAt, hname]; rfl)
    have hnomore := hnamed.go (by rw [Goal.planAt, hclose]; rfl)
    have hclosed := hnomore.take (by rw [Goal.planAt, hclose]; rfl)
    exact hclosed.mono (by omega)
  | succ n ih =>
    obtain ⟨hname, hcomma, hmore⟩ := hcoming
    have hargument := h.go rfl
    have hnamed := hargument.take (by rw [Goal.planAt, hname]; rfl)
    have hanother := hnamed.go (by rw [Goal.planAt, hcomma]; rfl)
    have hseparated := hanother.take (by rw [Goal.planAt, hcomma]; rfl)
    have hlength : taken + (argumentKinds (n + 2)).length + 1 =
        taken + 1 + 1 + (argumentKinds (n + 1)).length + 1 := by
      rw [argumentKinds_succ, List.length_cons, List.length_cons]
      omega
    rw [hlength]
    exact (ih hseparated hmore).mono (by omega)

/-- **What looks like a call is taken as one**, once a parse has turned to that. -/
theorem call (h : Arrives tokens m (.seen .leftParen :: .argList :: .token .rightParen :: rest) taken depth)
    (hcoming : Coming (streamOf tokens) taken (callKinds n)) :
    Arrives tokens (m + 1) rest (taken + (callKinds n).length) depth := by
  obtain ⟨hopen, hcoming⟩ := hcoming
  have hopened := h.take (by rw [Goal.planAt, hopen]; rfl)
  have hlength : taken + (callKinds n).length = taken + 1 + (argumentKinds n).length + 1 := by
    rw [callKinds, List.length_cons, List.length_append, List.length_singleton]
    omega
  rw [hlength]
  cases n with
  | zero =>
    obtain ⟨hclose, -⟩ := hcoming
    have hnone := hopened.go (by rw [Goal.planAt, hclose]; rfl)
    have hclosed := hnone.take (by rw [Goal.planAt, hclose]; rfl)
    exact hclosed.mono (by omega)
  | succ n =>
    have hname : (streamOf tokens (taken + 1)).kind = .identifier := by
      cases n with
      | zero => exact hcoming.1
      | succ n => exact hcoming.1
    have hsome := hopened.go (by rw [Goal.planAt, hname]; rfl)
    exact (hsome.arguments hcoming).mono (by omega)

end Arrives

end Cal
