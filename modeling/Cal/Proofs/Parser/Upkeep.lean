import Cal.Proofs.Parser.Moment

/-!
# What the operations of a step keep

Each operation of a step only looks at the input, or does one thing more: it stamps a decision point, takes the
next token, or opens or closes a body. What is kept of a parser meanwhile, with a number of bodies open and the
decision points missed since the last token was taken, is `Parser.Kept`.

* `Parser.Looked`: nothing has been done but to look ahead, whether with success or not.
* `leads_nextKind_known`, `leads_selects_known`, `leads_tries_known`, `leads_expect_known`, `leads_withBody_known`,
  `leads_refuseAt_known`, `leads_refuse_known`: what the operations do, whatever is known of the next token.
* `Parser.Kept.look`, `Parser.Kept.miss`, `Parser.Kept.take`, `Parser.Kept.enter`, `Parser.Kept.leave`: what keeps
  the invariant.
-/

namespace Cal

open ParseM Buffer Routine

variable {σ : Type} [Source σ]

/-- A parser has only looked ahead since `before`: it has taken nothing, it stands where it stood, and the tokens
that were in view still are. -/
structure Parser.Looked (before after : Parser σ) : Prop where
  standing : after.standing = before.standing
  past : after.buffer.past = before.buffer.past
  shown {k : Nat} {token : Token} : before.buffer.view k = .ok token → after.buffer.view k = .ok token

/-- The next token is held in the buffer, and of a kind, if one is known. -/
def Parser.Knows (known : Option TokenKind) (parser : Parser σ) : Prop :=
  ∀ kind ∈ known, ∃ next, parser.buffer.ahead.head? = some next ∧ next.kind = kind

/-- The parser with a decision point stamped. -/
def Parser.stamped (parser : Parser σ) (point : Decision) : Parser σ :=
  { parser with decisions := parser.decisions.record point parser.generation }

/-- A syntax error names a kind that would have fitted. -/
def ParseError.Telling (error : ParseError) : Prop :=
  ∀ refused, error = .unexpected refused → refused.expected.kinds ≠ []

theorem ParseError.Telling.lexical (error : LexError) : Telling (.lexical error) := by
  rintro refused ⟨⟩

theorem ParseError.Telling.tooDeep (limit : Nat) (position : Position) : Telling (.tooDeep limit position) := by
  rintro refused ⟨⟩

theorem Decision.firstKinds_ne_nil (point : Decision) : point.firstKinds ≠ [] := by cases point <;> decide

variable {parser between after : Parser σ} {known : Option TokenKind} {next : Token} {kind : TokenKind}
  {point : Decision} {missed : List Decision} {bodies : Nat}

namespace Parser.Looked

theorem trans (h : parser.Looked between) (hmore : between.Looked after) : parser.Looked after :=
  ⟨hmore.standing.trans h.standing, hmore.past.trans h.past, fun hview => hmore.shown (h.shown hview)⟩

theorem of_recalls {buffer : Buffer σ} {events : List Event}
    (h : Recalls parser.buffer.view parser.buffer.past buffer) :
    parser.Looked { parser with buffer, events } :=
  ⟨rfl, h.past, h.shown⟩

end Parser.Looked

omit [Source σ] in
theorem Parser.knows_none (parser : Parser σ) : parser.Knows none := by
  rintro kind ⟨⟩

omit [Source σ] in
theorem Parser.knows_head (hhead : parser.buffer.ahead.head? = some next) : parser.Knows (some next.kind) := by
  rintro kind ⟨⟩
  exact ⟨next, hhead, rfl⟩

theorem view_of_head {buffer : Buffer σ} (h : buffer.ahead.head? = some next) : buffer.view 0 = .ok next := by
  rw [List.head?_eq_getElem?] at h
  exact view_of_kept h

/-- A failure that changes no more than looking ahead does, and whose error tells what would have fitted. -/
abbrev FailsInPlace (parser : Parser σ) (error : ParseError) (after : Parser σ) : Prop :=
  parser.Looked after ∧ error.Telling

/-- Looking at the next token holds it in the buffer, or fails. -/
theorem leads_nextToken_known (h : parser.Knows known) :
    Leads nextToken parser
      (fun next after => parser.Looked after ∧ after.buffer.ahead.head? = some next ∧ next.kind ∈ fitting known)
      (FailsInPlace parser) := by
  cases hpeek : peek 0 parser.buffer with
  | ok next buffer =>
    have hshows : Shows parser.buffer.view parser.buffer.past buffer :=
      Lasting.peek (shows_lasting _ _) ⟨rfl, rfl⟩ hpeek
    refine leads_onBuffer_ok hpeek ⟨.of_recalls hshows.recalls, head_of_peek hpeek, ?_⟩
    cases known with
    | none => exact TokenKind.mem_all _
    | some kind =>
      -- a token that is known is the one that is shown
      obtain ⟨same, hhead, rfl⟩ := h kind rfl
      rw [peek_of_head hhead] at hpeek
      cases hpeek
      exact List.mem_singleton_self _
  | error error buffer =>
    have hview : parser.buffer.view 0 = .error error := by simp only [view, hpeek]
    obtain ⟨seen, hseen, hrecalls⟩ := peek_of_hidden ⟨rfl, rfl⟩ hview
    rw [hpeek] at hseen
    cases hseen
    exact leads_onBuffer_error hpeek ⟨.of_recalls hrecalls, .lexical error⟩

theorem leads_nextKind_known (h : parser.Knows known) :
    Leads nextKind parser
      (fun kind after => parser.Looked after ∧ after.Knows (some kind) ∧ kind ∈ fitting known) (FailsInPlace parser) :=
  (leads_nextToken_known h).bind fun _ _ ⟨hlooked, hhead, hfits⟩ =>
    leads_pure ⟨hlooked, Parser.knows_head hhead, hfits⟩

/-- A decision point is stamped exactly if the next token selects no alternative. -/
theorem leads_selects_known (h : parser.Knows known) (point : Decision) :
    Leads (selects point) parser
      (fun selected after => ∃ kind seen, parser.Looked seen ∧ seen.Knows (some kind) ∧ kind ∈ fitting known ∧
        (selected = true ∧ kind ∈ point.firstKinds ∧ after = seen ∨
          selected = false ∧ kind ∉ point.firstKinds ∧ after = seen.stamped point))
      (FailsInPlace parser) := by
  refine (leads_nextKind_known h).bind fun kind seen ⟨hlooked, hknows, hfits⟩ => ?_
  split
  · rename_i hselect
    exact leads_pure ⟨kind, seen, hlooked, hknows, hfits, .inl ⟨rfl, Decision.select_isSome.1 hselect, rfl⟩⟩
  · rename_i hselect
    rw [Decision.select_isSome] at hselect
    exact leads_bind (leads_modify (leads_pure ⟨kind, seen, hlooked, hknows, hfits, .inr ⟨rfl, hselect, rfl⟩⟩))

/-- **A probe leaves a parser where it stands**, whatever comes of it, and takes nothing. -/
theorem leads_tries_known (h : parser.Knows known) (probe : Probe) :
    Leads (tries probe) parser
      (fun hit after => ∃ kind, parser.Looked after ∧ after.Knows (some kind) ∧ kind ∈ fitting known ∧
        (hit = true → kind = .leftParen))
      (FailsInPlace parser) := by
  rw [Goal.tries_eq_bind]
  refine leads_bind ((leads_nextToken_known h).bind fun next seen ⟨hlooked, hhead, hfits⟩ => leads_pure ?_)
  have hview := view_of_head hhead
  cases hsight : probe.sight seen.buffer.view next.kind with
  | ok hit =>
    obtain ⟨buffer, hrun, hshows⟩ := Probe.run_of_shows ⟨rfl, rfl⟩ hview hsight
    have hkept : buffer.ahead.head? = some next := Probe.keeps_run (head_lasting next) hhead hrun
    refine leads_bind (leads_onBuffer_ok hrun (leads_bind (leads_modify (leads_pure ⟨next.kind, ?_⟩))))
    refine ⟨hlooked.trans (.of_recalls hshows.recalls), Parser.knows_head hkept, hfits, fun hhit => ?_⟩
    obtain ⟨same, hsame, hkind⟩ := Probe.leftParen_of_hit hrun hhit
    rw [hkept] at hsame
    cases hsame
    exact hkind
  | error error =>
    obtain ⟨buffer, hrun, hrecalls⟩ := Probe.run_of_hidden ⟨rfl, rfl⟩ hview hsight
    exact leads_bind (leads_onBuffer_error hrun ⟨hlooked.trans (.of_recalls hrecalls), .lexical error⟩)

/-- A refusal names a kind that would have fitted, if one was wanted or a decision point is live. -/
theorem leads_refuse_known {α : Type} {wanted : Option TokenKind}
    (h : wanted ≠ none ∨ ∃ point, parser.decisions.stamp? point = some parser.generation) :
    Leads (refuse wanted) parser (fun (_ : α) _ => False) (FailsInPlace parser) := by
  refine (leads_nextToken_known parser.knows_none).bind fun next seen ⟨hlooked, _⟩ => leads_bind (leads_get ?_)
  refine leads_bind (leads_set (leads_throw ⟨hlooked.trans ⟨rfl, rfl, id⟩, ?_⟩))
  obtain ⟨kind, hkind⟩ : ∃ kind, kind ∈ seen.standing.expected wanted := by
    rw [hlooked.standing]
    rcases h with hwanted | ⟨point, hlive⟩
    · obtain ⟨kind, rfl⟩ := Option.ne_none_iff_exists'.1 hwanted
      exact ⟨kind, Standing.mem_expected.2 (.inr rfl)⟩
    · obtain ⟨kind, hkind⟩ := List.exists_mem_of_ne_nil _ point.firstKinds_ne_nil
      exact ⟨kind, Standing.mem_expected.2 (.inl ⟨point, hlive, hkind⟩)⟩
  rintro refused ⟨rfl⟩
  exact List.ne_nil_of_mem hkind

theorem leads_refuseAt_known {α : Type} (point : Decision) :
    Leads (refuseAt point) parser (fun (_ : α) _ => False) (FailsInPlace (parser.stamped point)) := by
  refine leads_bind (leads_modify (leads_refuse_known (.inr ⟨point, ?_⟩)))
  exact (Decision.Log.stamp?_record _ _ _ _).trans (if_pos rfl)

/-- A token is taken if it is of the kind, and then it had been looked at. -/
theorem leads_expect_known (kind : TokenKind) :
    Leads (expect kind) parser
      (fun _ after => ∃ seen next, parser.Looked seen ∧ seen.buffer.ahead.head? = some next ∧
        after = { seen with
          buffer := { seen.buffer with past := next :: seen.buffer.past, ahead := seen.buffer.ahead.tail }
          generation := seen.generation + 1 })
      (FailsInPlace parser) := by
  refine leads_bind ((leads_nextToken_known parser.knows_none).bind fun next seen ⟨hlooked, hhead, _⟩ => leads_pure ?_)
  split
  · have hadvance := advance_of_head hhead
    exact leads_bind (leads_onBuffer_ok hadvance (leads_modify ⟨seen, next, hlooked, hhead, rfl⟩))
  · have hwanted : some kind ≠ none ∨ ∃ point, seen.decisions.stamp? point = some seen.generation := .inl nofun
    exact (leads_refuse_known hwanted).imp (fun _ _ => False.elim)
      fun _ _ ⟨hmore, htelling⟩ => ⟨hlooked.trans hmore, htelling⟩

/-- A body is opened if there is room for it. -/
theorem leads_withBody_known (goals : List Goal) :
    Leads (Goal.withBody goals) parser
      (fun inner after => inner = goals ++ [.endBody] ∧ parser.exhausted? = none ∧
        after = { parser with depth := parser.depth + 1 })
      (FailsInPlace parser) := by
  refine leads_bind (leads_bind (leads_get ?_))
  split
  · refine (leads_nextToken_known parser.knows_none).bind fun _ _ ⟨hlooked, _⟩ => leads_throw ⟨hlooked, ?_⟩
    exact .tooDeep _ _
  · rename_i hroom
    exact leads_set (leads_pure ⟨rfl, hroom, rfl⟩)

/-- What is kept of a parser while so many bodies are open and these points have been missed since it last took
a token. -/
structure Parser.Kept (bodies : Nat) (missed : List Decision) (parser : Parser σ) : Prop where
  generation : parser.generation = parser.buffer.consumed
  depth : parser.depth = bodies
  limit : parser.limit = some nestingLimit
  shallow : parser.depth ≤ nestingLimit
  past (point : Decision) (n : Nat) : parser.decisions.stamp? point = some n → n ≤ parser.generation
  live (point : Decision) : parser.decisions.stamp? point = some parser.generation ↔ point ∈ missed
  unfit (point : Decision) : point ∈ missed →
    ∃ next, parser.buffer.view 0 = .ok next ∧ next.kind ∉ point.firstKinds
  foregone (point : Decision) : point.foregone = true → parser.decisions.stamp? point = none

namespace Parser.Kept

/-- Looking ahead keeps everything. -/
theorem look (h : parser.Kept bodies missed) (hlooked : parser.Looked after) : after.Kept bodies missed := by
  obtain ⟨hstanding, hpast, hshown⟩ := hlooked
  obtain ⟨hgeneration, hdecisions, hdepth, hlimit⟩ := Standing.mk.inj hstanding
  refine ⟨?_, hdepth.trans h.depth, hlimit.trans h.limit, hdepth ▸ h.shallow, ?_, ?_, ?_, ?_⟩
  · rw [hgeneration, h.generation, Buffer.consumed, Buffer.consumed, hpast]
  · rw [hgeneration, hdecisions]
    exact h.past
  · rw [hgeneration, hdecisions]
    exact h.live
  · intro point hpoint
    obtain ⟨next, hnext, hunfit⟩ := h.unfit point hpoint
    exact ⟨next, hshown hnext, hunfit⟩
  · rw [hdecisions]
    exact h.foregone

/-- A decision point that would not have accepted the next token may be stamped. -/
theorem miss (h : parser.Kept bodies missed) (hknows : parser.Knows (some kind))
    (hunfit : kind ∉ point.firstKinds) (hpoint : point.foregone = false) :
    (parser.stamped point).Kept bodies (point :: missed) := by
  have hstamp (other : Decision) : (parser.stamped point).decisions.stamp? other =
      if other = point then some parser.generation else parser.decisions.stamp? other :=
    Decision.Log.stamp?_record _ _ _ _
  refine ⟨h.generation, h.depth, h.limit, h.shallow, fun other n hother => ?_, fun other => ?_, ?_,
    fun other hforegone => ?_⟩
  · rw [hstamp] at hother
    split at hother
    · cases hother
      exact Nat.le_refl _
    · exact h.past other n hother
  · show _ = some parser.generation ↔ _
    rw [hstamp, List.mem_cons]
    by_cases hother : other = point
    · simp [hother]
    · simpa [hother] using h.live other
  · intro other hother
    rcases List.mem_cons.1 hother with rfl | hother
    · obtain ⟨next, hhead, rfl⟩ := hknows kind rfl
      exact ⟨next, view_of_head hhead, hunfit⟩
    · exact h.unfit other hother
  · rw [hstamp, if_neg]
    · exact h.foregone other hforegone
    · rintro rfl
      rw [hpoint] at hforegone
      cases hforegone

/-- Once the next token is taken, no point is live. -/
theorem take (h : parser.Kept bodies missed) :
    Kept bodies []
      { parser with
        buffer := { parser.buffer with past := next :: parser.buffer.past, ahead := parser.buffer.ahead.tail }
        generation := parser.generation + 1 } := by
  have hgeneration := h.generation
  refine ⟨?_, h.depth, h.limit, h.shallow, fun point n hstamp => ?_, fun point => ?_, nofun, h.foregone⟩
  · simp only [Buffer.consumed] at hgeneration ⊢
    rw [hgeneration, List.length_cons]
  · exact Nat.le_succ_of_le (h.past point n hstamp)
  · refine ⟨fun hstamp => ?_, nofun⟩
    have hle := h.past point _ hstamp
    exact absurd hle (Nat.not_succ_le_self _)

/-- A body is opened only below the limit. -/
theorem enter (h : parser.Kept bodies missed) (hroom : parser.exhausted? = none) :
    Kept (bodies + 1) missed { parser with depth := parser.depth + 1 } := by
  have hbelow : parser.depth < nestingLimit := by
    simpa [exhausted?, h.limit] using hroom
  exact ⟨h.generation, congrArg (· + 1) h.depth, h.limit, hbelow, h.past, h.live, h.unfit, h.foregone⟩

theorem leave (h : parser.Kept (bodies + 1) missed) :
    Kept bodies missed { parser with depth := parser.depth - 1 } :=
  ⟨h.generation, congrArg (· - 1) h.depth, h.limit, (Nat.sub_le _ _).trans h.shallow, h.past, h.live, h.unfit,
    h.foregone⟩

end Parser.Kept

end Cal
