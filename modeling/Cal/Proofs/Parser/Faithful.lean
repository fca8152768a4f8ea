import Cal.Proofs.Parser.Standing

/-!
# Agendas are faithful

At every stage of a parse the agenda says how the tokens taken so far can be continued to a sentence.
`Faithful` is the invariant that carries this through a run:

* whatever the agenda derives completes a sentence (`sound`);
* every sentence that begins with the tokens taken and the next one goes on as the agenda says, body
  by body (`covers`), unless a probe has missed and two more tokens show that there is none;
* what may come next is what the agenda can begin with, together with what the decision points
  missed since the last token would have accepted (`expects`), and an opening parenthesis if a probe
  missed.

`Faithful.step` says that every step keeps it, `Faithful.expected_of_refuse` and
`Faithful.dead_of_refuse` what it says of a refusal.
-/

namespace Cal

/-- The kinds of the first tokens of a stream. -/
def takenOf (stream : Nat → Token) (n : Nat) : List TokenKind :=
  (List.range n).map fun k => (stream k).kind

/-- The items of an agenda, when so many bodies are open. -/
def itemsOf : Nat → List Goal → List Item
  | _, [] => []
  | depth, .endBody :: agenda => itemsOf (depth - 1) agenda
  | depth, goal :: agenda => ⟨depth, goal.form⟩ :: itemsOf depth agenda

/-- The first goal will be met without a miss, since the next kind can begin it. -/
def Committed (next : TokenKind) (agenda : List Goal) : Prop :=
  agenda.head?.any (Goal.commits next) = true

instance (next : TokenKind) (agenda : List Goal) : Decidable (Committed next agenda) :=
  inferInstanceAs (Decidable (_ = true))

/-- Every sentence that begins with the kinds `seen` goes on after the first `n` of them as the items
say. -/
def Covers (seen : List TokenKind) (n : Nat) (items : List Item) : Prop :=
  ∀ marks, Predicts sentenceItems marks → seen <+: kindsOf marks → Predicts items (marks.drop n)

/-- A probe has missed at the next token, and rightly so: it is an opening parenthesis that cannot be
taken, and with the token behind it no sentence begins so. -/
structure Lost (stream : Nat → Token) (n : Nat) (tried : Prop) (items : List Item) : Prop where
  tried : tried
  next : (stream n).kind = .leftParen
  stuck : .leftParen ∉ firstsOf (formsOf items)
  dead : ¬ Viable (takenOf stream n ++ [(stream n).kind, (stream (n + 1)).kind])

/-- What may come is what the decision points missed since the last token would have accepted, and
what the forms can begin with. If a probe has missed, it is an opening parenthesis as well, and the
forms cannot begin with that. -/
def Foresees (stream : Nat → Token) (tried : Prop) (forms : List Form) (standing : Standing) : Prop :=
  (∀ kind, Viable (takenOf stream standing.generation ++ [kind]) ↔
    kind ∈ standing.expected none ∨ kind ∈ firstsOf forms ∨ tried ∧ kind = .leftParen) ∧
  (tried → .leftParen ∉ firstsOf forms)

/-- The agenda and the standing of a parser say what may come. `tried` tells whether a probe missed
since the last token was taken. -/
structure Faithful (stream : Nat → Token) (tried : Prop) (agenda : List Goal) (standing : Standing) :
    Prop where
  sound (kinds : List TokenKind) : Derives (formsOf (itemsOf standing.depth agenda)) kinds →
    IsSentence (takenOf stream standing.generation ++ kinds)
  covers : Covers (takenOf stream (standing.generation + 1)) standing.generation
      (itemsOf standing.depth agenda) ∨
    Lost stream standing.generation tried (itemsOf standing.depth agenda)
  expects : Committed (stream standing.generation).kind agenda ∨
    Foresees stream tried (formsOf (itemsOf standing.depth agenda)) standing
  tidy : Tidy .leftParen (formsOf (itemsOf standing.depth agenda))
  quiet : .leftParen ∉ standing.expected none
  past (point : Decision) (n : Nat) :
    standing.decisions.stamp? point = some n → n ≤ standing.generation

variable {stream : Nat → Token} {tried : Prop} {goal : Goal} {goals agenda rest : List Goal}
  {standing after : Standing} {items : List Item} {seen more : List TokenKind} {kind : TokenKind}
  {depth n : Nat}

theorem length_takenOf : (takenOf stream n).length = n := by simp [takenOf]

theorem takenOf_succ : takenOf stream (n + 1) = takenOf stream n ++ [(stream n).kind] := by
  simp [takenOf, List.range_succ]

theorem itemsOf_cons (h : goal ≠ .endBody) :
    itemsOf depth (goal :: agenda) = ⟨depth, goal.form⟩ :: itemsOf depth agenda := by
  cases goal <;> first | rfl | exact absurd rfl h

theorem itemsOf_append (h : .endBody ∉ goals) :
    itemsOf depth (goals ++ agenda) =
      (goals.map fun goal => ⟨depth, goal.form⟩) ++ itemsOf depth agenda := by
  induction goals with
  | nil => rfl
  | cons goal goals ih =>
    rw [List.mem_cons, not_or] at h
    rw [List.cons_append, itemsOf_cons (Ne.symm h.1), ih h.2]
    rfl

/-- What begins a sentence goes on as covering items say. -/
theorem Covers.predicts {taken : List TokenKind} (h : Covers seen n items) (htaken : taken.length = n)
    (hseen : seen <+: taken ++ more) (hviable : Viable (taken ++ more)) :
    ∃ marks rest, Predicts items marks ∧ kindsOf marks = more ++ rest := by
  obtain ⟨rest, hsentence⟩ := hviable
  obtain ⟨marks, hkinds, hnesting⟩ := exists_isNesting hsentence
  have hbegin : seen <+: kindsOf marks := by
    rw [hkinds]
    exact hseen.trans (List.prefix_append _ _)
  refine ⟨marks.drop n, rest, h marks (predicts_of_isNesting hnesting) hbegin, ?_⟩
  have hdrop : kindsOf (marks.drop n) = (kindsOf marks).drop n := List.map_drop
  rw [hdrop, hkinds, List.append_assoc, ← htaken, List.drop_left]

/-- What may come is what covering items can begin with. -/
theorem Covers.mem_firstsOf {taken : List TokenKind} (h : Covers seen n items) (htaken : taken.length = n)
    (hseen : seen <+: taken ++ kind :: more) (hviable : Viable (taken ++ kind :: more)) :
    kind ∈ firstsOf (formsOf items) := by
  obtain ⟨marks, rest, hpredicts, hkinds⟩ := h.predicts htaken hseen hviable
  have hderives := derives_of_predicts hpredicts
  rw [hkinds] at hderives
  exact mem_firstsOf_of_derives hderives

/-- What forms can begin with may come, if whatever they derive completes a sentence. -/
theorem viable_of_mem_firstsOf {taken : List TokenKind} {forms : List Form}
    (hsound : ∀ kinds, Derives forms kinds → IsSentence (taken ++ kinds)) (hkind : kind ∈ firstsOf forms) :
    Viable (taken ++ [kind]) := by
  obtain ⟨rest, hrest⟩ := begins_of_mem_firstsOf hkind
  refine ⟨rest, ?_⟩
  rw [List.append_assoc]
  exact hsound _ hrest

namespace Faithful

/-- **The tokens taken begin a sentence.** -/
theorem viable (h : Faithful stream tried agenda standing) :
    Viable (takenOf stream standing.generation) := by
  obtain ⟨kinds, hkinds⟩ := derives_some (formsOf (itemsOf standing.depth agenda))
  exact ⟨kinds, h.sound kinds hkinds⟩

/-- A token has just been taken, or none yet: no point has been missed since. -/
theorem start
    (hsound : ∀ kinds, Derives (formsOf (itemsOf standing.depth agenda)) kinds →
      IsSentence (takenOf stream standing.generation ++ kinds))
    (hcovers : Covers (takenOf stream standing.generation) standing.generation
      (itemsOf standing.depth agenda))
    (htidy : Tidy .leftParen (formsOf (itemsOf standing.depth agenda)))
    (hpast : ∀ point n, standing.decisions.stamp? point = some n → n < standing.generation) :
    Faithful stream False agenda standing := by
  have hexpected : ∀ kind, kind ∉ standing.expected none := by
    intro kind hkind
    rcases Standing.mem_expected.1 hkind with ⟨point, hstamp, -⟩ | hwanted
    · have := hpast point _ hstamp
      omega
    · simp at hwanted
  -- with nothing missed, what may come is just what the agenda can begin with
  refine ⟨hsound, .inl ?_, .inr ⟨fun kind => ?_, False.elim⟩, htidy, hexpected _, ?_⟩
  · intro marks hmarks hseen
    rw [takenOf_succ] at hseen
    exact hcovers marks hmarks ((List.prefix_append _ _).trans hseen)
  · constructor
    · intro hviable
      exact .inr (.inl (hcovers.mem_firstsOf length_takenOf (List.prefix_append _ _) hviable))
    · rintro (hkind | hkind | ⟨⟨⟩, -⟩)
      · exact absurd hkind (hexpected kind)
      · exact viable_of_mem_firstsOf hsound hkind
  · intro point n hstamp
    exact Nat.le_of_lt (hpast point n hstamp)

theorem itemsOf_program : itemsOf 0 Goal.program = Rule.program.body.itemsAt 0 ++ [⟨0, .token .eof⟩] := by
  decide

theorem tidy_program : Tidy .leftParen (formsOf (itemsOf 0 Goal.program)) := by
  rw [itemsOf_program, formsOf_itemsAt_append]
  have hsentence : Tidy .leftParen [.rule .program, .token .eof] := by simp [Tidy]; decide
  exact (hsentence.production (by decide)).parts

/-- The whole program, before the first token. -/
theorem init (stream : Nat → Token) (limit : Option Nat) :
    Faithful stream False Goal.program ⟨0, .empty, 0, limit⟩ := by
  apply start
  · intro kinds hkinds
    rw [itemsOf_program, formsOf_itemsAt_append] at hkinds
    exact .rule (derives_parts.1 hkinds)
  · intro marks hmarks _
    show Predicts (itemsOf 0 Goal.program) marks
    rw [itemsOf_program]
    exact predicts_parts (nests_rule.1 hmarks)
  · exact tidy_program
  · simp

section Step

variable {hit opens : Bool} {missed : List Decision} {wanted : Option TokenKind} {plan : Plan}

/-- A goal that is met, passed or refused is the first item. -/
theorem itemsOf_of_plan (hplan : goal.plan kind hit = plan) (hmet : plan ≠ .leave) (depth : Nat)
    (agenda : List Goal) : itemsOf depth (goal :: agenda) = ⟨depth, goal.form⟩ :: itemsOf depth agenda := by
  apply itemsOf_cons
  rintro rfl
  exact hmet hplan.symm

theorem itemsOf_take (hplan : goal.plan kind hit = .take) (depth : Nat) (agenda : List Goal) :
    itemsOf depth (goal :: agenda) = ⟨depth, .token kind⟩ :: itemsOf depth agenda := by
  rw [itemsOf_of_plan hplan nofun, Goal.form_of_take hplan]

/-- The next token is taken just where the agenda says. -/
theorem covers_of_take (h : Faithful stream tried (goal :: rest) standing)
    (hplan : goal.plan (stream standing.generation).kind hit = .take) :
    Covers (takenOf stream (standing.generation + 1)) standing.generation
      (⟨standing.depth, .token (stream standing.generation).kind⟩ :: itemsOf standing.depth rest) := by
  rw [← itemsOf_take hplan]
  -- the agenda begins with the next kind, so that it cannot be stuck there
  refine h.covers.resolve_right fun hlost => hlost.stuck ?_
  rw [itemsOf_take hplan, hlost.next]
  exact mem_firstsOf_cons.2 (.inl (by simp [Form.firsts, Form.firstsBy]))

theorem take (h : Faithful stream tried (goal :: rest) standing)
    (hplan : goal.plan (stream standing.generation).kind hit = .take) :
    Faithful stream False rest { standing with generation := standing.generation + 1 } := by
  have hitems := itemsOf_take hplan standing.depth rest
  apply start
  · intro kinds hkinds
    have hsentence := h.sound ((stream standing.generation).kind :: kinds)
    rw [hitems] at hsentence
    rw [takenOf_succ, List.append_assoc]
    exact hsentence (.token hkinds)
  · intro marks hmarks hseen
    obtain ⟨rest, hrest, hpredicts⟩ := nests_token.1 (h.covers_of_take hplan marks hmarks hseen)
    have hdrop : marks.drop (standing.generation + 1) = rest := by
      rw [← List.tail_drop, hrest]
      rfl
    rw [hdrop]
    exact hpredicts
  · have htidy := h.tidy
    rw [hitems] at htidy
    exact htidy.tail
  · intro point n hstamp
    exact Nat.lt_succ_of_le (h.past point n hstamp)

/-- The end of a body changes nothing but the count of bodies. -/
theorem leave (h : Faithful stream tried (.endBody :: rest) standing) :
    Faithful stream tried rest { standing with depth := standing.depth - 1 } := by
  refine ⟨h.sound, h.covers, ?_, h.tidy, h.quiet, h.past⟩
  rcases h.expects with hcommitted | hforesees
  · simp [Committed, Goal.commits, Goal.form, Form.firsts, Form.firstsBy] at hcommitted
  · exact .inr hforesees

/-- The items that a step leaves stand where the goal stood. -/
theorem itemsOf_go (hplan : goal.plan kind hit = .go missed opens goals) (depth : Nat) (rest : List Goal) :
    itemsOf (depth + opens.toNat) (goals ++ (if opens then [.endBody] else []) ++ rest) =
      raise depth (goal.plan kind hit).items ++ itemsOf depth rest := by
  have hgoals : .endBody ∉ goals := by
    have hmem : .endBody ∉ (goal.plan kind hit).goals := Goal.endBody_not_mem_plan
    rw [hplan] at hmem
    exact hmem
  have hclose : itemsOf (depth + opens.toNat) ((if opens then [.endBody] else []) ++ rest) =
      itemsOf depth rest := by
    cases opens <;> rfl
  rw [List.append_assoc, itemsOf_append hgoals, hclose, hplan]
  simp [Plan.items, raise]

theorem head_of_begin {marks : List Mark} (hseen : takenOf stream (n + 1) <+: kindsOf marks) :
    (kindsOf (marks.drop n)).head? = some (stream n).kind := by
  obtain ⟨rest, hrest⟩ := hseen
  have hdrop : kindsOf (marks.drop n) = (kindsOf marks).drop n := List.map_drop
  rw [hdrop, ← hrest, takenOf_succ, List.append_assoc]
  have htaken : takenOf stream n ++ ([(stream n).kind] ++ rest) =
      takenOf stream n ++ (stream n).kind :: rest := rfl
  rw [htaken, List.drop_left' length_takenOf]
  rfl

/-- Where the probe of a goal misses, no sentence goes on with what it is asked about. -/
theorem dead_of_miss {probe : Probe}
    (hcovers : Covers (takenOf stream (n + 1)) n (⟨depth, goal.form⟩ :: items))
    (hprobe : goal.probe? = some probe) (hnext : (stream n).kind = .leftParen)
    (hmiss : goal.hits (stream n).kind (stream (n + 1)).kind = false) :
    ¬ Viable (takenOf stream n ++ [(stream n).kind, (stream (n + 1)).kind]) := by
  intro hviable
  have hseen : takenOf stream (n + 1) <+:
      takenOf stream n ++ [(stream n).kind, (stream (n + 1)).kind] := by
    rw [takenOf_succ, List.prefix_append_right_inj]
    exact ⟨[(stream (n + 1)).kind], rfl⟩
  obtain ⟨marks, rest, hmarks, hkinds⟩ := hcovers.predicts length_takenOf hseen hviable
  rw [hnext] at hkinds
  have hsecond := Probe.mem_seconds hprobe hmarks hkinds
  simp [Goal.hits, hprobe, Probe.hits, hnext, hsecond] at hmiss

/-- Behind a negated identifier an opening parenthesis cannot come: only an identifier that is not
negated may be a call. -/
theorem dead_after_negative (h : Faithful stream tried (.fragment :: rest) standing)
    (hminus : (stream standing.generation).kind = .minus) :
    ¬ Viable (takenOf stream standing.generation ++ [.minus, .identifier, .leftParen]) := by
  intro hviable
  rcases h.covers with hcovers | hlost
  · have hseen : takenOf stream (standing.generation + 1) <+:
        takenOf stream standing.generation ++ [.minus, .identifier, .leftParen] := by
      rw [takenOf_succ, hminus, List.prefix_append_right_inj]
      exact ⟨[.identifier, .leftParen], rfl⟩
    obtain ⟨marks, more, hmarks, hkinds⟩ := hcovers.predicts length_takenOf hseen hviable
    have hunfolds : Unfolds (Goal.fragment.decider .minus false) [⟨0, Goal.fragment.form⟩]
        (Goal.fragment.plan .minus false).items := Goal.unfolds_plan nofun rfl
    have hhead : (kindsOf marks).head? = some .minus := by rw [hkinds]; rfl
    have hnegated := hunfolds.predicts standing.depth (itemsOf standing.depth rest) marks hhead hmarks
    -- the minus sign and the identifier are taken, and the parenthesis is left to what follows
    obtain ⟨named, hsign, hname⟩ := nests_token.1 hnegated
    obtain ⟨after, hidentifier, hafter⟩ := nests_token.1 hname
    have hderives := derives_of_predicts hafter
    have hrest : kindsOf after = .leftParen :: more := by
      rw [hsign, hidentifier] at hkinds
      exact (List.cons.inj (List.cons.inj hkinds).2).2
    rw [hrest] at hderives
    have hshuns : .leftParen ∈ Goal.fragment.form.shuns := by decide
    exact h.tidy.2.1 hshuns (mem_firstsOf_of_derives hderives)
  · have hparen := hlost.next
    rw [hminus] at hparen
    cases hparen

/-- What follows a probe that is passed cannot begin as its form does. -/
theorem stuck_of_passed {next : TokenKind} (hparen : hit = true → next = .leftParen)
    (hgoes : (goal.plan next hit).goes = true)
    (hpassed : (goal.plan next hit).goals.head?.any (Goal.commits next) = false)
    (hprobe : goal.probe?.isSome = true) (htidy : Tidy .leftParen (goal.form :: formsOf items)) :
    .leftParen ∉ firstsOf (formsOf (raise depth (goal.plan next hit).items ++ items)) := by
  obtain ⟨hitems, hshuns⟩ := Goal.items_of_passed hparen hgoes hpassed hprobe
  rw [hitems]
  exact htidy.2.1 hshuns

/-- After a step that leaves other goals, a sentence that goes on with the next kind goes on as they
say, or the probe of the goal missed. -/
theorem covers_go (hhit : hit = goal.hits (stream n).kind (stream (n + 1)).kind)
    (hcovers : Covers (takenOf stream (n + 1)) n (⟨depth, goal.form⟩ :: items))
    (htidy : Tidy .leftParen (goal.form :: formsOf items))
    (hgoes : (goal.plan (stream n).kind hit).goes = true) :
    Covers (takenOf stream (n + 1)) n (raise depth (goal.plan (stream n).kind hit).items ++ items) ∨
      Lost stream n (goal.probe?.isSome = true)
        (raise depth (goal.plan (stream n).kind hit).items ++ items) := by
  have hparen := Goal.leftParen_of_hit hhit
  have hunfolds := Goal.unfolds_plan hparen hgoes
  by_cases hdecider : goal.decider (stream n).kind hit = (stream n).kind
  · left
    intro marks hmarks hseen
    rw [hdecider] at hunfolds
    exact hunfolds.predicts depth items _ (head_of_begin hseen) (hcovers marks hmarks hseen)
  · right
    -- the choices are not decided by the next kind, which is only so where a probe missed
    obtain ⟨⟨hprobe, hnext⟩, hmiss⟩ :
        (goal.probe?.isSome = true ∧ (stream n).kind = .leftParen) ∧ hit = false := by
      by_contra hother
      exact hdecider (if_neg (by simpa using hother))
    obtain ⟨probe, hsome⟩ := Option.isSome_iff_exists.1 hprobe
    refine ⟨hprobe, hnext, ?_, dead_of_miss hcovers hsome hnext (hhit ▸ hmiss)⟩
    refine stuck_of_passed hparen hgoes ?_ hprobe htidy
    rw [hmiss, hnext] at hgoes ⊢
    exact Goal.passed_of_miss hprobe hgoes

/-- What the agenda foresees, unless the next token is taken or a goal is left that it can begin. -/
theorem foresees (h : Faithful stream tried (goal :: rest) standing)
    (hparen : hit = true → (stream standing.generation).kind = .leftParen)
    (hplan : goal.plan (stream standing.generation).kind hit = plan) (hmet : plan ≠ .leave)
    (htake : plan ≠ .take) (hgoals : plan.goals.head?.any (Goal.commits (stream standing.generation).kind) = false) :
    Foresees stream tried (goal.form :: formsOf (itemsOf standing.depth rest)) standing := by
  rcases h.expects with hcommitted | hforesees
  · rcases Goal.plan_of_commits hparen hcommitted with htaken | hbegun
    · exact absurd (hplan.symm.trans htaken) htake
    · rw [hplan, hgoals] at hbegun
      cases hbegun
  · rw [itemsOf_of_plan hplan hmet] at hforesees
    exact hforesees

/-- Where other goals are left, what may come is what they begin with, what the points missed would
have accepted, and what a probe has missed. -/
theorem foresees_go (h : Faithful stream tried (goal :: rest) standing)
    (hparen : hit = true → (stream standing.generation).kind = .leftParen)
    (hplan : goal.plan (stream standing.generation).kind hit = .go missed opens goals)
    (hcommits : goals.head?.any (Goal.commits (stream standing.generation).kind) = false) :
    Foresees stream (tried ∨ goal.probe?.isSome = true)
      (formsOf (raise standing.depth (goal.plan (stream standing.generation).kind hit).items ++
        itemsOf standing.depth rest)) (standing.miss missed) := by
  obtain ⟨hviable, hquiet⟩ := h.foresees hparen hplan nofun nofun hcommits
  have hgoes : (goal.plan (stream standing.generation).kind hit).goes = true := by rw [hplan]; rfl
  have hpassed : (goal.plan (stream standing.generation).kind hit).goals.head?.any
      (Goal.commits (stream standing.generation).kind) = false := by
    rw [hplan]
    exact hcommits
  have hfirsts := Goal.firsts_of_go hparen hgoes hpassed (formsOf (itemsOf standing.depth rest))
  have htidy := h.tidy
  rw [itemsOf_of_plan hplan nofun] at htidy
  constructor
  · intro kind
    have hoffered : kind ∈ (goal.plan (stream standing.generation).kind hit).offered ↔
        kind ∈ missed.flatMap Decision.firstKinds ++ (none : Option TokenKind).toList := by
      rw [hplan]
      simp [Plan.offered, Plan.missed]
    refine (hviable kind).trans ?_
    rw [formsOf_raise_append, hfirsts, Goal.mem_probed, hoffered, Standing.mem_expected_miss]
    -- the same alternatives, in another order
    grind
  · rintro (htried | hprobe)
    · intro hfirst
      rw [formsOf_raise_append] at hfirst
      exact hquiet htried (((hfirsts _).2 (.inr (.inr hfirst))))
    · exact stuck_of_passed hparen hgoes hpassed hprobe htidy

/-- **A step that leaves other goals** keeps what is known; a probe that was not taken has missed. -/
theorem go (h : Faithful stream tried (goal :: rest) standing)
    (hhit : hit = goal.hits (stream standing.generation).kind (stream (standing.generation + 1)).kind)
    (hplan : goal.plan (stream standing.generation).kind hit = .go missed opens goals) :
    Faithful stream (tried ∨ goal.probe?.isSome = true)
      (goals ++ (if opens then [.endBody] else []) ++ rest)
      { standing.miss missed with depth := standing.depth + opens.toNat } := by
  have hparen := Goal.leftParen_of_hit hhit
  have hgoes : (goal.plan (stream standing.generation).kind hit).goes = true := by rw [hplan]; rfl
  have hbefore := itemsOf_of_plan hplan nofun standing.depth rest
  have hafter := itemsOf_go hplan standing.depth rest
  have hunfolds := Goal.unfolds_plan hparen hgoes
  have htidy := h.tidy
  rw [hbefore] at htidy
  constructor
  · intro kinds hkinds
    rw [hafter, formsOf_raise_append] at hkinds
    refine h.sound kinds ?_
    rw [hbefore]
    exact hunfolds.derives _ _ hkinds
  · rw [hafter]
    rcases h.covers with hcovers | hlost
    · rw [hbefore] at hcovers
      refine (covers_go hhit hcovers htidy hgoes).imp_right fun hlost => ?_
      exact ⟨.inr hlost.tried, hlost.next, hlost.stuck, hlost.dead⟩
    · refine .inr ⟨.inl hlost.tried, hlost.next, fun hfirst => hlost.stuck ?_, hlost.dead⟩
      rw [formsOf_raise_append] at hfirst
      rw [hbefore]
      exact hunfolds.firsts _ hfirst
  · rw [hafter]
    cases hcommits : goals.head?.any (Goal.commits (stream standing.generation).kind) with
    | false => exact .inr (h.foresees_go hparen hplan hcommits)
    | true =>
      left
      cases goals with
      | nil => cases hcommits
      | cons first goals => exact hcommits
  · rw [hafter, formsOf_raise_append]
    exact hunfolds.tidy _ htidy
  · intro hquiet
    have hoffered := Goal.leftParen_not_mem_offered hgoes
    rw [hplan] at hoffered
    rcases Standing.mem_expected_miss.1 hquiet with hquiet | hmissed
    · exact h.quiet hquiet
    · rw [Option.toList_none, List.append_nil] at hmissed
      exact hoffered hmissed
  · intro point n hstamp
    have hle : n ≤ standing.generation := Standing.le_of_stamp?_miss h.past hstamp
    exact hle

/-- **Every step keeps an agenda faithful.** After a token no probe has missed; before that, a probe
that was asked has. -/
theorem step (h : Faithful stream tried (goal :: rest) standing)
    (hrun : (goal.planAt stream standing.generation).carryOut (stream standing.generation) standing =
      .ok goals after) :
    after.generation = standing.generation + 1 ∧ Faithful stream False (goals ++ rest) after ∨
      after.generation = standing.generation ∧
        Faithful stream (tried ∨ goal.probe?.isSome = true) (goals ++ rest) after := by
  rcases Plan.ok_cases hrun with ⟨hplan, rfl, rfl⟩ | ⟨missed, hplan, rfl⟩ |
    ⟨missed, inner, hplan, -, rfl, rfl⟩ | ⟨hplan, rfl, rfl⟩
  · exact .inl ⟨rfl, h.take hplan⟩
  · have hgo := h.go rfl hplan
    rw [if_neg (by simp), List.append_nil] at hgo
    exact .inr ⟨rfl, hgo⟩
  · exact .inr ⟨rfl, h.go rfl hplan⟩
  · obtain rfl := Goal.eq_endBody_of_leave hplan
    have hprobe : (tried ∨ Goal.endBody.probe?.isSome = true) = tried := by simp [Goal.probe?]
    rw [hprobe]
    exact .inr ⟨rfl, h.leave⟩

/-- **What a refusal expects** is what may come, apart from an opening parenthesis where a probe
missed. -/
theorem expected_of_refuse (h : Faithful stream tried (goal :: rest) standing)
    (hparen : hit = true → (stream standing.generation).kind = .leftParen)
    (hplan : goal.plan (stream standing.generation).kind hit = .refuse missed wanted) :
    (∀ kind, Viable (takenOf stream standing.generation ++ [kind]) ↔
      kind ∈ (standing.miss missed).expected wanted ∨
        (tried ∨ goal.probe?.isSome = true) ∧ kind = .leftParen) ∧
    (tried ∨ goal.probe?.isSome = true → .leftParen ∉ (standing.miss missed).expected wanted) := by
  have hrefuses : (goal.plan (stream standing.generation).kind hit).refuses = true := by rw [hplan]; rfl
  obtain ⟨hnullable, hsub, hsup⟩ := Goal.firsts_of_refuse hparen hrefuses
  have hrefused (hprobe : goal.probe?.isSome = true) :=
    Goal.probed_not_mem_offered hrefuses (Goal.mem_probed.2 ⟨hprobe, rfl⟩)
  rw [hplan] at hsub hsup hrefused
  obtain ⟨hviable, hquiet⟩ := h.foresees hparen hplan nofun nofun rfl
  -- what comes behind the goal does not matter, since the goal has to be met
  have hfirsts (kind : TokenKind) : kind ∈ firstsOf (goal.form :: formsOf (itemsOf standing.depth rest)) ↔
      kind ∈ goal.form.firsts := by
    rw [mem_firstsOf_cons, hnullable]
    simp
  constructor
  · intro kind
    have hoffered : kind ∈ goal.form.firsts ↔ kind ∈ (Plan.refuse missed wanted).offered ∨
        goal.probe?.isSome = true ∧ kind = .leftParen := by
      rw [← Goal.mem_probed, ← List.mem_append]
      exact ⟨@hsub kind, @hsup kind⟩
    rw [hviable, hfirsts, Standing.mem_expected_miss, hoffered]
    simp only [Plan.offered]
    grind
  · intro hprobed hmem
    rcases Standing.mem_expected_miss.1 hmem with hlive | hmissed
    · exact h.quiet hlive
    rcases hprobed with htried | hprobe
    · refine hquiet htried ((hfirsts _).2 (hsup ?_))
      exact List.mem_append_left _ hmissed
    · exact hrefused hprobe hmissed

/-- **What is refused may not come**, unless it is an opening parenthesis at which a probe missed;
then no sentence goes on with that and the token behind it. -/
theorem dead_of_refuse (h : Faithful stream tried (goal :: rest) standing)
    (hhit : hit = goal.hits (stream standing.generation).kind (stream (standing.generation + 1)).kind)
    (hplan : goal.plan (stream standing.generation).kind hit = .refuse missed wanted) :
    ¬ Viable (takenOf stream standing.generation ++ [(stream standing.generation).kind]) ∨
      (tried ∨ goal.probe?.isSome = true) ∧ (stream standing.generation).kind = .leftParen ∧
        ¬ Viable (takenOf stream standing.generation ++
          [(stream standing.generation).kind, (stream (standing.generation + 1)).kind]) := by
  have hparen := Goal.leftParen_of_hit hhit
  have hrefuses : (goal.plan (stream standing.generation).kind hit).refuses = true := by rw [hplan]; rfl
  rw [or_iff_not_imp_left, not_not]
  intro hviable
  rcases h.covers with hcovers | hlost
  · rw [itemsOf_of_plan hplan nofun] at hcovers
    obtain ⟨hnullable, hsub, -⟩ := Goal.firsts_of_refuse hparen hrefuses
    have hseen : takenOf stream (standing.generation + 1) <+:
        takenOf stream standing.generation ++ [(stream standing.generation).kind] :=
      ⟨[], by rw [List.append_nil, takenOf_succ]⟩
    -- what may come can begin the goal, and all of that is offered or left to the probe
    have hfirst := mem_firstsOf_cons.1 (hcovers.mem_firstsOf length_takenOf hseen hviable)
    rw [hnullable] at hfirst
    rcases List.mem_append.1 (hsub (hfirst.resolve_right nofun)) with hoffered | hprobed
    · exact absurd hoffered Goal.next_not_mem_offered
    · obtain ⟨hprobe, hnext⟩ := Goal.mem_probed.1 hprobed
      obtain ⟨probe, hsome⟩ := Option.isSome_iff_exists.1 hprobe
      refine ⟨.inr hprobe, hnext, dead_of_miss hcovers hsome hnext ?_⟩
      -- where the probe hits, nothing is refused
      by_contra hhits
      rw [Bool.not_eq_false] at hhits
      have hgoes := Goal.goes_of_hit hprobe
      rw [hhit, hhits, hnext] at hplan
      rw [hplan] at hgoes
      cases hgoes
  · exact ⟨.inl hlost.tried, hlost.next, hlost.dead⟩

end Step

end Faithful

end Cal
