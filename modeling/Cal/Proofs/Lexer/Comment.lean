import Cal.Proofs.Lexer.Octets
import Cal.Proofs.Lexer.Seam
import Mathlib.Logic.Relation

/-!
# Block comments are passed one at a time

Comments are skipped by a loop over bytes that counts how many of them are open. Here it is taken round by
round, and compared with the grammar of comments: a comment that is open is passed exactly up to the end of
the one comment that stands at the front of the text.

* `isComment_iff`: the grammar of comments, and the enclosed texts of the lexical definition.
* `Enclosed.passes`: the loop comes to the end of an enclosed text.
* `exists_enclosed_of_passes`: wherever the loop leaves a comment, an enclosed text has been passed.
* `rounds_end`: the loop comes to an end on every text.
* `block_comment_passed`: all this together, for a text that begins with a comment.
-/

namespace Cal.Trivia

open Relation

/-- What stands between the marks of a block comment: comments, and characters with which no mark begins. The
closing mark comes behind it. -/
inductive Interior : List Char → Prop
  | nil : Interior []
  | comment {inner outer : List Char} : Interior inner → Interior outer →
    Interior (['/', '*'] ++ inner ++ ['*', '/'] ++ outer)
  | character {c : Char} {rest : List Char} : ¬ ['/', '*'] <+: c :: (rest ++ ['*', '/']) →
    ¬ ['*', '/'] <+: c :: (rest ++ ['*', '/']) → Interior rest → Interior (c :: rest)

/-- A block comment, in which complete comments may stand. -/
def IsComment (comment : List Char) : Prop :=
  ∃ interior, Interior interior ∧ comment = ['/', '*'] ++ interior ++ ['*', '/']

variable {c o : Char} {chars comment left more rest text : List Char} {position opened stop : Position} {inner : Nat}

theorem Interior.enclosed {interior : List Char} (h : Interior interior) : Enclosed (interior ++ ['*', '/']) := by
  induction h with
  | nil => exact .close
  | comment _ _ ihInner ihOuter => simpa using Enclosed.nested ihInner ihOuter
  | character hopen hclose _ ih => exact .other hopen hclose ih

theorem Enclosed.interior (h : Enclosed comment) :
    ∃ interior, Interior interior ∧ comment = interior ++ ['*', '/'] := by
  induction h with
  | close => exact ⟨[], .nil, rfl⟩
  | nested _ _ ihNested ihOuter =>
    obtain ⟨inner, hinner, rfl⟩ := ihNested
    obtain ⟨outer, houter, rfl⟩ := ihOuter
    exact ⟨_, .comment hinner houter, by simp⟩
  | @other c _ hopen hclose _ ih =>
    obtain ⟨rest, hrest, rfl⟩ := ih
    exact ⟨c :: rest, .character hopen hclose hrest, rfl⟩

/-- **A comment is its opening mark and an enclosed text.** -/
theorem isComment_iff : IsComment comment ↔ ∃ body, Enclosed body ∧ comment = '/' :: '*' :: body := by
  constructor
  · rintro ⟨interior, hinterior, rfl⟩
    exact ⟨_, hinterior.enclosed, by simp⟩
  · rintro ⟨body, hbody, rfl⟩
    obtain ⟨interior, hinterior, rfl⟩ := hbody.interior
    exact ⟨interior, hinterior, by simp⟩

/-- At the front of a text at most one comment stands. -/
theorem IsComment.unique {other : List Char} (h : IsComment comment) (hother : IsComment other)
    (hfront : comment <+: text) (hfront' : other <+: text) : other = comment := by
  obtain ⟨body, hbody, rfl⟩ := isComment_iff.1 h
  obtain ⟨body', hbody', rfl⟩ := isComment_iff.1 hother
  obtain ⟨left, rfl⟩ := hfront
  obtain ⟨left', htext⟩ := hfront'
  simp only [List.cons_append, List.cons.injEq, true_and] at htext
  rw [hbody.unique hbody' htext]

/-- A place that skipping comes to: what is being skipped there, and the position and the bytes from there on. -/
structure Place where
  mode : Mode
  position : Position
  rest : List Char

namespace Place

/-- One round of the loop over blanks and comments: the next byte is passed, or the two bytes of a mark, or
skipping comes to an end. -/
def round : Place → Outcome ⊕ Place
  | ⟨.blanks, position, []⟩ => .inl (.reached ⟨position, []⟩)
  | ⟨.blanks, position, '/' :: '/' :: rest⟩ => .inr ⟨.line, position.afterOctets ['/', '/'], rest⟩
  | ⟨.blanks, position, '/' :: '*' :: rest⟩ => .inr ⟨.block position 0, position.afterOctets ['/', '*'], rest⟩
  | ⟨.blanks, position, o :: rest⟩ =>
    if isBlank o then .inr ⟨.blanks, position.afterOctet o, rest⟩ else .inl (.reached ⟨position, o :: rest⟩)
  | ⟨.line, position, []⟩ => .inl (.reached ⟨position, []⟩)
  | ⟨.line, position, o :: rest⟩ => .inr ⟨if o = '\n' then .blanks else .line, position.afterOctet o, rest⟩
  | ⟨.block opened _, position, []⟩ => .inl (.unclosed opened position)
  | ⟨.block opened inner, position, '/' :: '*' :: rest⟩ =>
    .inr ⟨.block opened (inner + 1), position.afterOctets ['/', '*'], rest⟩
  | ⟨.block opened inner, position, '*' :: '/' :: rest⟩ =>
    .inr ⟨if inner = 0 then .blanks else .block opened (inner - 1), position.afterOctets ['*', '/'], rest⟩
  | ⟨.block opened inner, position, o :: rest⟩ => .inr ⟨.block opened inner, position.afterOctet o, rest⟩

/-- Where skipping is after `n` rounds, or what it has come to by then. -/
def rounds : Nat → Place → Outcome ⊕ Place
  | 0, place => .inr place
  | n + 1, place =>
    match place.round with
    | .inl outcome => .inl outcome
    | .inr next => rounds n next

/-- What skipping comes to from a place on. -/
def outcome (place : Place) : Outcome := skipOctets place.mode place.position place.rest

/-- A round within a block comment. -/
def Within (place next : Place) : Prop :=
  (∃ opened inner, place.mode = .block opened inner) ∧ place.round = .inr next

/-- The loop goes on within a block comment from a place to another. Once the comment is left it goes on no
further. -/
abbrev Passes : Place → Place → Prop := ReflTransGen Within

/-- A place with a block comment at the front is left behind: the comment is entered, and left at `last`. -/
def MovesPast (place last : Place) : Prop :=
  last.mode = .blanks ∧ ∃ inside, place.round = .inr inside ∧ inside.Passes last

end Place

open Place

/-- **Skipping goes on from where a round has come to.** -/
theorem outcome_eq_round (place : Place) : place.outcome = place.round.elim id outcome := by
  unfold outcome
  fun_cases Place.round place with
  | case4 _ _ _ _ _ hblank => exact skipOctets_blank hblank
  | case5 =>
    simp only [Sum.elim_inl, id]
    unfold skipOctets
    split <;> simp_all
  | case11 =>
    simp only [Sum.elim_inr]
    conv => lhs; unfold skipOctets
    split <;> simp_all
  | _ => rfl

/-- A round passes a byte at least. -/
theorem rest_lt_of_round {place next : Place} (h : place.round = .inr next) :
    next.rest.length < place.rest.length := by
  revert h
  fun_cases Place.round place <;> rintro ⟨⟩ <;> simp +arith

/-- **The loop comes to an end on every text**: no more rounds are taken than there are bytes, and one. -/
theorem rounds_end (place : Place) : ∃ n ≤ place.rest.length + 1, place.rounds n = .inl place.outcome := by
  induction hlength : place.rest.length using Nat.strongRecOn generalizing place with
  | ind length ih =>
    have hround := outcome_eq_round place
    cases hplace : place.round with
    | inl outcome =>
      rw [hplace] at hround
      exact ⟨1, by omega, by rw [rounds, hplace, hround]; rfl⟩
    | inr next =>
      rw [hplace] at hround
      have hlt := rest_lt_of_round hplace
      obtain ⟨n, hn, hrounds⟩ := ih next.rest.length (by omega) next rfl
      refine ⟨n + 1, by omega, ?_⟩
      rw [rounds, hplace, hround]
      exact hrounds

/-- Within a comment a byte that begins no mark is passed. -/
theorem round_block_other (hopen : ¬ ['/', '*'] <+: o :: rest) (hclose : ¬ ['*', '/'] <+: o :: rest) :
    Place.round ⟨.block opened inner, position, o :: rest⟩ =
      .inr ⟨.block opened inner, position.afterOctet o, rest⟩ := by
  unfold Place.round
  split <;> simp_all [List.cons_prefix_cons]

theorem within_block {next : Place} (h : Place.round ⟨.block opened inner, position, rest⟩ = .inr next) :
    Within ⟨.block opened inner, position, rest⟩ next :=
  ⟨⟨opened, inner, rfl⟩, h⟩

/-- Within a comment another one is opened by a mark of its own. -/
theorem within_open : Within ⟨.block opened inner, position, octets ('/' :: '*' :: rest)⟩
    ⟨.block opened (inner + 1), position.afterAll ['/', '*'], octets rest⟩ := by
  rw [octets_mark (by decide) (by decide)]
  exact within_block rfl

/-- The innermost comment that is open is closed by the closing mark. -/
theorem within_close : Within ⟨.block opened inner, position, octets ('*' :: '/' :: rest)⟩
    ⟨if inner = 0 then .blanks else .block opened (inner - 1), position.afterAll ['*', '/'], octets rest⟩ := by
  rw [octets_mark (by decide) (by decide)]
  exact within_block rfl

/-- A byte of a character of more than one is passed within a comment. -/
theorem within_wide (ho : Wide o) : Within ⟨.block opened inner, position, o :: rest⟩
    ⟨.block opened inner, position.afterOctet o, rest⟩ := by
  obtain ⟨-, hslash, hstar, -⟩ := plain_of_wide ho
  exact within_block (round_block_other (by simp [List.cons_prefix_cons, hslash.symm])
    (by simp [List.cons_prefix_cons, hstar.symm]))

/-- The bytes that go on with a character are passed within a comment, and the position stays. -/
theorem passes_continued (hmore : ∀ o ∈ more, continues o = true) :
    Passes ⟨.block opened inner, position, more ++ rest⟩ ⟨.block opened inner, position, rest⟩ := by
  induction more with
  | nil => exact .refl
  | cons o more ih =>
    rw [List.forall_mem_cons] at hmore
    have hround : Within ⟨.block opened inner, position, o :: more ++ rest⟩
        ⟨.block opened inner, position.afterOctet o, more ++ rest⟩ := within_wide (wide_of_continues hmore.1)
    rw [Position.afterOctet, if_pos hmore.1] at hround
    exact .head hround (ih hmore.2)

/-- **Within a comment a character that begins no mark is passed**, whatever its width. -/
theorem passes_character (hopen : ¬ ['/', '*'] <+: c :: chars) (hclose : ¬ ['*', '/'] <+: c :: chars) :
    Passes ⟨.block opened inner, position, octets (c :: chars)⟩
      ⟨.block opened inner, position.after c, octets chars⟩ := by
  by_cases hc : Wide c
  · obtain ⟨lead, more, hlead, -, hmore, hoctets⟩ := octets_wide hc
    rw [hoctets, ← afterOctet_lead hlead hc]
    exact .head (within_wide (wide_of_lead hlead)) (passes_continued hmore)
  · have hmark {a b : Char} (ha : ¬ Wide a) (hb : ¬ Wide b) : ∀ c ∈ [a, b], ¬ Wide c := by simp [ha, hb]
    rw [← prefix_octets_iff (hmark (by decide) (by decide)), octets_narrow hc] at hopen hclose
    rw [octets_narrow hc, ← afterOctet_narrow hc]
    exact .single (within_block (round_block_other hopen hclose))

/-- **The loop comes to the end of an enclosed text**, and has then closed one comment. -/
theorem Enclosed.passes (h : Enclosed comment) :
    Passes ⟨.block opened inner, position, octets (comment ++ left)⟩
      ⟨if inner = 0 then .blanks else .block opened (inner - 1), position.afterAll comment, octets left⟩ := by
  induction h generalizing inner position left with
  | close => exact .single within_close
  | @nested nested outer _ _ ihNested ihOuter =>
    have htext : '/' :: '*' :: (nested ++ outer) ++ left = '/' :: '*' :: (nested ++ (outer ++ left)) := by simp
    have hopened : Passes
        ⟨.block opened (inner + 1), position.afterAll ['/', '*'], octets (nested ++ (outer ++ left))⟩
        ⟨.block opened inner, (position.afterAll ['/', '*']).afterAll nested, octets (outer ++ left)⟩ := ihNested
    have hend : position.afterAll ('/' :: '*' :: (nested ++ outer)) =
        ((position.afterAll ['/', '*']).afterAll nested).afterAll outer := by
      rw [← Position.afterAll_append, ← Position.afterAll_append]
      rfl
    rw [htext, hend]
    exact .head within_open (hopened.trans ihOuter)
  | other hopen hclose henclosed ih =>
    rw [List.cons_append]
    exact (passes_character (by rwa [henclosed.mark_append]) (by rwa [henclosed.mark_append])).trans ih

/-- Rounds within comments are determined. -/
theorem within_unique : Relator.RightUnique Within := by
  rintro place next other ⟨-, hnext⟩ ⟨-, hother⟩
  rw [hnext] at hother
  exact Sum.inr.inj hother

/-- What has been passed of a comment that is left, the way out goes on from there. -/
theorem passes_rest {place between last : Place} (hlast : last.mode = .blanks) (hout : place.Passes last)
    (hbetween : place.Passes between) : between.Passes last := by
  rcases ReflTransGen.total_of_right_unique within_unique hbetween hout with hrest | hback
  · exact hrest
  · rcases hback.cases_head with rfl | ⟨next, ⟨⟨opened, inner, hmode⟩, -⟩, -⟩
    · exact .refl
    · rw [hlast] at hmode
      cases hmode

/-- **A comment is left only behind an enclosed text.** -/
theorem exists_enclosed_of_passes {last : Place} (hlast : last.mode = .blanks)
    (h : Passes ⟨.block opened inner, position, octets text⟩ last) :
    ∃ comment left, Enclosed comment ∧ text = comment ++ left := by
  induction hlength : text.length using Nat.strongRecOn generalizing text inner position with
  | ind n ih =>
    match text with
    | [] =>
      rcases h.cases_head with rfl | ⟨next, ⟨-, hround⟩, -⟩
      · cases hlast
      · cases hround
    | c :: chars =>
      by_cases hopen : ['/', '*'] <+: c :: chars
      · obtain ⟨body, hbody⟩ := hopen
        obtain ⟨rfl, rfl⟩ : '/' = c ∧ '*' :: body = chars := by simpa using hbody
        rw [List.length_cons, List.length_cons] at hlength
        -- the comment that opens here is left first, and then the one around it
        have hinner := passes_rest hlast h (.single within_open)
        obtain ⟨nested, after, hnested, rfl⟩ := ih body.length (by omega) hinner rfl
        have hbehind : Passes ⟨.block opened inner, _, octets after⟩ last := passes_rest hlast hinner hnested.passes
        rw [List.length_append] at hlength
        obtain ⟨outer, left, houter, rfl⟩ := ih after.length (by omega) hbehind rfl
        exact ⟨_, left, .nested hnested houter, by simp⟩
      · by_cases hclose : ['*', '/'] <+: c :: chars
        · obtain ⟨left, hleft⟩ := hclose
          exact ⟨_, left, .close, hleft.symm⟩
        · have hchars := passes_rest hlast h (passes_character hopen hclose)
          rw [List.length_cons] at hlength
          obtain ⟨comment, left, hcomment, rfl⟩ := ih chars.length (by omega) hchars rfl
          rw [hcomment.mark_append] at hopen hclose
          exact ⟨_, left, .other hopen hclose hcomment, rfl⟩

/-- Within a block comment no line comment is ever open. -/
theorem mode_of_passes {place last : Place} (hplace : ∃ inner, place.mode = .block opened inner)
    (h : place.Passes last) : last.mode = .blanks ∨ ∃ inner, last.mode = .block opened inner := by
  induction h with
  | refl => exact .inr hplace
  | @tail between last _ hround ih =>
    obtain ⟨⟨other, inner, hmode⟩, hround⟩ := hround
    obtain ⟨inner', hsame⟩ : ∃ inner, between.mode = .block opened inner := by
      rcases ih with hblanks | hblock
      · rw [hblanks] at hmode
        cases hmode
      · exact hblock
    revert hround
    fun_cases Place.round between <;> cases hsame <;> rintro ⟨⟩
    · exact .inr ⟨_, rfl⟩
    · dsimp only
      split
      · exact .inl rfl
      · exact .inr ⟨_, rfl⟩
    · exact .inr ⟨_, rfl⟩

/-- A text that begins with the opening mark of a comment, from `position` on, where `body` stands behind the mark.
The loop reads it by its bytes. -/
def commentAt (position : Position) (body : List Char) : Place :=
  ⟨.blanks, position, octets ('/' :: '*' :: body)⟩

theorem round_commentAt (position : Position) (body : List Char) :
    (commentAt position body).round = .inr ⟨.block position 0, position.afterAll ['/', '*'], octets body⟩ := by
  rw [commentAt, octets_mark (by decide) (by decide)]
  rfl

/-- **The loop moves past a comment exactly up to its end.** -/
theorem movesPast_iff {body : List Char} {last : Place} :
    (commentAt position body).MovesPast last ↔ ∃ comment left, IsComment comment ∧
      '/' :: '*' :: body = comment ++ left ∧ last = ⟨.blanks, position.afterAll comment, octets left⟩ := by
  have hpassed (comment left : List Char) (hcomment : Enclosed comment) (hbody : body = comment ++ left) :
      Passes ⟨.block position 0, position.afterAll ['/', '*'], octets body⟩
        ⟨.blanks, position.afterAll ('/' :: '*' :: comment), octets left⟩ := by
    rw [hbody]
    exact hcomment.passes
  unfold MovesPast
  rw [round_commentAt]
  constructor
  · rintro ⟨hlast, inside, ⟨⟩, hpasses⟩
    obtain ⟨comment, left, hcomment, hbody⟩ := exists_enclosed_of_passes hlast hpasses
    refine ⟨'/' :: '*' :: comment, left, isComment_iff.2 ⟨comment, hcomment, rfl⟩, by simp [hbody], ?_⟩
    -- from the end of the comment the loop goes on no further
    rcases (passes_rest hlast hpasses (hpassed comment left hcomment hbody)).cases_head with
      hsame | ⟨_, ⟨⟨_, _, hmode⟩, -⟩, -⟩
    · exact hsame.symm
    · cases hmode
  · rintro ⟨comment, left, hcomment, htext, rfl⟩
    obtain ⟨inside, hinside, rfl⟩ := isComment_iff.1 hcomment
    exact ⟨rfl, _, rfl, hpassed inside left hinside (by simpa using htext)⟩

/-- What comes of a text that begins with the opening mark of a comment, from `position` on, where `body` stands
behind the mark. -/
structure CommentPassed (position : Position) (body : List Char) : Prop where
  /-- The loop moves past the comment if one stands at the front of the text, and then it comes to just behind it. -/
  moves_iff (last : Place) : (commentAt position body).MovesPast last ↔ ∃ comment left, IsComment comment ∧
    '/' :: '*' :: body = comment ++ left ∧ last = ⟨.blanks, position.afterAll comment, octets left⟩
  /-- At most one comment stands there. -/
  unique (comment other : List Char) : IsComment comment → IsComment other → comment <+: '/' :: '*' :: body →
    other <+: '/' :: '*' :: body → other = comment
  /-- Skipping goes on behind the comment. -/
  resumes (comment left : List Char) : IsComment comment → '/' :: '*' :: body = comment ++ left →
    skip .blanks position ('/' :: '*' :: body) = skip .blanks (position.afterAll comment) left
  /-- Otherwise the comment is reported where it opens, and the text is used up. -/
  unclosed : (∀ comment, IsComment comment → ¬ comment <+: '/' :: '*' :: body) →
    skip .blanks position ('/' :: '*' :: body) = .unclosed position (position.afterAll ('/' :: '*' :: body)) ∧
      Lexer.next (.ready ⟨position, '/' :: '*' :: body⟩) = .error (.unterminatedComment position)
        (.ready ⟨position.afterAll ('/' :: '*' :: body), []⟩)
  /-- No line comment is opened before the comment is left. -/
  inert (inside place : Place) : (commentAt position body).round = .inr inside → inside.Passes place →
    place.mode = .blanks ∨ ∃ inner, place.mode = .block position inner

/-- **A block comment is passed up to its end, and no further.** The loop that counts how many comments are open
moves past just the one comment of the grammar that stands at the front of a text; if there is none, the comment is
reported where it opens. Within a block comment no line comment begins, and a line comment goes on to the end of
its line whatever it holds. On every text the loop comes to an end, and to the same by the bytes of the text as by
its characters. -/
theorem block_comment_passed :
    (∀ position body, CommentPassed position body) ∧
    (∀ position line rest, '\n' ∉ line → (∀ c ∈ rest.head?, c = '\n') →
      skip .blanks position ('/' :: '/' :: (line ++ rest)) =
        skip .blanks (position.afterAll ('/' :: '/' :: line)) rest) ∧
    ∀ mode position text, ∃ n ≤ (octets text).length + 1,
      Place.rounds n ⟨mode, position, octets text⟩ = .inl (skip mode position text).octets := by
  refine ⟨fun position body => ?_, fun position line rest hline hend => skip_line hline hend, ?_⟩
  · refine ⟨fun last => movesPast_iff, fun comment other => IsComment.unique, ?_, fun hnone => ?_, ?_⟩
    · intro comment left hcomment htext
      obtain ⟨inside, hinside, rfl⟩ := isComment_iff.1 hcomment
      obtain rfl : body = inside ++ left := by simpa using htext
      exact skip_enclosed hinside
    · have hnever : NeverClosed body := by
        rintro inside hinside ⟨left, rfl⟩
        exact hnone _ (isComment_iff.2 ⟨inside, hinside, rfl⟩) ⟨left, rfl⟩
      obtain ⟨stop, hskip⟩ : ∃ stop, skip .blanks position ('/' :: '*' :: body) = .unclosed position stop :=
        skip_neverClosed hnever
      obtain rfl := stop_of_skip hskip
      exact ⟨hskip, by simp only [Lexer.next, hskip]⟩
    · intro inside place hinside hpasses
      rw [round_commentAt] at hinside
      cases hinside
      exact mode_of_passes ⟨0, rfl⟩ hpasses
  · intro mode position text
    rw [← skipOctets_octets]
    exact rounds_end ⟨mode, position, octets text⟩

/-- A slash behind an opening mark and a star before a closing one are no marks, and nor are two slashes. -/
example : skip .blanks .start "/*/*/ é **/ // */x".toList = .reached ⟨⟨1, 18⟩, ['x']⟩ := by decide

end Cal.Trivia
