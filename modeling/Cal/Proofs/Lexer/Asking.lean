import Cal.Proofs.Lexer.Octets
import Cal.Proofs.Lexer.Places

/-!
# Asking a lexer again and again

Whatever a lexer has replied, it can be asked again. After the end of the input it replies that end for ever,
and so it does after a comment that is never closed. After a character of one byte that begins no token it
goes on like a new lexer with the rest of the text. After one of more bytes it stands within a character, where
the text cannot be cut.

* `call`: what one call comes to, wherever the text begins.
* `Alongside`: two lexers of one text that begins at two positions.
* `follows_asked`: what the bytes of the text make of each call.
-/

namespace Cal

theorem Source.skip_add {σ : Type} [Source σ] (m k : Nat) (source : σ) :
    skip (m + k) source = skip k (skip m source) := by
  induction k with
  | zero => rfl
  | succ k ih => rw [← Nat.add_assoc, skip_succ, skip_succ, ih]

namespace Lexer

variable {text before rest : List Char} {lexer other : Lexer} {source : String} {position origin : Position}
  {n : Nat}

/-- What one call of a lexer comes to that has still to read `rest`, wherever that begins: behind a gap it
takes a word, or it is at the end of the text, or it passes a character that begins no word, or it reads a
comment that is never closed to the end. -/
inductive Call (rest : List Char) : Prop
  | token (gap word left : List Char) (kind : TokenKind) : rest = gap ++ (word ++ left) → kind ≠ .eof →
    (∀ position, next (ready ⟨position, rest⟩) = .ok ⟨kind, String.ofList word, position.afterAll gap⟩
      (ready ⟨(position.afterAll gap).afterAll word, left⟩)) → Call rest
  | finish : (∀ position, next (ready ⟨position, rest⟩) =
      .ok (.eof (position.afterAll rest)) (ready ⟨position.afterAll rest, []⟩)) → Call rest
  | strange (gap : List Char) (c : Char) (left : List Char) : rest = gap ++ c :: left →
    (∀ position, next (ready ⟨position, rest⟩) = .error (.unexpectedChar c (position.afterAll gap))
      (past c (position.afterAll gap) left)) → Call rest
  | unclosed (gap left : List Char) : rest = gap ++ left →
    (∀ position, next (ready ⟨position, rest⟩) = .error (.unterminatedComment (position.afterAll gap))
      (ready ⟨position.afterAll rest, []⟩)) → Call rest

/-- **One call**, wherever the text begins. -/
theorem call (rest : List Char) : Call rest := by
  obtain ⟨gap, behind, rfl, hgap, hstops | ⟨word, left, kind, rfl, hword, hkind⟩⟩ := exists_front rest
  · cases hstops with
    | finished => exact .finish fun position => by simpa using next_end position hgap
    | comment body => exact .unclosed gap _ rfl fun position => next_unterminated position hgap
    | @strange c left hopen hnone =>
      exact .strange gap c left rfl fun position => next_unexpected position hgap hopen hnone
  · exact .token gap word left kind rfl hkind.not_eof fun position => next_word position hgap hword hkind

/-- The position of a reply. -/
def positionOf : Except LexError Token → Position
  | .ok token => token.position
  | .error error => error.position

/-- A reply with another position. -/
def relocate (position : Position) : Except LexError Token → Except LexError Token
  | .ok token => .ok { token with position }
  | .error (.unexpectedChar c _) => .error (.unexpectedChar c position)
  | .error (.unterminatedComment _) => .error (.unterminatedComment position)
  | .error (.insideCharacter _) => .error (.insideCharacter position)

/-- Two lexers have read the same part of a text, which begins at the start for one and at `origin` for the
other. -/
inductive Alongside (text : List Char) (origin : Position) : Lexer → Lexer → Prop
  | ready {before rest : List Char} : before ++ rest = text →
    Alongside text origin (ready ⟨Position.start.afterAll before, rest⟩) (ready ⟨origin.afterAll before, rest⟩)
  | stranded {before rest : List Char} : before ++ rest = text →
    Alongside text origin (stranded (Position.start.afterAll before)) (stranded (origin.afterAll before))

/-- Two replies are about the same place of a text, which begins at the start for one and at `origin` for the
other. -/
def Likewise (text : List Char) (origin : Position) (reply other : Except LexError Token) : Prop :=
  ∃ place, place <+: text ∧ positionOf reply = Position.start.afterAll place ∧
    other = relocate (origin.afterAll place) reply

theorem alongside_append (more rest : List Char) (htext : before ++ (more ++ rest) = text) :
    Alongside text origin (ready ⟨(Position.start.afterAll before).afterAll more, rest⟩)
      (ready ⟨(origin.afterAll before).afterAll more, rest⟩) := by
  rw [← Position.afterAll_append, ← Position.afterAll_append]
  exact .ready (by rwa [List.append_assoc])

theorem alongside_past (more rest : List Char) (c : Char) (htext : before ++ (more ++ c :: rest) = text) :
    Alongside text origin (past c ((Position.start.afterAll before).afterAll more) rest)
      (past c ((origin.afterAll before).afterAll more) rest) := by
  have hplace (start : Position) :
      ((start.afterAll before).afterAll more).after c = start.afterAll (before ++ (more ++ [c])) := by
    rw [Position.afterAll_append, Position.afterAll_append]
    rfl
  have hsplit : before ++ (more ++ [c]) ++ rest = text := by simpa using htext
  unfold past
  split
  · rw [hplace, hplace]
    exact .ready hsplit
  · rw [hplace, hplace]
    exact .stranded hsplit

theorem likewise_append (more rest : List Char) (htext : before ++ (more ++ rest) = text)
    {reply other : Except LexError Token}
    (hreply : positionOf reply = (Position.start.afterAll before).afterAll more)
    (hother : other = relocate ((origin.afterAll before).afterAll more) reply) :
    Likewise text origin reply other := by
  refine ⟨before ++ more, ⟨rest, by rwa [List.append_assoc]⟩, ?_, ?_⟩
  · rw [hreply, Position.afterAll_append]
  · rw [hother, Position.afterAll_append]

/-- **One call of each** keeps two lexers alongside, and they reply likewise. -/
theorem Alongside.next (h : Alongside text origin lexer other) :
    Likewise text origin (replyOf lexer.next).1 (replyOf other.next).1 ∧
      Alongside text origin (replyOf lexer.next).2 (replyOf other.next).2 := by
  cases h with
  | @stranded before rest htext => exact ⟨⟨before, ⟨rest, htext⟩, rfl, rfl⟩, .stranded htext⟩
  | @ready before rest htext =>
    cases call rest with
    | token gap word left kind hrest _ hnext =>
      subst hrest
      rw [hnext, hnext]
      refine ⟨likewise_append gap _ htext rfl rfl, ?_⟩
      have halongside : Alongside text origin _ _ := alongside_append (gap ++ word) left (by simpa using htext)
      rwa [Position.afterAll_append, Position.afterAll_append] at halongside
    | finish hnext =>
      rw [← List.append_nil rest] at htext
      rw [hnext, hnext]
      exact ⟨likewise_append rest [] htext rfl rfl, alongside_append rest [] htext⟩
    | strange gap c left hrest hnext =>
      subst hrest
      rw [hnext, hnext]
      exact ⟨likewise_append gap _ htext rfl rfl, alongside_past gap left c htext⟩
    | unclosed gap left hrest hnext =>
      have hwhole : before ++ (rest ++ []) = text := by rwa [List.append_nil]
      rw [hnext, hnext]
      subst hrest
      exact ⟨likewise_append gap left htext rfl rfl, alongside_append _ [] hwhole⟩

/-- **After any number of calls** two lexers are alongside still. -/
theorem Alongside.skip (h : Alongside text origin lexer other) (k : Nat) :
    Alongside text origin (Source.skip k lexer) (Source.skip k other) := by
  induction k with
  | zero => exact h
  | succ k ih =>
    rw [Source.skip_succ, Source.skip_succ]
    exact ih.next.2

/-- Unless it replies from within a character, a lexer stands between two. -/
theorem ready_of_reply {result : Except LexError Token} (h : reply source n = result)
    (hother : ∀ position, result ≠ .error (.insideCharacter position)) :
    ∃ before rest, before ++ rest = source.toList ∧
      asked source n = ready ⟨Position.start.afterAll before, rest⟩ := by
  have hstart : Alongside source.toList .start (ofString source) (ofString source) := .ready (List.nil_append _)
  have halongside : Alongside source.toList .start (asked source n) (asked source n) := hstart.skip n
  rw [reply] at h
  generalize asked source n = lexer at h halongside ⊢
  cases halongside with
  | stranded => exact absurd h.symm (hother _)
  | @ready before rest htext => exact ⟨before, rest, htext, rfl⟩

/-- What a call replies and leaves, at a place of the text. -/
theorem reply_of_next {result : EStateM.Result LexError Lexer Token} (hasked : asked source n = lexer)
    (hnext : next lexer = result) :
    reply source n = (replyOf result).1 ∧ asked source (n + 1) = (replyOf result).2 := by
  rw [asked_succ, reply, hasked, hnext]
  exact ⟨rfl, rfl⟩

section Ending

variable {token : Token}

/-- Once the text is read, a lexer replies its end for ever. -/
theorem reply_at_end (h : asked source n = ready ⟨position, []⟩) (k : Nat) :
    reply source (n + k) = .ok (.eof position) ∧ asked source (n + k + 1) = ready ⟨position, []⟩ := by
  induction k with
  | zero => exact reply_of_next h rfl
  | succ k ih => exact reply_of_next ih.2 rfl

/-- **After the end of the input comes the same end**, for ever. -/
theorem reply_again (h : reply source n = .ok token) (heof : token.isEof = true) (k : Nat) :
    reply source (n + k) = .ok token := by
  obtain ⟨before, rest, -, hasked⟩ := ready_of_reply h (by simp)
  cases call rest with
  | token _ _ _ _ _ hkind hnext =>
    rw [(reply_of_next hasked (hnext _)).1] at h
    cases h
    exact absurd (of_decide_eq_true heof) hkind
  | finish hnext =>
    obtain ⟨hreply, hafter⟩ := reply_of_next hasked (hnext _)
    cases k with
    | zero => exact h
    | succ k =>
      rw [h] at hreply
      rw [hreply, Nat.add_comm k 1, ← Nat.add_assoc]
      exact (reply_at_end hafter k).1
  | strange _ _ _ _ hnext | unclosed _ _ _ hnext =>
    rw [(reply_of_next hasked (hnext _)).1] at h
    cases h

/-- **After a comment that is never closed comes the end of the text**, for ever. -/
theorem reply_of_unclosed (h : reply source n = .error (.unterminatedComment position)) (k : Nat) :
    reply source (n + 1 + k) = .ok (.eof (Position.start.afterAll source.toList)) := by
  obtain ⟨before, rest, htext, hasked⟩ := ready_of_reply h (by simp)
  cases call rest with
  | token _ _ _ _ _ _ hnext | finish hnext | strange _ _ _ _ hnext =>
    rw [(reply_of_next hasked (hnext _)).1] at h
    cases h
  | unclosed _ _ _ hnext =>
    have hafter := (reply_of_next hasked (hnext _)).2
    rw [← htext, Position.afterAll_append]
    exact (reply_at_end hafter k).1

end Ending

section Resuming

variable {c : Char}

/-- **After a character that begins no token** a lexer stands behind that character. -/
theorem asked_of_strange (h : reply source n = .error (.unexpectedChar c position)) :
    ∃ before rest, source.toList = before ++ c :: rest ∧ position = Position.start.afterAll before ∧
      asked source (n + 1) = past c position rest := by
  obtain ⟨before, rest, htext, hasked⟩ := ready_of_reply h (by simp)
  cases call rest with
  | token _ _ _ _ _ _ hnext | finish hnext | unclosed _ _ _ hnext =>
    rw [(reply_of_next hasked (hnext _)).1] at h
    cases h
  | strange gap d left hrest hnext =>
    obtain ⟨hreply, hafter⟩ := reply_of_next hasked (hnext _)
    rw [hreply] at h
    cases h
    refine ⟨before ++ gap, left, by rw [← htext, hrest, List.append_assoc], ?_, hafter⟩
    rw [Position.afterAll_append]

/-- **After a character of one byte that begins no token** a lexer goes on as a new lexer does with the rest of
the text, but for the positions: those are counted on. -/
theorem reply_resumed (h : reply source n = .error (.unexpectedChar c position)) (hone : c.utf8Size = 1) :
    ∃ before rest, source.toList = before ++ c :: rest ∧ position = Position.start.afterAll before ∧
      ∀ k, Likewise rest (position.after c) (reply (String.ofList rest) k) (reply source (n + 1 + k)) := by
  obtain ⟨before, rest, htext, hposition, hafter⟩ := asked_of_strange h
  rw [past, if_pos hone] at hafter
  refine ⟨before, rest, htext, hposition, fun k => ?_⟩
  have hstart : Alongside rest (position.after c) (ofString (String.ofList rest)) (asked source (n + 1)) := by
    rw [hafter, ofString, Cursor.ofString, String.toList_ofList]
    exact .ready (List.nil_append rest)
  have hnext := (hstart.skip k).next.1
  rwa [asked, ← Source.skip_add] at hnext

end Resuming

end Lexer

theorem Countable.of_prefix {before chars : List Char} (h : Countable chars) (hbegin : before <+: chars) :
    Countable before := Nat.le_trans hbegin.length_le h

namespace Position

/-- The position in a text that begins at `origin` of what stands at `p` in a text that begins at the start. -/
def shift (origin p : Position) : Position :=
  ⟨origin.line + (p.line - 1), if p.line = 1 then origin.column + (p.column - 1) else p.column⟩

/-- **Positions are counted on** line by line, and on the first line column by column. -/
theorem afterAll_eq_shift (origin : Position) {before : List Char} (h : Countable before) :
    origin.afterAll before = origin.shift (start.afterAll before) := by
  induction before using List.reverseRecOn with
  | nil => simp [shift, start]
  | append_singleton before c ih =>
    have hline : (start.afterAll before).line ≠ 0 := fun hzero => by
      have hmarks := (Countable.marks h).line
      rw [hzero] at hmarks
      exact absurd hmarks (by simp; omega)
    rw [afterAll_append, afterAll_append, ih (h.of_prefix (List.prefix_append ..))]
    generalize start.afterAll before = p at hline
    by_cases hc : c = '\n'
    · -- from the second line on the column is that of the line
      have hsecond : p.line + 1 ≠ 1 := fun hone => hline (by grind)
      simp only [shift, afterAll_cons, afterAll_nil, after, if_pos hc, if_neg hsecond, mk.injEq, and_true]
      grind
    · simp only [shift, afterAll_cons, afterAll_nil, after, if_neg hc, mk.injEq, true_and]
      split <;> grind

end Position

/-- Where positions can be counted, those of likewise replies are counted on from each other. -/
theorem Lexer.Likewise.eq_relocate {text : List Char} {origin : Position} {reply other : Except LexError Token}
    (h : Likewise text origin reply other) (hcountable : Countable text) :
    other = relocate (origin.shift (positionOf reply)) reply := by
  obtain ⟨place, hbegin, hreply, rfl⟩ := h
  rw [hreply, Position.afterAll_eq_shift origin (hcountable.of_prefix hbegin)]

namespace Octets

variable {text : String} {n : Nat}

/-- What is left of the bytes of a text after `n` calls, if all of them have replied. -/
def asked (text : String) : Nat → Option Cursor
  | 0 => some ⟨.start, octets text.toList⟩
  | n + 1 => do
    let result ← next (← asked text n)
    return (replyOf result).2

/-- What the call after `n` others replies, by the bytes of the text, if all of them have replied and this one
does. -/
def reply (text : String) (n : Nat) : Option (Except LexError Token) := do
  let result ← next (← asked text n)
  return (replyOf result).1

/-- The calls before have replied, and the call after `n` others would cut the text within a character. -/
def Panics (text : String) (n : Nat) : Prop := ∃ cursor, asked text n = some cursor ∧ next cursor = none

/-- A reply from within a character is none. -/
def answer : Except LexError Token → Option (Except LexError Token)
  | .error (.insideCharacter _) => none
  | reply => some reply

@[simp]
theorem answer_ok (token : Token) : answer (.ok token) = some (.ok token) := rfl

/-- **After any number of calls** the lexer is followed by what is left of the bytes. -/
theorem follows_asked (text : String) (n : Nat) : Follows (Lexer.asked text n) (asked text n) := by
  induction n with
  | zero => exact .ready .start text.toList
  | succ n ih =>
    rw [Lexer.asked_succ, asked]
    generalize Lexer.asked text n = lexer at ih
    generalize asked text n = left at ih
    cases ih with
    | ready position rest =>
      obtain ⟨result, hnext, -, hfollows⟩ := next_octets position rest
      simp only [Option.bind_eq_bind, Option.bind_some, hnext]
      exact hfollows
    | within hne hmore =>
      simp only [Option.bind_eq_bind, Option.bind_some, next_within hne hmore]
      exact .cut _
    | cut position => exact .cut position

theorem answer_ready (position : Position) (rest : List Char) :
    answer (replyOf (Lexer.next (.ready ⟨position, rest⟩))).1 =
      some (replyOf (Lexer.next (.ready ⟨position, rest⟩))).1 := by
  cases Lexer.call rest with
  | token _ _ _ _ _ _ hnext | finish hnext | strange _ _ _ _ hnext | unclosed _ _ _ hnext =>
    rw [hnext]
    rfl

/-- **By its bytes a text gives the same replies**, and none where the text would be cut within a character. -/
theorem reply_eq_answer (text : String) (n : Nat) : reply text n = answer (Lexer.reply text n) := by
  have hfollows := follows_asked text n
  rw [reply, Lexer.reply]
  generalize Lexer.asked text n = lexer at hfollows
  generalize asked text n = left at hfollows
  cases hfollows with
  | ready position rest =>
    obtain ⟨result, hnext, hreply, -⟩ := next_octets position rest
    simp only [Option.bind_eq_bind, Option.bind_some, hnext, hreply, answer_ready]
    rfl
  | within hne hmore =>
    simp only [Option.bind_eq_bind, Option.bind_some, next_within hne hmore]
    rfl
  | cut position => rfl

/-- A lexer that comes to stand within a character has just met one that begins no token. -/
theorem strange_of_stranded {position place : Position} {rest : List Char}
    (h : (replyOf (Lexer.next (.ready ⟨position, rest⟩))).2 = .stranded place) :
    ∃ c met, (replyOf (Lexer.next (.ready ⟨position, rest⟩))).1 = .error (.unexpectedChar c met) ∧
      1 < c.utf8Size := by
  cases Lexer.call rest with
  | token _ _ _ _ _ _ hnext | finish hnext | unclosed _ _ _ hnext =>
    rw [hnext] at h
    cases h
  | strange gap c left _ hnext =>
    rw [hnext] at h ⊢
    refine ⟨c, _, rfl, Nat.lt_of_not_le fun hle => ?_⟩
    have hone : c.utf8Size = 1 := Nat.le_antisymm hle c.utf8Size_pos
    rw [replyOf, Lexer.past, if_pos hone] at h
    cases h

/-- Where a call has a reply, the lexer stands between two characters. -/
theorem ready_of_next {cursor : Cursor} {result : EStateM.Result LexError Cursor Token}
    (hasked : asked text n = some cursor) (hnext : next cursor = some result) :
    ∃ position rest, Lexer.asked text n = .ready ⟨position, rest⟩ := by
  have hfollows := follows_asked text n
  rw [hasked] at hfollows
  generalize Lexer.asked text n = lexer at hfollows ⊢
  cases hfollows with
  | ready position rest => exact ⟨position, rest, rfl⟩
  | within hne hmore =>
    rw [next_within hne hmore] at hnext
    cases hnext

/-- Where a call has no reply, it stands within a character. -/
theorem stranded_of_panics (h : Panics text n) : ∃ position, Lexer.asked text n = .stranded position := by
  obtain ⟨cursor, hasked, hnone⟩ := h
  have hfollows := follows_asked text n
  rw [hasked] at hfollows
  generalize Lexer.asked text n = lexer at hfollows ⊢
  cases hfollows with
  | ready position rest =>
    obtain ⟨result, hnext, -⟩ := next_octets position rest
    rw [hnext] at hnone
    cases hnone
  | within hne hmore => exact ⟨_, rfl⟩

/-- **A call cuts the text within a character** just after one that has met a character of more than one byte
that begins no token. -/
theorem panics_iff (text : String) (n : Nat) : Panics text n ↔ ∃ m c position, n = m + 1 ∧
    Lexer.reply text m = .error (.unexpectedChar c position) ∧ 1 < c.utf8Size := by
  constructor
  · intro h
    obtain ⟨place, hstranded⟩ := stranded_of_panics h
    obtain ⟨cursor, hasked, -⟩ := h
    cases n with
    | zero => cases hstranded
    | succ m =>
      obtain ⟨earlier, hearlier, result, hnext, -⟩ :
          ∃ earlier, asked text m = some earlier ∧ ∃ result, next earlier = some result ∧ _ := by
        simpa [asked, Option.bind_eq_some_iff] using hasked
      obtain ⟨position, rest, hready⟩ := ready_of_next hearlier hnext
      rw [Lexer.asked_succ, hready] at hstranded
      obtain ⟨c, met, hreply, hwide⟩ := strange_of_stranded hstranded
      exact ⟨m, c, met, rfl, by rw [Lexer.reply, hready, hreply], hwide⟩
  · rintro ⟨m, c, position, rfl, hreply, hwide⟩
    obtain ⟨before, left, -, hready⟩ := Lexer.ready_of_reply hreply (by simp)
    obtain ⟨_, rest, -, -, hafter⟩ := Lexer.asked_of_strange hreply
    rw [Lexer.past, if_neg (Nat.ne_of_gt hwide)] at hafter
    have hasked : ∃ cursor, asked text (m + 1) = some cursor := by
      have hfollows := follows_asked text m
      rw [hready] at hfollows
      rw [asked]
      generalize asked text m = earlier at hfollows
      cases hfollows
      obtain ⟨result, hnext, -⟩ := next_octets (Position.start.afterAll before) left
      exact ⟨_, by simp only [Option.bind_eq_bind, Option.bind_some, hnext]; rfl⟩
    obtain ⟨cursor, hcursor⟩ := hasked
    have hfollows := follows_asked text (m + 1)
    rw [hafter, hcursor] at hfollows
    cases hfollows with
    | within hne hmore => exact ⟨_, hcursor, next_within hne hmore⟩

/-- The second call meets a character of two bytes, and the third would cut the text within it. -/
example : reply "x \u00e9" 1 = some (.error (.unexpectedChar '\u00e9' ⟨1, 3⟩)) ∧
    reply "x \u00e9" 2 = none := by
  decide +kernel

/-- **As long as tokens are replied, there is a reply** to the next call. -/
theorem reply_of_tokens (h : ∀ m < n, ∃ token, Lexer.reply text m = .ok token) :
    reply text n = some (Lexer.reply text n) := by
  obtain ⟨position, rest, hready⟩ : ∃ position rest, Lexer.asked text n = .ready ⟨position, rest⟩ := by
    cases n with
    | zero => exact ⟨.start, text.toList, rfl⟩
    | succ m =>
      obtain ⟨token, hreply⟩ := h m (Nat.lt_succ_self m)
      obtain ⟨before, rest, -, hasked⟩ := Lexer.ready_of_reply hreply (by simp)
      cases Lexer.call rest with
      | token _ _ _ _ _ _ hnext | finish hnext => exact ⟨_, _, (Lexer.reply_of_next hasked (hnext _)).2⟩
      | strange _ _ _ _ hnext | unclosed _ _ _ hnext =>
        rw [(Lexer.reply_of_next hasked (hnext _)).1] at hreply
        cases hreply
  rw [reply_eq_answer, Lexer.reply, hready, answer_ready]

end Octets

end Cal
