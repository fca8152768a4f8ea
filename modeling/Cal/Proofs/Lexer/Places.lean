import Cal.Command.Basic
import Cal.Proofs.Lexer.Counting
import Cal.Proofs.Lexer.Render
import Cal.Proofs.Lookahead.Replies
import Mathlib.Data.String.Basic

/-!
# The positions that a lexer reports

A lexer can be asked again and again, whether it has replied a token or an error. `Reports` says where in
the text each reply belongs, and that its position is that of the place.

* `reports_next`: one call.
* `exists_places`: all calls, one after the other.
* `precedes_of_lt`: a token that is replied later stands further on.
* `positions_exact`: all of it for every text that can be counted.
-/

namespace Cal

/-- A token stands before another: where it is on the same line, by at least the length of its lexeme. -/
structure Token.Precedes (token later : Token) : Prop where
  position : token.position < later.position
  column : later.position.line = token.position.line →
    token.position.column.toNat + token.lexeme.length ≤ later.position.column.toNat

namespace Lexer

/-- The lexer of a text after `n` calls, whatever their replies were. -/
def asked (text : String) (n : Nat) : Lexer := Source.skip n (ofString text)

/-- What the lexer of a text replies to the call after `n` others. -/
def reply (text : String) (n : Nat) : Except LexError Token := (replyOf (next (asked text n))).1

/-- A lexer has read the characters `before` of a text. Within a character it does not go on. -/
inductive Stands (text : List Char) : Lexer → List Char → Prop
  | ready {before rest : List Char} : before ++ rest = text →
    Stands text (ready ⟨Position.start.afterAll before, rest⟩) before
  | stranded {before rest : List Char} : before ++ rest = text →
    Stands text (stranded (Position.start.afterAll before)) before

/-- What a lexer replies that has read the characters `before` of a text, and what it has read then. Behind
the longest gap it finds a token, the end of the text, a character that begins no token, or a comment that
is never closed, and it reports the position of that place. -/
inductive Reports (text before : List Char) : Except LexError Token → List Char → Prop
  | token {gap word rest : List Char} {kind : TokenKind} {position : Position} :
    before ++ (gap ++ (word ++ rest)) = text → Longest Trivia.Gap gap (word ++ rest) →
      Lexeme.Belongs kind word → position.Marks (before ++ gap) →
        Reports text before (.ok ⟨kind, String.ofList word, position⟩) (before ++ gap ++ word)
  | finish {gap : List Char} {position : Position} : before ++ gap = text → Longest Trivia.Gap gap [] →
    position.Marks text → Reports text before (.ok (.eof position)) text
  | strange {gap rest : List Char} {c : Char} {position : Position} : before ++ (gap ++ c :: rest) = text →
    Longest Trivia.Gap gap (c :: rest) → Lexeme.NoWord (c :: rest) → position.Marks (before ++ gap) →
      Reports text before (.error (.unexpectedChar c position)) (before ++ gap ++ [c])
  | unclosed {gap body : List Char} {position : Position} : before ++ (gap ++ '/' :: '*' :: body) = text →
    Longest Trivia.Gap gap ('/' :: '*' :: body) → Trivia.NeverClosed body → position.Marks (before ++ gap) →
      Reports text before (.error (.unterminatedComment position)) text
  | inside {position : Position} : position.Marks before →
    Reports text before (.error (.insideCharacter position)) before

variable {text before after : List Char} {lexer : Lexer} {token : Token} {result : Except LexError Token}

/-- Where a lexer stands that has read `before` and then `more`. -/
theorem stands_append (more rest : List Char) (htext : before ++ (more ++ rest) = text) :
    Stands text (ready ⟨(Position.start.afterAll before).afterAll more, rest⟩) (before ++ more) := by
  rw [← Position.afterAll_append]
  exact .ready (by rwa [List.append_assoc])

theorem stands_past (more rest : List Char) (c : Char) (htext : before ++ (more ++ c :: rest) = text) :
    Stands text (past c ((Position.start.afterAll before).afterAll more) rest) (before ++ more ++ [c]) := by
  have hplace : ((Position.start.afterAll before).afterAll more).after c =
      Position.start.afterAll (before ++ more ++ [c]) := by
    rw [Position.afterAll_append, Position.afterAll_append]
    rfl
  have hsplit : before ++ more ++ [c] ++ rest = text := by simpa using htext
  unfold past
  split
  · rw [hplace]
    exact .ready hsplit
  · rw [hplace]
    exact .stranded hsplit

/-- **One call.** A lexer reports what stands behind the longest gap, with its position. -/
theorem reports_next (hcountable : Countable text) (h : Stands text lexer before) :
    ∃ after, Reports text before (replyOf (next lexer)).1 after ∧ Stands text (replyOf (next lexer)).2 after := by
  cases h with
  | @stranded _ rest htext =>
    subst htext
    exact ⟨before, .inside hcountable.marks, .stranded rfl⟩
  | @ready _ rest htext =>
    obtain ⟨gap, behind, rfl, hgap, hfront⟩ := exists_front rest
    have hmarks : ((Position.start.afterAll before).afterAll gap).Marks (before ++ gap) := by
      rw [← Position.afterAll_append]
      rw [← htext, ← List.append_assoc] at hcountable
      exact hcountable.marks
    rcases hfront with hstops | ⟨word, rest, kind, rfl, hword, hkind⟩
    · cases hstops with
      | finished =>
        have hstands := stands_append gap [] htext
        rw [List.append_nil] at htext
        rw [htext] at hmarks hstands
        rw [next_end _ hgap]
        exact ⟨text, .finish htext hgap hmarks, hstands⟩
      | comment body =>
        have hstands := stands_append (gap ++ '/' :: '*' :: body) [] (by simpa using htext)
        rw [htext] at hstands
        rw [next_unterminated _ hgap]
        exact ⟨text, .unclosed htext hgap (Trivia.neverClosed_of_longest hgap) hmarks, hstands⟩
      | @strange c rest hopen hnone =>
        rw [next_unexpected _ hgap hopen hnone]
        exact ⟨_, .strange htext hgap hnone hmarks, stands_past gap rest c htext⟩
    · have hstands := stands_append (gap ++ word) rest (by simpa using htext)
      rw [Position.afterAll_append, ← List.append_assoc] at hstands
      rw [next_word _ hgap hword hkind]
      exact ⟨_, .token htext hgap hkind hmarks, hstands⟩

/-- What a lexer has read it keeps, and it reads on. -/
theorem Reports.begin (h : Reports text before result after) : before <+: after := by
  cases h with
  | token => exact ⟨_, (List.append_assoc ..).symm⟩
  | finish htext => exact ⟨_, htext⟩
  | strange => exact ⟨_, (List.append_assoc ..).symm⟩
  | unclosed htext => exact ⟨_, htext⟩
  | inside => exact List.prefix_rfl

/-- A token that is replied stands behind what has been read. -/
theorem Reports.behind (h : Reports text before (.ok token) after) :
    ∃ gap, token.position.Marks (before ++ gap) := by
  cases h with
  | @token gap _ _ _ _ _ _ _ hmarks => exact ⟨gap, hmarks⟩
  | @finish gap _ htext _ hmarks => exact ⟨gap, htext ▸ hmarks⟩

/-- A token stands on one line, and has been read when it is replied. -/
theorem Reports.taken (h : Reports text before (.ok token) after) (hother : token.isEof = false) :
    ∃ place word, after = place ++ word ∧ token.position.Marks place ∧ token.lexeme = String.ofList word ∧
      '\n' ∉ word ∧ word ≠ [] := by
  cases h with
  | @token gap word rest kind position _ _ hkind hmarks =>
    refine ⟨before ++ gap, word, rfl, hmarks, rfl, fun hline => ?_, hkind.ne_nil⟩
    exact hkind.not_opens _ hline (.inl (by decide))
  | finish => cases hother

section Calls

variable {source : String} {later : Token} {m n : Nat}

theorem asked_succ (source : String) (n : Nat) : asked source (n + 1) = (replyOf (next (asked source n))).2 :=
  Source.skip_succ n _

/-- From any call on, the lexer reads on. -/
theorem stands_later (hcountable : Countable source.toList) (h : Stands source.toList (asked source m) before)
    (hle : m ≤ n) : ∃ later, before <+: later ∧ Stands source.toList (asked source n) later := by
  induction hle with
  | refl => exact ⟨before, List.prefix_rfl, h⟩
  | @step n _ ih =>
    obtain ⟨between, hbegin, hstands⟩ := ih
    obtain ⟨after, hreports, hafter⟩ := reports_next hcountable hstands
    rw [← asked_succ] at hafter
    exact ⟨after, hbegin.trans hreports.begin, hafter⟩

/-- **All calls, one after the other**, whatever the replies have been. -/
theorem exists_places (hcountable : Countable source.toList) (n : Nat) :
    ∃ before after, Stands source.toList (asked source n) before ∧
      Reports source.toList before (reply source n) after ∧ Stands source.toList (asked source (n + 1)) after := by
  have hstart : Stands source.toList (asked source 0) [] := @Stands.ready _ [] _ rfl
  obtain ⟨before, -, hstands⟩ := stands_later hcountable hstart (Nat.zero_le n)
  obtain ⟨after, hreports, hafter⟩ := reports_next hcountable hstands
  rw [← asked_succ] at hafter
  exact ⟨before, after, hstands, hreports, hafter⟩

/-- Checks do not change what the lexer of a text replies. -/
theorem next?_asked (hcountable : Countable source.toList) (n : Nat) :
    next? (asked source n) = some (next (asked source n)) := by
  obtain ⟨before, _, hstands, -⟩ := exists_places hcountable n
  generalize asked source n = lexer at hstands
  cases hstands with
  | ready htext =>
    rw [← htext] at hcountable
    exact next?_eq hcountable.counts
  | stranded => rfl

/-- **A token that is replied later stands further on.** -/
theorem precedes_of_lt (hcountable : Countable source.toList) (hlt : m < n) (h : reply source m = .ok token)
    (hother : token.isEof = false) (hlater : reply source n = .ok later) :
    '\n' ∉ token.lexeme.toList ∧ token.Precedes later := by
  obtain ⟨_, read, -, hreports, hread⟩ := exists_places hcountable m
  rw [h] at hreports
  obtain ⟨place, word, rfl, hmarks, hlexeme, hline, hne⟩ := hreports.taken hother
  -- the call for the later token finds at least as much read as this call has left
  obtain ⟨before, ⟨between, rfl⟩, hstands⟩ := stands_later hcountable hread hlt
  obtain ⟨after, hreports, -⟩ := reports_next hcountable hstands
  have hreply : (replyOf (next (asked source n))).1 = .ok later := hlater
  rw [hreply] at hreports
  obtain ⟨gap, hlater⟩ := hreports.behind
  rw [List.append_assoc, List.append_assoc] at hlater
  obtain ⟨hposition, hcolumn⟩ := hmarks.ahead hlater hline hne
  rw [hlexeme]
  refine ⟨by simpa using hline, hposition, fun hsame => ?_⟩
  simpa [hlexeme] using hcolumn hsame

/-- The tokens of a text are the first replies of its lexer, up to the end of the input. -/
theorem reply_of_lexText {tokens : List Token} (h : lexText source = .ok tokens) (hn : n < tokens.length) :
    reply source n = .ok tokens[n] ∧ (n + 1 < tokens.length → tokens[n].isEof = false) := by
  obtain ⟨words, last, hdelivers, ⟨eof, after, hlast, -, hdrain⟩ | ⟨error, after, -, hdrain⟩⟩ :=
    FiniteSource.drain_cases (ofString source)
  · obtain rfl : tokens = words ++ [eof] := by
      rw [lexText, hdrain] at h
      exact (Except.ok.inj h).symm
    obtain ⟨hskip, hwords⟩ := Source.replies_of_delivers hdelivers
    rcases Nat.lt_or_ge n words.length with hlt | hge
    · rw [List.getElem_append_left hlt]
      exact ⟨(hwords n hlt).1, fun _ => (hwords n hlt).2⟩
    · obtain rfl : n = words.length := by
        simp only [List.length_append, List.length_singleton] at hn
        omega
      have hnext : next last = .ok eof after := hlast
      rw [reply, asked, hskip, hnext]
      exact ⟨by simp [replyOf], fun hmore => by simp at hmore⟩
  · rw [lexText, hdrain] at h
    cases h

/-- The first error of a text is the reply that its lexer makes behind tokens. -/
theorem reply_of_lexText_error {error : LexError} (h : lexText source = .error error) :
    ∃ n, reply source n = .error error ∧ ∀ m < n, ∃ token, reply source m = .ok token ∧ token.isEof = false := by
  obtain ⟨words, last, hdelivers, ⟨eof, after, -, -, hdrain⟩ | ⟨other, after, hlast, hdrain⟩⟩ :=
    FiniteSource.drain_cases (ofString source)
  · rw [lexText, hdrain] at h
    cases h
  · obtain rfl : other = error := by
      rw [lexText, hdrain] at h
      exact Except.error.inj h
    obtain ⟨hskip, hwords⟩ := Source.replies_of_delivers hdelivers
    have hnext : next last = .error other after := hlast
    refine ⟨words.length, ?_, fun m hm => ⟨words[m], hwords m hm⟩⟩
    rw [reply, asked, hskip, hnext, replyOf]

end Calls

end Lexer

theorem length_le_utf8Len (chars : List Char) : chars.length ≤ String.utf8Len chars := by
  induction chars with
  | nil => exact Nat.le_refl 0
  | cons c chars ih =>
    have := c.utf8Size_pos
    rw [String.utf8Len_cons, List.length_cons]
    omega

/-- Every program that the command parses can be counted. -/
theorem countable_of_size_le {text : String} (h : text.utf8ByteSize ≤ Command.sizeLimit) :
    Countable text.toList := by
  have hlength := length_le_utf8Len text.toList
  rw [← String.utf8ByteSize_ofList, String.ofList_toList] at hlength
  have hlimit : Command.sizeLimit ≤ UInt32.size - 2 := by decide
  exact (hlength.trans h).trans hlimit

open Lexer in
/-- **Positions are exact and cannot overflow.** The lexer of a text that can be counted, as can every text
that the command parses, never makes an increment that wraps around. Each of its replies has the position
of the place it belongs to, and a token that is replied later stands further on. The tokens of a text, and
its first error, are such replies. -/
theorem positions_exact (text : String) :
    (text.utf8ByteSize ≤ Command.sizeLimit → Countable text.toList) ∧
    (Countable text.toList →
      (∀ n, next? (asked text n) = some (next (asked text n))) ∧
      (∀ n, ∃ before after, Stands text.toList (asked text n) before ∧
        Reports text.toList before (reply text n) after ∧ Stands text.toList (asked text (n + 1)) after) ∧
      (∀ m n token later, m < n → reply text m = .ok token → token.isEof = false →
        reply text n = .ok later → '\n' ∉ token.lexeme.toList ∧ token.Precedes later) ∧
      (∀ tokens, lexText text = .ok tokens →
        (∀ n (h : n < tokens.length), reply text n = .ok tokens[n]) ∧ tokens.Pairwise Token.Precedes) ∧
      ∀ error, lexText text = .error error → ∃ n, reply text n = .error error ∧
        ∀ m < n, ∃ token, reply text m = .ok token ∧ token.isEof = false) := by
  refine ⟨countable_of_size_le, fun hcountable => ⟨next?_asked hcountable, exists_places hcountable,
    fun m n token later hlt h hother hlater => precedes_of_lt hcountable hlt h hother hlater,
    fun tokens h => ⟨fun n hn => (reply_of_lexText h hn).1, ?_⟩, fun error h => reply_of_lexText_error h⟩⟩
  rw [List.pairwise_iff_getElem]
  intro m n hm hn hlt
  obtain ⟨hreply, hother⟩ := reply_of_lexText h hm
  exact (precedes_of_lt hcountable hlt hreply (hother (by omega)) (reply_of_lexText h hn).1).2

/-- A column counts characters, whatever their width in bytes. -/
example : lexText "/* \u00e9 */ x" = .ok [⟨.identifier, "x", ⟨1, 9⟩⟩, .eof ⟨1, 10⟩] := by decide +kernel

end Cal
