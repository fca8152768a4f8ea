import Cal.Proofs.Lexer.Asking
import Cal.Proofs.Parser.Conduct
import Cal.Proofs.Parser.Horizon

/-!
# The calls of a lexer

Whoever asks a lexer for tokens and stops at the first error never comes to stand within a character. So it is
when the tokens of a text are collected, and when a text is parsed.

* `replied_of_returns`: the replies in a parse, of whatever source, are tokens up to the last.
* `AskedAgain`: what comes of any number of calls, and of those of a parse.
* `asked_again`: all of it for every text.
-/

namespace Cal

section Source

variable {σ : Type} [Source σ]

/-- A source that has begun as `source`, and of whose replies so far all but the last `k` are tokens. -/
structure Replied (source : σ) (k : Nat) (counted : Counted σ) : Prop where
  stands : counted.source = Source.skip counted.asked source
  tokens : ∀ n, n + k < counted.asked → ∃ token, (replyOf (Source.next (Source.skip n source))).1 = .ok token

/-- **One more reply.** -/
theorem lasts_replied (source : σ) : Source.Lasts (Replied source 0) (Replied source 1) where
  stop h := ⟨h.stands, fun n hn => h.tokens n (by omega)⟩
  next := by
    rintro ⟨last, asked⟩ ⟨hstands, htokens⟩
    obtain rfl : last = Source.skip asked source := hstands
    have hafter := Source.skip_succ asked source
    unfold Leads
    simp only [Source.next, Counted.next]
    cases hnext : Source.next (Source.skip asked source) with
    | ok token after =>
      rw [hnext] at hafter
      refine ⟨hafter.symm, fun n (hn : n < asked + 1) => ?_⟩
      rcases Nat.lt_succ_iff_lt_or_eq.1 hn with hlt | rfl
      · exact htokens n hlt
      · exact ⟨token, by rw [hnext, replyOf]⟩
    | error error after =>
      rw [hnext] at hafter
      exact ⟨hafter.symm, fun n hn => htokens n (by simpa using hn)⟩

/-- **The replies in a parse are tokens up to the last**, whatever the source and the outcome are. -/
theorem replied_of_returns {source : σ} {outcome : Outcome} {after : Parser (Counted σ)}
    (h : (Parser.ofSource (Counted.ofSource source)).Returns outcome after) :
    Replied source 1 after.buffer.source :=
  (lasts_replied source).failed_of_returns ⟨rfl, fun n hn => absurd hn (Nat.not_lt_zero n)⟩ h

end Source

namespace Lexer

/-- What comes of asking the lexer of a text again and again. -/
structure AskedAgain (text : String) : Prop where
  /-- By the bytes of the text the replies are the same, and there is none from within a character. -/
  bytes : ∀ n, Octets.reply text n = Octets.answer (reply text n)
  /-- The text is cut within a character by the call after one that has met a character of more than one byte
  that begins no token, and by no other. -/
  panics_iff : ∀ n, Octets.Panics text n ↔ ∃ m c position, n = m + 1 ∧
    reply text m = .error (.unexpectedChar c position) ∧ 1 < c.utf8Size
  /-- The first replies are the tokens of the text, if it has tokens. -/
  tokens : ∀ tokens, lexText text = .ok tokens →
    ∀ n (h : n < tokens.length), Octets.reply text n = some (.ok tokens[n])
  /-- Otherwise they are tokens up to its error. -/
  error : ∀ error, lexText text = .error error → ∃ n, Octets.reply text n = some (.error error) ∧
    ∀ m < n, ∃ token, Octets.reply text m = some (.ok token) ∧ token.isEof = false
  /-- After the end of the input comes the same end. -/
  finished : ∀ n token, reply text n = .ok token → token.isEof = true → ∀ k, reply text (n + k) = .ok token
  /-- After a comment that is never closed comes the end of the text. -/
  unclosed : ∀ n position, reply text n = .error (.unterminatedComment position) →
    ∀ k, reply text (n + 1 + k) = .ok (.eof (Position.start.afterAll text.toList))
  /-- After a character of one byte that begins no token come the replies of a new lexer on the text behind it,
  with the positions counted on from there. -/
  resumed : ∀ n c position, reply text n = .error (.unexpectedChar c position) → c.utf8Size = 1 →
    ∃ before rest, text.toList = before ++ c :: rest ∧ position = Position.start.afterAll before ∧
      ∀ k, Likewise rest (position.after c) (reply (String.ofList rest) k) (reply text (n + 1 + k)) ∧
        (Countable text.toList → reply text (n + 1 + k) =
          relocate ((position.after c).shift (positionOf (reply (String.ofList rest) k)))
            (reply (String.ofList rest) k))
  /-- All calls that a parse of the text makes have a reply. -/
  parsed : ∃ after, (Parser.ofSource (Counted.ofSource (ofString text))).Returns (parseText text) after ∧
    ∀ n < after.buffer.source.asked, ∃ result, Octets.reply text n = some result
  /-- Where lines and columns can be counted, no increment wraps around. -/
  counted : Countable text.toList → ∀ n, next? (asked text n) = some (next (asked text n))

variable {text : String}

theorem tokens_asked {tokens : List Token} (h : lexText text = .ok tokens) (n : Nat) (hn : n < tokens.length) :
    Octets.reply text n = some (.ok tokens[n]) := by
  rw [Octets.reply_eq_answer, (reply_of_lexText h hn).1, Octets.answer_ok]

theorem error_asked {error : LexError} (h : lexText text = .error error) :
    ∃ n, Octets.reply text n = some (.error error) ∧
      ∀ m < n, ∃ token, Octets.reply text m = some (.ok token) ∧ token.isEof = false := by
  obtain ⟨n, hreply, htokens⟩ := reply_of_lexText_error h
  refine ⟨n, ?_, fun m hm => ?_⟩
  · rw [← hreply]
    exact Octets.reply_of_tokens fun m hm => (htokens m hm).imp fun _ h => h.1
  · obtain ⟨token, htoken, hother⟩ := htokens m hm
    exact ⟨token, by rw [Octets.reply_eq_answer, htoken, Octets.answer_ok], hother⟩

theorem resumed_asked {n : Nat} {c : Char} {position : Position}
    (h : reply text n = .error (.unexpectedChar c position)) (hone : c.utf8Size = 1) :
    ∃ before rest, text.toList = before ++ c :: rest ∧ position = Position.start.afterAll before ∧
      ∀ k, Likewise rest (position.after c) (reply (String.ofList rest) k) (reply text (n + 1 + k)) ∧
        (Countable text.toList → reply text (n + 1 + k) =
          relocate ((position.after c).shift (positionOf (reply (String.ofList rest) k)))
            (reply (String.ofList rest) k)) := by
  obtain ⟨before, rest, htext, hposition, hlikewise⟩ := reply_resumed h hone
  refine ⟨before, rest, htext, hposition, fun k => ⟨hlikewise k, fun hcountable => ?_⟩⟩
  have hrest : Countable rest := by
    rw [htext, Countable, List.length_append, List.length_cons] at hcountable
    exact Nat.le_trans (by omega) hcountable
  exact (hlikewise k).eq_relocate hrest

/-- A parse of a text makes its calls one after the other, and each of them has a reply. -/
theorem parsed_asked (text : String) :
    ∃ after, (Parser.ofSource (Counted.ofSource (ofString text))).Returns (parseText text) after ∧
      ∀ n < after.buffer.source.asked, ∃ result, Octets.reply text n = some result := by
  obtain ⟨final, hreturns⟩ := parseSource_returns (ofString text)
  have hsame := funext (outlook_counted (Counted.ofSource (ofString text)))
  obtain ⟨after, hcounted⟩ := returns_congr hsame hreturns
  refine ⟨after, hcounted, fun n hn => ⟨_, Octets.reply_of_tokens fun m hm => ?_⟩⟩
  exact (replied_of_returns hcounted).tokens m (by omega)

/-- **Asking a lexer again and again** is well defined, up to one kind of call. Up to the first error the
replies are those of a reading of the whole text; after its end, and after a comment that is never closed,
they are the end of the text; and after a character that begins no token they go on behind it, unless that
has more than one byte. Then the next call would cut the text within the character. Neither a reading of the
whole text nor a parse ever makes such a call. -/
theorem asked_again (text : String) : AskedAgain text where
  bytes := Octets.reply_eq_answer text
  panics_iff := Octets.panics_iff text
  tokens _ h := tokens_asked h
  error _ h := error_asked h
  finished _ _ h heof := reply_again h heof
  unclosed _ _ h := reply_of_unclosed h
  resumed _ _ _ h hone := resumed_asked h hone
  parsed := parsed_asked text
  counted h := next?_asked h

end Lexer

end Cal
