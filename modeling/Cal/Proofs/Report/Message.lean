import Cal.Command.Basic
import Cal.Proofs.Parser.Accounting
import Cal.Proofs.Parser.OnDemand
import Cal.Proofs.Lexer.Word
import Cal.Proofs.Report.Written
import Mathlib.Data.List.Count
import Mathlib.Tactic.SplitIfs

/-!
# Messages tell errors apart

A message is read from left to right. Each of its parts says by itself where it ends: a number ends where no
digit follows, a lexeme at the quote behind it, and what would have fitted is one line for each kind. A lexeme
says of which kind it is, since a lexer replies words.

* `Text.escape_injective`: a character is known from how it is quoted.
* `Position.text_unique`, `encountered_unique`, `entries_unique`: the parts of a message.
* `lines_message`, `count_entry`: the lines of a message, and which kinds have one.
* `Lexer.written_of_next`: what a lexer replies is written as its kind is written.
* `message_lossless`: the message of a parse that fails tells its error.
-/

namespace Cal

open Json (NoDigit numeral_toString)

variable {n m : Nat} {c d : Char} {rest left : List Char}

/-- What stands in front of the first stop is known. -/
theorem cut_unique {stop : Char} {front other : List Char} (h : stop ∉ front) (hother : stop ∉ other)
    (htext : front ++ stop :: rest = other ++ stop :: left) : front = other ∧ rest = left := by
  have hcuts := congrArg (List.splitOn stop) htext
  rw [List.splitOn_append_cons_self_of_not_mem h, List.splitOn_append_cons_self_of_not_mem hother] at hcuts
  obtain rfl : front = other := (List.cons.inj hcuts).1
  exact ⟨rfl, (List.cons.inj (List.append_cancel_left htext)).2⟩

/-- Lines that are written below a first one are its lines. -/
theorem splitOn_lines {first : List Char} {lines : List (List Char)} (hfirst : '\n' ∉ first)
    (h : ∀ line ∈ lines, '\n' ∉ line) : (first ++ lines.flatMap ('\n' :: ·)).splitOn '\n' = first :: lines := by
  induction lines generalizing first with
  | nil => simpa using List.splitOn_eq_singleton hfirst
  | cons line lines ih =>
    obtain ⟨hline, hlines⟩ := List.forall_mem_cons.1 h
    rw [List.flatMap_cons, List.cons_append, List.splitOn_append_cons_self_of_not_mem hfirst, ih hline hlines]

namespace Text

theorem digitChar_injective : ∀ n < 16, ∀ m < 16, Nat.digitChar n = Nat.digitChar m → n = m := by decide

/-- A number is known from its digits. -/
theorem toDigits_injective (h : Nat.toDigits 16 n = Nat.toDigits 16 m) : n = m := by
  have hlast (k : Nat) (hk : 16 ≤ k) : Nat.toDigits 16 k = Nat.toDigits 16 (k / 16) ++ [Nat.digitChar (k % 16)] :=
    Nat.toDigits_of_base_le (by omega) hk
  have hlong (k : Nat) (hk : 16 ≤ k) : 1 < (Nat.toDigits 16 k).length := by
    have hpos : 0 < (Nat.toDigits 16 (k / 16)).length := Nat.length_toDigits_pos
    rw [hlast k hk, List.length_append, List.length_singleton]
    omega
  have hshort (k : Nat) (hk : k < 16) : Nat.toDigits 16 k = [Nat.digitChar k] := Nat.toDigits_of_lt_base hk
  induction n using Nat.strongRecOn generalizing m with
  | ind n ih =>
    have hlength := congrArg List.length h
    by_cases hn : n < 16 <;> by_cases hm : m < 16
    · rw [hshort n hn, hshort m hm] at h
      exact digitChar_injective n hn m hm (List.cons.inj h).1
    · have hlt := hlong m (by omega)
      rw [← hlength, hshort n hn] at hlt
      simp at hlt
    · have hlt := hlong n (by omega)
      rw [hlength, hshort m hm] at hlt
      simp at hlt
    · rw [hlast n (by omega), hlast m (by omega)] at h
      obtain ⟨hfront, hend⟩ := List.append_inj' h rfl
      have hdiv := ih (n / 16) (by omega) hfront
      have hmod := digitChar_injective (n % 16) (by omega) (m % 16) (by omega) (List.cons.inj hend).1
      omega

/-- The characters that have a short escape, behind the letter of that escape. -/
def shortEscapes : List (Char × Char) :=
  [('0', '\x00'), ('t', '\t'), ('n', '\n'), ('r', '\r'), ('\'', '\''), ('\\', '\\')]

/-- The ways in which a character is written between quotes. -/
inductive Escaped : Char → List Char → Prop
  | short {mark c : Char} : (mark, c) ∈ shortEscapes → Escaped c ['\\', mark]
  | code (c : Char) : Escaped c ('\\' :: 'u' :: '\x7b' :: (Nat.toDigits 16 c.toNat ++ ['\x7d']))
  | plain {c : Char} : c ≠ '\\' → Escaped c [c]

theorem escaped_escape (c : Char) : Escaped c (escape c).toList := by
  have hshort (mark : Char) (h : (mark, c) ∈ shortEscapes) : Escaped c ['\\', mark] := .short h
  unfold escape
  split_ifs with hnull htab hfeed hreturn hquote hslash hunprintable
  · subst hnull
    exact hshort '0' (by decide)
  · subst htab
    exact hshort 't' (by decide)
  · subst hfeed
    exact hshort 'n' (by decide)
  · subst hreturn
    exact hshort 'r' (by decide)
  · subst hquote
    exact hshort '\'' (by decide)
  · subst hslash
    exact hshort '\\' (by decide)
  · have hcode := Escaped.code c
    simpa [hex] using hcode
  · have hplain := Escaped.plain hslash
    simpa using hplain

theorem Escaped.unique {text : List Char} (h : Escaped c text) (hother : Escaped d text) : c = d := by
  have hmarks : ∀ pair ∈ shortEscapes, ∀ other ∈ shortEscapes, pair.1 = other.1 → pair = other := by decide
  cases h with
  | @short mark _ hmark =>
    generalize htext : ['\\', mark] = text at hother
    cases hother with
    | short hsame =>
      obtain rfl : mark = _ := by simpa using htext
      exact (Prod.mk.inj (hmarks _ hmark _ hsame rfl)).2
    | code => simp at htext
    | plain => simp at htext
  | code =>
    generalize htext : '\\' :: 'u' :: '\x7b' :: (Nat.toDigits 16 c.toNat ++ ['\x7d']) = text at hother
    cases hother with
    | short => simp at htext
    | code =>
      have hdigits : Nat.toDigits 16 c.toNat = Nat.toDigits 16 d.toNat := by simpa using htext
      exact Char.toNat_inj.1 (toDigits_injective hdigits)
    | plain => simp at htext
  | plain hslash =>
    generalize htext : [c] = text at hother
    cases hother with
    | short => simp at htext
    | code => simp at htext
    | plain => simpa using htext

/-- **A character is known from how it is quoted.** -/
theorem escape_injective (h : escape c = escape d) : c = d := by
  have hother := escaped_escape d
  rw [← h] at hother
  exact (escaped_escape c).unique hother

end Text

/-- **A number is known** if no digit follows. -/
theorem toString_unique (h : (toString n).toList ++ rest = (toString m).toList ++ left) (hrest : NoDigit rest)
    (hleft : NoDigit left) : n = m ∧ rest = left := by
  have hnumeral := numeral_toString n rest
  rw [h] at hnumeral
  exact hnumeral.unique (numeral_toString m left) hrest hleft

namespace Position

variable {p q : Position}

theorem toList_text (p : Position) :
    p.text.toList = "line ".toList ++ ((toString p.line.toNat).toList ++ (", column ".toList ++
      (toString p.column.toNat).toList)) := by
  have htext : p.text = "line " ++ toString p.line.toNat ++ ", column " ++ toString p.column.toNat := rfl
  rw [htext, String.toList_append, String.toList_append, String.toList_append]
  simp only [List.append_assoc]

/-- **A position is known** if no digit follows. -/
theorem text_unique (h : p.text.toList ++ rest = q.text.toList ++ left) (hrest : NoDigit rest)
    (hleft : NoDigit left) : p = q ∧ rest = left := by
  rw [toList_text, toList_text] at h
  simp only [List.append_assoc] at h
  have hcomma (text : List Char) : NoDigit (", column ".toList ++ text) := by
    simp [NoDigit]
  obtain ⟨hline, h⟩ := toString_unique (List.append_cancel_left h) (hcomma _) (hcomma _)
  obtain ⟨hcolumn, h⟩ := toString_unique (List.append_cancel_left h) hrest hleft
  have hsame : p = q := by
    rw [UInt32.toNat_inj] at hline hcolumn
    cases p
    cases q
    simp_all
  exact ⟨hsame, h⟩

end Position

namespace LexError

variable {error other : LexError}

theorem toList_message (error : LexError) :
    error.message.toList = "Lexical error at ".toList ++ (error.position.text.toList ++ (": ".toList ++
      error.reason.toList)) := by
  unfold message
  rw [String.toList_append, String.toList_append, String.toList_append]
  simp only [List.append_assoc]

/-- What is wrong somewhere is known from how it is named. -/
theorem eq_of_reason (h : error.reason = other.reason) (hposition : error.position = other.position) :
    error = other := by
  have hlist := congrArg String.toList h
  cases error with
  | unexpectedChar c p =>
    cases other with
    | unexpectedChar d q =>
      obtain rfl : p = q := hposition
      unfold reason Text.quote at h
      rw [String.append_right_inj, String.append_left_inj, String.append_right_inj] at h
      rw [Text.escape_injective h]
    | unterminatedComment | insideCharacter =>
      unfold reason at hlist
      simp at hlist
  | unterminatedComment p =>
    cases other with
    | unterminatedComment q =>
      obtain rfl : p = q := hposition
      rfl
    | unexpectedChar | insideCharacter =>
      unfold reason at hlist
      simp at hlist
  | insideCharacter p =>
    cases other with
    | insideCharacter q =>
      obtain rfl : p = q := hposition
      rfl
    | unexpectedChar | unterminatedComment =>
      unfold reason at hlist
      simp at hlist

/-- **A lexical error is known from its message.** -/
theorem message_injective (h : error.message = other.message) : error = other := by
  have hlist := congrArg String.toList h
  rw [toList_message, toList_message] at hlist
  have hcolon (text : List Char) : NoDigit (": ".toList ++ text) := by
    simp [NoDigit]
  obtain ⟨hposition, hreason⟩ := Position.text_unique (List.append_cancel_left hlist) (hcolon _) (hcolon _)
  rw [List.append_right_inj, String.toList_inj] at hreason
  exact eq_of_reason hreason hposition

end LexError

/-- A token is written as its kind is written: the end of the input with nothing, any other with a word of its
kind. -/
inductive Token.Written : Token → Prop
  | eof (position : Position) : Written (.eof position)
  | word {kind : TokenKind} {word : List Char} (position : Position) : Lexeme.Belongs kind word →
    Written ⟨kind, String.ofList word, position⟩

/-- **What a lexer replies is written as its kind is written.** -/
theorem Lexer.written_of_next {lexer after : Lexer} {token : Token} (h : lexer.next = .ok token after) :
    token.Written := by
  cases lexer with
  | stranded position => cases h
  | ready cursor =>
    simp only [next] at h
    split at h
    · rename_i reached _
      obtain ⟨position, text⟩ := reached
      cases text with
      | nil =>
        cases h
        exact .eof position
      | cons c rest =>
        simp only [read] at h
        split at h
        · rename_i lexeme hread
          cases h
          exact .word position (Lexeme.belongs_of_read? hread)
        · cases h
    · cases h

/-- No word has a quote or a line feed in it. -/
theorem Lexeme.Belongs.plain {kind : TokenKind} {word : List Char} (h : Belongs kind word) :
    '"' ∉ word ∧ '\n' ∉ word := by
  have hother (c : Char) (hword : isWordChar c = false) (hmark : c ∉ marks) : c ∉ word := by
    intro hmem
    rcases h.characters c hmem with hchar | hchar
    · rw [hword] at hchar
      cases hchar
    · exact hmark hchar
  exact ⟨hother '"' (by decide) (by decide), hother '\n' (by decide) (by decide)⟩

namespace SyntaxError

variable {token other : Token} {kinds others : List TokenKind}

theorem toList_encountered_eof (position : Position) :
    (encountered (.eof position)).toList = "<EOF>".toList := rfl

theorem toList_encountered {kind : TokenKind} {word : List Char} {position : Position}
    (h : Lexeme.Belongs kind word) :
    (encountered ⟨kind, String.ofList word, position⟩).toList = '"' :: (word ++ ['"']) := by
  simp [encountered, Token.isEof, h.not_eof]

/-- **A word that is refused is known from how it is shown**, and so is its kind. -/
theorem encountered_unique (h : (encountered token).toList ++ rest = (encountered other).toList ++ left)
    (htoken : token.Written) (hother : other.Written) :
    token.kind = other.kind ∧ token.lexeme = other.lexeme ∧ rest = left := by
  cases htoken with
  | eof position =>
    cases hother with
    | eof =>
      rw [toList_encountered_eof, toList_encountered_eof] at h
      exact ⟨rfl, rfl, List.append_cancel_left h⟩
    | word place hkind =>
      rw [toList_encountered_eof, toList_encountered hkind] at h
      simp at h
  | word position hkind =>
    cases hother with
    | eof =>
      rw [toList_encountered_eof, toList_encountered hkind] at h
      simp at h
    | word place hkind' =>
      rw [toList_encountered hkind, toList_encountered hkind'] at h
      simp only [List.cons_append, List.append_assoc, List.cons.injEq, true_and, List.nil_append] at h
      obtain ⟨rfl, hrest⟩ := cut_unique hkind.plain.1 hkind'.plain.1 h
      exact ⟨Lexeme.kind_unique hkind hkind', rfl, hrest⟩

/-- The line of a message that names an expected kind. -/
def entry (kind : TokenKind) : List Char := "    ".toList ++ (kind.image.toList ++ " ...".toList)

/-- The line of a message in front of the expected kinds, if there are any. -/
def heading : List TokenKind → List (List Char)
  | [] => []
  | [_] => ["Was expecting:".toList]
  | _ => ["Was expecting one of:".toList]

theorem image_injective : ∀ kind other : TokenKind, kind.image = other.image → kind = other := by decide

theorem newline_not_mem_image : ∀ kind : TokenKind, '\n' ∉ kind.image.toList := by decide

theorem entry_injective {kind other : TokenKind} (h : entry kind = entry other) : kind = other := by
  unfold entry at h
  rw [List.append_right_inj, List.append_left_inj, String.toList_inj] at h
  exact image_injective kind other h

/-- The list of what would have fitted is one line in front, if it is not empty, and one line for each kind. -/
theorem toList_wanted (kinds : List TokenKind) :
    (wanted kinds).toList = (heading kinds ++ kinds.map entry).flatMap ('\n' :: ·) := by
  match kinds with
  | [] => rfl
  | [kind] =>
    unfold wanted
    simp [heading, entry]
  | kind :: next :: kinds =>
    unfold wanted
    rw [String.toList_append, String.toList_join]
    simp [heading, entry, List.flatMap_map]

/-- The first line of a message. -/
def opening (token : Token) : List Char :=
  "Encountered ".toList ++ ((encountered token).toList ++ (" at ".toList ++ (token.position.text.toList ++ ['.'])))

theorem toList_message (error : SyntaxError) :
    error.message.toList = opening error.unexpected ++
      (heading error.expected.kinds ++ error.expected.kinds.map entry).flatMap ('\n' :: ·) := by
  unfold message opening
  rw [String.toList_append, String.toList_append, String.toList_append, String.toList_append,
    String.toList_append, toList_wanted]
  simp only [List.append_assoc]
  rfl

theorem newline_not_mem_text (p : Position) : '\n' ∉ p.text.toList := by
  have hdigits (n : Nat) : '\n' ∉ Nat.toDigits 10 n := by
    intro hmem
    exact absurd (Nat.isDigit_of_mem_toDigits (by omega) (by omega) hmem) (by decide)
  rw [Position.toList_text]
  simp [hdigits]

theorem newline_not_mem_opening (h : token.Written) : '\n' ∉ opening token := by
  have hshown : '\n' ∉ (encountered token).toList := by
    cases h with
    | eof position =>
      rw [toList_encountered_eof]
      decide
    | word position hkind =>
      rw [toList_encountered hkind]
      simp [hkind.plain.2]
  unfold opening
  simp [hshown, newline_not_mem_text]

/-- **The lines of a message**: what was encountered and where, and then what would have fitted, one line for
each kind. -/
theorem lines_message {error : SyntaxError} (h : error.unexpected.Written) :
    error.message.toList.splitOn '\n' = opening error.unexpected ::
      (heading error.expected.kinds ++ error.expected.kinds.map entry) := by
  rw [toList_message]
  refine splitOn_lines (newline_not_mem_opening h) fun line hline => ?_
  rcases List.mem_append.1 hline with hheading | hentry
  · unfold heading at hheading
    split at hheading
    · cases hheading
    · obtain rfl := List.mem_singleton.1 hheading
      decide
    · obtain rfl := List.mem_singleton.1 hheading
      decide
  · obtain ⟨kind, -, rfl⟩ := List.mem_map.1 hentry
    unfold entry
    simp [newline_not_mem_image kind]

theorem length_heading (kinds : List TokenKind) : (heading kinds).length = min 1 kinds.length := by
  unfold heading
  split
  · rfl
  · rfl
  · rename_i hnil _
    have hpos : 0 < kinds.length := List.length_pos_iff.2 hnil
    rw [List.length_singleton]
    omega

theorem entry_not_mem (kind : TokenKind) (kinds : List TokenKind) : entry kind ∉ heading kinds := by
  intro hmem
  unfold heading at hmem
  split at hmem
  · cases hmem
  · simp [entry] at hmem
  · simp [entry] at hmem

/-- **Each kind that would have fitted has one line**, and no other kind has any. -/
theorem count_entry {error : SyntaxError} (h : error.unexpected.Written) (kind : TokenKind) :
    (error.message.toList.splitOn '\n').count (entry kind) = if error.expects kind then 1 else 0 := by
  have hopening : opening error.unexpected ≠ entry kind := by
    intro hsame
    have hheads := congrArg List.head? hsame
    unfold opening entry at hheads
    simp at hheads
  have hnodup : error.expected.kinds.Nodup := error.expected.ascending.imp fun {kind other} hlt hsame => by
    subst hsame
    exact Nat.lt_irrefl _ hlt
  rw [lines_message h, List.count_cons_of_ne hopening, List.count_append,
    List.count_eq_zero.2 (entry_not_mem kind _), List.count_map_of_injective _ entry (fun _ _ => entry_injective),
    hnodup.count, Nat.zero_add]
  simp [expects, KindSet.mem_iff]

/-- The kinds are known from their lines. -/
theorem entries_unique {kinds others : List TokenKind}
    (h : heading kinds ++ kinds.map entry = heading others ++ others.map entry) : kinds = others := by
  have hlength := congrArg List.length h
  rw [List.length_append, List.length_append, length_heading, length_heading, List.length_map,
    List.length_map] at hlength
  have hheadings : (heading kinds).length = (heading others).length := by
    rw [length_heading, length_heading]
    omega
  have hentries := (List.append_inj h hheadings).2
  exact (List.map_inj_right fun _ _ => entry_injective).1 hentries

/-- **A syntax error is known from its message**, if its token is written as its kind is. -/
theorem message_injective {error other : SyntaxError} (h : error.message = other.message)
    (herror : error.unexpected.Written) (hother : other.unexpected.Written) : error = other := by
  have hlines : error.message.toList.splitOn '\n' = other.message.toList.splitOn '\n' := by rw [h]
  rw [lines_message herror, lines_message hother, List.cons.injEq] at hlines
  obtain ⟨hopening, hentries⟩ := hlines
  unfold opening at hopening
  obtain ⟨hkind, hlexeme, hrest⟩ := encountered_unique (List.append_cancel_left hopening) herror hother
  obtain ⟨hposition, -⟩ := Position.text_unique (List.append_cancel_left hrest) (by simp [NoDigit]) (by simp [NoDigit])
  obtain ⟨⟨kind, lexeme, position⟩, ⟨kinds, hkinds⟩⟩ := error
  obtain ⟨⟨kind', lexeme', position'⟩, ⟨kinds', hkinds'⟩⟩ := other
  obtain rfl : kinds = kinds' := entries_unique hentries
  obtain rfl : kind = kind' := hkind
  obtain rfl : lexeme = lexeme' := hlexeme
  obtain rfl : position = position' := hposition
  rfl

end SyntaxError

namespace ParseError

variable {error other : ParseError}

theorem toList_tooDeep (limit : Nat) (p : Position) :
    (tooDeep limit p).message.toList = "Nesting depth exceeds ".toList ++ ((toString limit).toList ++
      (" at ".toList ++ p.text.toList)) := by
  have htext : (tooDeep limit p).message = "Nesting depth exceeds " ++ toString limit ++ " at " ++ p.text := rfl
  rw [htext, String.toList_append, String.toList_append, String.toList_append]
  simp only [List.append_assoc]

/-- The three sorts of errors begin with three letters. -/
theorem head?_message (error : ParseError) : error.message.toList.head? =
    match error with
    | lexical _ => 'L'
    | unexpected _ => 'E'
    | tooDeep _ _ => 'N' := by
  cases error with
  | lexical error =>
    have hmessage : (lexical error).message = error.message := rfl
    rw [hmessage, LexError.toList_message]
    rfl
  | unexpected error =>
    have hmessage : (unexpected error).message = error.message := rfl
    rw [hmessage, SyntaxError.toList_message]
    rfl
  | tooDeep limit p =>
    rw [toList_tooDeep]
    rfl

/-- **An error is known from its message**, if the token that it reports is written as its kind is. -/
theorem message_injective (h : error.message = other.message)
    (herror : ∀ reason, error = .unexpected reason → reason.unexpected.Written)
    (hother : ∀ reason, other = .unexpected reason → reason.unexpected.Written) : error = other := by
  have hheads : error.message.toList.head? = other.message.toList.head? := by rw [h]
  rw [head?_message, head?_message] at hheads
  cases error with
  | lexical error =>
    cases other with
    | lexical other => rw [LexError.message_injective h]
    | unexpected | tooDeep => simp at hheads
  | unexpected error =>
    cases other with
    | unexpected other => rw [SyntaxError.message_injective h (herror error rfl) (hother other rfl)]
    | lexical | tooDeep => simp at hheads
  | tooDeep limit p =>
    cases other with
    | tooDeep bound q =>
      have hlist := congrArg String.toList h
      rw [toList_tooDeep, toList_tooDeep] at hlist
      have hat (text : List Char) : NoDigit (" at ".toList ++ text) := by
        simp [NoDigit]
      obtain ⟨rfl, hrest⟩ := toString_unique (List.append_cancel_left hlist) (hat _) (hat _)
      have hends : p.text.toList ++ [] = q.text.toList ++ [] := by
        rw [List.append_cancel_left hrest]
      rw [(Position.text_unique hends (by simp [NoDigit]) (by simp [NoDigit])).1]
    | lexical | unexpected => simp at hheads

end ParseError

/-- **The token that the parse of a text reports** is written as its kind is. -/
theorem written_of_parseText {text : String} {error : SyntaxError}
    (h : parseText text = .error (.unexpected error)) : error.unexpected.Written := by
  obtain ⟨after, hreturns⟩ := parseSource_returns (Lexer.ofString text)
  have hparse : parseSource (Lexer.ofString text) = .error (.unexpected error) := h
  rw [hparse] at hreturns
  have haccounts := accounts_of_returns hreturns
  generalize after.buffer.past.reverse = tokens at haccounts
  cases haccounts with
  | refused _ hnext hrefuses =>
    cases hrefuses
    exact Lexer.written_of_next hnext

/-- **Messages tell errors apart.** Where the parses of two texts fail, their messages are the same, and so is
what the command prints of them in words, just if the errors are: of the same sort, at the same position,
about the same character or the same token, with the same kinds expected. The lines of the message of a syntax
error are one or two lines in front, and then one for each of the kinds that would have fitted, in their
order. -/
theorem message_lossless {text other : String} {error reported : ParseError} (h : parseText text = .error error)
    (hother : parseText other = .error reported) :
    (error.message = reported.message ↔ error = reported) ∧
    (Command.Format.pretty.outcomeText (.error error) = Command.Format.pretty.outcomeText (.error reported) ↔
      error = reported) ∧
    ∀ reason, error = .unexpected reason → ∃ front,
      error.message.toList.splitOn '\n' = front ++ reason.expected.kinds.map SyntaxError.entry ∧
      reason.expected.kinds.Pairwise (· < ·) ∧
      ∀ kind, (error.message.toList.splitOn '\n').count (SyntaxError.entry kind) =
        if reason.expects kind then 1 else 0 := by
  have hsame : error.message = reported.message ↔ error = reported := by
    refine ⟨fun hmessage => ParseError.message_injective hmessage ?_ ?_, fun hsame => by rw [hsame]⟩
    · rintro reason rfl
      exact written_of_parseText h
    · rintro reason rfl
      exact written_of_parseText hother
  refine ⟨hsame, ?_, ?_⟩
  · rw [← hsame]
    unfold Command.Format.outcomeText Command.line
    rw [String.append_left_inj, String.append_left_inj]
  · rintro reason rfl
    have hwritten := written_of_parseText h
    have hlines : (ParseError.unexpected reason).message.toList.splitOn '\n' = _ :=
      SyntaxError.lines_message hwritten
    exact ⟨_ :: SyntaxError.heading reason.expected.kinds, hlines, reason.expected.ascending,
      fun kind => SyntaxError.count_entry hwritten kind⟩

/-- An identifier that is spelled like the end of the input is not mistaken for it. -/
theorem message_lossless_eof :
    ∃ error reported, parseText "main begin end EOF" = .error (.unexpected error) ∧
      parseText "main begin end; skip" = .error (.unexpected reported) ∧
      error.expects .eof = true ∧ error.unexpected.lexeme = "EOF" ∧
      (ParseError.unexpected error).message ≠ (ParseError.unexpected reported).message ∧
      ((ParseError.unexpected error).message.toList.splitOn '\n').count (SyntaxError.entry .eof) = 1 := by
  have hfirst : parseText "main begin end EOF" =
      .error (.unexpected ⟨⟨.identifier, "EOF", ⟨1, 16⟩⟩, .ofList [.eof]⟩) := by decide +kernel
  have hother : parseText "main begin end; skip" =
      .error (.unexpected ⟨⟨.semicolon, ";", ⟨1, 15⟩⟩, .ofList [.eof]⟩) := by decide +kernel
  obtain ⟨hsame, -, hlisted⟩ := message_lossless hfirst hother
  obtain ⟨front, -, -, hcount⟩ := hlisted _ rfl
  exact ⟨_, _, hfirst, hother, by decide, rfl, fun hmessage => absurd (hsame.1 hmessage) (by decide), hcount .eof⟩

end Cal
