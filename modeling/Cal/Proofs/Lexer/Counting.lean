import Cal.Lexer.Basic
import Mathlib.Data.List.DropRight

/-!
# Counting lines and columns

Lines and columns are counted with numbers of 32 bits, which wrap around. A lexer that checks each of its
increments stops before one that would.

* `marks_afterAll`: over a text that is short enough no increment wraps around, and the position that is
  counted says how many line feeds there were, and how many characters since the last of them.
* `Lexer.next?_eq`: where no increment wraps around, the checks change nothing.
* `Position.Marks.ahead`: what the positions of two places say about each other.
-/

namespace Cal

namespace Position

/-- The number that is increased for the character `c` at `p`. -/
def counter (p : Position) (c : Char) : UInt32 := if c = '\n' then p.line else p.column

/-- The position after the character `c` that stands at `p`, unless the increment wraps around. -/
def after? (p : Position) (c : Char) : Option Position :=
  if (p.counter c).toNat + 1 < UInt32.size then some (p.after c) else none

/-- The position after the characters `cs`, the first of which stands at `p`, with checks. -/
def afterAll? (p : Position) (cs : List Char) : Option Position := cs.foldlM after? p

/-- On the way over the characters `cs` from `p` on, no increment wraps around. -/
def Counts (p : Position) (cs : List Char) : Prop := p.afterAll? cs = some (p.afterAll cs)

/-- The position `p` is that of the place behind the characters `before` of a text. -/
structure Marks (p : Position) (before : List Char) : Prop where
  line : p.line.toNat = 1 + before.count '\n'
  column : p.column.toNat = 1 + (before.rtakeWhile (· ≠ '\n')).length

variable {p q : Position} {c : Char} {cs ds before word more : List Char}

theorem after_of_after? (h : p.after? c = some q) : q = p.after c := by
  simp only [after?] at h
  split at h <;> cases h
  rfl

theorem afterAll_of_afterAll? (h : p.afterAll? cs = some q) : q = p.afterAll cs := by
  induction cs generalizing p with
  | nil => cases h; rfl
  | cons c cs ih =>
    obtain ⟨between, hfirst, hrest⟩ := Option.bind_eq_some_iff.1 h
    rw [after_of_after? hfirst] at hrest
    exact ih hrest

theorem afterAll?_append : p.afterAll? (cs ++ ds) = (p.afterAll? cs).bind (·.afterAll? ds) := by
  simp only [afterAll?, List.foldlM_append]
  rfl

theorem counts_append : p.Counts (cs ++ ds) ↔ p.Counts cs ∧ (p.afterAll cs).Counts ds := by
  simp only [Counts, afterAll?_append, afterAll_append]
  constructor
  · intro h
    obtain ⟨between, hfirst, hrest⟩ := Option.bind_eq_some_iff.1 h
    obtain rfl := afterAll_of_afterAll? hfirst
    exact ⟨hfirst, hrest⟩
  · rintro ⟨hfirst, hrest⟩
    rw [hfirst, Option.bind_some, hrest]

theorem counts_cons : p.Counts (c :: cs) ↔ p.after? c = some (p.after c) ∧ (p.after c).Counts cs := by
  have hsingle : p.Counts [c] ↔ p.after? c = some (p.after c) := by
    simp [Counts, afterAll?]
  rw [← List.singleton_append, counts_append, hsingle]
  rfl

theorem counts_pair {d : Char} (h : p.Counts (c :: d :: cs)) :
    p.afterAll? [c, d] = some (p.afterAll [c, d]) ∧ (p.afterAll [c, d]).Counts cs :=
  counts_append.1 (by simpa using h)

theorem marks_start : start.Marks [] := ⟨rfl, rfl⟩

theorem column_le (before : List Char) : (before.rtakeWhile (· ≠ '\n')).length ≤ before.length :=
  (List.rtakeWhile_suffix ..).length_le

/-- One more character is counted exactly, as long as there are few. -/
theorem Marks.after (h : p.Marks before) (hlength : before.length + 1 ≤ UInt32.size - 2) (c : Char) :
    p.after? c = some (p.after c) ∧ (p.after c).Marks (before ++ [c]) := by
  have hsize : UInt32.size = 4294967296 := rfl
  have hline := h.line
  have hcolumn := h.column
  have hcount : before.count '\n' ≤ before.length := List.count_le_length
  have hwidth := column_le before
  by_cases hc : c = '\n'
  · subst hc
    have hlt : p.line.toNat + 1 < UInt32.size := by omega
    refine ⟨by simp [after?, counter, hlt], ?_, ?_⟩
    · simp only [Position.after, if_true, UInt32.toNat_add, List.count_append, List.count_singleton_self]
      rw [Nat.mod_eq_of_lt (by simpa using hlt), hline]
      rfl
    · rw [List.rtakeWhile_concat_neg _ _ _ (by simp)]
      rfl
  · have hlt : p.column.toNat + 1 < UInt32.size := by omega
    refine ⟨by simp [after?, counter, hc, hlt], ?_, ?_⟩
    · simpa [Position.after, hc, List.count_singleton] using hline
    · rw [List.rtakeWhile_concat_pos _ _ _ (by simpa using hc)]
      simp only [Position.after, hc, if_false, UInt32.toNat_add, List.length_append, List.length_singleton]
      rw [Nat.mod_eq_of_lt (by simpa using hlt), hcolumn]
      rfl

/-- **Over a text that is short enough every character is counted exactly.** -/
theorem Marks.afterAll (h : p.Marks before) (hlength : (before ++ cs).length ≤ UInt32.size - 2) :
    p.Counts cs ∧ (p.afterAll cs).Marks (before ++ cs) := by
  induction cs generalizing p before with
  | nil => exact ⟨rfl, by rwa [List.append_nil]⟩
  | cons c cs ih =>
    rw [List.append_cons] at hlength ⊢
    have hfirst := h.after (by simp at hlength; omega) c
    obtain ⟨hcounts, hmarks⟩ := ih hfirst.2 hlength
    exact ⟨counts_cons.2 ⟨hfirst.1, hcounts⟩, hmarks⟩

/-- What stands on one line moves the column on by its length. -/
theorem rtakeWhile_append (hmore : '\n' ∉ more) :
    (before ++ more).rtakeWhile (· ≠ '\n') = before.rtakeWhile (· ≠ '\n') ++ more := by
  have hall : ∀ c ∈ more.reverse, decide (c ≠ '\n') = true := by
    simp only [List.mem_reverse, decide_eq_true_eq]
    rintro c hc rfl
    exact hmore hc
  rw [List.rtakeWhile, List.reverse_append, List.takeWhile_append_of_pos hall, List.reverse_append,
    List.reverse_reverse, List.rtakeWhile]

/-- **A place behind a word on one line comes later**: further down, or on the same line and behind the
word. -/
theorem Marks.ahead (hp : p.Marks before) (hq : q.Marks (before ++ (word ++ more))) (hword : '\n' ∉ word)
    (hne : word ≠ []) : p < q ∧ (q.line = p.line → p.column.toNat + word.length ≤ q.column.toNat) := by
  have hpos := List.length_pos_iff.2 hne
  have hlines : q.line.toNat = p.line.toNat + more.count '\n' := by
    rw [hq.line, hp.line, List.count_append, List.count_append, List.count_eq_zero.2 hword]
    omega
  by_cases hmore : '\n' ∈ more
  · have hlt : p.line.toNat < q.line.toNat := by
      have := List.count_pos_iff.2 hmore
      omega
    refine ⟨.inl (UInt32.lt_iff_toNat_lt.2 hlt), fun hsame => ?_⟩
    rw [hsame] at hlt
    exact absurd hlt (Nat.lt_irrefl _)
  · have hsame : p.line = q.line := by
      rw [← UInt32.toNat_inj, hlines, List.count_eq_zero.2 hmore, Nat.add_zero]
    have hcolumn : q.column.toNat = p.column.toNat + word.length + more.length := by
      have hline : '\n' ∉ word ++ more := by simp [hword, hmore]
      rw [hq.column, hp.column, rtakeWhile_append hline]
      simp only [List.length_append]
      omega
    exact ⟨.inr ⟨hsame, UInt32.lt_iff_toNat_lt.2 (by omega)⟩, fun _ => by omega⟩

end Position

/-- A text whose lines and columns can be counted. -/
def Countable (text : List Char) : Prop := text.length ≤ UInt32.size - 2

theorem Countable.counts {before rest : List Char} (h : Countable (before ++ rest)) :
    (Position.start.afterAll before).Counts rest := by
  have hall : Position.start.Counts (before ++ rest) :=
    (Position.marks_start.afterAll (by rwa [List.nil_append])).1
  exact (Position.counts_append.1 hall).2

theorem Countable.marks {before rest : List Char} (h : Countable (before ++ rest)) :
    (Position.start.afterAll before).Marks before := by
  have hlength : ([] ++ before).length ≤ UInt32.size - 2 := by
    rw [Countable, List.length_append] at h
    simp only [List.nil_append]
    omega
  simpa using (Position.marks_start.afterAll hlength).2

open Position

namespace Trivia

/-- Skips blanks and comments as `skip` does, with checks. -/
def skip? : Mode → Position → List Char → Option Outcome
  | .blanks, position, [] => some (.reached ⟨position, []⟩)
  | .blanks, position, '/' :: '/' :: rest => do skip? .line (← position.afterAll? ['/', '/']) rest
  | .blanks, position, '/' :: '*' :: rest => do
    skip? (.block position 0) (← position.afterAll? ['/', '*']) rest
  | .blanks, position, c :: rest =>
    if isBlank c then do skip? .blanks (← position.after? c) rest else some (.reached ⟨position, c :: rest⟩)
  | .line, position, [] => some (.reached ⟨position, []⟩)
  | .line, position, c :: rest => do skip? (if c = '\n' then .blanks else .line) (← position.after? c) rest
  | .block opened _, position, [] => some (.unclosed opened position)
  | .block opened inner, position, '/' :: '*' :: rest => do
    skip? (.block opened (inner + 1)) (← position.afterAll? ['/', '*']) rest
  | .block opened inner, position, '*' :: '/' :: rest => do
    skip? (if inner = 0 then .blanks else .block opened (inner - 1)) (← position.afterAll? ['*', '/']) rest
  | .block opened inner, position, c :: rest => do skip? (.block opened inner) (← position.after? c) rest

variable {mode : Mode} {position : Position} {text : List Char}

/-- Where no increment wraps around, checks do not change what is skipped. -/
theorem skip?_eq (h : position.Counts text) : skip? mode position text = some (skip mode position text) := by
  fun_induction skip mode position text with
  | case1 | case6 | case8 => simp only [skip?]
  | case2 position rest ih | case3 position rest ih | case9 _ _ position rest ih | case10 _ _ position rest ih =>
    obtain ⟨hmark, hrest⟩ := counts_pair h
    simp only [skip?, hmark, Option.bind_eq_bind, Option.bind_some]
    exact ih hrest
  | case4 position c rest _ _ hblank ih =>
    obtain ⟨hfirst, hrest⟩ := counts_cons.1 h
    simp only [skip?, hblank, if_true, hfirst, Option.bind_eq_bind, Option.bind_some]
    exact ih hrest
  | case5 position c rest _ _ hblank => simp only [skip?, if_neg hblank]
  | case7 position c rest ih | case11 _ _ position c rest _ _ ih =>
    obtain ⟨hfirst, hrest⟩ := counts_cons.1 h
    simp only [skip?, hfirst, Option.bind_eq_bind, Option.bind_some]
    exact ih hrest

/-- What is skipped is what the position has moved over. -/
theorem position_of_skip {cursor : Cursor} (h : skip mode position text = .reached cursor) :
    ∃ gap, text = gap ++ cursor.rest ∧ cursor.position = position.afterAll gap := by
  fun_induction skip mode position text with
  | case1 | case5 | case6 => cases h; exact ⟨[], rfl, rfl⟩
  | case8 => cases h
  | case2 _ _ ih | case3 _ _ ih | case9 _ _ _ _ ih | case10 _ _ _ _ ih =>
    obtain ⟨gap, rfl, hposition⟩ := ih h
    exact ⟨_ :: _ :: gap, rfl, hposition⟩
  | case4 _ _ _ _ _ _ ih | case7 _ _ _ ih | case11 _ _ _ _ _ _ _ ih =>
    obtain ⟨gap, rfl, hposition⟩ := ih h
    exact ⟨_ :: gap, rfl, hposition⟩

end Trivia

namespace Lexer

/-- What reading a token at a place comes to, with checks. -/
def read? : Cursor → Option (EStateM.Result LexError Lexer Token)
  | ⟨position, []⟩ => some (.ok (.eof position) (ready ⟨position, []⟩))
  | ⟨position, c :: rest⟩ =>
    match Lexeme.read? (c :: rest) with
    | some lexeme => do
      let after ← position.afterAll? lexeme.chars
      return .ok ⟨lexeme.kind, String.ofList lexeme.chars, position⟩ (ready ⟨after, lexeme.rest⟩)
    | none => do
      let after ← position.after? c
      return .error (.unexpectedChar c position)
        (if c.utf8Size = 1 then ready ⟨after, rest⟩ else stranded after)

/-- What reading the next token comes to, with checks. -/
def next? : Lexer → Option (EStateM.Result LexError Lexer Token)
  | stranded position => some (.error (.insideCharacter position) (stranded position))
  | ready cursor => do
    match ← Trivia.skip? .blanks cursor.position cursor.rest with
    | .reached cursor => read? cursor
    | .unclosed opened stop => return .error (.unterminatedComment opened) (ready ⟨stop, []⟩)

theorem read?_eq {cursor : Cursor} (h : cursor.position.Counts cursor.rest) :
    read? cursor = some (read cursor) := by
  match cursor with
  | ⟨position, []⟩ => rfl
  | ⟨position, c :: rest⟩ =>
    simp only [read?, read]
    cases hread : Lexeme.read? (c :: rest) with
    | some lexeme =>
      rw [← (Lexeme.splits_of_read? hread).1] at h
      have hchars : position.afterAll? lexeme.chars = _ := (counts_append.1 h).1
      simp only [hchars, Option.bind_eq_bind, Option.bind_some]
      rfl
    | none =>
      have hfirst : position.after? c = _ := (counts_cons.1 h).1
      simp only [hfirst, Option.bind_eq_bind, Option.bind_some]
      rfl

/-- **Where no increment wraps around, checks do not change what a lexer replies.** -/
theorem next?_eq {cursor : Cursor} (h : cursor.position.Counts cursor.rest) :
    next? (ready cursor) = some (next (ready cursor)) := by
  simp only [next?, next, Trivia.skip?_eq h, Option.bind_eq_bind, Option.bind_some]
  cases hskip : Trivia.skip .blanks cursor.position cursor.rest with
  | unclosed opened stop => rfl
  | reached reached =>
    obtain ⟨gap, hrest, hposition⟩ := Trivia.position_of_skip hskip
    rw [hrest] at h
    have hcounts := (counts_append.1 h).2
    rw [← hposition] at hcounts
    exact read?_eq hcounts

end Lexer

end Cal
