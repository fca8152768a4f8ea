import Cal.Proofs.Lexer.Counting
import Cal.Proofs.Lexer.Render
import Mathlib.Data.List.Forall2

/-!
# A line feed between two texts

The tokens of two texts with a line feed between them are those of the one and then those of the other. No
word and no gap of the first text grows beyond it: words hold no line feed, and a line comment ends there.

* `Reads.behind`: what is read does not change if a gap comes in front of it.
* `Reads.seam`: a text that is read to its end, a line feed, and a text that is read from there on.
* `Reads.lower`: the same text further down.
* `lexText_seam`: what comes of two texts with a line feed between them.
-/

namespace Cal

variable {n : Nat} {a b gap more rest text word : List Char} {p position stop last : Position}
  {words tokens : List Token} {kind : TokenKind}

namespace Trivia

/-- At the front of a text at most one comment is enclosed. -/
theorem Enclosed.unique {comment other left : List Char} (h : Enclosed comment) (hother : Enclosed other)
    (htext : other ++ left = comment ++ rest) : other = comment := by
  induction h generalizing other left rest with
  | close =>
    cases hother with
    | close => rfl
    | nested => simp at htext
    | @other d chars _ hclose henclosed =>
      have hmark : ['*', '/'] <+: d :: (chars ++ left) ↔ ['*', '/'] <+: d :: chars := henclosed.mark_append '*' '/'
      rw [← hmark, ← List.cons_append, htext] at hclose
      exact absurd (List.prefix_append ..) hclose
  | nested _ _ ihNested ihOuter =>
    cases hother with
    | close => simp at htext
    | @nested nested outer hnested houter =>
      simp only [List.cons_append, List.append_assoc, List.cons.injEq, true_and] at htext
      obtain rfl := ihNested hnested htext
      obtain rfl := ihOuter houter (List.append_cancel_left htext)
      rfl
    | @other d chars hopen _ henclosed =>
      have hmark : ['/', '*'] <+: d :: (chars ++ left) ↔ ['/', '*'] <+: d :: chars := henclosed.mark_append '/' '*'
      rw [← hmark, ← List.cons_append, htext] at hopen
      simp at hopen
  | @other c chars hopen hclose henclosed ih =>
    have hmark (a b : Char) : [a, b] <+: c :: (chars ++ rest) ↔ [a, b] <+: c :: chars := henclosed.mark_append a b
    rw [← hmark, ← List.cons_append, ← htext] at hopen hclose
    cases hother with
    | close => exact absurd (List.prefix_append ..) hclose
    | nested => simp at hopen
    | other _ _ hchars =>
      simp only [List.cons_append, List.cons.injEq] at htext
      obtain ⟨rfl, htext⟩ := htext
      rw [ih hchars htext]

/-- A line comment ends with the first line feed behind it. -/
theorem comment_unique {comment other left : List Char} (h : '\n' ∉ comment)
    (hrest : ∀ c ∈ rest.head?, c = '\n') (hother : '\n' ∉ other) (hleft : ∀ c ∈ left.head?, c = '\n')
    (htext : other ++ left = comment ++ rest) : other = comment := by
  induction comment generalizing other with
  | nil =>
    cases other with
    | nil => rfl
    | cons c other =>
      obtain rfl : c = '\n' := hrest c (by simpa using congrArg List.head? htext.symm)
      simp at hother
  | cons c comment ih =>
    cases other with
    | nil =>
      obtain rfl : c = '\n' := hleft c (by simpa using congrArg List.head? htext)
      simp at h
    | cons d other =>
      simp only [List.cons_append, List.cons.injEq] at htext
      obtain ⟨rfl, htext⟩ := htext
      have hcomment : '\n' ∉ comment := fun hmem => h (List.mem_cons_of_mem _ hmem)
      have hothers : '\n' ∉ other := fun hmem => hother (List.mem_cons_of_mem _ hmem)
      rw [ih hcomment hothers htext]

/-- **In front of the longest gap a gap makes it longer**, and nothing else does. -/
theorem longest_append (h : Gap gap (more ++ rest)) (hmore : Longest Gap more rest) :
    Longest Gap (gap ++ more) rest := by
  refine ⟨h.append hmore.holds rfl, fun {other left} htext hother => ?_⟩
  generalize hbehind : more ++ rest = behind at h
  -- piece by piece the longer gap is made of what this one is made of
  induction h generalizing other with
  | nil => exact hmore.maximal (by simpa using htext) hother
  | @blank c gap _ hc _ ih =>
    cases hother with
    | nil => simp
    | blank _ hgap =>
      rw [List.cons_append, List.cons_append, List.cons_append, List.cons.injEq] at htext
      have hle := ih htext.2 hgap hbehind
      simpa using hle
    | line =>
      obtain rfl : '/' = c := by simpa using congrArg List.head? htext
      exact absurd hc (by decide)
    | block =>
      obtain rfl : '/' = c := by simpa using congrArg List.head? htext
      exact absurd hc (by decide)
  | @line comment gap _ hline hend _ ih =>
    subst hbehind
    cases hother with
    | nil => simp
    | blank hc =>
      obtain rfl : _ = '/' := by simpa using congrArg List.head? htext
      exact absurd hc (by decide)
    | @line other _ _ hother hleft hgap =>
      simp only [List.cons_append, List.append_assoc, List.cons.injEq, true_and] at htext
      obtain rfl := comment_unique hline hend hother hleft htext
      have hle := ih (by simpa using List.append_cancel_left htext) hgap rfl
      simpa using hle
    | block => simp at htext
  | @block comment gap _ henclosed _ ih =>
    cases hother with
    | nil => simp
    | blank hc =>
      obtain rfl : _ = '/' := by simpa using congrArg List.head? htext
      exact absurd hc (by decide)
    | line => simp at htext
    | @block other _ _ hother hgap =>
      simp only [List.cons_append, List.append_assoc, List.cons.injEq, true_and] at htext
      obtain rfl := henclosed.unique hother htext
      have hle := ih (by simpa using List.append_cancel_left htext) hgap hbehind
      simpa using hle

/-- A gap stays one if a line feed is put behind the text. -/
theorem Gap.seam (h : Gap gap rest) (more : List Char) : Gap gap (rest ++ '\n' :: more) := by
  induction h with
  | nil => exact .nil _
  | blank hc _ ih => exact .blank hc ih
  | @line comment gap rest hline hend _ ih =>
    refine .line hline (fun c hc => ?_) ih
    rw [← List.append_assoc, List.head?_append] at hc
    cases hhead : (gap ++ rest).head? with
    | none =>
      rw [hhead] at hc
      simpa using hc.symm
    | some d =>
      rw [hhead] at hc
      exact hend c (by simpa [hhead] using hc)
  | block henclosed _ ih => exact .block henclosed ih

end Trivia

/-- A word stays the longest one if a line feed is put behind the text. -/
theorem Lexeme.longest_seam (h : Longest IsWord word text) (more : List Char) :
    Longest IsWord word (text ++ '\n' :: more) := by
  refine ⟨h.holds, fun {other left} htext hother => ?_⟩
  have hline : '\n' ∉ other := by
    obtain ⟨kind, hkind⟩ := hother
    intro hmem
    exact hkind.not_opens _ hmem (.inl (by decide))
  -- the other word ends before the line feed
  have hprefix : other <+: word ++ text := by
    rw [← List.append_assoc] at htext
    rcases List.append_eq_append_iff.1 htext with ⟨between, hbegin, -⟩ | ⟨between, hbegin, hend⟩
    · exact ⟨between, hbegin.symm⟩
    · cases between with
      | nil => exact ⟨[], by simpa using hbegin⟩
      | cons c between =>
        obtain rfl : '\n' = c := (List.cons.inj hend).1
        exact absurd (by simp [hbegin]) hline
  obtain ⟨left, hsplit⟩ := hprefix
  exact h.maximal hsplit hother

namespace Reads

/-- **What is read does not change** if a gap comes in front of it. -/
theorem behind (h : Reads (position.afterAll gap) text words stop rest) (hgap : Trivia.Gap gap text) :
    Reads position (gap ++ text) words stop rest := by
  cases h with
  | stop hlongest =>
    rw [← Position.afterAll_append, ← List.append_assoc]
    exact .stop (Trivia.longest_append hgap hlongest)
  | word hlongest hword hkind hreads =>
    rw [← Position.afterAll_append position] at hreads ⊢
    rw [← List.append_assoc]
    exact .word (Trivia.longest_append hgap hlongest) hword hkind hreads

/-- **A line feed is a seam**: behind a text that is read to its end, a text is read as it is read there. -/
theorem seam (h : Reads position a words stop []) (hmore : Reads (stop.after '\n') b tokens last rest) :
    Reads position (a ++ '\n' :: b) (words ++ tokens) last rest := by
  generalize hend : ([] : List Char) = finish at h
  induction h with
  | @stop position gap _ hgap =>
    subst hend
    have hfeed : Trivia.Gap ['\n'] b := .blank (by decide) (.nil b)
    have hmore : Reads ((position.afterAll gap).afterAll ['\n']) b tokens last rest := hmore
    have hline : Reads (position.afterAll gap) ('\n' :: b) tokens last rest := behind hmore hfeed
    rw [List.append_nil]
    exact hline.behind (hgap.holds.seam b)
  | @word position _ gap word text _ kind _ hgap hword hkind _ ih =>
    have hlonger : Trivia.Gap gap (word ++ (text ++ '\n' :: b)) := by
      rw [← List.append_assoc]
      exact hgap.holds.seam b
    rw [List.append_assoc, List.append_assoc, List.cons_append]
    exact .word (Lexeme.longest_gap hkind hlonger) (Lexeme.longest_seam hword b) hkind (ih hmore hend)

/-- What is read ends at the place that it says. -/
theorem stop_eq (h : Reads position text words stop rest) :
    ∃ read, text = read ++ rest ∧ stop = position.afterAll read := by
  induction h with
  | @stop position gap rest _ => exact ⟨gap, rfl, rfl⟩
  | @word position _ gap word _ _ _ _ _ _ _ _ ih =>
    obtain ⟨read, rfl, rfl⟩ := ih
    refine ⟨gap ++ (word ++ read), by simp, ?_⟩
    rw [Position.afterAll_append, Position.afterAll_append]

end Reads

/-- The position `q` is `n` lines below `p`. -/
structure Position.Below (n : Nat) (p q : Position) : Prop where
  line : q.line.toNat = p.line.toNat + n
  column : q.column = p.column

/-- The same token `n` lines further down. -/
structure Token.Below (n : Nat) (token lower : Token) : Prop where
  kind : lower.kind = token.kind
  lexeme : lower.lexeme = token.lexeme
  position : token.position.Below n lower.position

/-- The same error `n` lines further down. -/
inductive LexError.Below (n : Nat) : LexError → LexError → Prop
  | unexpectedChar (c : Char) {p q : Position} : p.Below n q → Below n (unexpectedChar c p) (unexpectedChar c q)
  | unterminatedComment {p q : Position} : p.Below n q →
    Below n (unterminatedComment p) (unterminatedComment q)

/-- The column does not reach behind the last line feed. -/
theorem rtakeWhile_seam (a place : List Char) :
    (a ++ '\n' :: place).rtakeWhile (· ≠ '\n') = place.rtakeWhile (· ≠ '\n') := by
  induction place using List.reverseRecOn with
  | nil => simp
  | append_singleton place c ih =>
    rw [← List.cons_append, ← List.append_assoc]
    by_cases hc : c = '\n'
    · rw [List.rtakeWhile_concat_neg _ _ _ (by simp [hc]), List.rtakeWhile_concat_neg _ _ _ (by simp [hc])]
    · rw [List.rtakeWhile_concat_pos _ _ _ (by simp [hc]), List.rtakeWhile_concat_pos _ _ _ (by simp [hc]), ih]

/-- Behind a line feed every place is as many lines further down as there are line feeds in front of it. -/
theorem below_of_countable {place : List Char} (h : Countable (a ++ '\n' :: (place ++ rest))) :
    (Position.start.afterAll place).Below (1 + a.count '\n') (Position.start.afterAll (a ++ '\n' :: place)) := by
  have hlower : Countable ((a ++ '\n' :: place) ++ rest) := by simpa using h
  have hupper : Countable (place ++ rest) := by
    unfold Countable at h ⊢
    rw [List.length_append, List.length_cons] at h
    omega
  have hmarks := hupper.marks
  have hbelow := hlower.marks
  constructor
  · rw [hmarks.line, hbelow.line, List.count_append, List.count_cons_self]
    omega
  · rw [← UInt32.toNat_inj, hmarks.column, hbelow.column, rtakeWhile_seam]

/-- **The same text further down** is read as the same words. -/
theorem Reads.lower {before : List Char} (h : Reads p text words stop rest)
    (hp : p = Position.start.afterAll before) (hcountable : Countable (a ++ '\n' :: (before ++ text))) :
    ∃ lower last, Reads (Position.start.afterAll (a ++ '\n' :: before)) text lower last rest ∧
      List.Forall₂ (Token.Below (1 + a.count '\n')) words lower ∧ stop.Below (1 + a.count '\n') last := by
  have hafter (before more : List Char) : (Position.start.afterAll (a ++ '\n' :: before)).afterAll more =
      Position.start.afterAll (a ++ '\n' :: (before ++ more)) := by
    rw [← Position.afterAll_append, List.append_assoc, List.cons_append]
  induction h generalizing before with
  | @stop position gap rest hgap =>
    subst hp
    refine ⟨[], _, .stop hgap, .nil, ?_⟩
    have hplace : Countable (a ++ '\n' :: (before ++ gap ++ rest)) := by simpa using hcountable
    rw [hafter, ← Position.afterAll_append]
    exact below_of_countable hplace
  | @word position stop gap word text rest kind tokens hgap hword hkind _ ih =>
    subst hp
    have hplace : (Position.start.afterAll before).afterAll gap = Position.start.afterAll (before ++ gap) :=
      (Position.afterAll_append ..).symm
    have hbehind : ((Position.start.afterAll before).afterAll gap).afterAll word =
        Position.start.afterAll (before ++ gap ++ word) := by
      rw [hplace, ← Position.afterAll_append]
    obtain ⟨lower, last, hreads, hlower, hlast⟩ := ih hbehind (by simpa using hcountable)
    rw [← hafter, ← hafter] at hreads
    refine ⟨_, last, .word hgap hword hkind hreads, .cons ⟨rfl, rfl, ?_⟩ hlower, hlast⟩
    have hword : Countable (a ++ '\n' :: (before ++ gap ++ (word ++ text))) := by simpa using hcountable
    rw [hafter, hplace]
    exact below_of_countable hword

section Text

variable {a b : String}

/-- What comes of two texts with a line feed between them, if the first one has tokens. -/
theorem seam_cases (h : Reads .start a.toList words stop []) (hcountable : Countable (a ++ "\n" ++ b).toList) :
    (∃ more lower, lexText b = .ok more ∧ lexText (a ++ "\n" ++ b) = .ok (words ++ lower) ∧
      List.Forall₂ (Token.Below (1 + a.toList.count '\n')) more lower) ∨
    ∃ error lower, lexText b = .error error ∧ lexText (a ++ "\n" ++ b) = .error lower ∧
      error.Below (1 + a.toList.count '\n') lower := by
  have htext : (a ++ "\n" ++ b).toList = a.toList ++ '\n' :: b.toList := by simp
  rw [htext] at hcountable
  -- what is read of the other text is read behind the line feed too
  have hseam {more last rest} (hmore : Reads .start b.toList more last rest) :
      ∃ lower below, Reads .start (a ++ "\n" ++ b).toList (words ++ lower) below rest ∧
        List.Forall₂ (Token.Below (1 + a.toList.count '\n')) more lower ∧
        last.Below (1 + a.toList.count '\n') below := by
    have hstart : Position.start = Position.start.afterAll [] := rfl
    obtain ⟨lower, below, hlower, htokens, hbelow⟩ := hmore.lower hstart hcountable
    obtain ⟨read, hread, hstop⟩ := h.stop_eq
    rw [List.append_nil] at hread
    rw [← hread] at hstop
    rw [Position.afterAll_append, ← hstop] at hlower
    rw [htext]
    exact ⟨lower, below, h.seam hlower, htokens, hbelow⟩
  obtain ⟨more, last, hmore, hlex⟩ | ⟨more, last, c, rest, hmore, hopen, hword, hlex⟩ |
    ⟨more, last, body, hmore, -, hlex⟩ := lexText_cases b <;>
    obtain ⟨lower, below, hreads, htokens, hbelow⟩ := hseam hmore
  · have hfinish : (Token.eof last).Below (1 + a.toList.count '\n') (.eof below) := ⟨rfl, rfl, hbelow⟩
    refine .inl ⟨_, lower ++ [.eof below], hlex, ?_, List.rel_append htokens (.cons hfinish .nil)⟩
    rw [lexText_end hreads, List.append_assoc]
  · exact .inr ⟨_, _, hlex, lexText_unexpected hreads hopen hword, .unexpectedChar c hbelow⟩
  · exact .inr ⟨_, _, hlex, (lexText_unterminated hreads).1, .unterminatedComment hbelow⟩

/-- **A line feed is a clean seam.** Let a text have tokens, and let it be followed by a line feed and another
text, which can be counted together. All of it has tokens if and only if the other text has, and these are the
tokens of the first text but for the end of the input, and then those of the other text, as many lines further
down as there are line feeds in front of them. If the other text has an error, all of it has the same error,
so many lines further down. -/
theorem lexText_seam {tokens : List Token} (h : lexText a = .ok tokens)
    (hcountable : Countable (a ++ "\n" ++ b).toList) :
    ((∃ tokens, lexText (a ++ "\n" ++ b) = .ok tokens) ↔ ∃ tokens, lexText b = .ok tokens) ∧
    ∃ words finish, tokens = words ++ [.eof finish] ∧
      (∀ more, lexText b = .ok more → ∃ lower, lexText (a ++ "\n" ++ b) = .ok (words ++ lower) ∧
        List.Forall₂ (Token.Below (1 + a.toList.count '\n')) more lower) ∧
      ∀ error, lexText b = .error error → ∃ lower, lexText (a ++ "\n" ++ b) = .error lower ∧
        error.Below (1 + a.toList.count '\n') lower := by
  obtain ⟨words, finish, hwords, hlex⟩ | ⟨_, _, _, _, _, _, _, hlex⟩ | ⟨_, _, _, _, _, hlex⟩ :=
    lexText_cases a <;> rw [h] at hlex <;> cases hlex
  obtain ⟨more, lower, hother, hall, htokens⟩ | ⟨error, lower, hother, hall, hbelow⟩ :=
    seam_cases hwords hcountable
  · rw [hother, hall]
    refine ⟨by simp, words, finish, rfl, ?_, ?_⟩
    · rintro _ ⟨⟩
      exact ⟨lower, rfl, htokens⟩
    · rintro _ ⟨⟩
  · rw [hother, hall]
    refine ⟨by simp, words, finish, rfl, ?_, ?_⟩
    · rintro _ ⟨⟩
    · rintro _ ⟨⟩
      exact ⟨lower, rfl, hbelow⟩

/-- A line comment that is open at the end of a text ends at the seam. -/
theorem lexText_seam_comment :
    lexText "x//" = .ok [⟨.identifier, "x", ⟨1, 1⟩⟩, .eof ⟨1, 4⟩] ∧
      Countable ("x//" ++ "\n" ++ "-1").toList ∧
      ∃ lower, lexText ("x//" ++ "\n" ++ "-1") = .ok ([⟨.identifier, "x", ⟨1, 1⟩⟩] ++ lower) ∧
        List.Forall₂ (Token.Below 1) [⟨.number, "-1", ⟨1, 1⟩⟩, .eof ⟨1, 3⟩] lower := by
  have hleft : lexText "x//" = .ok [⟨.identifier, "x", ⟨1, 1⟩⟩, .eof ⟨1, 4⟩] := rfl
  have hcountable : Countable ("x//" ++ "\n" ++ "-1").toList := by
    unfold Countable
    decide
  obtain ⟨words, finish, htokens, hok, -⟩ := (lexText_seam hleft hcountable).2
  have hwords : words = [⟨.identifier, "x", ⟨1, 1⟩⟩] := by
    simpa using (congrArg List.dropLast htokens).symm
  obtain ⟨lower, hlower, hbelow⟩ := hok _ rfl
  rw [hwords] at hlower
  exact ⟨hleft, hcountable, lower, hlower, hbelow⟩

end Text

end Cal
