import Cal.Proofs.Lexer.Definition

/-!
# Reading takes the longest word

* `belongs_of_read?`: what is read off the front of a text is a word of its kind.
* `exists_read?_of_belongs`: where a word stands, something is read that is at least as long.
* `read?_belongs`: a word by itself is read whole, so that it has one kind.
* `read?_of_longest`, `read?_of_noWord`: the longest word is read, or there is none.
* `Belongs.characters`: the characters of words.
-/

namespace Cal.Lexeme

variable {c : Char} {chars digits word rest text : List Char} {kind : TokenKind} {lexeme : Lexeme}

theorem all_of_takeWhile {p : Char → Bool} : ∀ d ∈ text.takeWhile p, p d = true :=
  fun d hd => List.all_eq_true.1 List.all_takeWhile d hd

/-- A fixed text is a reserved word, which reads back as its kind, or it does not begin with a letter. -/
theorem keyword?_or_of_text? : ∀ kind : TokenKind, ∀ text ∈ kind.text?,
    TokenKind.keyword? text = some kind ∨ text.toList.head?.any Char.isAlpha = false := by
  intro kind
  cases kind <;> decide

theorem keyword?_of_text? (hc : c.isAlpha = true) (h : kind.text? = some (String.ofList (c :: chars))) :
    TokenKind.keyword? (String.ofList (c :: chars)) = some kind := by
  rcases keyword?_or_of_text? kind _ h with hkeyword | hother
  · exact hkeyword
  · simp [hc] at hother

section Sound

theorem belongs_of_pair? (h : pair? text = some lexeme) : Belongs lexeme.kind lexeme.chars := by
  unfold pair? at h
  split at h <;> cases h <;> exact .fixed rfl

theorem belongs_of_negative? (h : negative? text = some lexeme) : Belongs lexeme.kind lexeme.chars := by
  unfold negative? at h
  split at h
  · rename_i c rest
    split at h
    · rename_i hc
      cases h
      exact .negative hc all_of_takeWhile
    · cases h
  · cases h

theorem text?_of_single? (h : single? c = some kind) : kind.text? = some (String.ofList [c]) := by
  unfold single? at h
  split at h <;> cases h <;> rfl

theorem belongs_of_punctuation? (h : punctuation? text = some lexeme) :
    Belongs lexeme.kind lexeme.chars := by
  cases text with
  | nil => cases h
  | cons c rest =>
    obtain ⟨kind, hkind, rfl⟩ := Option.map_eq_some_iff.1 h
    exact .fixed (text?_of_single? hkind)

theorem belongs_of_number? (h : number? text = some lexeme) : Belongs lexeme.kind lexeme.chars := by
  cases text with
  | nil => cases h
  | cons c rest =>
    simp only [number?] at h
    split at h
    · rename_i hzero
      cases h
      rw [hzero]
      exact .zero
    · rename_i hzero
      split at h
      · rename_i hdigit
        cases h
        exact .unsigned (by simp [isLeadingDigit, hdigit, hzero]) all_of_takeWhile
      · cases h

theorem belongs_wordKind (hc : c.isAlpha = true) (hchars : ∀ d ∈ chars, isWordChar d = true) :
    Belongs (wordKind (c :: chars)) (c :: chars) := by
  cases hkeyword : TokenKind.keyword? (String.ofList (c :: chars)) with
  | some kind =>
    have hfixed : kind.text? = some (String.ofList (c :: chars)) := by
      simpa using List.find?_some hkeyword
    rw [wordKind, hkeyword]
    exact .fixed hfixed
  | none =>
    rw [wordKind, hkeyword]
    refine .name hc hchars fun kind hkind => ?_
    rw [keyword?_of_text? hc hkind] at hkeyword
    cases hkeyword

theorem belongs_of_word? (h : word? text = some lexeme) : Belongs lexeme.kind lexeme.chars := by
  cases text with
  | nil => cases h
  | cons c rest =>
    simp only [word?] at h
    split at h
    · rename_i hc
      cases h
      exact belongs_wordKind hc all_of_takeWhile
    · cases h

/-- **What is read is a word** of the kind it is said to be. -/
theorem belongs_of_read? (h : read? text = some lexeme) : Belongs lexeme.kind lexeme.chars := by
  simp only [read?, Option.orElse_eq_orElse, Option.orElse_eq_or, Option.or_eq_some_iff] at h
  rcases h with h | ⟨_, h | ⟨_, h | ⟨_, h | ⟨_, h⟩⟩⟩⟩
  · exact belongs_of_pair? h
  · exact belongs_of_negative? h
  · exact belongs_of_punctuation? h
  · exact belongs_of_number? h
  · exact belongs_of_word? h

end Sound

section Complete

/-- A letter or a digit begins no operator. -/
theorem single?_eq_none (hc : c.isAlphanum = true) : single? c = none := by
  unfold single?
  split <;> first | rfl | exact absurd hc (by decide)

theorem operators_eq_none (hc : c.isAlphanum = true) (text : List Char) :
    pair? (c :: text) = none ∧ negative? (c :: text) = none ∧ punctuation? (c :: text) = none := by
  refine ⟨?_, ?_, by simp [punctuation?, single?_eq_none hc]⟩
  · unfold pair?
    split <;> first | rfl | (rename_i h; cases h; exact absurd hc (by decide))
  · unfold negative?
    split
    · rename_i h
      cases h
      exact absurd hc (by decide)
    · rfl

/-- A number is read up to its last digit. -/
theorem read?_number (hc : isLeadingDigit c = true) (hdigits : ∀ d ∈ digits, d.isDigit = true)
    (rest : List Char) :
    read? (c :: digits ++ rest) =
      some ⟨.number, c :: digits ++ rest.takeWhile Char.isDigit, rest.dropWhile Char.isDigit⟩ := by
  obtain ⟨hdigit, hzero⟩ : c.isDigit = true ∧ c ≠ '0' := by simpa [isLeadingDigit] using hc
  obtain ⟨hpair, hnegative, hpunctuation⟩ :=
    operators_eq_none (show c.isAlphanum = true by simp [Char.isAlphanum, hdigit]) (digits ++ rest)
  simp only [read?, List.cons_append, hpair, hnegative, hpunctuation, number?, if_neg hzero,
    if_pos hdigit, List.takeWhile_append_of_pos hdigits, List.dropWhile_append_of_pos hdigits]
  rfl

theorem read?_negative (hc : isLeadingDigit c = true) (hdigits : ∀ d ∈ digits, d.isDigit = true)
    (rest : List Char) :
    read? ('-' :: c :: digits ++ rest) =
      some ⟨.number, '-' :: c :: digits ++ rest.takeWhile Char.isDigit, rest.dropWhile Char.isDigit⟩ := by
  simp only [read?, List.cons_append, pair?, negative?, if_pos hc,
    List.takeWhile_append_of_pos hdigits, List.dropWhile_append_of_pos hdigits]
  rfl

theorem not_isDigit_of_isAlpha (hc : c.isAlpha = true) : c.isDigit = false := by
  have hfirst : 'A'.val ≤ c.val := by
    rcases (Bool.or_eq_true _ _).mp (show (c.isUpper || c.isLower) = true from hc) with hupper | hlower
    · exact (of_decide_eq_true hupper).1
    · have hlow : 'a'.val ≤ c.val := of_decide_eq_true ((Bool.and_eq_true _ _).mp hlower).1
      exact UInt32.le_trans (by decide) hlow
  have hlast : ¬ c.val ≤ '9'.val := fun hle => absurd (UInt32.le_trans hfirst hle) (by decide)
  exact Bool.eq_false_iff.mpr fun hdigit =>
    hlast (of_decide_eq_true ((Bool.and_eq_true _ _).mp hdigit).2)

/-- A name is read up to its last letter, digit or underscore. -/
theorem read?_word (hc : c.isAlpha = true) (hchars : ∀ d ∈ chars, isWordChar d = true)
    (rest : List Char) :
    read? (c :: chars ++ rest) =
      some ⟨wordKind (c :: chars ++ rest.takeWhile isWordChar), c :: chars ++ rest.takeWhile isWordChar,
        rest.dropWhile isWordChar⟩ := by
  have hdigit := not_isDigit_of_isAlpha hc
  have hzero : c ≠ '0' := by
    rintro rfl
    exact absurd hdigit (by decide)
  obtain ⟨hpair, hnegative, hpunctuation⟩ :=
    operators_eq_none (show c.isAlphanum = true by simp [Char.isAlphanum, hc]) (chars ++ rest)
  simp [read?, hpair, hnegative, hpunctuation, number?, hdigit, hzero, word?, hc,
    List.takeWhile_append_of_pos hchars, List.dropWhile_append_of_pos hchars]

/-- A fixed text is made like a name, or is one character, or one of the operators of two. -/
theorem shape_of_text? : ∀ kind : TokenKind, ∀ text ∈ kind.text?,
    (text.toList.head?.any Char.isAlpha = true ∧ text.toList.tail.all isWordChar = true) ∨
      (text.toList.length = 1 ∧ text.toList.head?.any (fun c => (single? c).isSome) = true) ∨
        ∀ rest, pair? (text.toList ++ rest) = some ⟨kind, text.toList, rest⟩ := by
  intro kind text htext
  cases kind <;> cases htext <;>
    first | exact .inl (by decide) | exact .inr (.inl (by decide)) | exact .inr (.inr fun rest => rfl)

theorem exists_read?_of_text? (h : kind.text? = some (String.ofList word)) (rest : List Char) :
    ∃ lexeme, read? (word ++ rest) = some lexeme ∧ word.length ≤ lexeme.chars.length := by
  have hshape := shape_of_text? kind _ h
  rw [String.toList_ofList] at hshape
  obtain ⟨hhead, htail⟩ | ⟨hlength, hhead⟩ | hpair := hshape
  · match word with
    | c :: chars =>
      have hc : c.isAlpha = true := by simpa using hhead
      have hchars : ∀ d ∈ chars, isWordChar d = true := by simpa using htail
      exact ⟨_, read?_word hc hchars rest, by simp⟩
  · match word with
    | [c] =>
      obtain ⟨kind, hkind⟩ := Option.isSome_iff_exists.1 (show (single? c).isSome = true by simpa using hhead)
      have hsome : (read? ([c] ++ rest)).isSome = true := by simp [read?, punctuation?, hkind]
      obtain ⟨lexeme, hlexeme⟩ := Option.isSome_iff_exists.1 hsome
      exact ⟨lexeme, hlexeme, List.length_pos_iff.2 (splits_of_read? hlexeme).2⟩
  · exact ⟨⟨kind, word, rest⟩, by simp [read?, hpair], Nat.le_refl _⟩

/-- **Where a word stands something is read** that is at least as long. -/
theorem exists_read?_of_belongs (h : Belongs kind word) (rest : List Char) :
    ∃ lexeme, read? (word ++ rest) = some lexeme ∧ word.length ≤ lexeme.chars.length := by
  cases h with
  | fixed hkind => exact exists_read?_of_text? hkind rest
  | zero => exact ⟨⟨.number, ['0'], rest⟩, rfl, Nat.le_refl _⟩
  | unsigned hc hdigits => exact ⟨_, read?_number hc hdigits rest, by simp⟩
  | negative hc hdigits => exact ⟨_, read?_negative hc hdigits rest, by simp⟩
  | name hc hchars _ => exact ⟨_, read?_word hc hchars rest, by simp⟩

theorem read?_text : ∀ kind : TokenKind, ∀ text ∈ kind.text?,
    read? text.toList = some ⟨kind, text.toList, []⟩ := by
  intro kind
  cases kind <;> decide

/-- **A word by itself is read whole**, as what it is. -/
theorem read?_belongs (h : Belongs kind word) : read? word = some ⟨kind, word, []⟩ := by
  cases h with
  | fixed hkind =>
    have hread := read?_text kind _ hkind
    rwa [String.toList_ofList] at hread
  | zero => rfl
  | unsigned hc hdigits => simpa using read?_number hc hdigits []
  | negative hc hdigits => simpa using read?_negative hc hdigits []
  | @name c chars hc hchars hfresh =>
    have hkeyword : TokenKind.keyword? (String.ofList (c :: chars)) = none := by
      refine List.find?_eq_none.2 fun kind _ => ?_
      simpa using hfresh kind
    have hread := read?_word hc hchars []
    rwa [List.takeWhile_nil, List.dropWhile_nil, List.append_nil, wordKind, hkeyword] at hread

theorem kind_unique {other : TokenKind} (h : Belongs kind word) (hother : Belongs other word) :
    kind = other := by
  have hread := read?_belongs h
  rw [read?_belongs hother] at hread
  cases hread
  rfl

theorem Belongs.ne_nil (h : Belongs kind word) : word ≠ [] := (splits_of_read? (read?_belongs h)).2

/-- No word is the end of the input. -/
theorem Belongs.not_eof (h : Belongs kind word) : kind ≠ .eof := by
  rintro rfl
  cases h with
  | fixed hkind => cases hkind

end Complete

/-- **Reading takes the longest word** off the front of a text. -/
theorem read?_of_longest (h : Longest IsWord word rest) (hkind : Belongs kind word) :
    read? (word ++ rest) = some ⟨kind, word, rest⟩ := by
  obtain ⟨lexeme, hread, hlength⟩ := exists_read?_of_belongs hkind rest
  have hbelongs := belongs_of_read? hread
  have hsplits := (splits_of_read? hread).1
  have hle : lexeme.chars.length ≤ word.length := h.maximal hsplits ⟨_, hbelongs⟩
  obtain ⟨hchars, hrest⟩ := List.append_inj hsplits (by omega)
  rw [hchars] at hbelongs
  rw [hread, Option.some.injEq, Lexeme.mk.injEq]
  exact ⟨kind_unique hbelongs hkind, hchars, hrest⟩

/-- Nothing is read where no word stands. -/
theorem read?_of_noWord (h : NoWord text) : read? text = none := by
  refine Option.eq_none_iff_forall_not_mem.2 fun lexeme hread => ?_
  exact h _ _ (belongs_of_read? hread) ⟨lexeme.rest, (splits_of_read? hread).1⟩

section Chars

/-- The characters of which operators are made. -/
def marks : List Char := [',', ';', ':', '=', '(', ')', '+', '-', '<', '>']

theorem chars_of_text? : ∀ kind : TokenKind, ∀ text ∈ kind.text?, ∀ c ∈ text.toList,
    isWordChar c = true ∨ c ∈ marks := by
  intro kind
  have hall : ∀ text ∈ kind.text?, text.toList.all (fun c => isWordChar c || c ∈ marks) = true := by
    cases kind <;> decide
  simpa using hall

theorem isWordChar_of_isDigit (hc : c.isDigit = true) : isWordChar c = true := by
  simp [isWordChar, Char.isAlphanum, hc]

/-- **The characters of words** are letters, digits, underscores, and those of operators. -/
theorem Belongs.characters (h : Belongs kind word) : ∀ c ∈ word, isWordChar c = true ∨ c ∈ marks := by
  cases h with
  | fixed hkind =>
    have hfixed := chars_of_text? kind _ hkind
    rwa [String.toList_ofList] at hfixed
  | zero =>
    rw [List.forall_mem_singleton]
    decide
  | unsigned hc hdigits =>
    have hdigit : Char.isDigit _ = true := (Bool.and_eq_true _ _).mp hc |>.1
    rw [List.forall_mem_cons]
    exact ⟨.inl (isWordChar_of_isDigit hdigit), fun d hd => .inl (isWordChar_of_isDigit (hdigits d hd))⟩
  | negative hc hdigits =>
    have hdigit : Char.isDigit _ = true := (Bool.and_eq_true _ _).mp hc |>.1
    rw [List.forall_mem_cons, List.forall_mem_cons]
    exact ⟨.inr (by decide), .inl (isWordChar_of_isDigit hdigit),
      fun d hd => .inl (isWordChar_of_isDigit (hdigits d hd))⟩
  | @name c chars hc hchars _ =>
    have hword : isWordChar c = true := by simp [isWordChar, Char.isAlphanum, hc]
    rw [List.forall_mem_cons]
    exact ⟨.inl hword, fun d hd => .inl (hchars d hd)⟩

end Chars

end Cal.Lexeme
