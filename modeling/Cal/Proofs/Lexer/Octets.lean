import Cal.Proofs.Lexer.Tokenise
import Mathlib.Data.String.Basic

/-!
# A text as its bytes

A lexer does not read the characters of a text but its bytes. A byte is written here as the character of its
number, so that blanks and words are told among bytes as they are among characters.

* `octets_narrow`, `octets_wide`: the bytes of one character.
* `skipOctets_octets`: blanks and comments are skipped alike, whatever characters a comment holds.
* `read?_octets`: words are read alike.
-/

namespace Cal

/-- The bytes of some characters. -/
def octets (chars : List Char) : List Char :=
  chars.flatMap fun c => (String.utf8EncodeChar c).map Char.ofUInt8

/-- Whether a byte goes on with a character that begins before it. -/
def continues (o : Char) : Bool := 0x80 ≤ o.toNat && o.toNat < 0xC0

/-- A character of more than one byte, or a byte of such a character. -/
def Wide (c : Char) : Prop := 0x80 ≤ c.toNat

instance (c : Char) : Decidable (Wide c) := inferInstanceAs (Decidable (0x80 ≤ c.toNat))

/-- The position after the byte `o` that stands at `p`. A column counts the bytes that begin a character. -/
def Position.afterOctet (p : Position) (o : Char) : Position := if continues o then p else p.after o

/-- The position after the bytes `os`, the first of which stands at `p`. -/
def Position.afterOctets (p : Position) (os : List Char) : Position := os.foldl Position.afterOctet p

variable {c o lead : Char} {chars rest more left word : List Char} {position : Position}

section Encoding

theorem wide_iff : Wide c ↔ 1 < c.utf8Size := by
  have hone : c.utf8Size = 1 ↔ c.toNat ≤ 127 := Char.utf8Size_eq_one_iff
  have hpos := c.utf8Size_pos
  unfold Wide
  omega

theorem wide_of_continues (h : continues o = true) : Wide o := by
  simp only [continues, Bool.and_eq_true, decide_eq_true_eq] at h
  exact h.1

theorem wide_of_lead (h : 0xC0 ≤ lead.toNat) : Wide lead := Nat.le_trans (by decide) h

theorem afterOctet_narrow (hc : ¬ Wide c) : position.afterOctet c = position.after c :=
  if_neg fun hcontinues => hc (wide_of_continues hcontinues)

/-- The first byte of a character moves the position as the character does. -/
theorem afterOctet_lead (hlead : 0xC0 ≤ lead.toNat) (hc : Wide c) :
    position.afterOctet lead = position.after c := by
  have hbegins : ¬ continues lead = true := by
    simp only [continues, Bool.and_eq_true, decide_eq_true_eq]
    omega
  have hline (d : Char) (hd : Wide d) : d ≠ '\n' := fun hsame => absurd (hsame ▸ hd) (by decide)
  rw [Position.afterOctet, if_neg hbegins, Position.after, if_neg (hline lead (wide_of_lead hlead)),
    Position.after, if_neg (hline c hc)]

theorem octets_cons (c : Char) (chars : List Char) :
    octets (c :: chars) = (String.utf8EncodeChar c).map Char.ofUInt8 ++ octets chars := List.flatMap_cons

/-- A byte that is written as a character has the number of the byte. -/
theorem toNat_ofUInt8 (n : Nat) (h : n < 256) : (Char.ofUInt8 (UInt8.ofNat n)).toNat = n := by
  have hnat : (Char.ofUInt8 (UInt8.ofNat n)).toNat = (UInt8.ofNat n).toNat := rfl
  rw [hnat, UInt8.toNat_ofNat', Nat.mod_eq_of_lt h]

/-- A character of one byte is that byte. -/
theorem octets_narrow (hc : ¬ Wide c) (chars : List Char) : octets (c :: chars) = c :: octets chars := by
  have hlt : c.val.toNat < 0x80 := Nat.lt_of_not_le hc
  have hsame : Char.ofUInt8 (UInt8.ofNat c.val.toNat) = c :=
    Char.toNat_inj.1 (toNat_ofUInt8 _ (by omega))
  rw [octets_cons, String.utf8EncodeChar, if_pos (by omega), List.map_singleton, hsame, List.singleton_append]

/-- The first byte of a character of more than one, and the bytes that go on with it. -/
theorem encode_wide (hc : Wide c) :
    ∃ lead more, (String.utf8EncodeChar c).map Char.ofUInt8 = lead :: more ∧ 0xC0 ≤ lead.toNat ∧ more ≠ [] ∧
      ∀ o ∈ more, continues o = true := by
  have hlead (n : Nat) (hle : 0xC0 ≤ n) (hlt : n < 256) : 0xC0 ≤ (Char.ofUInt8 (UInt8.ofNat n)).toNat := by
    rwa [toNat_ofUInt8 n hlt]
  have hmore (n : Nat) : continues (Char.ofUInt8 (UInt8.ofNat (n % 0x40 + 0x80))) = true := by
    rw [continues, toNat_ofUInt8 _ (by omega), Bool.and_eq_true, decide_eq_true_eq, decide_eq_true_eq]
    omega
  have hge : ¬ c.val.toNat ≤ 0x7f := Nat.not_le_of_lt (show 0x80 ≤ c.val.toNat from hc)
  rw [String.utf8EncodeChar, if_neg hge]
  -- Two, three or four bytes: the first one tells how many, and the others are six bits each.
  split_ifs
  all_goals
    refine ⟨_, _, rfl, hlead _ (by omega) (by omega), by simp, ?_⟩
    simp only [List.map_cons, List.map_nil, List.forall_mem_cons, hmore]
    simp

/-- A text that begins with a character of more than one byte. -/
theorem octets_wide (hc : Wide c) :
    ∃ lead more, 0xC0 ≤ lead.toNat ∧ more ≠ [] ∧ (∀ o ∈ more, continues o = true) ∧
      ∀ chars, octets (c :: chars) = lead :: (more ++ octets chars) := by
  obtain ⟨lead, more, hencode, hlead, hne, hmore⟩ := encode_wide hc
  exact ⟨lead, more, hlead, hne, hmore, fun chars => by rw [octets_cons, hencode, List.cons_append]⟩

/-- Characters of one byte are their bytes. -/
theorem octets_word (hword : ∀ c ∈ word, ¬ Wide c) (rest : List Char) :
    octets (word ++ rest) = word ++ octets rest := by
  induction word with
  | nil => rfl
  | cons c word ih =>
    rw [List.forall_mem_cons] at hword
    rw [List.cons_append, octets_narrow hword.1, ih hword.2, List.cons_append]

theorem octets_mark {a b : Char} (ha : ¬ Wide a) (hb : ¬ Wide b) :
    octets (a :: b :: rest) = a :: b :: octets rest := by
  rw [octets_narrow ha, octets_narrow hb]

/-- Characters of one byte that stand at the front of the bytes of a text stand at the front of the text. -/
theorem front_of_octets (hword : ∀ c ∈ word, ¬ Wide c) (h : word ++ left = octets chars) :
    ∃ rest, chars = word ++ rest ∧ left = octets rest := by
  induction word generalizing chars with
  | nil => exact ⟨chars, rfl, h⟩
  | cons d word ih =>
    rw [List.forall_mem_cons] at hword
    match chars with
    | [] => cases h
    | c :: chars =>
      by_cases hc : Wide c
      · obtain ⟨lead, more, hlead, -, -, hoctets⟩ := octets_wide hc
        rw [hoctets, List.cons_append] at h
        obtain ⟨rfl, -⟩ := List.cons.inj h
        exact absurd (show 0x80 ≤ d.toNat by omega) hword.1
      · rw [octets_narrow hc, List.cons_append] at h
        obtain ⟨rfl, htail⟩ := List.cons.inj h
        obtain ⟨rest, rfl, hleft⟩ := ih hword.2 htail
        exact ⟨rest, rfl, hleft⟩

/-- Characters of one byte begin a text just where they begin its bytes. -/
theorem prefix_octets_iff (hword : ∀ c ∈ word, ¬ Wide c) : word <+: octets chars ↔ word <+: chars := by
  constructor
  · rintro ⟨left, h⟩
    obtain ⟨rest, rfl, -⟩ := front_of_octets hword h
    exact List.prefix_append word rest
  · rintro ⟨rest, rfl⟩
    rw [octets_word hword]
    exact List.prefix_append word _

end Encoding

namespace Lexeme

theorem narrow_of_isWordChar (h : isWordChar c = true) : ¬ Wide c := by
  have hlast : c.val ≤ 'z'.val := by
    rcases (Bool.or_eq_true _ _).mp h with halphanum | hunderscore
    · rcases (Bool.or_eq_true _ _).mp (show (c.isAlpha || c.isDigit) = true from halphanum) with halpha | hdigit
      · rcases (Bool.or_eq_true _ _).mp (show (c.isUpper || c.isLower) = true from halpha) with hupper | hlower
        · exact UInt32.le_trans (of_decide_eq_true hupper).2 (by decide)
        · exact of_decide_eq_true ((Bool.and_eq_true _ _).mp hlower).2
      · exact UInt32.le_trans (of_decide_eq_true ((Bool.and_eq_true _ _).mp hdigit).2) (by decide)
    · obtain rfl : c = '_' := of_decide_eq_true hunderscore
      decide
  exact Nat.not_le_of_lt (Nat.lt_of_le_of_lt (UInt32.le_iff_toNat_le.1 hlast) (by decide))

theorem narrow_of_mem_marks (h : c ∈ marks) : ¬ Wide c := by
  have hall : marks.all (¬ Wide ·) = true := by decide
  simpa using List.all_eq_true.1 hall c h

/-- The characters of a word are of one byte. -/
theorem Belongs.narrow {kind : TokenKind} (h : Belongs kind word) : ∀ c ∈ word, ¬ Wide c := fun c hc =>
  (h.characters c hc).elim narrow_of_isWordChar narrow_of_mem_marks

theorem longest_octets (h : Longest IsWord word rest) : Longest IsWord word (octets rest) := by
  refine ⟨h.holds, fun {other left} htext hother => ?_⟩
  obtain ⟨kind, hkind⟩ := h.holds
  obtain ⟨kind', hkind'⟩ := hother
  rw [← octets_word hkind.narrow] at htext
  obtain ⟨behind, hsame, -⟩ := front_of_octets hkind'.narrow htext
  exact h.maximal hsame.symm ⟨kind', hkind'⟩

/-- **Words are read alike** off the bytes of a text. -/
theorem read?_octets (chars : List Char) :
    read? (octets chars) = (read? chars).map fun lexeme => { lexeme with rest := octets lexeme.rest } := by
  rcases exists_word chars with hnone | ⟨word, rest, kind, rfl, hword, hkind⟩
  · have hoctets : NoWord (octets chars) := fun kind word hkind hbegin =>
      hnone kind word hkind ((prefix_octets_iff hkind.narrow).1 hbegin)
    rw [read?_of_noWord hnone, read?_of_noWord hoctets, Option.map_none]
  · rw [octets_word hkind.narrow, read?_of_longest hword hkind, read?_of_longest (longest_octets hword) hkind,
      Option.map_some]

end Lexeme

namespace Trivia

/-- Skips blanks and comments as `skip` does, byte by byte. -/
def skipOctets : Mode → Position → List Char → Outcome
  | .blanks, position, [] => .reached ⟨position, []⟩
  | .blanks, position, '/' :: '/' :: rest => skipOctets .line (position.afterOctets ['/', '/']) rest
  | .blanks, position, '/' :: '*' :: rest =>
    skipOctets (.block position 0) (position.afterOctets ['/', '*']) rest
  | .blanks, position, o :: rest =>
    if isBlank o then skipOctets .blanks (position.afterOctet o) rest else .reached ⟨position, o :: rest⟩
  | .line, position, [] => .reached ⟨position, []⟩
  | .line, position, o :: rest =>
    skipOctets (if o = '\n' then .blanks else .line) (position.afterOctet o) rest
  | .block opened _, position, [] => .unclosed opened position
  | .block opened inner, position, '/' :: '*' :: rest =>
    skipOctets (.block opened (inner + 1)) (position.afterOctets ['/', '*']) rest
  | .block opened inner, position, '*' :: '/' :: rest =>
    skipOctets (if inner = 0 then .blanks else .block opened (inner - 1)) (position.afterOctets ['*', '/']) rest
  | .block opened inner, position, o :: rest => skipOctets (.block opened inner) (position.afterOctet o) rest

/-- An outcome, with the bytes of what is left. -/
def Outcome.octets : Outcome → Outcome
  | reached cursor => reached ⟨cursor.position, Cal.octets cursor.rest⟩
  | unclosed opened stop => unclosed opened stop

variable {mode : Mode} {opened : Position} {inner : Nat}

/-- A byte of a character of more than one is no blank, and opens and closes nothing. -/
theorem plain_of_wide (h : Wide o) : isBlank o = false ∧ o ≠ '/' ∧ o ≠ '*' ∧ o ≠ '\n' := by
  have hother (d : Char) (hd : ¬ Wide d) : o ≠ d := fun hsame => hd (hsame ▸ h)
  refine ⟨?_, hother '/' (by decide), hother '*' (by decide), hother '\n' (by decide)⟩
  simp [isBlank, hother ' ' (by decide), hother '\t' (by decide), hother '\r' (by decide),
    hother '\n' (by decide), hother '\x0c' (by decide)]

theorem skipOctets_block_other (hopen : ¬ ['/', '*'] <+: o :: rest) (hclose : ¬ ['*', '/'] <+: o :: rest) :
    skipOctets (.block opened inner) position (o :: rest) =
      skipOctets (.block opened inner) (position.afterOctet o) rest := by
  conv => lhs; unfold skipOctets
  split <;> simp_all [List.cons_prefix_cons]

theorem skipOctets_stop (hblank : isBlank o = false) (hline : ¬ ['/', '/'] <+: o :: rest)
    (hopen : ¬ ['/', '*'] <+: o :: rest) :
    skipOctets .blanks position (o :: rest) = .reached ⟨position, o :: rest⟩ := by
  unfold skipOctets
  split <;> simp_all [List.cons_prefix_cons]

theorem skipOctets_blank (hblank : isBlank o = true) :
    skipOctets .blanks position (o :: rest) = skipOctets .blanks (position.afterOctet o) rest := by
  have hslash : o ≠ '/' := by
    rintro rfl
    exact absurd hblank (by decide)
  conv => lhs; unfold skipOctets
  split <;> simp_all

/-- Within a comment a byte of a character of more than one is passed over. -/
theorem skipOctets_passed (hmode : mode ≠ .blanks) (ho : Wide o) :
    skipOctets mode position (o :: rest) = skipOctets mode (position.afterOctet o) rest := by
  obtain ⟨-, hslash, hstar, hline⟩ := plain_of_wide ho
  cases mode with
  | blanks => exact absurd rfl hmode
  | line => rw [skipOctets, if_neg hline]
  | block opened inner =>
    exact skipOctets_block_other (by simp [List.cons_prefix_cons, hslash.symm])
      (by simp [List.cons_prefix_cons, hstar.symm])

/-- The bytes that go on with a character do not move the position. -/
theorem skipOctets_continued (hmode : mode ≠ .blanks) (hmore : ∀ o ∈ more, continues o = true) :
    skipOctets mode position (more ++ rest) = skipOctets mode position rest := by
  induction more with
  | nil => rfl
  | cons o more ih =>
    rw [List.forall_mem_cons] at hmore
    rw [List.cons_append, skipOctets_passed hmode (wide_of_continues hmore.1), Position.afterOctet,
      if_pos hmore.1, ih hmore.2]

/-- **Within a comment a character of more than one byte is passed over**, and counted once. -/
theorem skipOctets_wide (hmode : mode ≠ .blanks) (hc : Wide c) :
    skipOctets mode position (octets (c :: chars)) = skipOctets mode (position.after c) (octets chars) := by
  obtain ⟨lead, more, hlead, -, hmore, hoctets⟩ := octets_wide hc
  rw [hoctets, skipOctets_passed hmode (wide_of_lead hlead), skipOctets_continued hmode hmore,
    afterOctet_lead hlead hc]

/-- A mark that does not stand at the front of a text does not stand at the front of its bytes. -/
theorem not_prefix_octets {a b : Char} (ha : ¬ Wide a) (hb : ¬ Wide b)
    (h : ∀ body, c = a → chars = b :: body → False) : ¬ [a, b] <+: octets (c :: chars) := by
  have hmark : ∀ d ∈ [a, b], ¬ Wide d := by simp [ha, hb]
  rw [prefix_octets_iff hmark]
  rintro ⟨body, hbody⟩
  cases hbody
  exact h body rfl rfl

/-- What begins the bytes of a text. -/
theorem exists_head (c : Char) (chars : List Char) :
    ∃ o tail, octets (c :: chars) = o :: tail ∧ isBlank o = isBlank c := by
  by_cases hc : Wide c
  · obtain ⟨lead, more, hlead, -, -, hoctets⟩ := octets_wide hc
    exact ⟨lead, _, hoctets chars, by rw [(plain_of_wide hc).1, (plain_of_wide (wide_of_lead hlead)).1]⟩
  · exact ⟨c, _, octets_narrow hc chars, rfl⟩

/-- **Blanks and comments are skipped alike** over the bytes of a text. -/
theorem skipOctets_octets (mode : Mode) (position : Position) (chars : List Char) :
    skipOctets mode position (octets chars) = (skip mode position chars).octets := by
  fun_induction skip mode position chars with
  | case1 | case6 | case8 => rfl
  | case2 _ _ ih | case3 _ _ ih | case9 _ _ _ _ ih | case10 _ _ _ _ ih =>
    rw [octets_mark (by decide) (by decide), ← ih]
    rfl
  | case4 position c rest hline hopen hblank ih =>
    have hc : ¬ Wide c := fun hc => by simp [(plain_of_wide hc).1] at hblank
    rw [octets_narrow hc, skipOctets_blank hblank, afterOctet_narrow hc, ih]
  | case5 position c rest hline hopen hblank =>
    obtain ⟨o, tail, hoctets, hsame⟩ := exists_head c rest
    have hline' := not_prefix_octets (by decide) (by decide) hline
    have hopen' := not_prefix_octets (by decide) (by decide) hopen
    rw [Outcome.octets]
    rw [hoctets] at hline' hopen' ⊢
    exact skipOctets_stop (by simpa [hsame] using hblank) hline' hopen'
  | case7 position c rest ih =>
    by_cases hc : Wide c
    · rw [if_neg (plain_of_wide hc).2.2.2] at ih ⊢
      rw [skipOctets_wide (by simp) hc, ih]
    · rw [octets_narrow hc, skipOctets, afterOctet_narrow hc, ih]
  | case11 opened inner position c rest hopen hclose ih =>
    by_cases hc : Wide c
    · rw [skipOctets_wide (by simp) hc, ih]
    · have hopen' := not_prefix_octets (by decide) (by decide) hopen
      have hclose' := not_prefix_octets (by decide) (by decide) hclose
      rw [octets_narrow hc] at hopen' hclose' ⊢
      rw [skipOctets_block_other hopen' hclose', afterOctet_narrow hc, ih]

end Trivia

namespace Octets

/-- Whether a text can be cut in front of these bytes: a character begins there, or nothing is left. -/
def canCut : List Char → Bool
  | [] => true
  | o :: _ => !continues o

/-- The first character of a text with these bytes. -/
def firstChar (bytes : List Char) : Char :=
  ((bytes.map Char.toUInt8).toByteArray.utf8DecodeChar? 0).getD '\ufffd'

/-- Whether the lexemes of a kind are cut out of the text. Those of operators are not. -/
def isCut (kind : TokenKind) : Bool := kind = .number || kind = .identifier || kind ∈ TokenKind.keywords

/-- Reads a token by its bytes at a place where no blank or comment begins. There is no reply where the text
would have to be cut within a character. -/
def read : Cursor → Option (EStateM.Result LexError Cursor Token)
  | ⟨position, []⟩ => some (.ok (.eof position) ⟨position, []⟩)
  | ⟨position, o :: rest⟩ =>
    match Lexeme.read? (o :: rest) with
    | some lexeme =>
      if isCut lexeme.kind && !(canCut (o :: rest) && canCut lexeme.rest) then none
      else
        some (.ok ⟨lexeme.kind, String.ofList lexeme.chars, position⟩
          ⟨position.afterOctets lexeme.chars, lexeme.rest⟩)
    | none =>
      if canCut (o :: rest) then
        some (.error (.unexpectedChar (firstChar (o :: rest)) position) ⟨position.afterOctet o, rest⟩)
      else none

/-- Reads the next token by its bytes. -/
def next (cursor : Cursor) : Option (EStateM.Result LexError Cursor Token) :=
  match Trivia.skipOctets .blanks cursor.position cursor.rest with
  | .reached cursor => read cursor
  | .unclosed opened stop => some (.error (.unterminatedComment opened) ⟨stop, []⟩)

/-- A lexer, and what is left of the bytes. Within a character there are bytes left that go on with it, or the
text has been cut there. -/
inductive Follows : Lexer → Option Cursor → Prop
  | ready (position : Position) (rest : List Char) :
    Follows (.ready ⟨position, rest⟩) (some ⟨position, octets rest⟩)
  | within {position : Position} {more rest : List Char} : more ≠ [] → (∀ o ∈ more, continues o = true) →
    Follows (.stranded position) (some ⟨position, more ++ rest⟩)
  | cut (position : Position) : Follows (.stranded position) none

theorem bytes_octets (chars : List Char) :
    (octets chars).map Char.toUInt8 = chars.flatMap String.utf8EncodeChar := by
  have hbyte : Char.toUInt8 ∘ Char.ofUInt8 = id := funext fun b => UInt8.toUInt8_toUInt32 b
  simp only [octets, List.map_flatMap, List.map_map, hbyte, List.map_id]

/-- **The first character of a text** is read off its bytes. -/
theorem firstChar_octets (c : Char) (chars : List Char) : firstChar (octets (c :: chars)) = c := by
  have hencode : ((octets (c :: chars)).map Char.toUInt8).toByteArray = (c :: chars).utf8Encode :=
    congrArg List.toByteArray (bytes_octets _)
  rw [firstChar, hencode, List.utf8DecodeChar?_utf8Encode_cons, Option.getD_some]

theorem canCut_octets (chars : List Char) : canCut (octets chars) = true := by
  match chars with
  | [] => rfl
  | c :: chars =>
    by_cases hc : Wide c
    · obtain ⟨lead, more, hlead, -, -, hoctets⟩ := octets_wide hc
      rw [hoctets, canCut, continues]
      simp
      omega
    · rw [octets_narrow hc, canCut, Bool.not_eq_true', Bool.eq_false_iff]
      exact fun hcontinues => hc (wide_of_continues hcontinues)

/-- No word begins with a byte of a character of more than one. -/
theorem noWord_of_wide (ho : Wide o) : Lexeme.NoWord (o :: rest) := by
  rintro kind word hkind ⟨behind, hword⟩
  match word with
  | [] => exact hkind.ne_nil rfl
  | d :: word =>
    obtain rfl : d = o := (List.cons.inj hword).1
    exact hkind.narrow d (List.mem_cons_self ..) ho

theorem afterOctets_narrow (hword : ∀ c ∈ word, ¬ Wide c) :
    position.afterOctets word = position.afterAll word := by
  induction word generalizing position with
  | nil => rfl
  | cons c word ih =>
    rw [List.forall_mem_cons] at hword
    rw [Position.afterAll_cons, ← afterOctet_narrow hword.1, ← ih hword.2]
    rfl

/-- **A token is read alike by its bytes**, and what is left is followed. -/
theorem read_octets (position : Position) (chars : List Char) :
    ∃ result, read ⟨position, octets chars⟩ = some result ∧
      (replyOf result).1 = (replyOf (Lexer.read ⟨position, chars⟩)).1 ∧
      Follows (replyOf (Lexer.read ⟨position, chars⟩)).2 (some (replyOf result).2) := by
  match chars with
  | [] => exact ⟨_, rfl, rfl, .ready position []⟩
  | c :: chars =>
    have hcut := canCut_octets (c :: chars)
    have hread := Lexeme.read?_octets (c :: chars)
    have hfirst := firstChar_octets c chars
    cases hlexeme : Lexeme.read? (c :: chars) with
    | some lexeme =>
      rw [hlexeme, Option.map_some] at hread
      have hword := (Lexeme.belongs_of_read? hlexeme).narrow
      obtain ⟨o, tail, hoctets, -⟩ := Trivia.exists_head c chars
      rw [hoctets] at hcut hread ⊢
      have hwhole : (isCut lexeme.kind && !(canCut (o :: tail) && canCut (octets lexeme.rest))) = false := by
        rw [hcut, canCut_octets, Bool.and_true, Bool.not_true, Bool.and_false]
      simp only [read, hread, hwhole, Bool.false_eq_true, if_false, afterOctets_narrow hword, Lexer.read,
        hlexeme]
      exact ⟨_, rfl, rfl, .ready _ _⟩
    | none =>
      rw [hlexeme, Option.map_none] at hread
      by_cases hc : Wide c
      · obtain ⟨lead, more, hlead, hne, hmore, hoctets⟩ := octets_wide hc
        have hpast : Lexer.past c position chars = .stranded (position.after c) :=
          if_neg (Nat.ne_of_gt (wide_iff.1 hc))
        rw [hoctets] at hcut hread hfirst ⊢
        simp only [read, hread, hcut, if_true, hfirst, afterOctet_lead hlead hc, Lexer.read, hlexeme, hpast]
        exact ⟨_, rfl, rfl, .within hne hmore⟩
      · have hpast : Lexer.past c position chars = .ready ⟨position.after c, chars⟩ :=
          if_pos (Nat.le_antisymm (Nat.le_of_not_lt fun h => hc (wide_iff.2 h)) c.utf8Size_pos)
        rw [octets_narrow hc] at hcut hread hfirst ⊢
        simp only [read, hread, hcut, if_true, hfirst, afterOctet_narrow hc, Lexer.read, hlexeme, hpast]
        exact ⟨_, rfl, rfl, .ready _ _⟩

/-- **One call by bytes.** At the beginning of a character a lexer replies the same, and is followed. -/
theorem next_octets (position : Position) (chars : List Char) :
    ∃ result, next ⟨position, octets chars⟩ = some result ∧
      (replyOf result).1 = (replyOf (Lexer.next (.ready ⟨position, chars⟩))).1 ∧
      Follows (replyOf (Lexer.next (.ready ⟨position, chars⟩))).2 (some (replyOf result).2) := by
  have hskip := Trivia.skipOctets_octets .blanks position chars
  simp only [next, hskip, Lexer.next]
  cases Trivia.skip .blanks position chars with
  | reached cursor => exact read_octets cursor.position cursor.rest
  | unclosed opened stop => exact ⟨_, rfl, rfl, .ready stop []⟩

/-- **Within a character there is no reply**: the text would have to be cut there. -/
theorem next_within (hne : more ≠ []) (hmore : ∀ o ∈ more, continues o = true) :
    next ⟨position, more ++ rest⟩ = none := by
  obtain ⟨o, tail, rfl⟩ := List.exists_cons_of_ne_nil hne
  have hcontinues : continues o = true := hmore o (List.mem_cons_self ..)
  have ho := wide_of_continues hcontinues
  obtain ⟨hblank, hslash, -, -⟩ := Trivia.plain_of_wide ho
  have hskip : Trivia.skipOctets .blanks position (o :: (tail ++ rest)) =
      .reached ⟨position, o :: (tail ++ rest)⟩ :=
    Trivia.skipOctets_stop hblank (by simp [List.cons_prefix_cons, hslash.symm])
      (by simp [List.cons_prefix_cons, hslash.symm])
  have hcut : canCut (o :: (tail ++ rest)) = false := by rw [canCut, hcontinues, Bool.not_true]
  simp only [next, List.cons_append, hskip, read, Lexeme.read?_of_noWord (noWord_of_wide ho), hcut,
    Bool.false_eq_true, if_false]

end Octets

end Cal
