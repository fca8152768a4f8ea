import Cal.Report.Json

/-!
# The grammar of JSON

Which texts stand for which values, independently of how reports write them: blanks may stand around
values, names and marks, and a character of a string may be written as itself, after a backslash, or by
its code. All relations here are between the text that is to be read and the text that is left.

* `Piece`, `Chars`, `Numeral`: characters of strings, strings, numbers.
* `Spells`: values, and the lists within arrays and objects.
* `Spells.unique`: a text stands for one value at most, and takes up one part of the text.
-/

namespace Cal.Json

variable {c d : Char} {n m : Nat} {text rest left : List Char}

/-- Characters that may stand between the parts of a value. -/
inductive Blank : Char → Prop
  | space : Blank ' '
  | tab : Blank '\t'
  | feed : Blank '\n'
  | return : Blank '\r'

/-- Some blanks, or none. -/
inductive Blanks : List Char → List Char → Prop
  | none (rest : List Char) : Blanks rest rest
  | more {c : Char} {text rest : List Char} : Blank c → Blanks text rest → Blanks (c :: text) rest

/-- The value of a hexadecimal digit, in lower or upper case. -/
def hexValue? (c : Char) : Option Nat :=
  if '0' ≤ c ∧ c ≤ '9' then some (c.toNat - '0'.toNat)
  else if 'a' ≤ c ∧ c ≤ 'f' then some (c.toNat - 'a'.toNat + 10)
  else if 'A' ≤ c ∧ c ≤ 'F' then some (c.toNat - 'A'.toNat + 10)
  else none

/-- The number that four hexadecimal digits stand for. -/
def code? (first second third fourth : Char) : Option Nat := do
  let high := (← hexValue? first) * 16 + (← hexValue? second)
  let low := (← hexValue? third) * 16 + (← hexValue? fourth)
  return high * 256 + low

/-- The character that a letter or mark stands for behind a backslash. -/
def marked? : Char → Option Char
  | '"' => some '"'
  | '\\' => some '\\'
  | '/' => some '/'
  | 'b' => some '\x08'
  | 'f' => some '\x0c'
  | 'n' => some '\n'
  | 'r' => some '\r'
  | 't' => some '\t'
  | _ => none

/-- The first of the two codes for a character beyond the first plane. -/
def IsHigh (n : Nat) : Prop := 0xd800 ≤ n ∧ n < 0xdc00

/-- The second of the two codes. -/
def IsLow (n : Nat) : Prop := 0xdc00 ≤ n ∧ n < 0xe000

/-- One character of a string. -/
inductive Piece : Char → List Char → List Char → Prop
  | plain {c : Char} {rest : List Char} : 0x20 ≤ c.toNat → c ≠ '"' → c ≠ '\\' → Piece c (c :: rest) rest
  | mark {c mark : Char} {rest : List Char} : marked? mark = some c → Piece c ('\\' :: mark :: rest) rest
  | code {c d₁ d₂ d₃ d₄ : Char} {rest : List Char} : code? d₁ d₂ d₃ d₄ = some c.toNat →
    Piece c ('\\' :: 'u' :: d₁ :: d₂ :: d₃ :: d₄ :: rest) rest
  | codes {c d₁ d₂ d₃ d₄ e₁ e₂ e₃ e₄ : Char} {high low : Nat} {rest : List Char} :
    code? d₁ d₂ d₃ d₄ = some high → IsHigh high → code? e₁ e₂ e₃ e₄ = some low → IsLow low →
    c.toNat = 0x10000 + (high - 0xd800) * 0x400 + (low - 0xdc00) →
    Piece c ('\\' :: 'u' :: d₁ :: d₂ :: d₃ :: d₄ :: '\\' :: 'u' :: e₁ :: e₂ :: e₃ :: e₄ :: rest) rest

/-- The characters of a string and the quote behind them. -/
inductive Chars : List Char → List Char → List Char → Prop
  | close (rest : List Char) : Chars [] ('"' :: rest) rest
  | piece {c : Char} {chars text behind rest : List Char} : Piece c text behind → Chars chars behind rest →
    Chars (c :: chars) text rest

/-- A number: zero, or digits of which the first is not zero. -/
inductive Numeral : Nat → List Char → List Char → Prop
  | zero (rest : List Char) : Numeral 0 ('0' :: rest) rest
  | digits {c : Char} {digits rest : List Char} : c.isDigit = true → c ≠ '0' →
    (∀ d ∈ digits, d.isDigit = true) →
    Numeral (Nat.ofDigitChars 10 (c :: digits) 0) (c :: (digits ++ rest)) rest

/-- What can be written: a value, a value with blanks around it, one or more values with commas between
them, a name with its value, one or more of these. -/
inductive Phrase
  | value (value : Json)
  | element (value : Json)
  | items (items : List Json)
  | member (name : String) (value : Json)
  | members (members : List (String × Json))

/-- How it is written. -/
inductive Spells : Phrase → List Char → List Char → Prop
  | number {n : Nat} {text rest : List Char} : Numeral n text rest → Spells (.value (.number n)) text rest
  | string {chars text rest : List Char} : Chars chars text rest →
    Spells (.value (.string (String.ofList chars))) ('"' :: text) rest
  | noItems {text rest : List Char} : Blanks text (']' :: rest) → Spells (.value (.array [])) ('[' :: text) rest
  | array {items : List Json} {text rest : List Char} : Spells (.items items) text (']' :: rest) →
    Spells (.value (.array items)) ('[' :: text) rest
  | noMembers {text rest : List Char} : Blanks text ('\x7d' :: rest) →
    Spells (.value (.object [])) ('\x7b' :: text) rest
  | object {members : List (String × Json)} {text rest : List Char} :
    Spells (.members members) text ('\x7d' :: rest) →
    Spells (.value (.object members)) ('\x7b' :: text) rest
  | element {value : Json} {text inner behind rest : List Char} : Blanks text inner →
    Spells (.value value) inner behind → Blanks behind rest → Spells (.element value) text rest
  | item {value : Json} {text rest : List Char} : Spells (.element value) text rest →
    Spells (.items [value]) text rest
  | items {value : Json} {items : List Json} {text behind rest : List Char} :
    Spells (.element value) text (',' :: behind) → Spells (.items items) behind rest →
    Spells (.items (value :: items)) text rest
  | member {chars : List Char} {value : Json} {text inner behind after rest : List Char} :
    Blanks text ('"' :: inner) → Chars chars inner behind → Blanks behind (':' :: after) →
    Spells (.element value) after rest → Spells (.member (String.ofList chars) value) text rest
  | lastMember {name : String} {value : Json} {text rest : List Char} :
    Spells (.member name value) text rest → Spells (.members [(name, value)]) text rest
  | members {name : String} {value : Json} {members : List (String × Json)}
    {text behind rest : List Char} :
    Spells (.member name value) text (',' :: behind) → Spells (.members members) behind rest →
    Spells (.members ((name, value) :: members)) text rest

/-- A text is a value written in JSON. -/
def IsText (text : String) (value : Json) : Prop := Spells (.element value) text.toList []

section Parts

/-- No blank stands at the front of a text. -/
def NoBlank (text : List Char) : Prop := ∀ c ∈ text.head?, ¬ Blank c

theorem Blanks.unique (h : Blanks text rest) (h' : Blanks text left) (hrest : NoBlank rest)
    (hleft : NoBlank left) : rest = left := by
  induction h with
  | none =>
    cases h' with
    | none => rfl
    | more hblank _ => exact absurd hblank (hrest _ rfl)
  | more hblank _ ih =>
    cases h' with
    | none => exact absurd hblank (hleft _ rfl)
    | more _ h' => exact ih h' hrest

theorem Piece.unique {c d : Char} (h : Piece c text rest) (h' : Piece d text left) :
    c = d ∧ rest = left := by
  have hscalar : ∀ {c : Char}, ¬ IsHigh c.toNat := by
    intro c hhigh
    have hvalid : c.toNat < 0xd800 ∨ 0xdfff < c.toNat ∧ c.toNat < 0x110000 := c.valid
    unfold IsHigh at hhigh
    omega
  cases h with
  | plain _ _ hslash =>
    cases h' with
    | plain => exact ⟨rfl, rfl⟩
    | mark | code | codes => exact absurd rfl hslash
  | mark hmark =>
    cases h' with
    | plain _ _ hslash => exact absurd rfl hslash
    | mark hmark' => exact ⟨Option.some.inj (hmark.symm.trans hmark'), rfl⟩
    | code | codes => cases hmark
  | code hcode =>
    cases h' with
    | plain _ _ hslash => exact absurd rfl hslash
    | mark hmark => cases hmark
    | code hcode' => exact ⟨Char.toNat_inj.1 (Option.some.inj (hcode.symm.trans hcode')), rfl⟩
    | codes hcode' hhigh _ _ _ =>
      rw [hcode] at hcode'
      cases hcode'
      exact absurd hhigh hscalar
  | codes hcode hhigh hlow _ hvalue =>
    cases h' with
    | plain _ _ hslash => exact absurd rfl hslash
    | mark hmark => cases hmark
    | code hcode' =>
      rw [hcode] at hcode'
      cases hcode'
      exact absurd hhigh hscalar
    | codes hcode' _ hlow' _ hvalue' =>
      rw [hcode] at hcode'
      rw [hlow] at hlow'
      cases hcode'
      cases hlow'
      exact ⟨Char.toNat_inj.1 (hvalue.trans hvalue'.symm), rfl⟩

theorem Piece.ne_quote (h : Piece c text rest) : ∀ left, text ≠ '"' :: left := by
  rintro left rfl
  cases h with
  | plain _ hquote _ => exact hquote rfl

theorem Chars.unique {chars others : List Char} (h : Chars chars text rest) (h' : Chars others text left) :
    chars = others ∧ rest = left := by
  induction h generalizing others with
  | close =>
    cases h' with
    | close => exact ⟨rfl, rfl⟩
    | piece hpiece _ => exact absurd rfl (hpiece.ne_quote _)
  | piece hpiece _ ih =>
    cases h' with
    | close => exact absurd rfl (hpiece.ne_quote _)
    | piece hpiece' h' =>
      obtain ⟨rfl, rfl⟩ := hpiece.unique hpiece'
      obtain ⟨rfl, rfl⟩ := ih h'
      exact ⟨rfl, rfl⟩

/-- No digit stands at the front of a text. -/
def NoDigit (text : List Char) : Prop := ∀ c ∈ text.head?, c.isDigit = false

/-- Two runs of digits at the front of a text, behind neither of which a digit stands, are the same. -/
theorem digits_unique {digits others : List Char} (htext : digits ++ rest = others ++ left)
    (hdigits : ∀ d ∈ digits, d.isDigit = true) (hothers : ∀ d ∈ others, d.isDigit = true)
    (hrest : NoDigit rest) (hleft : NoDigit left) : digits = others ∧ rest = left := by
  have htake : ∀ {digits rest : List Char}, (∀ d ∈ digits, d.isDigit = true) → NoDigit rest →
      (digits ++ rest).takeWhile Char.isDigit = digits := by
    intro digits rest hdigits hrest
    rw [List.takeWhile_append_of_pos hdigits]
    match rest with
    | [] => simp
    | c :: rest => simp [hrest c rfl]
  have hsame : digits = others := by
    rw [← htake hdigits hrest, htext, htake hothers hleft]
  subst hsame
  exact ⟨rfl, List.append_cancel_left htext⟩

theorem Numeral.unique (h : Numeral n text rest) (h' : Numeral m text left) (hrest : NoDigit rest)
    (hleft : NoDigit left) : n = m ∧ rest = left := by
  cases h with
  | zero =>
    cases h' with
    | zero => exact ⟨rfl, rfl⟩
    | digits _ hzero _ => exact absurd rfl hzero
  | @digits c digits _ hc hzero hdigits =>
    generalize htext : digits ++ rest = text at h'
    cases h' with
    | zero => exact absurd rfl hzero
    | digits _ _ hothers =>
      obtain ⟨rfl, rfl⟩ := digits_unique htext hdigits hothers hrest hleft
      exact ⟨rfl, rfl⟩

theorem Numeral.head (h : Numeral n text rest) : ∃ c left, text = c :: left ∧ c.isDigit = true := by
  cases h with
  | zero => exact ⟨'0', _, rfl, rfl⟩
  | digits hc _ _ => exact ⟨_, _, rfl, hc⟩

theorem Numeral.not_cons (hc : c.isDigit = false) : ¬ Numeral n (c :: text) rest := by
  intro h
  obtain ⟨d, left, hcons, hd⟩ := h.head
  cases hcons
  rw [hc] at hd
  cases hd

end Parts

/-- Two phrases of one sort. -/
inductive Phrase.Alike : Phrase → Phrase → Prop
  | value (v w : Json) : Alike (.value v) (.value w)
  | element (v w : Json) : Alike (.element v) (.element w)
  | items (vs ws : List Json) : Alike (.items vs) (.items ws)
  | member (a b : String) (v w : Json) : Alike (.member a v) (.member b w)
  | members (vs ws : List (String × Json)) : Alike (.members vs) (.members ws)

/-- How a text goes on behind an element. -/
def EndsElement (text : List Char) : Prop := ∀ c ∈ text.head?, c = ',' ∨ c = ']' ∨ c = '\x7d'

/-- How a text goes on behind a phrase. -/
def Phrase.Ends : Phrase → List Char → Prop
  | .value _, rest => NoDigit rest
  | .element _, rest | .member _ _, rest => EndsElement rest
  | .items _, rest => rest.head? = some ']'
  | .members _, rest => rest.head? = some '\x7d'

namespace Spells

variable {value : Json} {items : List Json} {members : List (String × Json)} {name : String}
  {phrase other : Phrase}

theorem not_blank_of_isDigit (h : c.isDigit = true) : ¬ Blank c := by
  intro hblank
  cases hblank <;> exact absurd h (by decide)

theorem head_value (h : Spells (.value value) text rest) :
    ∃ c left, text = c :: left ∧ ¬ Blank c ∧ c ≠ ']' := by
  cases h with
  | number hn =>
    obtain ⟨c, left, rfl, hc⟩ := hn.head
    refine ⟨c, left, rfl, not_blank_of_isDigit hc, ?_⟩
    rintro rfl
    exact absurd hc (by decide)
  | string | noItems | array | noMembers | object =>
    exact ⟨_, _, rfl, by rintro ⟨⟩, by decide⟩

/-- The items of an array do not begin with its closing mark. -/
theorem items_ne_close (h : Spells (.items items) text rest) : ¬ Blanks text (']' :: left) := by
  intro hclose
  obtain ⟨value, after, h⟩ : ∃ value after, Spells (.element value) text after := by
    cases h with
    | item h | items h _ => exact ⟨_, _, h⟩
  cases h with
  | element hblanks hvalue _ =>
    obtain ⟨c, inner, rfl, hc, hother⟩ := hvalue.head_value
    have hsame := hblanks.unique hclose (by simpa [NoBlank] using hc) (by rintro _ ⟨⟩ ⟨⟩)
    cases hsame
    exact hother rfl

theorem noBlank_of_not_blank (h : ¬ Blank c) : NoBlank (c :: rest) := by
  intro d hd
  cases hd
  exact h

/-- The members of an object do not begin with its closing mark. -/
theorem members_ne_close (h : Spells (.members members) text rest) : ¬ Blanks text ('\x7d' :: left) := by
  intro hclose
  obtain ⟨name, value, after, h⟩ : ∃ name value after, Spells (.member name value) text after := by
    cases h with
    | lastMember h | members h _ => exact ⟨_, _, _, h⟩
  cases h with
  | member hblanks _ _ _ =>
    have hsame := hblanks.unique hclose (noBlank_of_not_blank (by rintro ⟨⟩))
      (noBlank_of_not_blank (by rintro ⟨⟩))
    cases hsame

/-- Behind an element no blank stands. -/
theorem noBlank_of_ends (h : EndsElement rest) : NoBlank rest := by
  intro c hc hblank
  obtain rfl | rfl | rfl := h c hc <;> cases hblank

/-- Blanks, or what ends an element, are no digits. -/
theorem noDigit_of_blanks (h : Blanks text rest) (hends : EndsElement rest) :
    NoDigit text := by
  intro c hc
  cases h with
  | none => obtain rfl | rfl | rfl := hends c hc <;> rfl
  | more hblank _ =>
    cases hc
    cases hblank <;> rfl

theorem ends_comma (text : List Char) : EndsElement (',' :: text) := by
  intro c hc
  cases hc
  exact .inl rfl

theorem ends_of_items (h : rest.head? = some ']') : EndsElement rest := by
  intro c hc
  rw [h] at hc
  cases hc
  exact .inr (.inl rfl)

theorem ends_of_members (h : rest.head? = some '\x7d') : EndsElement rest := by
  intro c hc
  rw [h] at hc
  cases hc
  exact .inr (.inr rfl)

/-- **A text stands for one value at most**, and the value takes up one part of it. -/
theorem unique (h : Spells phrase text rest) (h' : Spells other text left) (hsort : phrase.Alike other)
    (hrest : phrase.Ends rest) (hleft : other.Ends left) : phrase = other ∧ rest = left := by
  induction h generalizing other left with
  | number hn =>
    cases hsort
    cases h' with
    | number hn' =>
      obtain ⟨rfl, rfl⟩ := hn.unique hn' hrest hleft
      exact ⟨rfl, rfl⟩
    | string | noItems | array | noMembers | object => exact absurd hn (Numeral.not_cons rfl)
  | string hchars =>
    cases hsort
    cases h' with
    | number hn => exact absurd hn (Numeral.not_cons rfl)
    | string hchars' =>
      obtain ⟨rfl, rfl⟩ := hchars.unique hchars'
      exact ⟨rfl, rfl⟩
  | noItems hclose =>
    cases hsort
    cases h' with
    | number hn => exact absurd hn (Numeral.not_cons rfl)
    | noItems hclose' =>
      cases hclose.unique hclose' (noBlank_of_not_blank nofun) (noBlank_of_not_blank nofun)
      exact ⟨rfl, rfl⟩
    | array hitems => exact absurd hclose hitems.items_ne_close
  | array hitems ih =>
    cases hsort
    cases h' with
    | number hn => exact absurd hn (Numeral.not_cons rfl)
    | noItems hclose => exact absurd hclose hitems.items_ne_close
    | array hitems' =>
      obtain ⟨hsame, htext⟩ := ih hitems' (.items _ _) rfl rfl
      cases hsame
      cases htext
      exact ⟨rfl, rfl⟩
  | noMembers hclose =>
    cases hsort
    cases h' with
    | number hn => exact absurd hn (Numeral.not_cons rfl)
    | noMembers hclose' =>
      cases hclose.unique hclose' (noBlank_of_not_blank nofun) (noBlank_of_not_blank nofun)
      exact ⟨rfl, rfl⟩
    | object hmembers => exact absurd hclose hmembers.members_ne_close
  | object hmembers ih =>
    cases hsort
    cases h' with
    | number hn => exact absurd hn (Numeral.not_cons rfl)
    | noMembers hclose => exact absurd hclose hmembers.members_ne_close
    | object hmembers' =>
      obtain ⟨hsame, htext⟩ := ih hmembers' (.members _ _) rfl rfl
      cases hsame
      cases htext
      exact ⟨rfl, rfl⟩
  | element hblanks hvalue hbehind ih =>
    cases hsort
    cases h' with
    | element hblanks' hvalue' hbehind' =>
      obtain ⟨c, inner, rfl, hc, -⟩ := hvalue.head_value
      obtain ⟨d, inner', rfl, hd, -⟩ := hvalue'.head_value
      cases hblanks.unique hblanks' (noBlank_of_not_blank hc) (noBlank_of_not_blank hd)
      obtain ⟨hsame, rfl⟩ := ih hvalue' (.value _ _) (noDigit_of_blanks hbehind hrest)
        (noDigit_of_blanks hbehind' hleft)
      cases hsame
      exact ⟨rfl, hbehind.unique hbehind' (noBlank_of_ends hrest) (noBlank_of_ends hleft)⟩
  | item _ ih =>
    cases hsort
    cases h' with
    | item h' =>
      obtain ⟨hsame, rfl⟩ := ih h' (.element _ _) (ends_of_items hrest) (ends_of_items hleft)
      cases hsame
      exact ⟨rfl, rfl⟩
    | items h' _ =>
      obtain ⟨-, rfl⟩ := ih h' (.element _ _) (ends_of_items hrest) (ends_comma _)
      cases hrest
  | items _ _ ih ihItems =>
    cases hsort
    cases h' with
    | item h' =>
      obtain ⟨-, rfl⟩ := ih h' (.element _ _) (ends_comma _) (ends_of_items hleft)
      cases hleft
    | items h' hitems =>
      obtain ⟨hsame, htext⟩ := ih h' (.element _ _) (ends_comma _) (ends_comma _)
      cases hsame
      cases htext
      obtain ⟨hsame, rfl⟩ := ihItems hitems (.items _ _) hrest hleft
      cases hsame
      exact ⟨rfl, rfl⟩
  | member hblanks hchars hcolon _ ih =>
    cases hsort
    cases h' with
    | member hblanks' hchars' hcolon' h' =>
      cases hblanks.unique hblanks' (noBlank_of_not_blank nofun) (noBlank_of_not_blank nofun)
      obtain ⟨rfl, rfl⟩ := hchars.unique hchars'
      cases hcolon.unique hcolon' (noBlank_of_not_blank nofun) (noBlank_of_not_blank nofun)
      obtain ⟨hsame, rfl⟩ := ih h' (.element _ _) hrest hleft
      cases hsame
      exact ⟨rfl, rfl⟩
  | lastMember _ ih =>
    cases hsort
    cases h' with
    | lastMember h' =>
      obtain ⟨hsame, rfl⟩ := ih h' (.member _ _ _ _) (ends_of_members hrest) (ends_of_members hleft)
      cases hsame
      exact ⟨rfl, rfl⟩
    | members h' _ =>
      obtain ⟨-, rfl⟩ := ih h' (.member _ _ _ _) (ends_of_members hrest) (ends_comma _)
      cases hrest
  | members _ _ ih ihMembers =>
    cases hsort
    cases h' with
    | lastMember h' =>
      obtain ⟨-, rfl⟩ := ih h' (.member _ _ _ _) (ends_comma _) (ends_of_members hleft)
      cases hleft
    | members h' hmembers =>
      obtain ⟨hsame, htext⟩ := ih h' (.member _ _ _ _) (ends_comma _) (ends_comma _)
      cases hsame
      cases htext
      obtain ⟨hsame, rfl⟩ := ihMembers hmembers (.members _ _) hrest hleft
      cases hsame
      exact ⟨rfl, rfl⟩

end Spells

/-- **No text stands for two values.** -/
theorem IsText.unique {text : String} {value other : Json} (h : IsText text value)
    (h' : IsText text other) : value = other := by
  have hends : EndsElement [] := nofun
  obtain ⟨hsame, -⟩ := Spells.unique h h' (.element value other) hends hends
  cases hsame
  rfl

end Cal.Json
