import Cal.Proofs.Report.Grammar
import Mathlib.Tactic.SplitIfs

/-!
# How values are written

* `chars_escaped`, `numeral_toString`: strings and numbers are written by the grammar.
* `spells_render`: every value is.
* `printable_render`: no control character is written.
-/

namespace Cal.Json

variable {c : Char} {n : Nat} {chars rest : List Char}

/-- A control character is written by its code, in four digits. -/
theorem code?_hexDigit : ∀ n < 0x20, code? '0' '0' (hexDigit (n / 16)) (hexDigit n) = some n := by
  decide

/-- **A character is written as the grammar has it.** -/
theorem piece_escapeChar (c : Char) (rest : List Char) : Piece c (escapeChar c ++ rest) rest := by
  unfold escapeChar
  split_ifs with hquote hslash hbackspace htab hfeed hpage hreturn hcontrol
  · subst hquote; exact .mark rfl
  · subst hslash; exact .mark rfl
  · subst hbackspace; exact .mark rfl
  · subst htab; exact .mark rfl
  · subst hfeed; exact .mark rfl
  · subst hpage; exact .mark rfl
  · subst hreturn; exact .mark rfl
  · exact .code (code?_hexDigit c.toNat hcontrol)
  · exact .plain (by omega) hquote hslash

theorem chars_escaped (chars rest : List Char) :
    Chars chars (chars.flatMap escapeChar ++ '"' :: rest) rest := by
  induction chars with
  | nil => exact .close rest
  | cons c chars ih =>
    rw [List.flatMap_cons, List.append_assoc]
    exact .piece (piece_escapeChar c _) ih

theorem digitChar_ne_zero : ∀ n < 10, 0 < n → Nat.digitChar n ≠ '0' := by decide

/-- The digits of a number other than zero do not begin with zero. -/
theorem head_toDigits (h : 0 < n) : ∃ c digits, Nat.toDigits 10 n = c :: digits ∧ c ≠ '0' := by
  induction n using Nat.strongRecOn with
  | ind n ih =>
    by_cases hn : n < 10
    · exact ⟨Nat.digitChar n, [], Nat.toDigits_of_lt_base hn, digitChar_ne_zero n hn h⟩
    · obtain ⟨c, digits, hdigits, hc⟩ := ih (n / 10) (by omega) (by omega)
      refine ⟨c, digits ++ [Nat.digitChar (n % 10)], ?_, hc⟩
      rw [Nat.toDigits_of_base_le (by omega) (by omega), hdigits, List.cons_append]

theorem numeral_toString (n : Nat) (rest : List Char) : Numeral n ((toString n).toList ++ rest) rest := by
  rw [Nat.toString_eq_ofList_toDigits, String.toList_ofList]
  by_cases hn : n = 0
  · subst hn
    exact .zero rest
  · obtain ⟨c, digits, hdigits, hc⟩ := head_toDigits (Nat.pos_of_ne_zero hn)
    have hall : ∀ d ∈ c :: digits, d.isDigit = true := by
      intro d hd
      rw [← hdigits] at hd
      exact Nat.isDigit_of_mem_toDigits (by omega) (by omega) hd
    obtain ⟨hfirst, hothers⟩ := List.forall_mem_cons.1 hall
    have hvalue : Nat.ofDigitChars 10 (c :: digits) 0 = n := by
      rw [← hdigits]
      exact Nat.ofDigitChars_ten_toDigits
    have hnumeral : Numeral (Nat.ofDigitChars 10 (c :: digits) 0) (c :: (digits ++ rest)) rest :=
      .digits hfirst hc hothers
    rw [hvalue] at hnumeral
    rw [hdigits]
    exact hnumeral

theorem toList_quoteString (text : String) :
    (quoteString text).toList = '"' :: (text.toList.flatMap escapeChar ++ ['"']) := by
  simp [quoteString]

/-- A value with no blanks around it. -/
theorem Spells.bare {value : Json} {text rest : List Char} (h : Spells (.value value) text rest) :
    Spells (.element value) text rest := .element (.none text) h (.none rest)

theorem Spells.named (name : String) {value : Json} {text rest : List Char}
    (h : Spells (.value value) text rest) :
    Spells (.member name value) ((quoteString name).toList ++ ':' :: text) rest := by
  have hname := chars_escaped name.toList (':' :: text)
  have hmember := Spells.member (.none _) hname (.none _) h.bare
  rw [String.ofList_toList] at hmember
  rw [toList_quoteString]
  simpa using hmember

mutual

/-- **Every value is written as the grammar has it.** -/
theorem spells_render : (value : Json) → (rest : List Char) →
    Spells (.value value) (value.render.toList ++ rest) rest
  | number n, rest => by
    rw [render]
    exact .number (numeral_toString n rest)
  | string text, rest => by
    have hstring := Spells.string (chars_escaped text.toList rest)
    rw [String.ofList_toList] at hstring
    rw [render, toList_quoteString]
    simpa using hstring
  | array [], rest => .noItems (.none _)
  | array (item :: items), rest => by
    have hitems := spells_renderItems (item :: items) (by simp) (']' :: rest)
    rw [render]
    simpa using Spells.array hitems
  | object [], rest => .noMembers (.none _)
  | object (member :: members), rest => by
    have hmembers := spells_renderMembers (member :: members) (by simp) ('\x7d' :: rest)
    rw [render]
    simpa using Spells.object hmembers

theorem spells_renderItems : (items : List Json) → items ≠ [] → (rest : List Char) →
    Spells (.items items) ((",".intercalate (renderItems items)).toList ++ rest) rest
  | [], h, _ => absurd rfl h
  | [item], _, rest => by
    have hitem := (spells_render item rest).bare
    simpa [renderItems] using Spells.item hitem
  | item :: next :: items, _, rest => by
    have hitems := spells_renderItems (next :: items) (by simp) rest
    have hboth := Spells.items (spells_render item _).bare hitems
    simpa [renderItems, List.intercalate_cons_cons] using hboth

theorem spells_renderMembers : (members : List (String × Json)) → members ≠ [] → (rest : List Char) →
    Spells (.members members) ((",".intercalate (renderMembers members)).toList ++ rest) rest
  | [], h, _ => absurd rfl h
  | [(name, value)], _, rest => by
    have hmember := (spells_render value rest).named name
    simpa [renderMembers] using Spells.lastMember hmember
  | (name, value) :: next :: members, _, rest => by
    have hmembers := spells_renderMembers (next :: members) (by simp) rest
    have hboth := Spells.members ((spells_render value _).named name) hmembers
    simpa [renderMembers, List.intercalate_cons_cons] using hboth

end

/-- **What is written stands for the value**, and for no other. -/
theorem isText_render (value : Json) : IsText value.render value := by
  have hwhole := (spells_render value []).bare
  rwa [List.append_nil] at hwhole

/-- No control character is in a text. -/
def Printable (text : List Char) : Prop := ∀ c ∈ text, 0x20 ≤ c.toNat

instance (text : List Char) : Decidable (Printable text) :=
  List.decidableBAll (fun c : Char => 0x20 ≤ c.toNat) text

theorem Printable.append {text more : List Char} (h : Printable text) (hmore : Printable more) :
    Printable (text ++ more) := by
  intro c hc
  rcases List.mem_append.1 hc with hc | hc
  · exact h c hc
  · exact hmore c hc

theorem printable_hexDigit (n : Nat) : 0x20 ≤ (hexDigit n).toNat := by
  have hall : ∀ n < 16, 0x20 ≤ (Nat.digitChar n).toNat := by decide
  exact hall (n % 16) (Nat.mod_lt n (by omega))

theorem printable_escapeChar (c : Char) : Printable (escapeChar c) := by
  unfold escapeChar
  split_ifs with _ _ _ _ _ _ _ hcontrol
  iterate 7 exact show Printable [_, _] by decide
  · intro d hd
    simp only [List.mem_cons, List.not_mem_nil, or_false] at hd
    obtain rfl | rfl | rfl | rfl | rfl | rfl := hd
    iterate 4 decide
    · exact printable_hexDigit _
    · exact printable_hexDigit _
  · intro d hd
    obtain rfl := List.mem_singleton.1 hd
    omega

theorem printable_quoteString (text : String) : Printable (quoteString text).toList := by
  have hquote : Printable ['"'] := by decide
  have hchars : Printable (text.toList.flatMap escapeChar) := by
    intro c hc
    obtain ⟨d, _, hc⟩ := List.mem_flatMap.1 hc
    exact printable_escapeChar d c hc
  rw [toList_quoteString]
  exact hquote.append (hchars.append hquote)

theorem printable_toString (n : Nat) : Printable (toString n).toList := by
  intro c hc
  rw [Nat.toString_eq_ofList_toDigits, String.toList_ofList] at hc
  have hdigit : c.isDigit = true := Nat.isDigit_of_mem_toDigits (by omega) (by omega) hc
  have hzero : '0'.toNat ≤ c.toNat := (Char.isDigit_iff_toNat.1 hdigit).1
  exact Nat.le_trans (by decide) hzero

theorem printable_intercalate {texts : List String} (h : ∀ text ∈ texts, Printable text.toList) :
    Printable (",".intercalate texts).toList := by
  have hcomma : Printable [','] := by decide
  rw [String.toList_intercalate]
  induction texts with
  | nil => nofun
  | cons text texts ih =>
    obtain ⟨htext, htexts⟩ := List.forall_mem_cons.1 h
    match texts with
    | [] => simpa [List.intercalate] using htext
    | next :: texts =>
      have hrest := ih htexts
      rw [List.map_cons] at hrest ⊢
      rw [List.map_cons, List.intercalate_cons_cons]
      exact (htext.append hcomma).append hrest

mutual

/-- **No control character is written**, so that a value takes up one line. -/
theorem printable_render : (value : Json) → Printable value.render.toList
  | number n => by
    rw [render]
    exact printable_toString n
  | string text => by
    rw [render]
    exact printable_quoteString text
  | array items => by
    have hitems := printable_intercalate (printable_renderItems items)
    have hopen : Printable ['['] := by decide
    have hclose : Printable [']'] := by decide
    rw [render, String.toList_append, String.toList_append]
    exact (hopen.append hitems).append hclose
  | object members => by
    have hmembers := printable_intercalate (printable_renderMembers members)
    have hopen : Printable ['\x7b'] := by decide
    have hclose : Printable ['\x7d'] := by decide
    rw [render, String.toList_append, String.toList_append]
    exact (hopen.append hmembers).append hclose

theorem printable_renderItems : (items : List Json) → ∀ text ∈ renderItems items, Printable text.toList
  | [] => by simp [renderItems]
  | item :: items => by
    rw [renderItems, List.forall_mem_cons]
    exact ⟨printable_render item, printable_renderItems items⟩

theorem printable_renderMembers : (members : List (String × Json)) →
    ∀ text ∈ renderMembers members, Printable text.toList
  | [] => by simp [renderMembers]
  | (name, value) :: members => by
    have hcolon : Printable [':'] := by decide
    rw [renderMembers, List.forall_mem_cons, String.toList_append, String.toList_append]
    exact ⟨((printable_quoteString name).append hcolon).append (printable_render value),
      printable_renderMembers members⟩

end

end Cal.Json
