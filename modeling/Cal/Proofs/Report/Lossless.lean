import Cal.Command.Basic
import Cal.Proofs.Report.Written

/-!
# Reports lose nothing

A report is read back by looking up its members by their names, whatever their order: first whether
the program was accepted, then the sort of error, then what is wrong with the characters. What is read
from a report is the outcome it was made of, so that two outcomes are never reported alike.

* `Outcome.ofJson?`: the outcome that a value tells of, if it is a report.
* `Outcome.ofJson?_report`: a report tells of its outcome.
* `report_lossless`: so does the line that is printed of it, for every reader of JSON.
-/

namespace Cal

namespace Json

/-- The member of an object with a given name. -/
def member? (name : String) : Json → Option Json
  | object members => members.lookup name
  | _ => none

/-- The text of a string. -/
def string? : Json → Option String
  | string text => some text
  | _ => none

/-- A string of one character. -/
def char? (value : Json) : Option Char := do
  let text ← value.string?
  match text.toList with
  | [c] => some c
  | _ => none

/-- A number. -/
def number? : Json → Option Nat
  | number n => some n
  | _ => none

/-- A number of 32 bits. -/
def word? (value : Json) : Option UInt32 := do
  let n ← value.number?
  if n < UInt32.size then some (UInt32.ofNat n) else none

/-- The items of an array. -/
def items? : Json → Option (List Json)
  | array items => some items
  | _ => none

@[simp]
theorem member?_cons (name key : String) (value : Json) (members : List (String × Json)) :
    member? name (object ((key, value) :: members)) =
      if name = key then some value else member? name (object members) := by
  show List.lookup name ((key, value) :: members) =
    if name = key then some value else List.lookup name members
  rw [List.lookup_cons]
  by_cases h : name = key
  · simp [h]
  · simp [h, beq_eq_false_iff_ne.2 h]

@[simp]
theorem char?_singleton (c : Char) : char? (string (String.singleton c)) = some c := by
  simp [char?, string?]

@[simp]
theorem word?_toNat (n : UInt32) : word? (number n.toNat) = some n := by
  simp [word?, number?, n.toNat_lt]

end Json

open Json

/-- The position that a value tells of. -/
def Position.ofJson? (value : Json) : Option Position := do
  let line ← (← value.member? "line").word?
  let column ← (← value.member? "column").word?
  return ⟨line, column⟩

/-- The kind that a value tells of. -/
def TokenKind.ofJson? (value : Json) : Option TokenKind := do
  let tag ← value.string?
  TokenKind.all.find? (·.tag = tag)

/-- The token that a value tells of. -/
def Token.ofJson? (value : Json) : Option Token := do
  let kind ← TokenKind.ofJson? (← value.member? "kind")
  let lexeme ← (← value.member? "lexeme").string?
  let position ← Position.ofJson? (← value.member? "position")
  return ⟨kind, lexeme, position⟩

/-- The lexical error that a value tells of. -/
def LexError.ofJson? (value : Json) : Option LexError := do
  let position ← Position.ofJson? (← value.member? "position")
  match ← (← value.member? "kind").string? with
  | "unexpected_char" => return .unexpectedChar (← (← value.member? "ch").char?) position
  | "unterminated_comment" => return .unterminatedComment position
  | "inside_character" => return .insideCharacter position
  | _ => none

/-- The syntax error that a value tells of. -/
def SyntaxError.ofJson? (value : Json) : Option SyntaxError := do
  let unexpected ← Token.ofJson? (← value.member? "unexpected")
  let expected ← (← (← value.member? "expected").items?).mapM TokenKind.ofJson?
  return ⟨unexpected, .ofList expected⟩

/-- The error that a value tells of. -/
def ParseError.ofJson? (value : Json) : Option ParseError := do
  match ← (← value.member? "type").string? with
  | "lex" => return .lexical (← LexError.ofJson? value)
  | "syntax" => return .unexpected (← SyntaxError.ofJson? value)
  | "too_deep" =>
    let limit ← (← value.member? "limit").number?
    return .tooDeep limit (← Position.ofJson? (← value.member? "position"))
  | _ => none

/-- The outcome that a value tells of, if it is a report. -/
def Outcome.ofJson? (value : Json) : Option Outcome := do
  match ← (← value.member? "status").string? with
  | "ok" => return .ok ()
  | "error" => return .error (← ParseError.ofJson? (← value.member? "error"))
  | _ => none

@[simp]
theorem Position.ofJson?_toJson (position : Position) : ofJson? position.toJson = some position := by
  simp [ofJson?, toJson]

@[simp]
theorem TokenKind.ofJson?_toJson : ∀ kind : TokenKind, ofJson? kind.toJson = some kind := by
  intro kind
  cases kind <;> decide

@[simp]
theorem Token.ofJson?_toJson (token : Token) : ofJson? token.toJson = some token := by
  simp [ofJson?, toJson, string?]

theorem KindSet.ofList_kinds (kinds : KindSet) : ofList kinds.kinds = kinds := by
  ext kind
  rw [mem_ofList, mem_iff]

@[simp]
theorem TokenKind.mapM_ofJson? (kinds : List TokenKind) :
    kinds.mapM (ofJson? ∘ toJson) = some kinds := by
  induction kinds with
  | nil => rfl
  | cons kind kinds ih => simp [ih]

/-- A lexical error is told by its members, next to others with other names. -/
theorem LexError.ofJson?_members (error : LexError) (sort : Json) :
    ofJson? (object (("type", sort) :: error.members)) = some error := by
  cases error <;> simp [ofJson?, members, string?]

theorem SyntaxError.ofJson?_members (error : SyntaxError) :
    ofJson? (object (ParseError.unexpected error).members) = some error := by
  simp [ofJson?, ParseError.members, items?, KindSet.ofList_kinds]

theorem ParseError.ofJson?_members (error : ParseError) : ofJson? (object error.members) = some error := by
  cases error with
  | lexical error =>
    have herror := error.ofJson?_members (string "lex")
    simp [ofJson?, members, string?, herror]
  | unexpected error =>
    have herror := error.ofJson?_members
    have htype : (object (unexpected error).members).member? "type" = some (string "syntax") := by
      simp [members]
    simp [ofJson?, htype, string?, herror]
  | tooDeep limit position => simp [ofJson?, members, string?, number?]

/-- **A report tells of its outcome.** -/
theorem Outcome.ofJson?_report (outcome : Outcome) : ofJson? (report outcome) = some outcome := by
  match outcome with
  | .ok () => simp [ofJson?, report, string?]
  | .error error => simp [ofJson?, report, string?, error.ofJson?_members]

/-- The list of the expected kinds in a report. -/
def Json.expected? (report : Json) : Option (List Json) := do
  (← (← report.member? "error").member? "expected").items?

theorem expected?_report (error : SyntaxError) :
    (Outcome.report (.error (.unexpected error))).expected? =
      some (error.expected.kinds.map TokenKind.toJson) := by
  simp [expected?, Outcome.report, ParseError.members, items?]

/-- **The line that is printed of an outcome loses nothing.** It is one JSON text with no control
character in it, and the value that this text stands for, of which there is only one, tells of the
outcome. If it is a syntax error, then the expected kinds are listed once each, in their order. So no two
outcomes are printed alike. -/
theorem report_lossless :
    (∀ outcome : Outcome, ∃ text, Command.Format.json.outcomeText outcome = Command.line text ∧
      Printable text.toList ∧ (∃ value, IsText text value) ∧
      ∀ value, IsText text value → Outcome.ofJson? value = some outcome ∧
        ∀ error, outcome = .error (.unexpected error) → ∃ kinds : List TokenKind,
          value.expected? = some (kinds.map TokenKind.toJson) ∧ kinds.Pairwise (· < ·) ∧
          ∀ kind, kind ∈ kinds ↔ kind ∈ error.expected) ∧
    ∀ outcome other : Outcome, Command.Format.json.outcomeText outcome =
      Command.Format.json.outcomeText other → outcome = other := by
  have hreads : ∀ {outcome : Outcome} {value : Json}, IsText outcome.report.render value →
      value = outcome.report := fun htext => htext.unique (isText_render _)
  refine ⟨fun outcome => ?_, fun outcome other hline => ?_⟩
  · refine ⟨outcome.report.render, rfl, printable_render _, ⟨_, isText_render _⟩, fun value htext => ?_⟩
    obtain rfl := hreads htext
    refine ⟨outcome.ofJson?_report, ?_⟩
    rintro error rfl
    exact ⟨error.expected.kinds, expected?_report error, error.expected.ascending, fun kind => Iff.rfl⟩
  · have hrender : outcome.report.render = other.report.render := by
      have hlines : outcome.report.render ++ "\n" = other.report.render ++ "\n" := hline
      exact (String.append_left_inj _).1 hlines
    have hreport : outcome.report = other.report := hreads (hrender ▸ isText_render _)
    have hsome : some outcome = some other := by
      rw [← outcome.ofJson?_report, hreport, other.ofJson?_report]
    exact Option.some.inj hsome

end Cal
