import Cal.Lexer.Basic
import Cal.Parser.Program
import Cal.Source.TokenList

/-!
# Parses

The recogniser as a function: of a text, or of tokens that are already at hand. A parse is either
accepted, which says nothing more, or refused with one error. A transcript is a parse together
with the events that were reported on the way.
-/

namespace Cal

/-- What comes of a parse. -/
abbrev Outcome := Except ParseError Unit

/-- What a transcript is of. -/
inductive Span
  | text (file : String)
  | tokens
deriving DecidableEq

/-- A parse and what was reported on the way, in order. -/
structure Transcript where
  span : Span
  events : List Event
  outcome : Outcome

/-- The transcript of the parse of a source. -/
def Transcript.ofSource {σ : Type} [FiniteSource σ] (span : Span) (source : σ) : Transcript :=
  match Parser.program (.ofSource source) with
  | .ok _ parser => ⟨span, parser.events.reverse, .ok ()⟩
  | .error error parser => ⟨span, parser.events.reverse, .error error⟩

/-- The transcript of the parse of a text. -/
def transcribeText (file text : String) : Transcript := .ofSource (.text file) (Lexer.ofString text)

/-- The transcript of the parse of tokens. -/
def transcribeTokens (tokens : List Token) : Transcript := .ofSource .tokens (TokenList.ofList tokens)

/-- Parses a source from its beginning. -/
def parseSource {σ : Type} [FiniteSource σ] (source : σ) : Outcome :=
  match Parser.program (.ofSource source) with
  | .ok _ _ => .ok ()
  | .error error _ => .error error

/-- Parses a text. -/
def parseText (text : String) : Outcome := parseSource (Lexer.ofString text)

/-- Parses tokens. -/
def parseTokens (tokens : List Token) : Outcome := parseSource (TokenList.ofList tokens)

end Cal
