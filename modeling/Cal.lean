import Cal.Buffer.Basic
import Cal.Buffer.Remaining
import Cal.Command.Basic
import Cal.Command.Options
import Cal.Decision.Basic
import Cal.Decision.Log
import Cal.Error
import Cal.Grammar.Form
import Cal.Grammar.Rule
import Cal.Lexer.Basic
import Cal.Lexer.Cursor
import Cal.Lexer.Lexeme
import Cal.Lexer.Trivia
import Cal.Main
import Cal.Parse
import Cal.Parser.Basic
import Cal.Parser.Event
import Cal.Parser.Goal
import Cal.Parser.Leads
import Cal.Parser.Program
import Cal.Parser.Progress
import Cal.Parser.Run
import Cal.Position
import Cal.Probe.Basic
import Cal.Probe.Lasting
import Cal.Proofs.Command.Agreement
import Cal.Proofs.Grammar.Chain
import Cal.Proofs.Grammar.Derivation
import Cal.Proofs.Grammar.Expand
import Cal.Proofs.Grammar.First
import Cal.Proofs.Grammar.Follow
import Cal.Proofs.Grammar.Nesting
import Cal.Proofs.Grammar.Sentence
import Cal.Proofs.Grammar.Sentential
import Cal.Proofs.Grammar.Separator
import Cal.Proofs.Grammar.Weight
import Cal.Proofs.Lexer.Asking
import Cal.Proofs.Lexer.Comment
import Cal.Proofs.Lexer.Counting
import Cal.Proofs.Lexer.Definition
import Cal.Proofs.Lexer.Gap
import Cal.Proofs.Lexer.Octets
import Cal.Proofs.Lexer.Places
import Cal.Proofs.Lexer.Render
import Cal.Proofs.Lexer.Seam
import Cal.Proofs.Lexer.Tokenise
import Cal.Proofs.Lexer.Word
import Cal.Proofs.Lookahead.Leftover
import Cal.Proofs.Lookahead.Outlook
import Cal.Proofs.Lookahead.Probe
import Cal.Proofs.Lookahead.Replies
import Cal.Proofs.Lookahead.Scans
import Cal.Proofs.Lookahead.TokenList
import Cal.Proofs.Lookahead.View
import Cal.Proofs.Parser.Accounting
import Cal.Proofs.Parser.Again
import Cal.Proofs.Parser.Alike
import Cal.Proofs.Parser.Arguments
import Cal.Proofs.Parser.Asked
import Cal.Proofs.Parser.Bookkeeping
import Cal.Proofs.Parser.Calls
import Cal.Proofs.Parser.Chain
import Cal.Proofs.Parser.Conduct
import Cal.Proofs.Parser.Defences
import Cal.Proofs.Parser.Deletion
import Cal.Proofs.Parser.Depth
import Cal.Proofs.Parser.Ending
import Cal.Proofs.Parser.Faithful
import Cal.Proofs.Parser.Forced
import Cal.Proofs.Parser.Horizon
import Cal.Proofs.Parser.Kinds
import Cal.Proofs.Parser.Language
import Cal.Proofs.Parser.Missed
import Cal.Proofs.Parser.Moment
import Cal.Proofs.Parser.OnDemand
import Cal.Proofs.Parser.Opening
import Cal.Proofs.Parser.Orderly
import Cal.Proofs.Parser.Pace
import Cal.Proofs.Parser.Plan
import Cal.Proofs.Parser.Probes
import Cal.Proofs.Parser.Refusal
import Cal.Proofs.Parser.Reports
import Cal.Proofs.Parser.Returns
import Cal.Proofs.Parser.Rounds
import Cal.Proofs.Parser.Routine
import Cal.Proofs.Parser.Script
import Cal.Proofs.Parser.Shallow
import Cal.Proofs.Parser.Stage
import Cal.Proofs.Parser.Standing
import Cal.Proofs.Parser.Step
import Cal.Proofs.Parser.Suffix
import Cal.Proofs.Parser.Trace
import Cal.Proofs.Parser.Upkeep
import Cal.Proofs.Report.Grammar
import Cal.Proofs.Report.Lossless
import Cal.Proofs.Report.Message
import Cal.Proofs.Report.Written
import Cal.Report.Basic
import Cal.Report.Json
import Cal.Source.Basic
import Cal.Source.TokenList
import Cal.Text.Quoted
import Cal.Text.Unprintable
import Cal.Token.Basic
import Cal.Token.Kind
import Cal.Token.KindSet
