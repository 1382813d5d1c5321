import LoxExpr.Text.Bytes
import LoxExpr.Text.CharClass
import LoxExpr.Text.Blank
import LoxExpr.Text.Printable
import LoxExpr.Text.Quoted
import LoxExpr.Text.Line
import LoxExpr.Position
import LoxExpr.Number.Basic
import LoxExpr.Number.Rounding
import LoxExpr.Number.Reader
import LoxExpr.Number.Shortest
import LoxExpr.Token.Kind
import LoxExpr.Token.Literal
import LoxExpr.Token.Basic
import LoxExpr.Token.Pattern
import LoxExpr.Token.Scanner
import LoxExpr.Expr.Basic
import LoxExpr.Expr.Printer
import LoxExpr.Fault
import LoxExpr.Event
import LoxExpr.Diagnostic
import LoxExpr.Grammar.Rule
import LoxExpr.Grammar.Parser
import LoxExpr.Grammar.Descent
import LoxExpr.Grammar.Nesting
import LoxExpr.Command.Arguments
import LoxExpr.Command.Session
import LoxExpr.Main
import LoxExpr.Proofs.Number.Exact
import LoxExpr.Proofs.Number.Display
import LoxExpr.Proofs.Text.Bytes
import LoxExpr.Proofs.Text.Lines
import LoxExpr.Proofs.Lexing.Lexeme
import LoxExpr.Proofs.Lexing.Meaning
import LoxExpr.Proofs.Lexing.Steps
import LoxExpr.Proofs.Lexing.Layout
import LoxExpr.Proofs.Lexing.Offset
import LoxExpr.Proofs.Lexing.Choice
import LoxExpr.Proofs.Lexing.Spacing
import LoxExpr.Proofs.Grammar.Cursor
import LoxExpr.Proofs.Grammar.Tree
import LoxExpr.Proofs.Grammar.Bare
import LoxExpr.Proofs.Grammar.Run
import LoxExpr.Proofs.Grammar.Phrase
import LoxExpr.Proofs.Grammar.Acceptance
import LoxExpr.Proofs.Grammar.Pushdown
import LoxExpr.Proofs.Source.Result
import LoxExpr.Proofs.Source.RoundTrip
import LoxExpr.Proofs.Grammar.Operation
import LoxExpr.Proofs.Grammar.Lookahead
import LoxExpr.Proofs.Grammar.Continuation
import LoxExpr.Proofs.Grammar.Limit
import LoxExpr.Proofs.Lexing.Longest
import LoxExpr.Proofs.Lexing.Munch
import LoxExpr.Proofs.Lexing.Undivided
import LoxExpr.Proofs.Lexing.Seam
import LoxExpr.Proofs.Lexing.Shift
import LoxExpr.Proofs.Lexing.Failure
import LoxExpr.Proofs.Lexing.LineBreak
import LoxExpr.Proofs.Grammar.Blame
import LoxExpr.Proofs.Source.Shown
import LoxExpr.Proofs.Source.Diagnosis
import LoxExpr.Proofs.Grammar.Unseen
import LoxExpr.Proofs.Grammar.Mirror
import LoxExpr.Proofs.Source.Places
import LoxExpr.Proofs.Command.Agreement
import LoxExpr.Proofs.Command.Spelling
import LoxExpr.Proofs.Source.Caret
import LoxExpr.Proofs.Grammar.Maximal
import LoxExpr.Proofs.Source.Values
import LoxExpr.Proofs.Expr.Printed
import LoxExpr.Proofs.Source.Printed
import LoxExpr.Proofs.Grammar.Moment
import LoxExpr.Proofs.Grammar.Balance
import LoxExpr.Proofs.Grammar.Journal
import LoxExpr.Proofs.Source.Transcript
import LoxExpr.Proofs.Source.Journal
import LoxExpr.Proofs.Source.Excerpt
import LoxExpr.Proofs.Expr.Equality
import LoxExpr.Proofs.Source.Equality
