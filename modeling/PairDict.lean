import PairDict.Text.Utf8
import PairDict.Pos
import PairDict.Token
import PairDict.Lexeme
import PairDict.Lexeme.Scan
import PairDict.Lexeme.Cursor
import PairDict.Lexeme.Scanner
import PairDict.Tree
import PairDict.Tree.Parser
import PairDict.Tree.Walk
import PairDict.Tree.Outline
import PairDict.Text.Json
import PairDict.Tree.Document
import PairDict.Scope
import PairDict.Ty
import PairDict.Typing.Check
import PairDict.Value
import PairDict.Run.Fault
import PairDict.Run.Eval
import PairDict.Run.Exec
import PairDict.Pipeline
import PairDict.Text.Blank
import PairDict.Text.Shown
import PairDict.Text.Quoted
import PairDict.Yaml.Problem
import PairDict.Yaml.Input
import PairDict.Yaml.Token
import PairDict.Yaml.Scalar
import PairDict.Yaml.Scan
import PairDict.Yaml.Node
import PairDict.Yaml.Number
import PairDict.Yaml.Timestamp
import PairDict.Yaml.Tag
import PairDict.Settings.Draft
import PairDict.Settings
import PairDict.Options
import PairDict.Path
import PairDict.Files
import PairDict.Command.Diagnostics
import PairDict.Command.History
import PairDict.Command.Session
import PairDict.Command
import PairDict.Typing.Record
import PairDict.Command.Duration
import PairDict.Main
import PairDict.Proofs.Typing.Decided
import PairDict.Proofs.Tree.Address
import PairDict.Proofs.Typing.Recorded
import PairDict.Proofs.Run.Lockstep
import PairDict.Proofs.Run.Soundness
import PairDict.Proofs.Run.Visited
import PairDict.Proofs.Grammar.Derivation
import PairDict.Proofs.Grammar.Derived
import PairDict.Proofs.Grammar.Recognized
import PairDict.Proofs.Grammar.Unambiguous
import PairDict.Proofs.Text.Decoded
import PairDict.Proofs.Lexeme.Pattern
import PairDict.Proofs.Lexeme.Longest
import PairDict.Proofs.Lexeme.Gap
import PairDict.Proofs.Lexeme.Munch
import PairDict.Proofs.Lexeme.Layout
import PairDict.Proofs.Lexeme.Order
import PairDict.Proofs.Grammar.Leftover
import PairDict.Proofs.Grammar.Lookahead
import PairDict.Proofs.Grammar.Settled
import PairDict.Proofs.Grammar.CorrectPrefix
import PairDict.Proofs.Grammar.Printed
import PairDict.Proofs.Tree.Relabel
import PairDict.Proofs.Pipeline.Layout
import PairDict.Proofs.Tree.Rename
import PairDict.Proofs.Run.Renamed
import PairDict.Proofs.Typing.Renamed
import PairDict.Proofs.Scope.Level
import PairDict.Proofs.Run.Discipline
import PairDict.Proofs.Run.Truncated
import PairDict.Proofs.Grammar.Agreement
import PairDict.Proofs.Grammar.SameFailure
import PairDict.Proofs.Lexeme.Located
import PairDict.Proofs.Lexeme.Exact
import PairDict.Proofs.Tree.Built
import PairDict.Proofs.Grammar.Placed
import PairDict.Proofs.Pipeline.Located
import PairDict.Proofs.Files.Written
import PairDict.Proofs.Command.Job
import PairDict.Proofs.Command.Delivered
import PairDict.Proofs.Command.Executed
import PairDict.Proofs.Text.JsonGrammar
import PairDict.Proofs.Text.JsonDepth
import PairDict.Proofs.Text.JsonRendered
import PairDict.Proofs.Tree.Documented
import PairDict.Proofs.Value.Ordered
import PairDict.Proofs.Value.Shared
import PairDict.Proofs.Value.History
import PairDict.Proofs.Value.Printed
import PairDict.Proofs.Run.Made
import PairDict.Proofs.Run.Unrolled
import PairDict.Proofs.Grammar.Parsed
import PairDict.Proofs.Tree.Indented
import PairDict.Proofs.Typing.Noted
import PairDict.Proofs.Typing.Printed
import PairDict.Proofs.Tree.Outlined
import PairDict.Proofs.Lexeme.Scanned
import PairDict.Proofs.Grammar.InOrder
import PairDict.Proofs.Typing.Tabled
import PairDict.Proofs.Typing.Entered
import PairDict.Proofs.Typing.Visible
import PairDict.Proofs.Tree.Lines
import PairDict.Proofs.Typing.Complete
import PairDict.Proofs.Scope.Nested
import PairDict.Proofs.Run.Arithmetic
import PairDict.Proofs.Typing.Mismatch
import PairDict.Proofs.Lexeme.Offset
import PairDict.Proofs.Grammar.Progress
