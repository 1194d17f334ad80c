import CommandShell.Argument
import CommandShell.Binding.Basic
import CommandShell.Binding.Keywords
import CommandShell.Command.Basic
import CommandShell.Command.Parameter
import CommandShell.Command.Registry
import CommandShell.Command.Signature
import CommandShell.Completion
import CommandShell.Datum.Basic
import CommandShell.Datum.Enumeration
import CommandShell.Datum.Json
import CommandShell.Datum.Moment
import CommandShell.Datum.Toml.Document
import CommandShell.Datum.Toml.Scalar
import CommandShell.Datum.Toml.Value
import CommandShell.Datum.ValueType
import CommandShell.Diagnostic
import CommandShell.Display.Ansi
import CommandShell.Display.Log
import CommandShell.Display.Table
import CommandShell.Element.Basic
import CommandShell.Entries
import CommandShell.Fault
import CommandShell.Inspection
import CommandShell.Layout.Basic
import CommandShell.Layout.Commands
import CommandShell.Layout.Owners
import CommandShell.Main
import CommandShell.Number.Binary64
import CommandShell.Number.Decimal
import CommandShell.Number.Numeral
import CommandShell.Number.Reading
import CommandShell.Owner.Basic
import CommandShell.Owner.Merge
import CommandShell.Plugin.Bundled
import CommandShell.Plugin.Files
import CommandShell.Plugin.Load
import CommandShell.Plugin.Module
import CommandShell.Pool.Basic
import CommandShell.Quoting
import CommandShell.Ranking
import CommandShell.Session.Help
import CommandShell.Session.Interaction
import CommandShell.Session.Line
import CommandShell.Settings.Assignments
import CommandShell.Settings.Basic
import CommandShell.Settings.Layers
import CommandShell.Settings.Path
import CommandShell.Settings.Sections
import CommandShell.Startup.Host
import CommandShell.Startup.Steps
import CommandShell.Statement
import CommandShell.Text.Alphabetic
import CommandShell.Text.Basic
import CommandShell.Text.Blank
import CommandShell.Text.CaseFold
import CommandShell.Text.CaseRange
import CommandShell.Text.Lowercase
import CommandShell.Text.Numeric
import CommandShell.Text.Printable
import CommandShell.Text.Quoted
import CommandShell.Text.Similar
import CommandShell.Text.Uppercase
import CommandShell.Token.Basic
import CommandShell.Token.Lexeme
import CommandShell.Token.Scan
import CommandShell.Proofs.Token.Tiling
import CommandShell.Proofs.Quoting.Argument
import CommandShell.Proofs.Quoting.RoundTrip
import CommandShell.Proofs.Completion.Span
import CommandShell.Proofs.Binding.Named
import CommandShell.Proofs.Quoting.Invocation
import CommandShell.Proofs.Session.Invocation
import CommandShell.Proofs.Token.Locality
import CommandShell.Proofs.Token.Separator
import CommandShell.Proofs.Binding.Pass
import CommandShell.Proofs.Binding.Cursor
import CommandShell.Proofs.Completion.Invocation
import CommandShell.Proofs.Binding.Replace
import CommandShell.Proofs.Element.Append
import CommandShell.Proofs.Quoting.Inline
import CommandShell.Proofs.Completion.Ending
import CommandShell.Proofs.Completion.Acceptance
import CommandShell.Proofs.Binding.Partition
import CommandShell.Proofs.Binding.Order
import CommandShell.Proofs.Statement.Append
import CommandShell.Proofs.Binding.Shift
import CommandShell.Proofs.Session.Chain
import CommandShell.Proofs.Completion.Locality
import CommandShell.Proofs.Token.Spaced
import CommandShell.Proofs.Token.Modes
import CommandShell.Proofs.Binding.Readings
import CommandShell.Proofs.Binding.Writes
import CommandShell.Proofs.Number.Reading
import CommandShell.Proofs.Session.Answers
import CommandShell.Proofs.Fault
import CommandShell.Proofs.Datum.ValueType
import CommandShell.Proofs.Binding.Escape
import CommandShell.Proofs.Session.Ending
import CommandShell.Proofs.Element.Parts
import CommandShell.Proofs.Binding.Keywords
import CommandShell.Proofs.Session.Calls
import CommandShell.Proofs.Binding.Spelling
import CommandShell.Proofs.Owner.Name
import CommandShell.Proofs.Token.Member
import CommandShell.Proofs.Owner.Merge
import CommandShell.Proofs.Owner.Kind
import CommandShell.Proofs.Binding.Member
import CommandShell.Proofs.Binding.Supply
import CommandShell.Proofs.Session.Reference
import CommandShell.Proofs.Binding.Front
import CommandShell.Proofs.Completion.Offer
import CommandShell.Proofs.Completion.Escape
import CommandShell.Proofs.Completion.Pair
import CommandShell.Proofs.Completion.Member
import CommandShell.Proofs.Session.Dispatch
import CommandShell.Proofs.Session.Refusal
import CommandShell.Proofs.Text.Lowercase
import CommandShell.Proofs.Binding.Claims
import CommandShell.Proofs.Element.Around
import CommandShell.Proofs.Completion.Rename
import CommandShell.Proofs.Completion.Name
import CommandShell.Proofs.Completion.Suggestion
import CommandShell.Proofs.Entries
import CommandShell.Proofs.Binding.Typed
import CommandShell.Proofs.Pool.Supplied
import CommandShell.Proofs.Session.Trace
import CommandShell.Proofs.Session.Variables
import CommandShell.Proofs.Session.Help
import CommandShell.Proofs.Session.Offered
import CommandShell.Proofs.Command.Registry
import CommandShell.Proofs.Owner.Registry
import CommandShell.Proofs.Registration
import CommandShell.Proofs.Layout.Tree
import CommandShell.Proofs.Layout.Commands
import CommandShell.Proofs.Binding.Places
import CommandShell.Proofs.Plugin.Again
import CommandShell.Proofs.Plugin.Bundled
import CommandShell.Proofs.Session.State
import CommandShell.Proofs.Settings.Precedence
import CommandShell.Proofs.Layout.Spoiled
import CommandShell.Proofs.Ranking
import CommandShell.Proofs.Session.Lacking
import CommandShell.Proofs.Session.Assignment
import CommandShell.Proofs.Number.Rounding
import CommandShell.Proofs.Number.Digits
import CommandShell.Proofs.Session.Whole
import CommandShell.Proofs.Datum.Enumeration
import CommandShell.Proofs.Quoting.Grammar
import CommandShell.Proofs.Layout.Made
import CommandShell.Proofs.Layout.Removal
import CommandShell.Proofs.Layout.Shown
import CommandShell.Proofs.Layout.Display
import CommandShell.Proofs.Text.Pieces
import CommandShell.Proofs.Display.Ansi
import CommandShell.Proofs.Display.Table
import CommandShell.Proofs.Number.Nan
import CommandShell.Proofs.Settings.Constraints
import CommandShell.Proofs.Pool.Collected
import CommandShell.Proofs.Token.Touching
import CommandShell.Proofs.Owner.Split
import CommandShell.Proofs.Element.Name
import CommandShell.Proofs.Binding.OnName
import CommandShell.Proofs.Display.Sequence
import CommandShell.Proofs.Command.Signature
import CommandShell.Proofs.Inspection
