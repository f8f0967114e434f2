import NoteShell.Chart.Color
import NoteShell.Chart.Line
import NoteShell.Chart.Picture
import NoteShell.Chart.Png
import NoteShell.Chart.Render
import NoteShell.Chart.Skills
import NoteShell.Chat.Completion
import NoteShell.Chat.ContextId
import NoteShell.Chat.Conversation
import NoteShell.Chat.History
import NoteShell.Chat.Message
import NoteShell.Chat.ProviderConfig
import NoteShell.Chat.ProviderError
import NoteShell.Chat.Settings
import NoteShell.Chat.SettingsFile
import NoteShell.Chat.Skills
import NoteShell.Decimal.Binary
import NoteShell.Decimal.Notation
import NoteShell.Decimal.Read
import NoteShell.Decimal.Shortest
import NoteShell.Decimal.Word
import NoteShell.Grammar.Expression
import NoteShell.Grammar.Fault
import NoteShell.Grammar.Field
import NoteShell.Grammar.Layout
import NoteShell.Grammar.Literal
import NoteShell.Grammar.Program
import NoteShell.Grammar.Reader
import NoteShell.Grammar.Token
import NoteShell.Grammar.Tree
import NoteShell.Host.Basic
import NoteShell.Host.Files
import NoteShell.Host.NoteContext
import NoteShell.Host.Path
import NoteShell.Host.Workbook
import NoteShell.Json.Basic
import NoteShell.Json.Number
import NoteShell.Json.Parser
import NoteShell.Json.Printer
import NoteShell.Json.Written
import NoteShell.Main
import NoteShell.Proofs.Chart.Colors
import NoteShell.Proofs.Chart.Lines
import NoteShell.Proofs.Chat.Headers
import NoteShell.Proofs.Chat.Histories
import NoteShell.Proofs.Chat.Isolation
import NoteShell.Proofs.Chat.Retries
import NoteShell.Proofs.Execution.Binding
import NoteShell.Proofs.Execution.CallLimit
import NoteShell.Proofs.Execution.Changes
import NoteShell.Proofs.Execution.ContextNames
import NoteShell.Proofs.Execution.ControlFlow
import NoteShell.Proofs.Execution.Definitions
import NoteShell.Proofs.Execution.Discipline
import NoteShell.Proofs.Execution.DisciplinedPrograms
import NoteShell.Proofs.Execution.Frames
import NoteShell.Proofs.Execution.Functions
import NoteShell.Proofs.Execution.Invariant
import NoteShell.Proofs.Execution.Names
import NoteShell.Proofs.Execution.PrimitiveCalls
import NoteShell.Proofs.Execution.PrimitiveMethods
import NoteShell.Proofs.Execution.Primitives
import NoteShell.Proofs.Execution.Reach
import NoteShell.Proofs.Execution.Rounds
import NoteShell.Proofs.Execution.Run
import NoteShell.Proofs.Execution.SafePrograms
import NoteShell.Proofs.Execution.Safety
import NoteShell.Proofs.Execution.Termination
import NoteShell.Proofs.Host.Files
import NoteShell.Proofs.Host.LogFraming
import NoteShell.Proofs.Json.Indented
import NoteShell.Proofs.Json.Members
import NoteShell.Proofs.Json.Sound
import NoteShell.Proofs.Lexing.Blocks
import NoteShell.Proofs.Lexing.Consumption
import NoteShell.Proofs.Lexing.Lexeme
import NoteShell.Proofs.Lexing.Lines
import NoteShell.Proofs.Lexing.Literal
import NoteShell.Proofs.Lexing.Margins
import NoteShell.Proofs.Lexing.Numbers
import NoteShell.Proofs.Lexing.Places
import NoteShell.Proofs.Lexing.Quotation
import NoteShell.Proofs.Lexing.Trimmed
import NoteShell.Proofs.Lexing.Weight
import NoteShell.Proofs.Parsing.Brackets
import NoteShell.Proofs.Parsing.Composition
import NoteShell.Proofs.Parsing.Depth
import NoteShell.Proofs.Parsing.Derivation
import NoteShell.Proofs.Parsing.FastPath
import NoteShell.Proofs.Parsing.FieldMeaning
import NoteShell.Proofs.Parsing.Fields
import NoteShell.Proofs.Parsing.Limits
import NoteShell.Proofs.Parsing.Nesting
import NoteShell.Proofs.Parsing.Parts
import NoteShell.Proofs.Parsing.Placement
import NoteShell.Proofs.Parsing.Rank
import NoteShell.Proofs.Parsing.Readable
import NoteShell.Proofs.Parsing.Reads
import NoteShell.Proofs.Parsing.Remainder
import NoteShell.Proofs.Parsing.Rendering
import NoteShell.Proofs.Parsing.RoundTrip
import NoteShell.Proofs.Parsing.Sequence
import NoteShell.Proofs.Parsing.Sources
import NoteShell.Proofs.Parsing.Statements
import NoteShell.Proofs.Regions.Basic
import NoteShell.Proofs.Regions.Programs
import NoteShell.Proofs.Shell.CommandPaths
import NoteShell.Proofs.Shell.Commands
import NoteShell.Proofs.Shell.ContextNames
import NoteShell.Proofs.Shell.DictKeys
import NoteShell.Proofs.Shell.InputLines
import NoteShell.Proofs.Shell.SequenceLimit
import NoteShell.Proofs.Shell.Sessions
import NoteShell.Proofs.Shell.SharedContext
import NoteShell.Proofs.Skill.Registration
import NoteShell.Proofs.Table.Delimited
import NoteShell.Proofs.Table.Markdown
import NoteShell.Proofs.Text.Lengths
import NoteShell.Proofs.Text.Occurrences
import NoteShell.Proofs.Text.Trimming
import NoteShell.Proofs.Text.Utf8
import NoteShell.Proofs.Values.Builtins
import NoteShell.Proofs.Values.Data
import NoteShell.Proofs.Values.Display
import NoteShell.Proofs.Values.Entries
import NoteShell.Proofs.Values.Equality
import NoteShell.Proofs.Values.FormattedIntegers
import NoteShell.Proofs.Values.IntegerTexts
import NoteShell.Proofs.Values.Integers
import NoteShell.Proofs.Values.JsonForm
import NoteShell.Proofs.Values.JsonNesting
import NoteShell.Proofs.Values.JsonRoundTrip
import NoteShell.Proofs.Values.Methods
import NoteShell.Proofs.Values.Operators
import NoteShell.Proofs.Values.Ordering
import NoteShell.Proofs.Values.Ranges
import NoteShell.Proofs.Values.ReadBack
import NoteShell.Proofs.Values.Rounding
import NoteShell.Proofs.Values.Searching
import NoteShell.Proofs.Values.SliceEquality
import NoteShell.Proofs.Values.Slices
import NoteShell.Proofs.Values.Sorting
import NoteShell.Proofs.Values.Sound
import NoteShell.Proofs.Values.TextLimit
import NoteShell.Script.Arithmetic
import NoteShell.Script.Builtins
import NoteShell.Script.Call
import NoteShell.Script.CallArgs
import NoteShell.Script.Compare
import NoteShell.Script.DictMethods
import NoteShell.Script.Effect
import NoteShell.Script.Error
import NoteShell.Script.Eval
import NoteShell.Script.FloatOps
import NoteShell.Script.Format
import NoteShell.Script.JsonForm
import NoteShell.Script.Kind
import NoteShell.Script.ListMethods
import NoteShell.Script.Loop
import NoteShell.Script.Names
import NoteShell.Script.Numeral
import NoteShell.Script.Operator
import NoteShell.Script.Overview
import NoteShell.Script.Range
import NoteShell.Script.Repr
import NoteShell.Script.Sequence
import NoteShell.Script.Sort
import NoteShell.Script.State
import NoteShell.Script.Steps
import NoteShell.Script.StrMethods
import NoteShell.Script.Value
import NoteShell.Shell.Command
import NoteShell.Shell.Route
import NoteShell.Shell.Session
import NoteShell.Shell.Startup
import NoteShell.Skill.Args
import NoteShell.Skill.Registry
import NoteShell.Table.Basic
import NoteShell.Table.Delimited
import NoteShell.Table.Markdown
import NoteShell.Table.Read
import NoteShell.Table.Skills
import NoteShell.Text.Alphabetic
import NoteShell.Text.Case
import NoteShell.Text.CaseTable
import NoteShell.Text.Cased
import NoteShell.Text.CharClass
import NoteShell.Text.CodePointSet
import NoteShell.Text.Lines
import NoteShell.Text.Quoted
import NoteShell.Text.Search
import NoteShell.Text.Trim
import NoteShell.Text.Unprintable
import NoteShell.Text.Utf8
import NoteShell.Toml.Basic
import NoteShell.Toml.Document
import NoteShell.Toml.Scalar
import NoteShell.Toml.Text
