import TreeConsole.Act
import TreeConsole.Audit.Backlog
import TreeConsole.Audit.Event
import TreeConsole.Calendar.Date
import TreeConsole.Calendar.Instant
import TreeConsole.Calendar.Rfc3339
import TreeConsole.Client.Basic
import TreeConsole.Client.Faults
import TreeConsole.Command.Basic
import TreeConsole.Command.Handler
import TreeConsole.Command.Help
import TreeConsole.Command.Policy
import TreeConsole.Decimal.Binary64
import TreeConsole.Decimal.Shortest
import TreeConsole.Desk
import TreeConsole.Disk
import TreeConsole.Editor.Basic
import TreeConsole.Editor.External
import TreeConsole.Failure
import TreeConsole.Json.Basic
import TreeConsole.Json.Printer
import TreeConsole.Json.Reader
import TreeConsole.Json.Shape
import TreeConsole.Keyword
import TreeConsole.Log.Level
import TreeConsole.Log.Record
import TreeConsole.Main
import TreeConsole.Main.LineEdit.Basic
import TreeConsole.Main.LineEdit.Reader
import TreeConsole.Main.SmallProgram
import TreeConsole.Node.Error
import TreeConsole.Node.Path
import TreeConsole.Node.Stat
import TreeConsole.OsError
import TreeConsole.Outcome
import TreeConsole.Program
import TreeConsole.Proofs.Act.Triple
import TreeConsole.Proofs.Audit.Latest
import TreeConsole.Proofs.Calendar.Date
import TreeConsole.Proofs.Calendar.Rfc3339
import TreeConsole.Proofs.Calendar.Sentence
import TreeConsole.Proofs.Calendar.Succession
import TreeConsole.Proofs.Command.Arguments
import TreeConsole.Proofs.Command.Assignment
import TreeConsole.Proofs.Command.Chunks
import TreeConsole.Proofs.Command.Language
import TreeConsole.Proofs.Command.Line
import TreeConsole.Proofs.Command.Partition
import TreeConsole.Proofs.Command.Requests
import TreeConsole.Proofs.Command.Spelling
import TreeConsole.Proofs.Disk.Appending
import TreeConsole.Proofs.Json.Exact
import TreeConsole.Proofs.Json.Framing
import TreeConsole.Proofs.Json.Grammar
import TreeConsole.Proofs.Json.Lexicon
import TreeConsole.Proofs.Json.Payload
import TreeConsole.Proofs.Json.RoundTrip
import TreeConsole.Proofs.Json.Tokens
import TreeConsole.Proofs.Node.Canonical
import TreeConsole.Proofs.Node.Cutting
import TreeConsole.Proofs.Node.Order
import TreeConsole.Proofs.Node.Spelling
import TreeConsole.Proofs.Node.Stat
import TreeConsole.Proofs.Question.Console
import TreeConsole.Proofs.Question.Splitting
import TreeConsole.Proofs.Runner.Answers
import TreeConsole.Proofs.Runner.Audit
import TreeConsole.Proofs.Runner.Changes
import TreeConsole.Proofs.Runner.Course
import TreeConsole.Proofs.Runner.Deletion
import TreeConsole.Proofs.Runner.Failure
import TreeConsole.Proofs.Runner.Gate
import TreeConsole.Proofs.Runner.Likeness
import TreeConsole.Proofs.Runner.Listing
import TreeConsole.Proofs.Runner.Logging
import TreeConsole.Proofs.Runner.Obstacle
import TreeConsole.Proofs.Runner.PathTexts
import TreeConsole.Proofs.Runner.Readings
import TreeConsole.Proofs.Runner.Recording
import TreeConsole.Proofs.Runner.Run
import TreeConsole.Proofs.Runner.Sessions
import TreeConsole.Proofs.Runner.Storing
import TreeConsole.Proofs.Runner.Table
import TreeConsole.Proofs.Runner.Unheard
import TreeConsole.Proofs.Shell.Breakdown
import TreeConsole.Proofs.Shell.Curtailed
import TreeConsole.Proofs.Shell.Dialogue
import TreeConsole.Proofs.Shell.Ending
import TreeConsole.Proofs.Shell.Happening
import TreeConsole.Proofs.Shell.Limit
import TreeConsole.Proofs.Shell.Running
import TreeConsole.Proofs.Shell.Script
import TreeConsole.Proofs.Shell.Stopping
import TreeConsole.Proofs.Shell.Turn
import TreeConsole.Proofs.Telemetry.Files
import TreeConsole.Proofs.Telemetry.Ledger
import TreeConsole.Proofs.Telemetry.Lines
import TreeConsole.Proofs.Text.ByteOrder
import TreeConsole.Proofs.Text.Columns
import TreeConsole.Proofs.Text.Encoding
import TreeConsole.Proofs.Text.LineByLine
import TreeConsole.Proofs.Text.Lossy
import TreeConsole.Proofs.Tree.Call
import TreeConsole.Proofs.Tree.Change
import TreeConsole.Proofs.Tree.History
import TreeConsole.Proofs.Tree.Metadata
import TreeConsole.Proofs.Tree.Outline
import TreeConsole.Proofs.Tree.Refinement
import TreeConsole.Proofs.Tree.Refusal
import TreeConsole.Proofs.Tree.Seeding
import TreeConsole.Proofs.Tree.Sound
import TreeConsole.Proofs.Tree.Walk
import TreeConsole.Proofs.Tree.Way
import TreeConsole.Question.Basic
import TreeConsole.Question.Confirmer
import TreeConsole.Runner
import TreeConsole.Session
import TreeConsole.Settings.Arguments
import TreeConsole.Settings.Basic
import TreeConsole.Shell
import TreeConsole.ShellError
import TreeConsole.Telemetry.Basic
import TreeConsole.Telemetry.Journal
import TreeConsole.Terminal
import TreeConsole.Text.Blank
import TreeConsole.Text.Columns
import TreeConsole.Text.Hidden
import TreeConsole.Text.Quoted
import TreeConsole.Text.Utf8
import TreeConsole.Token
import TreeConsole.Toml.Reader
import TreeConsole.Toml.Value
import TreeConsole.Tree.Admin
import TreeConsole.Tree.Basic
import TreeConsole.Tree.Client
import TreeConsole.Tree.Seed
import TreeConsole.Tree.Walk
