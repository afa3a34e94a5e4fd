import ConsoleSweep.Arguments
import ConsoleSweep.Arguments.Help
import ConsoleSweep.Call
import ConsoleSweep.Clean
import ConsoleSweep.Command
import ConsoleSweep.Comment
import ConsoleSweep.Config
import ConsoleSweep.Csv
import ConsoleSweep.Decimal.Binary
import ConsoleSweep.Decimal.Reader
import ConsoleSweep.Decimal.Shortest
import ConsoleSweep.Disk
import ConsoleSweep.Disk.Files
import ConsoleSweep.Disk.RealPath
import ConsoleSweep.Disk.Walk
import ConsoleSweep.EnvFile
import ConsoleSweep.Fault
import ConsoleSweep.Json
import ConsoleSweep.Json.Number
import ConsoleSweep.Json.Parser
import ConsoleSweep.Json.Printer
import ConsoleSweep.Log
import ConsoleSweep.Log.Logger
import ConsoleSweep.Main
import ConsoleSweep.Meter
import ConsoleSweep.Metrics
import ConsoleSweep.Path
import ConsoleSweep.Program
import ConsoleSweep.Prompt
import ConsoleSweep.Proofs.Begin
import ConsoleSweep.Proofs.Calls
import ConsoleSweep.Proofs.Calm
import ConsoleSweep.Proofs.Clean
import ConsoleSweep.Proofs.Command
import ConsoleSweep.Proofs.Comments
import ConsoleSweep.Proofs.Comments.Reading
import ConsoleSweep.Proofs.Comments.Token
import ConsoleSweep.Proofs.Config.Again
import ConsoleSweep.Proofs.Config.Broken
import ConsoleSweep.Proofs.Config.Load
import ConsoleSweep.Proofs.Config.Override
import ConsoleSweep.Proofs.Config.Precedence
import ConsoleSweep.Proofs.Config.Save
import ConsoleSweep.Proofs.Consent
import ConsoleSweep.Proofs.Counters
import ConsoleSweep.Proofs.Csv
import ConsoleSweep.Proofs.Disk.Grown
import ConsoleSweep.Proofs.Disk.Kept
import ConsoleSweep.Proofs.Disk.Locate
import ConsoleSweep.Proofs.Disk.Logged
import ConsoleSweep.Proofs.Disk.RealPath
import ConsoleSweep.Proofs.Disk.Walk
import ConsoleSweep.Proofs.Disk.Writes
import ConsoleSweep.Proofs.Echo
import ConsoleSweep.Proofs.Frame
import ConsoleSweep.Proofs.Heads
import ConsoleSweep.Proofs.Hush
import ConsoleSweep.Proofs.Json.Floats
import ConsoleSweep.Proofs.Json.RoundTrip
import ConsoleSweep.Proofs.Json.Scalars
import ConsoleSweep.Proofs.Log.Counts
import ConsoleSweep.Proofs.Log.Lines
import ConsoleSweep.Proofs.Loose
import ConsoleSweep.Proofs.Meter
import ConsoleSweep.Proofs.Metrics
import ConsoleSweep.Proofs.Parts
import ConsoleSweep.Proofs.Path
import ConsoleSweep.Proofs.Removal.BlankLines
import ConsoleSweep.Proofs.Removal.Blocks
import ConsoleSweep.Proofs.Removal.Inlaid
import ConsoleSweep.Proofs.Removal.Inline
import ConsoleSweep.Proofs.Removal.Keyword
import ConsoleSweep.Proofs.Removal.LineEndings
import ConsoleSweep.Proofs.Removal.Listing
import ConsoleSweep.Proofs.Removal.Lockstep
import ConsoleSweep.Proofs.Removal.MethodLists
import ConsoleSweep.Proofs.Removal.Outcome
import ConsoleSweep.Proofs.Removal.Passes
import ConsoleSweep.Proofs.Removal.Quiet
import ConsoleSweep.Proofs.Removal.Regions
import ConsoleSweep.Proofs.Removal.Statements
import ConsoleSweep.Proofs.Removal.Tidied
import ConsoleSweep.Proofs.Removal.Whole
import ConsoleSweep.Proofs.Report
import ConsoleSweep.Proofs.Report.Rows
import ConsoleSweep.Proofs.Results
import ConsoleSweep.Proofs.Scan
import ConsoleSweep.Proofs.Scan.Results
import ConsoleSweep.Proofs.Search
import ConsoleSweep.Proofs.Settings
import ConsoleSweep.Proofs.Show
import ConsoleSweep.Proofs.Snapshot
import ConsoleSweep.Proofs.Store
import ConsoleSweep.Proofs.Store.Damaged
import ConsoleSweep.Proofs.Store.Files
import ConsoleSweep.Proofs.Store.Map
import ConsoleSweep.Proofs.Store.Operations
import ConsoleSweep.Proofs.Sync
import ConsoleSweep.Proofs.Text.Lines
import ConsoleSweep.Proofs.Text.Patterns
import ConsoleSweep.Proofs.Text.Pieces
import ConsoleSweep.Proofs.Text.Utf8
import ConsoleSweep.Proofs.Watch.Look
import ConsoleSweep.Proofs.Watch.Run
import ConsoleSweep.Proofs.Watch.Wait
import ConsoleSweep.Removal
import ConsoleSweep.Report
import ConsoleSweep.Scan
import ConsoleSweep.Settings
import ConsoleSweep.Settings.Issue
import ConsoleSweep.Store
import ConsoleSweep.Store.Files
import ConsoleSweep.Text.Basic
import ConsoleSweep.Text.Blank
import ConsoleSweep.Text.Digit
import ConsoleSweep.Text.Printable
import ConsoleSweep.Text.Quoted
import ConsoleSweep.Text.Span
import ConsoleSweep.Text.Template
import ConsoleSweep.Text.Upper
import ConsoleSweep.Text.Utf8
import ConsoleSweep.Text.Word
import ConsoleSweep.Text.Wrap
import ConsoleSweep.Time
import ConsoleSweep.Watch
import ConsoleSweep.World
