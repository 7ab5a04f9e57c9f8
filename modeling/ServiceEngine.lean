import ServiceEngine.CommandLine.Command
import ServiceEngine.CommandLine.Run
import ServiceEngine.Decimal.Binary
import ServiceEngine.Decimal.Layout
import ServiceEngine.Decimal.Natural
import ServiceEngine.Decimal.Reader
import ServiceEngine.Decimal.Shortest
import ServiceEngine.Exec.Call
import ServiceEngine.Exec.Eval
import ServiceEngine.Exec.Fault
import ServiceEngine.Exec.Operator
import ServiceEngine.Exec.Run
import ServiceEngine.Exec.Scope
import ServiceEngine.Exec.World
import ServiceEngine.Fields
import ServiceEngine.Json.Basic
import ServiceEngine.Json.Document
import ServiceEngine.Json.Printer
import ServiceEngine.Json.Token
import ServiceEngine.Main
import ServiceEngine.Program.Decode
import ServiceEngine.Program.Definition
import ServiceEngine.Program.Encode
import ServiceEngine.Program.Expr
import ServiceEngine.Program.Shape
import ServiceEngine.Proofs.Exec.Arena
import ServiceEngine.Proofs.Exec.Blocks
import ServiceEngine.Proofs.Exec.Effects
import ServiceEngine.Proofs.Exec.Evaluation
import ServiceEngine.Proofs.Exec.Location
import ServiceEngine.Proofs.Exec.Trace
import ServiceEngine.Proofs.Store.History
import ServiceEngine.Proofs.Store.Ledger
import ServiceEngine.Proofs.Time.Calendar
import ServiceEngine.Proofs.Time.FireTime
import ServiceEngine.Service.Engine
import ServiceEngine.Service.Job
import ServiceEngine.Service.Launch
import ServiceEngine.Service.Route
import ServiceEngine.Service.Scheduler
import ServiceEngine.Settings.Basic
import ServiceEngine.Settings.DotEnv
import ServiceEngine.Settings.Layer
import ServiceEngine.Settings.Load
import ServiceEngine.Settings.Toml
import ServiceEngine.Store.Basic
import ServiceEngine.Store.Subscriber
import ServiceEngine.Text.Blank
import ServiceEngine.Text.Split
import ServiceEngine.Time.Calendar
import ServiceEngine.Time.Cron
import ServiceEngine.Time.Instant
import ServiceEngine.Time.Span
import ServiceEngine.Time.Timing
import ServiceEngine.Value.Basic
import ServiceEngine.Value.Equality
import ServiceEngine.Value.Heap
import ServiceEngine.Value.Json
import ServiceEngine.Proofs.Exec.Agreement
import ServiceEngine.Proofs.Service.Influence
import ServiceEngine.Proofs.Store.Journal
import ServiceEngine.Proofs.Store.Readers
import ServiceEngine.Proofs.Store.Plain
import ServiceEngine.Proofs.Service.Overlap
import ServiceEngine.Proofs.Program.Documents
import ServiceEngine.Proofs.Program.Codec
import ServiceEngine.Proofs.Exec.CallForms
import ServiceEngine.Proofs.Exec.ReadOnly
import ServiceEngine.Proofs.Service.Moves
import ServiceEngine.Proofs.Service.Listeners
import ServiceEngine.Proofs.Value.Reflexive
import ServiceEngine.Proofs.Store.Queries
import ServiceEngine.Proofs.Store.OwnFields
import ServiceEngine.Proofs.Exec.Procedures
import ServiceEngine.Proofs.Store.Updates
import ServiceEngine.Proofs.Decimal.WholeNumbers
import ServiceEngine.Proofs.Exec.Addresses
import ServiceEngine.Proofs.Store.Deleted
import ServiceEngine.Proofs.Time.Advance
import ServiceEngine.Proofs.Text.Words
import ServiceEngine.Proofs.Decimal.Numerals
import ServiceEngine.Proofs.Time.Grammar
import ServiceEngine.Proofs.Time.OpenRanges
import ServiceEngine.Proofs.Time.Units
import ServiceEngine.Proofs.Time.Counts
import ServiceEngine.Proofs.Time.Reach
import ServiceEngine.Proofs.Time.Delays
import ServiceEngine.Proofs.Service.Patterns
import ServiceEngine.Proofs.Service.Dispatch
import ServiceEngine.Proofs.Service.QueryStrings
import ServiceEngine.Proofs.Service.JobRuns
import ServiceEngine.Proofs.Decimal.WholeFloats
import ServiceEngine.Proofs.Value.RoundTrip
import ServiceEngine.Proofs.Value.Depth
import ServiceEngine.Proofs.Value.Equivalence
import ServiceEngine.Proofs.Store.Copies
import ServiceEngine.Proofs.Store.HostRecords
import ServiceEngine.Proofs.Exec.Stepping
import ServiceEngine.Proofs.Service.Seeding
import ServiceEngine.Proofs.Exec.Lookup
import ServiceEngine.Proofs.Store.Orderly
import ServiceEngine.Proofs.Store.EntityStates
import ServiceEngine.Proofs.Store.Commuting
