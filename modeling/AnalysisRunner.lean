import AnalysisRunner.Cache.Archive
import AnalysisRunner.Cache.Basic
import AnalysisRunner.Cache.Entry
import AnalysisRunner.Cache.Fingerprint
import AnalysisRunner.Cache.Options
import AnalysisRunner.Cache.Persist
import AnalysisRunner.CommandLine.Arguments
import AnalysisRunner.CommandLine.Invocation
import AnalysisRunner.CommandLine.Run
import AnalysisRunner.CommandLine.Screen
import AnalysisRunner.Engine.Basic
import AnalysisRunner.Engine.Report
import AnalysisRunner.FileTree.Basic
import AnalysisRunner.FileTree.Operations
import AnalysisRunner.FileTree.Steps
import AnalysisRunner.Glob.Basic
import AnalysisRunner.Glob.Match
import AnalysisRunner.Json.Basic
import AnalysisRunner.Json.Record
import AnalysisRunner.Json.Written
import AnalysisRunner.Main
import AnalysisRunner.Number.Binary64
import AnalysisRunner.Number.Shortest
import AnalysisRunner.Path.Basic
import AnalysisRunner.Path.Table
import AnalysisRunner.Pool.Basic
import AnalysisRunner.Pool.Document
import AnalysisRunner.Pool.Options
import AnalysisRunner.Pool.Parallel
import AnalysisRunner.Pool.Task
import AnalysisRunner.Pool.Timeline
import AnalysisRunner.Pool.Work
import AnalysisRunner.Settings.Basic
import AnalysisRunner.Settings.Derived
import AnalysisRunner.Settings.Document
import AnalysisRunner.Settings.Environment
import AnalysisRunner.Settings.Load
import AnalysisRunner.Settings.Rules
import AnalysisRunner.Table
import AnalysisRunner.Text.Causes
import AnalysisRunner.Text.Decimal
import AnalysisRunner.Text.Numbered
import AnalysisRunner.Text.Quoted
import AnalysisRunner.Text.Sha256
import AnalysisRunner.Text.Utf8
import AnalysisRunner.Time.Calendar
import AnalysisRunner.Time.Duration
import AnalysisRunner.Time.Timestamp
import AnalysisRunner.Toml.Document
import AnalysisRunner.Toml.Quoted
import AnalysisRunner.Toml.Scalar
import AnalysisRunner.Toml.Value
import AnalysisRunner.Watch.Backend
import AnalysisRunner.Watch.Change
import AnalysisRunner.Watch.Debounce
import AnalysisRunner.Watch.Filter
import AnalysisRunner.Watch.Options
import AnalysisRunner.Watch.Polling
import AnalysisRunner.Watch.Scan
import AnalysisRunner.Watch.Session
import AnalysisRunner.Watch.Table
import AnalysisRunner.Watch.Watcher
import AnalysisRunner.Watch.Window
import AnalysisRunner.Proofs.Cache.Contents
import AnalysisRunner.Proofs.Cache.Encoded
import AnalysisRunner.Proofs.Cache.History
import AnalysisRunner.Proofs.Runs
import AnalysisRunner.Proofs.Pool.Machine
import AnalysisRunner.Proofs.Pool.Course
import AnalysisRunner.Proofs.Pool.Exclusion
import AnalysisRunner.Proofs.Pool.Calls
import AnalysisRunner.Proofs.Pool.Ledger
import AnalysisRunner.Proofs.Pool.Discipline
import AnalysisRunner.Proofs.Json.Numeral
import AnalysisRunner.Proofs.Text.Utf8
import AnalysisRunner.Proofs.Json.Shape
import AnalysisRunner.Proofs.Number.Shortest
import AnalysisRunner.Proofs.Json.Distinct
import AnalysisRunner.Proofs.Cache.Archived
import AnalysisRunner.Proofs.Pool.View
import AnalysisRunner.Proofs.Pool.Schedule
import AnalysisRunner.Proofs.Json.Reordered
import AnalysisRunner.Proofs.Path.Normal
import AnalysisRunner.Proofs.Path.Parent
import AnalysisRunner.Proofs.Engine.Findings
import AnalysisRunner.Proofs.Engine.Transparency
import AnalysisRunner.Proofs.FileTree.Walk
import AnalysisRunner.Proofs.Path.Join
import AnalysisRunner.Proofs.Cache.Eviction
import AnalysisRunner.Proofs.FileTree.Replace
import AnalysisRunner.Proofs.Cache.Saved
import AnalysisRunner.Proofs.Cache.Mirrored
import AnalysisRunner.Proofs.Engine.Restart
import AnalysisRunner.Proofs.Path.Table
import AnalysisRunner.Proofs.Watch.Log
import AnalysisRunner.Proofs.FileTree.Look
import AnalysisRunner.Proofs.FileTree.Making
import AnalysisRunner.Proofs.Watch.Debounce
import AnalysisRunner.Proofs.Watch.Settled
import AnalysisRunner.Proofs.Watch.Eligible
import AnalysisRunner.Proofs.Watch.Lawful
import AnalysisRunner.Proofs.Watch.Dispatch
import AnalysisRunner.Proofs.Text.Order
import AnalysisRunner.Proofs.Cache.Capacity
import AnalysisRunner.Proofs.Json.Pretty
import AnalysisRunner.Proofs.Json.Nesting
import AnalysisRunner.Proofs.Cache.Handover
import AnalysisRunner.Proofs.Cache.Interrupted
import AnalysisRunner.Proofs.Watch.Coverage
import AnalysisRunner.Proofs.Cache.Lifetime
import AnalysisRunner.Proofs.Pool.Epoch
import AnalysisRunner.Proofs.Pool.Parallel
import AnalysisRunner.Proofs.Engine.Changes
import AnalysisRunner.Proofs.Watch.Burst
import AnalysisRunner.Proofs.Json.Canonical
import AnalysisRunner.Proofs.Watch.Twice
import AnalysisRunner.Proofs.Watch.Window
import AnalysisRunner.Proofs.FileTree.Rewrite
import AnalysisRunner.Proofs.CommandLine.Cleaned
import AnalysisRunner.Proofs.Cache.Account
import AnalysisRunner.Proofs.CommandLine.Reported
import AnalysisRunner.Proofs.Watch.Overlooked
import AnalysisRunner.Proofs.Watch.Awaited
import AnalysisRunner.Proofs.Path.Canonical
import AnalysisRunner.Proofs.Settings.Layered
import AnalysisRunner.Proofs.Watch.Reached
import AnalysisRunner.Proofs.Watch.Stack
