import CharacterBuild.Build.Basic
import CharacterBuild.Build.Check
import CharacterBuild.Build.Config
import CharacterBuild.Build.Inventory
import CharacterBuild.Build.Level
import CharacterBuild.Build.Pruning
import CharacterBuild.Build.Selection
import CharacterBuild.Build.Violation
import CharacterBuild.Catalog.Basic
import CharacterBuild.Catalog.Item
import CharacterBuild.Catalog.Reading
import CharacterBuild.Catalog.Source
import CharacterBuild.Catalog.Unlock
import CharacterBuild.Change.Fields
import CharacterBuild.Change.Options
import CharacterBuild.Change.Plan
import CharacterBuild.Change.Restoring
import CharacterBuild.Change.Selecting
import CharacterBuild.CommandLine
import CharacterBuild.Completeness
import CharacterBuild.Directory
import CharacterBuild.Distinct
import CharacterBuild.Index
import CharacterBuild.Json.Reader
import CharacterBuild.Json.Writer
import CharacterBuild.Main
import CharacterBuild.Number.Amount
import CharacterBuild.Number.Basic
import CharacterBuild.Number.Binary
import CharacterBuild.Number.Decimal
import CharacterBuild.Number.Double
import CharacterBuild.Number.Numeral
import CharacterBuild.Points
import CharacterBuild.Proofs.Accepted
import CharacterBuild.Proofs.Agreement
import CharacterBuild.Proofs.AllOptions
import CharacterBuild.Proofs.Answers
import CharacterBuild.Proofs.Atomicity
import CharacterBuild.Proofs.Attributes
import CharacterBuild.Proofs.Balance
import CharacterBuild.Proofs.Calls
import CharacterBuild.Proofs.Categories
import CharacterBuild.Proofs.Charging
import CharacterBuild.Proofs.Checking
import CharacterBuild.Proofs.Commits
import CharacterBuild.Proofs.Commuting
import CharacterBuild.Proofs.Contracts
import CharacterBuild.Proofs.Courses
import CharacterBuild.Proofs.Created
import CharacterBuild.Proofs.Demands
import CharacterBuild.Proofs.Dispatch
import CharacterBuild.Proofs.Edits
import CharacterBuild.Proofs.Ends
import CharacterBuild.Proofs.Faults
import CharacterBuild.Proofs.Forced
import CharacterBuild.Proofs.Frame
import CharacterBuild.Proofs.Groups
import CharacterBuild.Proofs.Holding
import CharacterBuild.Proofs.InFull
import CharacterBuild.Proofs.Inversion
import CharacterBuild.Proofs.KeptLines
import CharacterBuild.Proofs.Levels
import CharacterBuild.Proofs.Likeness
import CharacterBuild.Proofs.Lookups
import CharacterBuild.Proofs.Lowering
import CharacterBuild.Proofs.MergedLists
import CharacterBuild.Proofs.Moves
import CharacterBuild.Proofs.News
import CharacterBuild.Proofs.Omission
import CharacterBuild.Proofs.OptionAdvice
import CharacterBuild.Proofs.Outcome
import CharacterBuild.Proofs.Overflow
import CharacterBuild.Proofs.Overfull
import CharacterBuild.Proofs.Pools
import CharacterBuild.Proofs.Purchases
import CharacterBuild.Proofs.PuttingBack
import CharacterBuild.Proofs.Queries
import CharacterBuild.Proofs.Rational
import CharacterBuild.Proofs.ReadBack
import CharacterBuild.Proofs.Rebuilding
import CharacterBuild.Proofs.Registrations
import CharacterBuild.Proofs.Reordering
import CharacterBuild.Proofs.Replaying
import CharacterBuild.Proofs.Reports
import CharacterBuild.Proofs.Requirements
import CharacterBuild.Proofs.RestoredOnce
import CharacterBuild.Proofs.Resumed
import CharacterBuild.Proofs.Rounds
import CharacterBuild.Proofs.Saved
import CharacterBuild.Proofs.Scale
import CharacterBuild.Proofs.Searching
import CharacterBuild.Proofs.SelfLike
import CharacterBuild.Proofs.Settled
import CharacterBuild.Proofs.Singles
import CharacterBuild.Proofs.Skipping
import CharacterBuild.Proofs.SortedLists
import CharacterBuild.Proofs.Stacks
import CharacterBuild.Proofs.Stages
import CharacterBuild.Proofs.Standing
import CharacterBuild.Proofs.TakingBack
import CharacterBuild.Proofs.Unchecked
import CharacterBuild.Proofs.Violations
import CharacterBuild.Proofs.Walks
import CharacterBuild.Proofs.WellFormed
import CharacterBuild.Proofs.Window
import CharacterBuild.Record
import CharacterBuild.Replay
import CharacterBuild.Report
import CharacterBuild.Rules
import CharacterBuild.Session.Announcing
import CharacterBuild.Session.Basic
import CharacterBuild.Session.Editing
import CharacterBuild.Session.Guided
import CharacterBuild.Session.GuidedCall
import CharacterBuild.Session.Mention
import CharacterBuild.Session.Unguided
import CharacterBuild.Sorting.Merging
import CharacterBuild.Sorting.Runs
import CharacterBuild.Sorting.Search
import CharacterBuild.Text.Basic
import CharacterBuild.Text.Blank
import CharacterBuild.Text.DecimalDigit
import CharacterBuild.Text.Printable
import CharacterBuild.Text.Quoted
import CharacterBuild.Trace.Fault
import CharacterBuild.Trace.Note
import CharacterBuild.Trace.Reason
import CharacterBuild.Trace.Traced
import CharacterBuild.Value.Basic
import CharacterBuild.Value.Order
import CharacterBuild.Value.Reading
import CharacterBuild.Value.Shown
