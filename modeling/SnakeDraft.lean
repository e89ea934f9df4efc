import SnakeDraft.BitWords
import SnakeDraft.Board.Basic
import SnakeDraft.Board.File
import SnakeDraft.Board.Rows
import SnakeDraft.Cli.Arguments
import SnakeDraft.Cli.Help
import SnakeDraft.Cli.Invocation
import SnakeDraft.Cli.Log
import SnakeDraft.Cli.Report
import SnakeDraft.Cli.Run
import SnakeDraft.Config.Basic
import SnakeDraft.Config.Layout
import SnakeDraft.Config.Load
import SnakeDraft.Config.Roster
import SnakeDraft.Config.Setup
import SnakeDraft.Csv.Record
import SnakeDraft.Decimal.Binary64
import SnakeDraft.Decimal.Format
import SnakeDraft.Decimal.Reader
import SnakeDraft.Decimal.Rounding
import SnakeDraft.Decimal.Shortest
import SnakeDraft.Disk.Basic
import SnakeDraft.Disk.Place
import SnakeDraft.Disk.Walk
import SnakeDraft.Draft.Basic
import SnakeDraft.Draft.State
import SnakeDraft.Duration
import SnakeDraft.Json.Document
import SnakeDraft.Json.Text
import SnakeDraft.Main
import SnakeDraft.Pool
import SnakeDraft.Position
import SnakeDraft.Proofs.Board.Acceptance
import SnakeDraft.Proofs.Board.Availability
import SnakeDraft.Proofs.Board.Counterparts
import SnakeDraft.Proofs.Board.Listing
import SnakeDraft.Proofs.Board.Lookup
import SnakeDraft.Proofs.Board.Names
import SnakeDraft.Proofs.Board.Records
import SnakeDraft.Proofs.Board.Scoring
import SnakeDraft.Proofs.Board.Supply
import SnakeDraft.Proofs.Config.Copying
import SnakeDraft.Proofs.Config.FirstRun
import SnakeDraft.Proofs.Config.Interruption
import SnakeDraft.Proofs.Config.RosterTable
import SnakeDraft.Proofs.Config.Usability
import SnakeDraft.Proofs.Decimal.Order
import SnakeDraft.Proofs.Disk.Operations
import SnakeDraft.Proofs.Draft.Coherence
import SnakeDraft.Proofs.Draft.Demand
import SnakeDraft.Proofs.Draft.InPlace
import SnakeDraft.Proofs.Draft.Refusal
import SnakeDraft.Proofs.Draft.Renaming
import SnakeDraft.Proofs.Draft.Reordering
import SnakeDraft.Proofs.Draft.Replaying
import SnakeDraft.Proofs.Draft.Restoring
import SnakeDraft.Proofs.Draft.Salvage
import SnakeDraft.Proofs.Draft.SnakeOrder
import SnakeDraft.Proofs.Draft.Standing
import SnakeDraft.Proofs.Draft.Trades
import SnakeDraft.Proofs.Draft.Undoing
import SnakeDraft.Proofs.Duration
import SnakeDraft.Proofs.Json.Quoting
import SnakeDraft.Proofs.Roster.Assignment
import SnakeDraft.Proofs.Roster.Filling
import SnakeDraft.Proofs.Search.Budget
import SnakeDraft.Proofs.Search.Candidates
import SnakeDraft.Proofs.Search.Combination
import SnakeDraft.Proofs.Search.Correspondence
import SnakeDraft.Proofs.Search.Counters
import SnakeDraft.Proofs.Search.Exploration
import SnakeDraft.Proofs.Search.Growth
import SnakeDraft.Proofs.Search.Highest
import SnakeDraft.Proofs.Search.History
import SnakeDraft.Proofs.Search.Iteration
import SnakeDraft.Proofs.Search.Legality
import SnakeDraft.Proofs.Search.Lineage
import SnakeDraft.Proofs.Search.Merging
import SnakeDraft.Proofs.Search.Playouts
import SnakeDraft.Proofs.Search.Recommendation
import SnakeDraft.Proofs.Search.Rewards
import SnakeDraft.Proofs.Search.Rollout
import SnakeDraft.Proofs.Search.Selection
import SnakeDraft.Proofs.Search.Signs
import SnakeDraft.Proofs.Search.Spending
import SnakeDraft.Proofs.Search.Ties
import SnakeDraft.Proofs.Search.Visits
import SnakeDraft.Proofs.Session.Acknowledgement
import SnakeDraft.Proofs.Session.Failure
import SnakeDraft.Proofs.Session.Listing
import SnakeDraft.Proofs.Session.LostWrites
import SnakeDraft.Proofs.Session.Operations
import SnakeDraft.Proofs.Session.Reached
import SnakeDraft.Proofs.Session.Recovery
import SnakeDraft.Proofs.Session.Reopening
import SnakeDraft.Proofs.Session.Reranking
import SnakeDraft.Proofs.Session.Simulation
import SnakeDraft.Proofs.Session.Succession
import SnakeDraft.Proofs.Session.Trading
import SnakeDraft.Proofs.Session.World
import SnakeDraft.Proofs.Sorting
import SnakeDraft.Proofs.Store.Contents
import SnakeDraft.Proofs.Store.Histories
import SnakeDraft.Proofs.Store.Rows
import SnakeDraft.Proofs.Store.Writes
import SnakeDraft.Random.ChaCha
import SnakeDraft.Random.Index
import SnakeDraft.Requirements
import SnakeDraft.Roster
import SnakeDraft.Schedule
import SnakeDraft.Search.Candidates
import SnakeDraft.Search.Commit
import SnakeDraft.Search.Expansion
import SnakeDraft.Search.Leftmost
import SnakeDraft.Search.Node
import SnakeDraft.Search.Policy
import SnakeDraft.Search.Rollout
import SnakeDraft.Search.Run
import SnakeDraft.Search.Settings
import SnakeDraft.Search.Tree
import SnakeDraft.Search.Workers
import SnakeDraft.Session.Basic
import SnakeDraft.Session.Play
import SnakeDraft.Session.Report
import SnakeDraft.Session.Restore
import SnakeDraft.SlotTable
import SnakeDraft.Store.Address
import SnakeDraft.Store.Basic
import SnakeDraft.Store.Companion
import SnakeDraft.Store.Database
import SnakeDraft.Store.DraftId
import SnakeDraft.Store.Fault
import SnakeDraft.Store.File
import SnakeDraft.Store.OpenMode
import SnakeDraft.Store.Opening
import SnakeDraft.TakenSet
import SnakeDraft.Text.Blank
import SnakeDraft.Text.Columns
import SnakeDraft.Text.Letters
import SnakeDraft.Text.Utf8
import SnakeDraft.Toml.Document
import SnakeDraft.Toml.Moment
import SnakeDraft.Toml.Number
import SnakeDraft.Toml.Scanner
import SnakeDraft.Toml.Text
import SnakeDraft.Toml.Value
