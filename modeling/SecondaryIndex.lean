import SecondaryIndex.Codec.Lemmas
import SecondaryIndex.Layout.Lemmas
import SecondaryIndex.LogFilter
import SecondaryIndex.Proofs.Cursor.Calls
import SecondaryIndex.Proofs.Cursor.Course
import SecondaryIndex.Proofs.Cursor.Drain
import SecondaryIndex.Proofs.Cursor.Entries
import SecondaryIndex.Proofs.Cursor.Run
import SecondaryIndex.Proofs.Cursor.Simulation
import SecondaryIndex.Proofs.Cursor.Strides
import SecondaryIndex.Proofs.Engine.Conflict
import SecondaryIndex.Proofs.Engine.History
import SecondaryIndex.Proofs.Engine.Isolation
import SecondaryIndex.Proofs.Engine.Ledger
import SecondaryIndex.Proofs.Engine.Moves
import SecondaryIndex.Proofs.Engine.Once
import SecondaryIndex.Proofs.Engine.Run
import SecondaryIndex.Proofs.Engine.Sound
import SecondaryIndex.Proofs.Engine.Steady
import SecondaryIndex.Proofs.Engine.Works
import SecondaryIndex.Proofs.Index.Calls
import SecondaryIndex.Proofs.Index.Confined
import SecondaryIndex.Proofs.Index.Context
import SecondaryIndex.Proofs.Index.Entries
import SecondaryIndex.Proofs.Index.Operations
import SecondaryIndex.Proofs.Index.History
import SecondaryIndex.Proofs.Index.Mirror
import SecondaryIndex.Proofs.Index.Program
import SecondaryIndex.Proofs.Index.Queries
import SecondaryIndex.Proofs.Index.Opened
import SecondaryIndex.Proofs.Index.Owned
import SecondaryIndex.Proofs.Index.Runs
import SecondaryIndex.Proofs.Index.Failures
import SecondaryIndex.Proofs.Index.Refinement
import SecondaryIndex.Proofs.Index.TwoWay
import SecondaryIndex.Proofs.Index.Walks
import SecondaryIndex.Proofs.Layout.Order
import SecondaryIndex.Proofs.Layout.Pairs
import SecondaryIndex.Proofs.Layout.Span
import SecondaryIndex.Proofs.Ledger.Basic
import SecondaryIndex.Proofs.Ledger.Presentation
import SecondaryIndex.Proofs.Ledger.Trace
import SecondaryIndex.Proofs.Program
import SecondaryIndex.Proofs.Store.Alike
import SecondaryIndex.Proofs.Store.Iterator
import SecondaryIndex.Proofs.Store.Read
import SecondaryIndex.Session.Run
import SecondaryIndex.Proofs.Engine.Echo
import SecondaryIndex.Proofs.Index.Effects
import SecondaryIndex.Proofs.Index.Atomic
import SecondaryIndex.Proofs.Layout.Inverse
import SecondaryIndex.Proofs.Layout.Succession
import SecondaryIndex.Proofs.Parallel.ErasedRuns
import SecondaryIndex.Proofs.Parallel.FlushedRuns
import SecondaryIndex.Proofs.Index.Registry
import SecondaryIndex.Proofs.Index.Counts
import SecondaryIndex.Proofs.Debt.Runs
import SecondaryIndex.Proofs.Twin.Runs
import SecondaryIndex.Proofs.Store.Resting
import SecondaryIndex.Proofs.Engine.Opening
import SecondaryIndex.Proofs.Index.Estimates
import SecondaryIndex.Proofs.Index.Stops
import SecondaryIndex.Proofs.Index.Removal
import SecondaryIndex.Proofs.Index.Unhindered
import SecondaryIndex.Proofs.Store.Statistics
import SecondaryIndex.Proofs.Engine.Mentions
import SecondaryIndex.Proofs.Index.Upheld
import SecondaryIndex.Proofs.Index.UniformEstimates
import SecondaryIndex.Proofs.Cursor.Ahead
import SecondaryIndex.Proofs.Cursor.Endings
import SecondaryIndex.Proofs.Index.Endings
import SecondaryIndex.Proofs.Index.Tally
import SecondaryIndex.Proofs.Index.Turnover
import SecondaryIndex.Proofs.Codec.WellFormed
import SecondaryIndex.Proofs.Codec.Text
import SecondaryIndex.Proofs.Codec.Words
import SecondaryIndex.Proofs.Index.WordOrder
import SecondaryIndex.Proofs.Index.Rejects
import SecondaryIndex.Proofs.Index.Limits
import SecondaryIndex.Proofs.Cursor.Interrupted
import SecondaryIndex.Proofs.Index.Oversized
import SecondaryIndex.Proofs.Ledger.Numbers
import SecondaryIndex.Proofs.Engine.ConflictLog
import SecondaryIndex.Proofs.Index.ExactSizes
import SecondaryIndex.Proofs.Index.Untouched
import SecondaryIndex.Proofs.Index.Recorded
import SecondaryIndex.Proofs.Parallel.Renumbered
import SecondaryIndex.Proofs.Parallel.Rewrites
import SecondaryIndex.Proofs.Parallel.NoOps
