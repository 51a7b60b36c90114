import FxPulse.Number.Layout
import FxPulse.Number.Reader
import FxPulse.Number.Sample
import FxPulse.Json.Parser
import FxPulse.Json.Printer
import FxPulse.Market.Direction
import FxPulse.Market.Pair
import FxPulse.Market.Window
import FxPulse.Market.Changes
import FxPulse.History.TickStore
import FxPulse.Strength.History
import FxPulse.Oscillator.Bank
import FxPulse.Scan.Basic
import FxPulse.Edge.Match
import FxPulse.Wire.Read
import FxPulse.Wire.Write
import FxPulse.Config.Basic
import FxPulse.Feed
import FxPulse.Api.Response
import FxPulse.Archive.Lines
import FxPulse.Archive.Scan
import FxPulse.Main
import FxPulse.Proofs.Scan.Counts
import FxPulse.Proofs.Engine.Since
import FxPulse.Proofs.Edge.Scanned
import FxPulse.Proofs.Edge.Selection
import FxPulse.Proofs.Edge.Pruned
import FxPulse.Proofs.History.Lookup
import FxPulse.Proofs.Oscillator.Cursor
import FxPulse.Proofs.Oscillator.Entry
import FxPulse.Proofs.Oscillator.Bank
import FxPulse.Proofs.Number.Undefined
import FxPulse.Proofs.Engine.Published
import FxPulse.Proofs.Engine.Prices
import FxPulse.Proofs.Config.Load
import FxPulse.Proofs.Config.Retention
import FxPulse.Proofs.Config.Answered
import FxPulse.Proofs.Number.Order
import FxPulse.Proofs.Config.Checks
import FxPulse.Proofs.Engine.Cadence
import FxPulse.Proofs.Scan.Extend
import FxPulse.Proofs.Scan.Marginals
import FxPulse.Proofs.Oscillator.Ensured
import FxPulse.Proofs.Engine.Registered
import FxPulse.Proofs.Engine.Mirrored
import FxPulse.Proofs.Oscillator.Drained
import FxPulse.Proofs.Engine.Steady
import FxPulse.Proofs.Engine.Settled
import FxPulse.Proofs.Strength.Tracked
import FxPulse.Proofs.Strength.Recorded
import FxPulse.Proofs.Strength.Sampled
import FxPulse.Proofs.Archive.Replaced
import FxPulse.Proofs.Archive.Bars
import FxPulse.Proofs.Archive.Deliveries
import FxPulse.Proofs.Archive.Isolated
import FxPulse.Proofs.Engine.Beside
import FxPulse.Proofs.Engine.Untracked
import FxPulse.Proofs.Checked.Calls
import FxPulse.Proofs.Checked.Rings
import FxPulse.Proofs.State.Spelling
import FxPulse.Proofs.State.Known
import FxPulse.Proofs.Scan.Whole
import FxPulse.Proofs.Checked.Stores
import FxPulse.Proofs.Checked.WarmUp
import FxPulse.Proofs.Checked.Pruned
import FxPulse.Proofs.Strength.Means
import FxPulse.Proofs.History.Moves
import FxPulse.Proofs.Oscillator.Averages
import FxPulse.Proofs.Oscillator.WarmUp
import FxPulse.Proofs.Scan.Cells
import FxPulse.Proofs.Oscillator.Flat
import FxPulse.Proofs.Oscillator.Scaled
import FxPulse.Proofs.Number.Range
import FxPulse.Proofs.Edge.Closes
import FxPulse.Proofs.History.Mids
import FxPulse.Proofs.Scan.Smoothed
import FxPulse.Proofs.Feed.Relay
import FxPulse.Proofs.Table.Ranking
