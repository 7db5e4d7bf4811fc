import Rdst.Observation.Lease
import Rdst.Discovery.MonitorCycle
import Rdst.Discovery.Subscription
import Rdst.Library.HistoryRun
import Rdst.Library.Migration
import Rdst.Observation.Rekey
import Rdst.Registry.Save
import Rdst.Persistence.Writers
import Rdst.Persistence.Serial
import Rdst.Safety.QueryGate
import Rdst.Ask.ReadOnlyGate
import Rdst.Analysis.Recovery
import Rdst.Analysis.Exclusive
import Rdst.Analysis.Allowance
import Rdst.Analysis.PlanRun
import Rdst.Analysis.Click
import Rdst.Analysis.TransientRetries
import Rdst.Observation.Delta
import Rdst.Series.Reads
import Rdst.Series.Charts
import Rdst.Series.RollupRun
import Rdst.Reports.Stopped
import Rdst.Reports.RetryRun
import Rdst.Actions.Promises
import Rdst.Actions.Passes
import Rdst.Indexes.Plan
import Rdst.Indexes.Duplicates
import Rdst.Guard.Checker
import Rdst.Inbox.Budget
import Rdst.Inbox.OutageRun
import Rdst.Observation.Polls
import Rdst.Library.Assessments
import Rdst.Web.Abandoned
import Rdst.Web.Replayed
import Rdst.Library.Paging
import Rdst.Lib.Channels
import Rdst.Web.SharedStreams
import Rdst.Web.SharedRun
import Rdst.Web.SharedDelivery
import Rdst.Inbox.Closed
import Rdst.Lib.Maxima
import Rdst.Indexes.Suggestions
import Rdst.Indexes.Coverage
import Rdst.Indexes.Merging
import Rdst.Indexes.Naming
import Rdst.Lib.SqlPieces
import Rdst.Indexes.Statements
import Rdst.Observation.Lifetime
import Rdst.Monitor.Tracking
import Rdst.Lib.Gauges
import Rdst.Monitor.Statistics
import Rdst.Monitor.StatisticsRun
import Rdst.Safety.LexicalSelect
import Rdst.Lib.SqlPlain
import Rdst.Safety.LexicalReading
import Rdst.Safety.LexicalGate
import Rdst.Lib.Marking
import Rdst.Web.SqlParameters
import Rdst.Web.SqlSlots
import Rdst.Analysis.Placeholders
import Rdst.Analysis.PlaceholderKeys
import Rdst.Lib.Journal
import Rdst.Monitor.IndexHistory
import Rdst.Monitor.Decay
import Rdst.Lib.Chunks
import Rdst.Observation.Retention
import Rdst.Observation.RowCap
import Rdst.Actions.Tiers
import Rdst.Lib.Fusing
import Rdst.Observation.RekeyEvidence
import Rdst.Discovery.Scheduler
import Rdst.Discovery.DutyCycle
import Rdst.Monitor.Ranking
import Rdst.Series.Minutes
import Rdst.Monitor.Accounting
import Rdst.Lib.Ranks
import Rdst.Monitor.TierPeriods
import Rdst.Lib.Slots
import Rdst.Registry.Positional
import Rdst.Registry.SlotReading
import Rdst.Registry.PositionalFill
import Rdst.Registry.FilledSlots
import Rdst.Registry.PositionalPasses
import Rdst.Library.Targets
import Rdst.Library.Projected
import Rdst.Library.RenameTarget
import Rdst.Lib.Extremes
import Rdst.Library.Lifecycles
import Rdst.Library.AnalysisHistory
import Rdst.Lib.Weaving
import Rdst.Web.CapturedParams
import Rdst.Web.CapturedFill
import Rdst.Web.CapturedFill
import Rdst.Web.CapturedValues
import Rdst.Lib.Roster
import Rdst.Monitor.StatementNames
import Rdst.Monitor.DistinctNames
import Rdst.Lib.Numerals
import Rdst.Registry.TypedParams
import Rdst.Registry.TypedValues
import Rdst.Registry.TypedValues
import Rdst.Lib.FirstFill
import Rdst.Lib.Spacing
import Rdst.Lib.Cuts
import Rdst.Registry.Fallback
import Rdst.Registry.FallbackMarks
import Rdst.Registry.FallbackTrip
import Rdst.Lib.Bouts
import Rdst.Monitor.Recurring
import Rdst.Monitor.TargetBackoff
import Rdst.Web.SseReader
import Rdst.Cache.Cacheability
import Rdst.Lib.ReplaceAll
import Rdst.Registry.PromptedValues
import Rdst.Registry.PromptedFill
import Rdst.Registry.PromptedText
import Rdst.Lib.SqlPlaces
import Rdst.Lib.SqlLiterals
import Rdst.Web.ScannedCells
import Rdst.Web.FilledScan
import Rdst.Web.EnteredValues
import Rdst.Guard.Query
import Rdst.Guard.Lineage
import Rdst.Guard.Restrictions
import Rdst.Analysis.Lane
import Rdst.Analysis.LaneSafety
