import MetricTree.Batch.Basic
import MetricTree.Batch.Journal
import MetricTree.Binary64.Basic
import MetricTree.Binary64.Decimal
import MetricTree.Binary64.Notation
import MetricTree.Binary64.Places
import MetricTree.Binary64.Reading
import MetricTree.Binary64.Rounding
import MetricTree.Cell.Counter
import MetricTree.Cell.Gauge
import MetricTree.Fault
import MetricTree.Identity.Encoding
import MetricTree.Identity.Part
import MetricTree.Identity.Pool
import MetricTree.Interval
import MetricTree.Json.Basic
import MetricTree.Json.Image
import MetricTree.Json.Reader
import MetricTree.Log.Level
import MetricTree.Log.Line
import MetricTree.Log.Logger
import MetricTree.Log.Request
import MetricTree.Log.Template
import MetricTree.Log.Timestamp
import MetricTree.Loop.Basic
import MetricTree.Loop.Notice
import MetricTree.Loop.Opening
import MetricTree.Loop.Progress
import MetricTree.Loop.Run
import MetricTree.Number
import MetricTree.Proofs.AlikeRuns
import MetricTree.Proofs.AuditedDrops
import MetricTree.Proofs.BatchHistory
import MetricTree.Proofs.BatchedRuns
import MetricTree.Proofs.Batching
import MetricTree.Proofs.CallAnswers
import MetricTree.Proofs.CallOutcomes
import MetricTree.Proofs.CellAccounts
import MetricTree.Proofs.CellHistory
import MetricTree.Proofs.Cells
import MetricTree.Proofs.CheckedTags
import MetricTree.Proofs.CloseHistory
import MetricTree.Proofs.CloseProtocol
import MetricTree.Proofs.CloseStages
import MetricTree.Proofs.ClosedTrees
import MetricTree.Proofs.CommutingProducers
import MetricTree.Proofs.CounterConservation
import MetricTree.Proofs.CounterReadings
import MetricTree.Proofs.Course
import MetricTree.Proofs.Cuts
import MetricTree.Proofs.Deduplication
import MetricTree.Proofs.DistinctNames
import MetricTree.Proofs.DrainedTrees
import MetricTree.Proofs.DropLines
import MetricTree.Proofs.ExactPasses
import MetricTree.Proofs.FailingCalls
import MetricTree.Proofs.FaultlessPasses
import MetricTree.Proofs.FirstValues
import MetricTree.Proofs.GaugeReadings
import MetricTree.Proofs.GaugeReports
import MetricTree.Proofs.GaugeUpdates
import MetricTree.Proofs.GentleReporters
import MetricTree.Proofs.Handover
import MetricTree.Proofs.IdentityText
import MetricTree.Proofs.IntegralTree
import MetricTree.Proofs.JournaledRuns
import MetricTree.Proofs.Journals
import MetricTree.Proofs.JsonNumbers
import MetricTree.Proofs.JsonReading
import MetricTree.Proofs.LatestPasses
import MetricTree.Proofs.LoadedSettings
import MetricTree.Proofs.LogConfiguration
import MetricTree.Proofs.LogLines
import MetricTree.Proofs.LoopMoves
import MetricTree.Proofs.NameOrder
import MetricTree.Proofs.NearestDecimals
import MetricTree.Proofs.Openings
import MetricTree.Proofs.OtherReporters
import MetricTree.Proofs.OwedVisits
import MetricTree.Proofs.PassCourses
import MetricTree.Proofs.PassFailures
import MetricTree.Proofs.PassFates
import MetricTree.Proofs.PassJobs
import MetricTree.Proofs.PassNumbers
import MetricTree.Proofs.PassSummaries
import MetricTree.Proofs.PassSweep
import MetricTree.Proofs.PassTallies
import MetricTree.Proofs.PassTours
import MetricTree.Proofs.PassTrace
import MetricTree.Proofs.PassVisits
import MetricTree.Proofs.PendingReports
import MetricTree.Proofs.PieceWriting
import MetricTree.Proofs.PlainText
import MetricTree.Proofs.Productions
import MetricTree.Proofs.ProperRuns
import MetricTree.Proofs.ProperTree
import MetricTree.Proofs.ReentrantPasses
import MetricTree.Proofs.RefusedSettings
import MetricTree.Proofs.RegistryHistory
import MetricTree.Proofs.ReportPass
import MetricTree.Proofs.ReservedCharacters
import MetricTree.Proofs.Representation
import MetricTree.Proofs.ScratchBuffers
import MetricTree.Proofs.Serving
import MetricTree.Proofs.SessionBatches
import MetricTree.Proofs.SessionCourses
import MetricTree.Proofs.SessionMoves
import MetricTree.Proofs.Shutdown
import MetricTree.Proofs.SnapshotAgreement
import MetricTree.Proofs.SnapshotFailures
import MetricTree.Proofs.SnapshotSums
import MetricTree.Proofs.StageRuns
import MetricTree.Proofs.StageSteps
import MetricTree.Proofs.StepEffect
import MetricTree.Proofs.Supplies
import MetricTree.Proofs.TableLookup
import MetricTree.Proofs.TableMaps
import MetricTree.Proofs.ToldAmounts
import MetricTree.Proofs.TreeCells
import MetricTree.Proofs.TreeChange
import MetricTree.Proofs.UniqueIdentities
import MetricTree.Proofs.UsableIntervals
import MetricTree.Proofs.VisitHistory
import MetricTree.Proofs.WholePass
import MetricTree.Proofs.WritableValues
import MetricTree.Record.Basic
import MetricTree.Record.Field
import MetricTree.Record.Summary
import MetricTree.Registry.Basic
import MetricTree.Registry.Request
import MetricTree.Session.Perform
import MetricTree.Session.Run
import MetricTree.Session.Script
import MetricTree.Session.State
import MetricTree.Settings.Basic
import MetricTree.Settings.File
import MetricTree.Settings.Session
import MetricTree.Settings.Source
import MetricTree.ShortInt
import MetricTree.Sorting.Merge
import MetricTree.Sorting.Runs
import MetricTree.Sorting.Search
import MetricTree.Table
import MetricTree.Text.Basic
import MetricTree.Text.Blank
import MetricTree.Text.Capital
import MetricTree.Text.DecimalDigit
import MetricTree.Text.Numeral
import MetricTree.Text.Printable
import MetricTree.Text.Quoted
import MetricTree.Tree.Basic
import MetricTree.Tree.Metric
import MetricTree.Tree.Observation
import MetricTree.Tree.Pass
import MetricTree.Tree.Scope
import MetricTree.Tree.Snapshot
import MetricTree.Value.Basic
import MetricTree.Value.Conversion
import MetricTree.Value.Key
import MetricTree.Value.Literal
import MetricTree.Value.Order
import MetricTree.Web
import MetricTree.Web.Address
import MetricTree.Work
