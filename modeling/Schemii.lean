import Schemii.Foundations.Interaction
import Schemii.Foundations.Dictionary
import Schemii.Foundations.Json
import Schemii.Foundations.Codec
import Schemii.Foundations.UndoTimeline
import Schemii.Common.JsonDelta
import Schemii.Common.DeltaRoundTrip
import Schemii.Designs.Content
import Schemii.Designs.Validation
import Schemii.Designs.HistoryRetention
import Schemii.Designs.Store
import Schemii.Designs.HistoryChain
import Schemii.Designs.HistoryRuns
import Schemii.Designs.HistoryTimeline
import Schemii.Designs.SavedRevisions
import Schemii.Designs.OptimisticWrites
import Schemii.Foundations.ThreeWayMerge
import Schemii.Migrations.ValueEquivalence
import Schemii.Migrations.TypeChanges
import Schemii.Migrations.Alignment
import Schemii.Migrations.Merge
import Schemii.Migrations.MergeSafety
import Schemii.Migrations.Layouts
import Schemii.Migrations.Reconciliation
import Schemii.Migrations.Models
import Schemii.Migrations.Repository
import Schemii.Migrations.World
import Schemii.Migrations.Execution
import Schemii.Migrations.DriftResolution
import Schemii.Migrations.Knowledge
import Schemii.Migrations.Discipline
import Schemii.Migrations.WorkerSafety
import Schemii.Migrations.GatewaySafety
import Schemii.Migrations.Revisions
import Schemii.Migrations.Fencing
import Schemii.Migrations.Environment
import Schemii.Migrations.Effects
import Schemii.Migrations.Answers
import Schemii.Migrations.BaselineHistory
import Schemii.Migrations.SavedWork
import Schemii.Migrations.Recovery
import Schemii.Migrations.Scripts
import Schemii.Migrations.AtMostOnce
import Schemii.Migrations.Synchronisation
import Schemii.Migrations.SingleExecution
import Schemii.BulkJobs.Service
import Schemii.BulkJobs.BatchOnce
import Schemii.Accounts.Service
import Schemii.Accounts.Authority
import Schemii.Accounts.AuthorityRuns
import Schemii.RawSessions.Service
import Schemii.RawSessions.WholeRun
import Schemii.RawSessions.Lease
import Schemii.RawSessions.LeaseSafety
import Schemii.RawSessions.LeaseRuns
import Schemii.ReadSessions.Fetching
import Schemii.ReadSessions.Registry
import Schemii.ReadSessions.Service
import Schemii.ReadSessions.Limits
import Schemii.ReadSessions.Ownership
import Schemii.ReadSessions.OwnershipRuns
import Schemii.ReadSessions.Paging
import Schemii.ReadSessions.PagingSafety
import Schemii.ReadSessions.PagingRuns
import Schemii.ReadSessions.Exports
import Schemii.Metadata.Migrator
import Schemii.Metadata.History
import Schemii.Credentials.Fencing
import Schemii.Credentials.Memory
import Schemii.Credentials.Postgres
import Schemii.Credentials.PostgresSafety
import Schemii.Sidecar.Service
import Schemii.Sidecar.Accounting
import Schemii.Sidecar.AccountingRuns
import Schemii.Conversations.Prompts
import Schemii.Conversations.Service
import Schemii.Conversations.World
import Schemii.Conversations.Turns
import Schemii.Conversations.TurnRuns
import Schemii.Migrations.PostgresTypes
import Schemii.Migrations.TypeChangeSafety
import Schemii.Migrations.Resolutions
import Schemii.Migrations.AlignmentCollisions
import Schemii.Designs.Dependencies
import Schemii.Designs.Export
import Schemii.Foundations.BoundedUnfolding
import Schemii.Designs.DeletionImpact
import Schemii.Migrations.PlannedSteps
import Schemii.Migrations.Planner
import Schemii.Migrations.PlannerCases
import Schemii.Migrations.EmptyPlan
import Schemii.Migrations.KeyBracketing
import Schemii.Foundations.PostgresLexer
import Schemii.SemanticModels.SqlEncoding
import Schemii.SqlEditor.Statements
import Schemii.SqlEditor.CodeSteps
import Schemii.SqlEditor.Splitting
import Schemii.Foundations.Multigraph
import Schemii.Foundations.BreadthFirst
import Schemii.SemanticModels.Definition
import Schemii.SemanticModels.Model
import Schemii.SemanticModels.Derived
import Schemii.SemanticModels.Construction
import Schemii.Foundations.Checks
import Schemii.SemanticModels.JoinPaths
import Schemii.SemanticModels.DefinitionChecks
import Schemii.SemanticModels.Exposure
import Schemii.Designs.TypeOrder
import Schemii.Foundations.JsonText
import Schemii.AiContext.Receipts
import Schemii.Foundations.GreedyReplacement
import Schemii.AiContext.Compaction
import Schemii.Foundations.KeyedChanges
import Schemii.Designs.DesignPermissions
import Schemii.AiContext.ResultSamples
import Schemii.QueryExecutions.Cancellation
import Schemii.QueryExecutions.CancellationSafety
import Schemii.QueryExecutions.TurnCancellation
import Schemii.Common.ConnectionCapacity
import Schemii.Common.CapacityAccounting
import Schemii.Designs.BaselineCrossing
import Schemii.ReadSessions.RefusedPages
import Schemii.Reports.Streaming
import Schemii.SqlEditor.Ranges
