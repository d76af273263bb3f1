import ResearchGateway.Recovery
import ResearchGateway.Fencing
import ResearchGateway.EventStream
import ResearchGateway.PublicSearch
import ResearchGateway.Accounting
import ResearchGateway.RunnerEnds
import ResearchGateway.RunnerStop
import ResearchGateway.Controller
import ResearchGateway.ControllerSteps
import ResearchGateway.ConcurrencyCap
import ResearchGateway.Reconcilers
import ResearchGateway.RunnerStarts
import ResearchGateway.WallTime
import ResearchGateway.Library.Within
import ResearchGateway.Stamps
import ResearchGateway.Snapshots
import ResearchGateway.Reconciliation
import ResearchGateway.ArtifactStore
import ResearchGateway.Cleaner
import ResearchGateway.ArtifactSystem
import ResearchGateway.ArtifactSteps
import ResearchGateway.Completion
import ResearchGateway.OrphanCollection
import ResearchGateway.RetentionTarget
import ResearchGateway.RetentionCrash
import ResearchGateway.Api.UserEndpoints
import ResearchGateway.CreationSteps
import ResearchGateway.IdempotentCreation
import ResearchGateway.UserIsolation
import ResearchGateway.Api.Handlers
import ResearchGateway.RunnerErrors
import ResearchGateway.MessageOrder
import ResearchGateway.DispatchFailure
import ResearchGateway.FailureReports
import ResearchGateway.Pipe.Compaction
import ResearchGateway.Library.Value
import ResearchGateway.Pipe.RequestChecks
import ResearchGateway.Pipe.Context
import ResearchGateway.Pipe.ContextAccepted
import ResearchGateway.Pipe.Admission
import ResearchGateway.Library.Dialog
import ResearchGateway.Pipe.ModelSelection
import ResearchGateway.Pipe.FrozenModels
import ResearchGateway.Api.Embeddings
import ResearchGateway.Api.EmbeddingBatches
import ResearchGateway.Library.Ensure
import ResearchGateway.FunctionSync
import ResearchGateway.FunctionSyncSteps
import ResearchGateway.Synchronization
import ResearchGateway.Threads
import ResearchGateway.Library.Sweep
import ResearchGateway.RetentionProgress
import ResearchGateway.Library.Links
import ResearchGateway.Pipe.ActiveBranch
import ResearchGateway.Retrievers
import ResearchGateway.Library.Bytes
import ResearchGateway.Api.StreamUsage
import ResearchGateway.DurableMetrics
import ResearchGateway.Api.ChatProxy
import ResearchGateway.DispatchVerdicts
import ResearchGateway.Library.Polling
import ResearchGateway.Pipe.ResultStream
import ResearchGateway.Library.FileNames
import ResearchGateway.Library.FileTree
import ResearchGateway.ObjectKey
import ResearchGateway.FilesystemStore
import ResearchGateway.Library.Pattern
import ResearchGateway.Library.TextPattern
import ResearchGateway.Retrieval
import ResearchGateway.ReportPrompt
import ResearchGateway.ReportDemands
import ResearchGateway.ReportPasses
import ResearchGateway.ReportInterruptions
import ResearchGateway.ReportLines
import ResearchGateway.Library.DialogRules
import ResearchGateway.FunctionCalls
import ResearchGateway.SaveToKnowledge
import ResearchGateway.KnowledgeWrites
import ResearchGateway.QueueOrder
import ResearchGateway.S3Store
import ResearchGateway.Library.OnceEach
import ResearchGateway.Progress
import ResearchGateway.Library.EventSource
import ResearchGateway.Api.EventFrames
import ResearchGateway.Pipe.Turn
import ResearchGateway.Pipe.JobCreation
import ResearchGateway.Engine
import ResearchGateway.Library.Uuid
import ResearchGateway.RunnerJobs
import ResearchGateway.Library.Backlog
import ResearchGateway.RecoveryProgress
import ResearchGateway.Heartbeats
import ResearchGateway.ArtifactPrefix
import ResearchGateway.StoreLayout
import ResearchGateway.StoreRefinement
import ResearchGateway.ConcurrentStore
import ResearchGateway.StoreProgress
import ResearchGateway.StoreAlone
