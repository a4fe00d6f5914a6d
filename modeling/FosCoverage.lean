import FosCoverage.Lib.Table
import FosCoverage.Lib.Outcome
import FosCoverage.Lib.Trace
import FosCoverage.Lib.Fingerprint
import FosCoverage.Lib.Grouping
import FosCoverage.Lib.Process
import FosCoverage.Failure
import FosCoverage.Schema
import FosCoverage.Service.ReviewSpec
import FosCoverage.Inheritance.EngineSpec
import FosCoverage.Service.Audit
import FosCoverage.Import.Locks
import FosCoverage.Import.Batches
import FosCoverage.Import.Coordinator
import FosCoverage.Service.ProjectSpec
import FosCoverage.Import.CoordinatorSpec
import FosCoverage.Import.Current
import FosCoverage.Analysis.Undo
import FosCoverage.Analysis.AuditRuns
import FosCoverage.Analysis.ProgressRuns
import FosCoverage.Analysis.Concurrency
import FosCoverage.Analysis.Provenance
import FosCoverage.Cpp.Lexer
import FosCoverage.Cpp.Parser
import FosCoverage.Cpp.Conditionals
import FosCoverage.Cpp.Dependencies
import FosCoverage.Cpp.Definitions
import FosCoverage.Cpp.LazyIndex
import FosCoverage.Cpp.Functions
import FosCoverage.Cpp.Callees
import FosCoverage.Cpp.Renumber
import FosCoverage.Cpp.Layout
import FosCoverage.Cpp.Candidates
import FosCoverage.Lib.Nesting
import FosCoverage.Cpp.Controls
import FosCoverage.Cpp.Statements
import FosCoverage.Cpp.TidyLayouts
import FosCoverage.Analysis.Projection
import FosCoverage.Analysis.ProjectionRuns
import FosCoverage.Import.Fencing
import FosCoverage.Import.Bookkeeping
import FosCoverage.Service.Ingestion
import FosCoverage.Import.Facts
import FosCoverage.Import.Handover
import FosCoverage.Import.Retry
import FosCoverage.Jobs.Leases
import FosCoverage.Lib.Paging
import FosCoverage.Inheritance.PagedRun
import FosCoverage.Inheritance.ReadSetSpec
import FosCoverage.Lib.SizedCache
import FosCoverage.CodeDetail.SidecarStore
import FosCoverage.CodeDetail.Overlay
import FosCoverage.CodeDetail.Service
import FosCoverage.CodeDetail.Requests
import FosCoverage.CodeDetail.Accounting
import FosCoverage.Analysis.Versions
import FosCoverage.Analysis.Visibility
import FosCoverage.Analysis.History
import FosCoverage.CodeDetail.Freshness
import FosCoverage.Lib.Refinement
import FosCoverage.Import.Deadlocks
import FosCoverage.Import.BatchSpec
import FosCoverage.Lib.Stateful
import FosCoverage.Upgrade.Lifecycle
import FosCoverage.Upgrade.Rollback
import FosCoverage.Inheritance.LineMap
import FosCoverage.Inheritance.LineMapSpec
import FosCoverage.Lib.MaximalRun
import FosCoverage.Inheritance.BlockRuns
import FosCoverage.Inheritance.LineNumbers
import FosCoverage.Lib.LastWrite
import FosCoverage.Service.Resolution
import FosCoverage.Upgrade.LegacySource
import FosCoverage.Upgrade.LegacyAccounting
import FosCoverage.Inheritance.SourceIndexCache
import FosCoverage.Inheritance.SourceIndexInvariant
import FosCoverage.Lib.Json
import FosCoverage.Cpp.Toolchain
import FosCoverage.Cpp.Uncertainty
import FosCoverage.Inheritance.RemainingLines
import FosCoverage.Inheritance.Completeness
import FosCoverage.CodeDetail.Windows
import FosCoverage.Import.Lcov
import FosCoverage.Import.ScanImport
import FosCoverage.Service.Acceptance
import FosCoverage.Service.FileIdentity
import FosCoverage.Import.LcovImport
import FosCoverage.Lib.Intervals
import FosCoverage.CodeDetail.CodeRegion
import FosCoverage.Lib.Regex
import FosCoverage.CodeDetail.SourceText
import FosCoverage.CodeDetail.SourceReader
import FosCoverage.Cpp.Agreement
import FosCoverage.Import.LockRuns
import FosCoverage.Incremental.GitText
import FosCoverage.Incremental.GitDiff
import FosCoverage.Incremental.Blame
import FosCoverage.Lib.Base64
import FosCoverage.Lib.JsonText
import FosCoverage.Import.Functions
import FosCoverage.Incremental.PathIndex
import FosCoverage.CodeDetail.SidecarCaches
import FosCoverage.CodeDetail.SidecarFiles
import FosCoverage.CodeDetail.SidecarReads
import FosCoverage.CodeDetail.SidecarRoundTrip
import FosCoverage.CodeDetail.BlockPartition
import FosCoverage.CodeDetail.FunctionRanges
import FosCoverage.Lib.Ownership
import FosCoverage.Jobs.BoundedExecutor
import FosCoverage.Jobs.ExecutorSafety
import FosCoverage.Repository.ConnectionPool
import FosCoverage.Repository.PoolSafety
import FosCoverage.Cpp.Retokenise
import FosCoverage.Cpp.KeptContexts
import FosCoverage.Cpp.LogicalLines
import FosCoverage.Lib.KWayMerge
import FosCoverage.Lib.CompactJson
import FosCoverage.Upgrade.SemanticMultiset
import FosCoverage.Reports.RegistryRuns
import FosCoverage.Lib.Keyset
import FosCoverage.Repository.FilePages
import FosCoverage.Service.ProgressPages
import FosCoverage.Lib.Pinned
import FosCoverage.Analysis.Pins
import FosCoverage.Service.Snapshots
import FosCoverage.Import.ExactlyOnce
import FosCoverage.Import.Legacy
import FosCoverage.Import.Resume
