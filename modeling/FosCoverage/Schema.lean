import FosCoverage.Lib.Table
import FosCoverage.Lib.Fingerprint
import FosCoverage.Failure

/-!
# The database

The tables of the VNext schema as far as the modelled services read or write them, one row type
for each, and the whole database `Db`.  The tables are grouped by who owns them, so that a service
which writes one group visibly leaves the others alone:

* `Facts`: scans, repository snapshots, files and lines, the immutable physical side;
* `Domain`: the canonical analysis domain (records, blocks, line links, decisions, groups,
  rejections) and the legacy `coverage_analyses` projection;
* `Imports`: physical resources and their locks, background jobs, import checkpoints, staged
  artifacts and the failure ledger.

Time is a count of microseconds (`Db.now`), job ids and owner tokens are drawn from a counter that
never repeats (`Db.uuid`; zero stands for the empty string).  Time stamps that no function compares,
content hashes and report metadata are left out.
-/

set_option autoImplicit false

namespace FosCoverage

open Relational Fingerprint

/-! ## Enumerations -/

/-- `coverage_scans.status`, compared without regard to case. -/
inductive ScanStatus
  | building | importing | constructing | validating | sealed | ready | failed | aborted
  deriving DecidableEq, Repr

/-- `CONSTRUCTION_STATUSES`: the facts of the scan may still be written. -/
def ScanStatus.underConstruction : ScanStatus → Bool
  | .building | .importing | .constructing => true
  | _ => false

/-- The fact boundary of the scan is closed and the scan may be published. -/
def ScanStatus.publishable : ScanStatus → Bool
  | .sealed | .ready => true
  | _ => false

/-- `coverage_analysis_line_links.review_state`. -/
inductive ReviewState
  | manualDraft | manualConfirmed | inheritedPending | carriedCovered
  deriving DecidableEq, Repr

/-- `coverage_analysis_line_links.relation_origin`. -/
inductive RelationOrigin
  | manual | inheritance | legacyMigrated
  deriving DecidableEq, Repr

/-- `coverage_analysis_records.content_origin`. -/
inductive ContentOrigin
  | manual | inherited | legacyMigrated
  deriving DecidableEq, Repr

/-- `coverage_analysis_blocks.origin`. -/
inductive BlockOrigin
  | manual | inheritance
  deriving DecidableEq, Repr

/-- `coverage_inheritance_rejections.terminal_reason`. -/
inductive TerminalReason
  | manualReanalysis | undone
  deriving DecidableEq, Repr

/-- `coverage_background_jobs.state`. -/
inductive JobState
  | queued | running | interrupted | completed | failed
  deriving DecidableEq, Repr

/-- The states a job can still be claimed or finished from. -/
def JobState.live : JobState → Bool
  | .queued | .running | .interrupted => true
  | _ => false

/-- `PHASES` of the import checkpoint state machine. -/
inductive Phase
  | locked | scanCreated | infoStaged | coverageImported | gitVerified | sourcePrepared
  | lineMapBuilt | inheritanceComputed | statsRebuilt | consistencyVerified
  | sealed | published | done
  deriving DecidableEq, Repr

/-- `PHASES.index`. -/
def Phase.index : Phase → Nat
  | .locked => 0
  | .scanCreated => 1
  | .infoStaged => 2
  | .coverageImported => 3
  | .gitVerified => 4
  | .sourcePrepared => 5
  | .lineMapBuilt => 6
  | .inheritanceComputed => 7
  | .statsRebuilt => 8
  | .consistencyVerified => 9
  | .sealed => 10
  | .published => 11
  | .done => 12

theorem Phase.index_injective {p q : Phase} (h : p.index = q.index) : p = q := by
  cases p <;> cases q <;> first | rfl | (simp [Phase.index] at h)

/-! ## Physical facts -/

/-- `coverage_scans`. -/
structure Scan where
  /-- The owning project. -/
  projectId : Nat
  /-- The identity of the import, unique over all scans. -/
  scanKey : String
  /-- Life-cycle status. -/
  status : ScanStatus
  /-- The scan that was CURRENT when this one was created. -/
  predecessorScanId : Option Nat
  deriving DecidableEq, Repr

/-- `coverage_scan_repositories`: one repository as a scan saw it. -/
structure Snapshot where
  /-- The scan. -/
  scanId : Nat
  /-- The repository within the scan. -/
  repositoryName : String
  /-- Working copy at import time. -/
  repositoryPath : String
  /-- Branch of the working copy. -/
  branchName : String
  /-- Lower end of an incremental import. -/
  oldCommitSha : Option String
  /-- Upper end of an incremental import. -/
  newCommitSha : Option String
  /-- The commit range was verified. -/
  verified : Bool
  /-- Where the range came from. -/
  provenance : String
  /-- The repository's master identity. -/
  repositoryId : Option Nat
  /-- The commit the scan belongs to. -/
  commitSha : Option String
  /-- The commit identity was verified. -/
  identityVerified : Bool
  /-- Where the commit identity came from. -/
  identityProvenance : String
  deriving DecidableEq, Repr

/-- `coverage_files`. -/
structure FileRow where
  /-- The scan the file belongs to. -/
  scanId : Nat
  /-- The repository of the file. -/
  repositoryName : String
  /-- Hash of repository and path; the file's identity within its scan and repository. -/
  filePathHash : String
  /-- Path within the repository. -/
  filePath : String
  /-- Base name shown to the user. -/
  sourceFileName : String
  deriving DecidableEq, Repr

/-- The stored columns of `LINE_FIELDS`. -/
structure LineFacts where
  /-- Physical line number, from one. -/
  lineNumber : Nat
  /-- Source text. -/
  lineText : String
  /-- Coverage as the report spelled it. -/
  coverageState : String
  /-- First line of the uncovered block. -/
  blockStartLine : Nat
  /-- Last line of the uncovered block. -/
  blockEndLine : Nat
  /-- Kind of block. -/
  blockType : String
  /-- Enclosing function. -/
  functionName : String
  /-- Hash of the enclosing function. -/
  functionHash : String
  /-- Hash of the line. -/
  codeLineHash : String
  /-- Which occurrence of the line's text in its file. -/
  codeOccurrence : Nat
  /-- Reviewer suggested by Git. -/
  suggestedReviewer : String
  deriving DecidableEq, Repr

/-- `coverage_lines`. -/
structure LineRow where
  /-- The file. -/
  fileId : Nat
  /-- The facts of the line. -/
  facts : LineFacts
  deriving DecidableEq, Repr

/-- `coverage_repositories`, the master identities. -/
structure Repository where
  /-- The owning project. -/
  projectId : Nat
  /-- Name within the project. -/
  repositoryName : String
  /-- `lifecycle_state = 'RETIRED'`. -/
  retired : Bool
  deriving DecidableEq, Repr

/-- The physical side of the database. -/
structure Facts where
  /-- `coverage_scans` -/
  scans : Table Scan
  /-- `coverage_repositories` -/
  repositories : Table Repository
  /-- `coverage_scan_repositories` -/
  snapshots : Table Snapshot
  /-- `coverage_files` -/
  files : Table FileRow
  /-- `coverage_lines` -/
  lines : Table LineRow

/-! ## The analysis domain -/

/-- The text of a conclusion: the content columns of `coverage_analysis_records`. -/
structure Content where
  /-- `conclusion_status` -/
  conclusionStatus : String
  /-- `coverage_method` -/
  coverageMethod : String
  /-- `uncovered_reason` -/
  uncoveredReason : String
  /-- `comment` -/
  comment : String
  deriving DecidableEq, Repr

/-- `coverage_analysis_records`. -/
structure Record where
  /-- The conclusion. -/
  content : Content
  /-- Raised by every change of the content. -/
  contentRevision : Nat
  /-- Who wrote the first content. -/
  contentOrigin : ContentOrigin
  /-- The legacy row the record was migrated from. -/
  legacySourceAnalysisId : Option Nat
  deriving DecidableEq, Repr

/-- `coverage_analysis_blocks`: the range of lines a person selected. -/
structure Block where
  /-- The scan. -/
  scanId : Nat
  /-- The file. -/
  fileId : Nat
  /-- First line. -/
  startLine : Nat
  /-- Last line. -/
  endLine : Nat
  /-- Manual selection or inherited range. -/
  origin : BlockOrigin
  /-- `block_identity_verified` -/
  blockIdentityVerified : Bool
  /-- The record the block was created for. -/
  originatingRecordId : Option Nat
  /-- Who selected it. -/
  createdBy : String
  deriving DecidableEq, Repr

/-- `coverage_inheritance_groups`. -/
structure Group where
  /-- The engine run. -/
  decisionRunId : String
  /-- The Candidate. -/
  candidateScanId : Nat
  /-- The predecessor. -/
  sourceScanId : Nat
  /-- The block in the predecessor. -/
  sourceAnalysisBlockId : Nat
  /-- The repository. -/
  repositoryId : Nat
  /-- The file in the Candidate. -/
  candidateFileId : Nat
  /-- The line mapping. -/
  mappingFingerprint : String
  deriving DecidableEq, Repr

/-- `source_scan_id`, `source_line_id`, `source_relation_id` of an inherited relation. -/
structure SourceTriple where
  /-- Predecessor scan. -/
  scanId : Option Nat
  /-- Line in the predecessor. -/
  lineId : Option Nat
  /-- Relation in the predecessor. -/
  relationId : Option Nat
  deriving DecidableEq, Repr

/-- The triple of a relation that was not inherited. -/
def SourceTriple.none : SourceTriple := ⟨.none, .none, .none⟩

/-- `coverage_analysis_line_links`: the relation of one line of one scan to its conclusion. -/
structure Link where
  /-- The scan. -/
  scanId : Nat
  /-- The line. -/
  lineId : Nat
  /-- The conclusion. -/
  recordId : Nat
  /-- The selected range. -/
  blockId : Option Nat
  /-- Where the review stands. -/
  reviewState : ReviewState
  /-- Where the relation comes from. -/
  relationOrigin : RelationOrigin
  /-- The inheritance group. -/
  inheritanceGroupId : Option Nat
  /-- A rejected relation is kept but inactive. -/
  isActive : Bool
  /-- Who reviewed it last. -/
  reviewedBy : String
  /-- The relation it was inherited from. -/
  source : SourceTriple
  /-- Raised by every change of the relation. -/
  relationRevision : Nat
  deriving DecidableEq, Repr

/-- `coverage_inheritance_decisions`. -/
structure Decision where
  /-- The engine run. -/
  decisionRunId : String
  /-- The Candidate. -/
  candidateScanId : Nat
  /-- The line of the Candidate. -/
  candidateLineId : Nat
  /-- The predecessor's relation, when there is one. -/
  source : SourceTriple
  /-- `decision = 'INHERITED'`. -/
  inherited : Bool
  /-- `reason_code` -/
  reasonCode : String
  deriving DecidableEq, Repr

/-- `coverage_inheritance_rejections`. -/
structure Rejection where
  /-- The scan. -/
  scanId : Nat
  /-- The line. -/
  lineId : Nat
  /-- The rejected relation. -/
  rejectedRelationId : Nat
  /-- Its revision when it was rejected. -/
  rejectedRelationRevision : Nat
  /-- Its record when it was rejected. -/
  rejectedAnalysisRecordId : Nat
  /-- Its source triple when it was rejected. -/
  rejectedSource : SourceTriple
  /-- Raised by every change of the rejection. -/
  rejectionRevision : Nat
  /-- The rejection can still be undone. -/
  isActive : Bool
  /-- Why it no longer can. -/
  terminalReason : Option TerminalReason
  /-- Who rejected it. -/
  rejectedBy : String
  deriving DecidableEq, Repr

/-- `coverage_analyses`, the legacy projection; at most one row for a line. -/
structure Analysis where
  /-- `status` -/
  status : String
  /-- `is_draft` -/
  isDraft : Bool
  /-- `reviewer` -/
  reviewer : String
  /-- `coverage_method` -/
  coverageMethod : String
  /-- `uncovered_reason` -/
  uncoveredReason : String
  /-- `comment` -/
  comment : String
  deriving DecidableEq, Repr

/-- The analysis side of the database. -/
structure Domain where
  /-- `coverage_analyses`, keyed by the line -/
  analyses : Keyed Nat Analysis
  /-- `coverage_analysis_records` -/
  records : Table Record
  /-- `coverage_analysis_blocks` -/
  blocks : Table Block
  /-- `coverage_inheritance_groups` -/
  groups : Table Group
  /-- `coverage_analysis_line_links` -/
  links : Table Link
  /-- `coverage_inheritance_decisions` -/
  decisions : Table Decision
  /-- `coverage_inheritance_rejections` -/
  rejections : Table Rejection

/-! ## Derived progress -/

/-- The nine totals of a `coverage_file_state` row. -/
structure Totals where
  /-- `total_lines` -/
  totalLines : Nat
  /-- `total_uncovered` -/
  totalUncovered : Nat
  /-- `filled_total` -/
  filledTotal : Nat
  /-- `draft_total` -/
  draftTotal : Nat
  /-- `confirmed_total` -/
  confirmedTotal : Nat
  /-- `pending_total` -/
  pendingTotal : Nat
  /-- `ordinary_pending_total` -/
  ordinaryPendingTotal : Nat
  /-- `inherited_pending_total` -/
  inheritedPendingTotal : Nat
  /-- `manual_draft_pending_total` -/
  manualDraftPendingTotal : Nat
  deriving DecidableEq, Repr

/-- `coverage_file_state`, keyed by scan and file. -/
structure FileState where
  /-- The totals of the file. -/
  totals : Totals
  /-- The project version they were computed at. -/
  dataVersion : Nat
  deriving DecidableEq, Repr

/-- `coverage_project_state`, keyed by the project. -/
structure ProjectState where
  /-- CURRENT. -/
  currentScanId : Option Nat
  /-- Raised by every analysis mutation and every new scan. -/
  dataVersion : Nat
  /-- The version the file states were verified at; zero when they are stale. -/
  fileStateVersion : Nat
  deriving DecidableEq, Repr

/-! ## Durable imports -/

/-- `coverage_repository_resource_locks`, keyed by the physical resource. -/
structure Lock where
  /-- The job that holds the resource. -/
  jobId : Nat
  /-- The worker that holds it. -/
  ownerToken : Nat
  /-- Grows with every acquisition of the resource. -/
  fencingToken : Nat
  /-- End of the lease, in whole seconds. -/
  expiresAt : Nat
  deriving DecidableEq, Repr

/-- A source file of the engine's read set. -/
structure SourceFile where
  /-- The repository. -/
  repositoryName : String
  /-- The path. -/
  filePath : String
  deriving DecidableEq, Repr

/-- `ReadSetAccumulator.to_payload`. -/
structure ReadSet where
  /-- `candidate_scan_id` -/
  candidateScanId : Option Nat
  /-- `predecessor_scan_id` -/
  predecessorScanId : Option Nat
  /-- The relations the engine read. -/
  relations : DigestSum
  /-- The record revisions the engine read. -/
  records : DigestSum
  /-- The files the engine consulted, in order. -/
  sourceFiles : List SourceFile
  deriving DecidableEq, Repr

/-- `last_file_identity` of a batch. -/
structure FileIdentity where
  /-- The repository. -/
  repositoryName : String
  /-- Hash of repository and path. -/
  filePathHash : String
  /-- The path. -/
  filePath : String
  /-- Last line of the batch, when the file was split by lines. -/
  lastLineNumber : Option Nat
  /-- The batch ends the file. -/
  fileComplete : Option Bool
  deriving DecidableEq, Repr

/-- `coverage_import_checkpoints.payload`: the keys the coordinator writes and reads back.  A key
that is not in the JSON object is `none`. -/
structure Payload where
  /-- `scan_id` -/
  scanId : Option Nat := none
  /-- `read_set` -/
  readSet : Option ReadSet := none
  /-- `batch_size` -/
  batchSize : Option Nat := none
  /-- `max_lines` -/
  maxLines : Option Nat := none
  /-- `max_est_bytes` -/
  maxEstBytes : Option Nat := none
  /-- `batch_seq` -/
  batchSeq : Option Nat := none
  /-- `last_file_identity` -/
  lastFileIdentity : Option FileIdentity := none
  /-- `processed_file_count` -/
  processedFileCount : Option Nat := none
  /-- `processed_line_count` -/
  processedLineCount : Option Nat := none
  /-- `fencing_token` -/
  fencingToken : Option Nat := none
  /-- `file_count` -/
  fileCount : Option Nat := none
  /-- `line_count` -/
  lineCount : Option Nat := none
  /-- `coverage_import_status = 'COMPLETED'` -/
  coverageImportCompleted : Bool := false
  /-- `consistency = 'PASSED'` -/
  consistencyPassed : Bool := false
  deriving DecidableEq, Repr

/-- `coverage_import_checkpoints`, keyed by the job. -/
structure Checkpoint where
  /-- The Candidate. -/
  scanId : Nat
  /-- Last committed phase. -/
  phase : Phase
  /-- Raised by every committed checkpoint. -/
  checkpointSeq : Nat
  /-- What the phase left for a resume. -/
  payload : Payload
  /-- Hash of the staged artifact. -/
  inputSha256 : String
  /-- The fencing token of the worker that owns the import. -/
  fencingToken : Nat
  deriving DecidableEq, Repr

/-- A repository as an import request describes it. -/
structure RepositoryInput where
  /-- `repository_name` -/
  repositoryName : String
  /-- `repository_path` -/
  repositoryPath : String := ""
  /-- `branch_name` -/
  branchName : String := ""
  /-- `old_commit_sha` -/
  oldCommitSha : Option String := none
  /-- `new_commit_sha` -/
  newCommitSha : Option String := none
  /-- `verified` -/
  verified : Bool := false
  /-- `provenance` -/
  provenance : String := ""
  /-- `commit_sha` -/
  commitSha : Option String := none
  /-- `identity_verified` -/
  identityVerified : Bool := false
  /-- `identity_provenance` -/
  identityProvenance : String := ""
  deriving DecidableEq, Repr

/-- `coverage_background_jobs.input_payload`: the immutable description of an import. -/
structure JobPayload where
  /-- `project_id` -/
  projectId : Nat
  /-- `scan_id` -/
  scanId : Nat
  /-- `predecessor_scan_id`: CURRENT when the import was created. -/
  predecessorScanId : Option Nat
  /-- `artifact_id` -/
  artifactId : Nat
  /-- `artifact_sha256` -/
  artifactSha256 : String
  /-- `repository_resource_ids`, ascending and without repetition. -/
  repositoryResourceIds : List Nat
  /-- `repositories` -/
  repositories : List RepositoryInput
  deriving DecidableEq, Repr

/-- `coverage_background_jobs`, keyed by the job id. -/
structure Job where
  /-- The project. -/
  projectId : Nat
  /-- The Candidate. -/
  scanId : Nat
  /-- `kind = 'scan_import'`. -/
  isScanImport : Bool
  /-- Life-cycle state. -/
  state : JobState
  /-- The description of the import. -/
  inputPayload : JobPayload
  /-- The project version reserved at creation. -/
  dataVersion : Nat
  /-- The worker that owns the job. -/
  leaseOwner : Nat
  /-- `handler_version` is the one this code understands. -/
  handlerSupported : Bool
  deriving DecidableEq, Repr

/-- `coverage_import_artifacts`, keyed by the artifact id. -/
structure Artifact where
  /-- The job it was staged for. -/
  jobId : Nat
  /-- Hash of the staged bytes. -/
  sha256 : String
  /-- Number of staged bytes. -/
  sizeBytes : Nat
  /-- The staged copy must not change. -/
  immutable : Bool
  deriving DecidableEq, Repr

/-- `coverage_import_failures`. -/
structure ImportFailure where
  /-- The job. -/
  jobId : Nat
  /-- The Candidate. -/
  scanId : Nat
  /-- The step that failed. -/
  phase : String
  /-- What was raised. -/
  message : String
  deriving DecidableEq, Repr

/-- The import side of the database. -/
structure Imports where
  /-- `coverage_repository_resources`: the next fencing token of each resource -/
  resources : Keyed Nat Nat
  /-- `coverage_repository_resource_locks` -/
  locks : Keyed Nat Lock
  /-- `coverage_background_jobs` -/
  jobs : Keyed Nat Job
  /-- `coverage_import_checkpoints` -/
  checkpoints : Keyed Nat Checkpoint
  /-- `coverage_import_artifacts` -/
  artifacts : Keyed Nat Artifact
  /-- `coverage_import_failures` -/
  failures : Table ImportFailure

/-! ## The database -/

/-- The whole database, with the clock and the source of fresh identifiers. -/
structure Db where
  /-- UTC time in microseconds. -/
  now : Nat
  /-- The next job id or owner token; zero is never issued. -/
  uuid : Nat
  /-- `coverage_projects` -/
  projects : Table String
  /-- `coverage_project_state` -/
  states : Keyed Nat ProjectState
  /-- Scans, files and lines. -/
  facts : Facts
  /-- Records, blocks and relations. -/
  domain : Domain
  /-- `coverage_file_state` -/
  fileStates : Keyed (Nat × Nat) FileState
  /-- Jobs, locks and checkpoints. -/
  imports : Imports

/-- A database without rows. -/
def Db.empty : Db where
  now := 0
  uuid := 1
  projects := Table.empty
  states := Keyed.empty
  facts := ⟨Table.empty, Table.empty, Table.empty, Table.empty, Table.empty⟩
  domain := ⟨Keyed.empty, Table.empty, Table.empty, Table.empty, Table.empty, Table.empty,
    Table.empty⟩
  fileStates := Keyed.empty
  imports := ⟨Keyed.empty, Keyed.empty, Keyed.empty, Keyed.empty, Keyed.empty, Table.empty⟩

end FosCoverage
