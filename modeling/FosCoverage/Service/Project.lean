import Mathlib.Data.List.Sort
import FosCoverage.Lib.Grouping
import FosCoverage.Repository.FileState
import FosCoverage.Import.Publication

/-!
# Creating scans and ingesting files

`ProjectService` as the code computes it: `createScan` registers a scan under construction,
`ingestFileBatch` writes one bounded batch of files and lines without committing, and the two
synchronous entry points `createScanAndIngest` and `ingestFiles` construct, seal and publish in one
transaction.  Reports are left out.
-/

set_option autoImplicit false

namespace FosCoverage

open Relational Outcome

/-! ## Coverage input -/

/-- `_coverage_chunk`: what the coordinator notes on a part of a file. -/
structure ChunkMeta where
  /-- `file_count_delta`: one for the first part of a file. -/
  fileCountDelta : Nat
  /-- `line_count`, when lines are split. -/
  lineCount : Option Nat
  /-- `estimated_bytes`, when lines are split. -/
  estimatedBytes : Option Nat
  /-- `last_line_number` -/
  lastLineNumber : Option Nat
  /-- `file_complete` -/
  fileComplete : Bool
  deriving DecidableEq, Repr

/-- A file of the coverage input, or a part of one. -/
structure CoverageItem where
  /-- `repository_name` -/
  repositoryName : String
  /-- `file_path_hash`; empty when the parser gave none. -/
  filePathHash : String
  /-- `file_path` -/
  filePath : String
  /-- `source_file_name`; empty when the parser gave none. -/
  sourceFileName : String
  /-- `lines` -/
  lines : List LineRecord
  /-- `_coverage_chunk` -/
  chunk : Option ChunkMeta := none
  deriving DecidableEq, Repr

/-- `file_count_delta`, one without a note. -/
def CoverageItem.fileCountDelta (item : CoverageItem) : Nat :=
  (item.chunk.map ChunkMeta.fileCountDelta).getD 1

/-- What a batch contributed. -/
structure BatchResult where
  /-- `file_count` -/
  fileCount : Nat
  /-- `line_count` -/
  lineCount : Nat
  /-- `last_file_identity` -/
  lastFileIdentity : Option FileIdentity
  deriving DecidableEq, Repr

namespace ProjectService

/-! ## Ingestion -/

/-- The identity of a file: a missing hash and a missing name are computed. -/
def normalizedItem (env : Env) (item : CoverageItem) : ProjectRepository.FileItem where
  repositoryName := item.repositoryName
  filePathHash := if item.filePathHash ≠ "" then item.filePathHash
    else env.computeDbFilePathHash item.filePath item.repositoryName
  filePath := item.filePath
  sourceFileName := if item.sourceFileName ≠ "" then item.sourceFileName
    else basename item.filePath

/-- `_file_identity` with the marks of the part. -/
def fileIdentity (env : Env) (item : CoverageItem) : FileIdentity :=
  ⟨item.repositoryName, (normalizedItem env item).filePathHash, item.filePath,
    item.chunk.bind ChunkMeta.lastLineNumber, item.chunk.map ChunkMeta.fileComplete⟩

/-- `LINE_INGEST_BATCH_SIZE` -/
def lineIngestBatchSize : Nat := 1000

/-- `FILE_INGEST_BATCH_SIZE` -/
def fileIngestBatchSize : Nat := 128

/-- The lines of one item, in bounded statements. -/
def ingestLines (db : Db) (fileId : Nat) (records : List LineRecord) : Except Failure Db :=
  (Grouping.groups (fun current _ => lineIngestBatchSize ≤ current.length) records).foldlM
    (fun db lines => LineIndexRepository.upsertLines db fileId lines) db

/-- One item of a batch whose files are registered. -/
def ingestItem (env : Env) (scanId : Nat) (db : Db) (item : CoverageItem) : Except Failure Db := do
  let normalized := normalizedItem env item
  let (fileId, _) ← orFail (.technicalFailure "KeyError")
    (ProjectRepository.getFile db scanId normalized.repositoryName normalized.filePathHash)
  ingestLines db fileId item.lines

/-- `ingest_file_batch` -/
def ingestFileBatch (env : Env) (db : Db) (scanId : Nat) (batch : List CoverageItem) :
    Except Failure (Db × BatchResult) := do
  ProjectRepository.assertScanBuilding db scanId
  if batch = [] then pure (db, ⟨0, 0, none⟩)
  else do
    let db ← ProjectRepository.ensureFiles db scanId (batch.map (normalizedItem env))
    let db ← batch.foldlM (ingestItem env scanId) db
    pure (db, ⟨(batch.map CoverageItem.fileCountDelta).sum,
      (batch.map fun item => item.lines.length).sum, batch.getLast?.map (fileIdentity env)⟩)

/-- `_ingest_files` -/
def ingestAll (env : Env) (db : Db) (scanId : Nat) (files : List CoverageItem) :
    Except Failure Db :=
  (Grouping.groups (fun current _ => fileIngestBatchSize ≤ current.length) files).foldlM
    (fun db batch => (ingestFileBatch env db scanId batch).map Prod.fst) db

/-! ## Scans -/

/-- One repository of a new scan: its master identity, then its snapshot. -/
def registerRepository (projectId scanId : Nat) (db : Db) (r : RepositoryInput) :
    Except Failure Db := do
  let (db, repositoryId) ←
    if r.repositoryName = "" then pure (db, none)
    else do
      let (db, id) ← RepositoryRepository.ensure db projectId r.repositoryName
      pure (db, some id)
  ProjectRepository.upsertRepositorySnapshot db
    ⟨scanId, r.repositoryName, r.repositoryPath, r.branchName, r.oldCommitSha, r.newCommitSha,
      r.verified, r.provenance, repositoryId, r.commitSha, r.identityVerified,
      r.identityProvenance⟩

/-- `_validate_existing_scan` -/
def validateExistingScan (db : Db) (scanId : Nat) (repositories : List RepositoryInput) :
    Except Failure Unit :=
  let sorted := fun names : List String => names.insertionSort (· ≤ ·)
  require .existingScanMismatch (sorted (repositories.map RepositoryInput.repositoryName) =
    sorted ((ProjectRepository.listRepositorySnapshots db scanId).map Snapshot.repositoryName))

/-- What `create_scan` and `create_scan_and_ingest` share: an existing scan with the same identity
is returned as it is, a new one has CURRENT as its predecessor. -/
def openScan (env : Env) (db : Db) (identity : ScanIdentity) (status : ScanStatus) :
    Except Failure (Db × Nat × Nat × Bool) := do
  let (db, projectId) ← ProjectRepository.ensureProject db identity.projectName
  match ProjectRepository.getScanByKey db (env.projectScanKey identity) with
  | some scanId => do
    validateExistingScan db scanId identity.repositories
    pure (ProjectStateRepository.ensure db projectId, projectId, scanId, true)
  | none => do
    let (db, scanId) ← ProjectRepository.createScan db projectId (env.projectScanKey identity)
      status (db.stateOf projectId).currentScanId
    let db ← identity.repositories.foldlM (registerRepository projectId scanId) db
    pure (db, projectId, scanId, false)

/-- `create_scan` -/
def createScan (env : Env) (db : Db) (identity : ScanIdentity) (status : ScanStatus) :
    Except Failure Db := do
  let (db, projectId, _, existing) ← openScan env db identity status
  if existing then pure db else pure (ProjectStateRepository.advance db projectId)

/-- The end of a synchronous construction: rebuild, seal and publish. -/
def sealAndPublish (env : Env) (db : Db) (projectId scanId : Nat) : Except Failure Db := do
  let db := ProjectStateRepository.advance db projectId
  let db ← FileStateService.rebuildValidateAndMarkReadyInTransaction db projectId scanId
    (db.stateOf projectId).dataVersion none false
  let db ← ProjectRepository.sealScan db scanId .ready
  ScanPublicationService.publishInTransaction env db projectId scanId
    (some (db.stateOf projectId).currentScanId) .absent fun _ => pure ()

/-- `create_scan_and_ingest` -/
def createScanAndIngest (env : Env) (db : Db) (identity : ScanIdentity) (status : ScanStatus)
    (files : List CoverageItem) : Except Failure Db := do
  let (db, projectId, scanId, existing) ← openScan env db identity status
  if existing then pure db
  else do
    let db ← ingestAll env db scanId files
    sealAndPublish env db projectId scanId

/-- `ingest_files` -/
def ingestFiles (env : Env) (db : Db) (scanId : Nat) (files : List CoverageItem) :
    Except Failure Db := do
  let scan ← orFail (.scanNotFound scanId) (ProjectRepository.getScan db scanId)
  let db ← ingestAll env db scanId files
  sealAndPublish env db scan.projectId scanId

end ProjectService

end FosCoverage
