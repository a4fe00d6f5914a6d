import FosCoverage.Import.Locks
import FosCoverage.Import.Publication

/-!
# Recovery of durable imports

`ScanImportRecoveryService` as the code computes it: `reclaim` gives a job to a new worker with new
fencing tokens, `recordFailure` ends a job and its Candidate.  The staged file lies outside the
database; what a second reading of it yields is an argument.
-/

set_option autoImplicit false

namespace FosCoverage

open Relational Outcome

/-! ## Staged artifacts -/

namespace ImmutableArtifactStager

/-- What reading a staged file again yields: its hash and its size, or nothing if it is gone. -/
abbrev Observed := Option (String × Nat)

/-- `stage`: the artifact of a job is stored under the job's own id. -/
def stage (db : Db) (jobId : Nat) (sha256 : String) (sizeBytes : Nat) : Db :=
  { db with imports.artifacts := db.imports.artifacts.put jobId ⟨jobId, sha256, sizeBytes, true⟩ }

/-- `get_descriptor` -/
def getDescriptor (db : Db) (artifactId : Nat) (observed : Observed) : Except Failure Artifact := do
  let artifact ← orFail .artifactNotFound (db.imports.artifacts.get? artifactId)
  require .stagedFileMissing (observed.isSome = true)
  require .artifactNotImmutable (artifact.immutable = true)
  pure artifact

/-- `verify_staged` -/
def verifyStaged (db : Db) (artifactId : Nat) (expectedSha256 : String) (observed : Observed) :
    Except Failure Artifact := do
  let artifact ← getDescriptor db artifactId observed
  let expected := if expectedSha256 ≠ "" then expectedSha256 else artifact.sha256
  require .stagedArtifactChanged
    (∃ o ∈ observed, lower o.1 = lower expected ∧ o.2 = artifact.sizeBytes)
  pure artifact

end ImmutableArtifactStager

namespace ScanImportRecoveryService

open RepositoryResourceLockService

/-- `validate` -/
def validate (db : Db) (jobId : Nat) (observed : ImmutableArtifactStager.Observed) :
    Except Failure Job := do
  let job ← orFail .scanImportJobNotFound (JobRepository.get db jobId)
  require .scanImportJobNotFound (job.isScanImport = true)
  require .unsupportedHandler (job.handlerSupported = true)
  let checkpoint ← orFail .checkpointMissing (ImportCheckpointRepository.get db jobId)
  require .importScanIdMismatch (job.inputPayload.scanId = checkpoint.scanId)
  let scan ← orFail .importProjectIdMismatch
    (ProjectRepository.getScan db job.inputPayload.scanId)
  require .importProjectIdMismatch (scan.projectId = job.inputPayload.projectId)
  let artifact ← ImmutableArtifactStager.verifyStaged db job.inputPayload.artifactId
    job.inputPayload.artifactSha256 observed
  require .checkpointShaMismatch (checkpoint.inputSha256 = artifact.sha256)
  pure job

/-- The fencing token of a list of acquired locks: that of the first one. -/
def firstToken (acquired : List (Nat × Nat)) : Nat := (acquired.head?.map Prod.snd).getD 0

/-- `reclaim`.  A missing owner token is drawn; the result is the owner and its fencing token. -/
def reclaim (db : Db) (jobId : Nat) (resourceIds : Option (List Nat)) (ownerToken : Option Nat)
    (leaseSeconds : Nat) (observed : ImmutableArtifactStager.Observed) :
    Except Failure (Db × Nat × Nat) := do
  let owner := ownerToken.getD db.uuid
  let db := if ownerToken.isSome then db else { db with uuid := db.uuid + 1 }
  let job ← validate db jobId observed
  let resources := resourceIds.getD job.inputPayload.repositoryResourceIds
  let (db, acquired) ← acquire db resources jobId owner leaseSeconds
  let db ← orFail .invalidJobTransition (JobRepository.reclaim db jobId owner)
  let db ← if acquired = [] then pure db
    else ImportCheckpointRepository.claimFencing db jobId (firstToken acquired)
  pure (db, owner, firstToken acquired)

/-! ## Failures -/

/-- The statuses `record_failure` may still change. -/
def failable : ScanStatus → Bool
  | .importing | .validating | .building | .constructing | .sealed | .ready => true
  | .failed | .aborted => false

/-- The guarded update of the scan: a scan that is CURRENT keeps its status. -/
def failScan (db : Db) (scanId : Nat) (status : ScanStatus) : Db :=
  match ProjectRepository.getScan db scanId with
  | some scan =>
    if failable scan.status ∧ (db.stateOf scan.projectId).currentScanId ≠ some scanId then
      ProjectRepository.setStatus db scanId status
    else db
  | none => db

/-- The owner a failure is recorded for when the caller names none: the only owner of the locks
with the given fencing token. -/
def inferOwner (db : Db) (jobId : Nat) (fencingToken : Option Nat) : Nat :=
  match fencingToken with
  | none => 0
  | some f =>
    match (((locksForJob db jobId).filter fun lock => lock.2.fencingToken = f).map
        fun lock => lock.2.ownerToken).dedup with
    | [owner] => owner
    | _ => 0

/-- `INSERT OR IGNORE` of the failure ledger. -/
def recordRow (db : Db) (row : ImportFailure) : Db :=
  if db.imports.failures.rows.any fun r => r.2 = row then db
  else { db with imports.failures := db.imports.failures.insert row }

/-- `record_failure`: a caller that is no longer the job's owner only leaves a row in the
ledger. -/
def recordFailure (db : Db) (jobId : Nat) (phase message : String) (fencingToken : Option Nat)
    (scanStatus : ScanStatus) (ownerToken : Nat) : Except Failure Db := do
  let job ← orFail .scanImportJobNotFound (JobRepository.get db jobId)
  let owner := if ownerToken ≠ 0 then ownerToken else inferOwner db jobId fencingToken
  require .jobOwnerRequired (owner ≠ 0)
  let db := recordRow db ⟨jobId, job.scanId, phase, message⟩
  match JobRepository.transitionTerminal db jobId owner .failed with
  | none => pure db
  | some db => pure (release (failScan db job.scanId scanStatus) jobId owner none)

end ScanImportRecoveryService

end FosCoverage
