import FosCoverage.Lib.Process
import FosCoverage.Inheritance.Engine
import FosCoverage.Service.Audit
import FosCoverage.Import.Batches
import FosCoverage.Import.Recovery

/-!
# The durable import

`ScanImportCoordinator` as the code computes it.  The first part has its transactions, each a
function on the database:

* `create` stages and registers a Candidate;
* `runPhaseOperation` commits one phase, `ingestCoverageBatch` one batch, `seal` and
  `publishTransaction` the end;
* every one of them first asserts the fences of the job (`assertAllFences`).

The second part is the program a worker runs, `execute`, as a `Process`: the worker's own variables
are lost in a crash, the database is not.  The parsed input is an argument; the parser yields the
same files whenever it reads the same staged artifact.
-/

set_option autoImplicit false

namespace FosCoverage

open Relational Outcome

/-- What a worker commits. -/
inductive ImportEvent
  /-- A phase checkpoint. -/
  | phase (phase : Phase)
  /-- The batch with the given number. -/
  | batch (batchSeq : Nat) (items : List CoverageItem)
  deriving DecidableEq, Repr

/-- The settings of a coordinator. -/
structure CoordinatorConfig where
  /-- `COVERAGE_IMPORT_FILE_BATCH_SIZE` -/
  fileBatchSize : Nat := 128
  /-- `COVERAGE_IMPORT_MAX_LINES` and `COVERAGE_IMPORT_MAX_EST_BYTES` -/
  limits : BatchLimits := ⟨20000, 8388608⟩
  deriving DecidableEq, Repr

/-- What a client asks to import. -/
structure ImportRequest where
  /-- The identity of the scan, with the hash the client announced. -/
  identity : ScanIdentity
  /-- `repository_resource_ids` -/
  repositoryResourceIds : List Nat
  /-- The hash of the staged copy. -/
  artifactSha256 : String
  /-- The size of the staged copy. -/
  artifactSize : Nat
  deriving DecidableEq, Repr

/-- What `create` returns to the worker. -/
structure CreatedImport where
  /-- The job. -/
  jobId : Nat
  /-- The owner token. -/
  ownerToken : Nat
  /-- The fencing token of the first lock. -/
  fencingToken : Nat
  /-- The Candidate. -/
  scanId : Nat
  deriving DecidableEq, Repr

namespace ScanImportCoordinator

open RepositoryResourceLockService ScanImportRecoveryService

/-! ## Creation -/

/-- The lease of a lock, in seconds. -/
def leaseSeconds : Nat := 300

/-- The identity with the hash of the staged copy where the client announced none. -/
def effectiveIdentity (r : ImportRequest) : ScanIdentity :=
  { r.identity with infoSha256 :=
      if r.identity.infoSha256 ≠ "" then r.identity.infoSha256 else r.artifactSha256 }

/-- `create` -/
def create (env : Env) (db : Db) (r : ImportRequest) : Except Failure (Db × CreatedImport) := do
  let jobId := db.uuid
  let ownerToken := db.uuid + 1
  let db := { db with uuid := db.uuid + 2 }
  let resourceIds := normalize r.repositoryResourceIds
  require .resourceRequired (resourceIds ≠ [])
  let (db, acquired) ← acquire db resourceIds jobId ownerToken leaseSeconds
  let db := ImmutableArtifactStager.stage db jobId r.artifactSha256 r.artifactSize
  let requestedSha := lower (strip r.identity.infoSha256)
  require .infoSha256Mismatch (requestedSha = "" ∨ requestedSha = lower r.artifactSha256)
  let (db, projectId) ← ProjectRepository.ensureProject db r.identity.projectName
  let db := ProjectStateRepository.ensure db projectId
  let predecessor := (db.stateOf projectId).currentScanId
  let (db, scanId) ← ProjectRepository.createScan db projectId
    (env.importScanKey (effectiveIdentity r)) .importing predecessor
  let db := ProjectStateRepository.advance db projectId
  let version := (db.stateOf projectId).dataVersion
  let db ← r.identity.repositories.foldlM (ProjectService.registerRepository projectId scanId) db
  let payload : JobPayload := ⟨projectId, scanId, predecessor, jobId, r.artifactSha256, resourceIds,
    r.identity.repositories⟩
  let db ← JobRepository.create db jobId
    ⟨projectId, scanId, true, .queued, payload, version, ownerToken, true⟩
  let db := ImportCheckpointRepository.create db jobId scanId r.artifactSha256
    (firstToken acquired) { scanId := some scanId }
  pure (db, ⟨jobId, ownerToken, firstToken acquired, scanId⟩)

/-! ## Fences -/

/-- `_assert_all_fences`: the checkpoint's token, and every lock row that still names the job. -/
def assertAllFences (db : Db) (jobId ownerToken fencingToken : Nat) (checkpoint : Checkpoint) :
    Except Failure Unit := do
  require .lockFencingFailed
    (checkpoint.fencingToken = 0 ∨ fencingToken = checkpoint.fencingToken)
  (locksForJob db jobId).forM fun lock =>
    assertFence db lock.1 jobId ownerToken lock.2.fencingToken

/-! ## Phases -/

/-- `_run_phase_operation`.  A phase that has been committed before is skipped; the last component
says whether a checkpoint was written. -/
def runPhaseOperation (db : Db) (jobId ownerToken fencingToken : Nat) (target : Phase)
    (payload : Payload) (operation : Db → Payload → Except Failure (Db × Payload)) :
    Except Failure (Db × Payload × Bool) := do
  let checkpoint ← orFail .checkpointNotFound (ImportCheckpointRepository.get db jobId)
  if target.index ≤ checkpoint.phase.index then pure (db, payload, false)
  else do
    require .phaseSkip (checkpoint.phase.index + 1 = target.index)
    assertAllFences db jobId ownerToken fencingToken checkpoint
    let (db, payload) ← operation db payload
    let db ← ImportCheckpointRepository.advance db jobId checkpoint.checkpointSeq fencingToken
      target payload
    pure (db, payload, true)

/-- `operation=None` -/
def noOperation (db : Db) (payload : Payload) : Except Failure (Db × Payload) := pure (db, payload)

/-- `finalize_coverage`: the stored files and lines are as many as the input has. -/
def finalizeCoverage (jobId ownerToken fencingToken scanId fileCount lineCount : Nat) (db : Db)
    (payload : Payload) : Except Failure (Db × Payload) := do
  let checkpoint ← orFail .checkpointNotFound (ImportCheckpointRepository.get db jobId)
  assertAllFences db jobId ownerToken fencingToken checkpoint
  let files := FileStateRepository.filesOf db scanId none
  let lines := db.facts.lines.select fun _ l => files.any fun f => f.1 = l.fileId
  require .countMismatch (files.length = fileCount ∧ lines.length = lineCount)
  pure (db, { payload with coverageImportCompleted := true })

/-- `compute_inheritance` -/
def computeInheritance (env : Env) (scanId : Nat) (repositoryPaths : List (String × String))
    (db : Db) (payload : Payload) : Except Failure (Db × Payload) := do
  let (db, readSet) ← InheritanceEngine.run env db scanId repositoryPaths
  pure (db, { payload with readSet := readSet })

/-- `verify_consistency`: the audit, then the ready gate at the version reserved by `create`. -/
def verifyConsistency (jobId scanId : Nat) (db : Db) (payload : Payload) :
    Except Failure (Db × Payload) := do
  require .domainInconsistent (AnalysisDomainService.auditConsistency db (some scanId) = true)
  let version := ((JobRepository.get db jobId).map Job.dataVersion).getD 0
  let scan ← orFail (.scanNotFound scanId) (ProjectRepository.getScan db scanId)
  let db ← FileStateService.rebuildValidateAndMarkReadyInTransaction db scan.projectId scanId
    version none false
  pure (db, { payload with consistencyPassed := true })

/-! ## Batches -/

/-- The transaction of `_ingest_coverage_batch`: the facts of one batch and its checkpoint. -/
def ingestCoverageBatch (env : Env) (db : Db) (jobId ownerToken fencingToken scanId : Nat)
    (batch : List CoverageItem) (batchSeq processedFileCount processedLineCount : Nat)
    (phasePayload : Payload) : Except Failure (Db × BatchResult) := do
  let checkpoint ← orFail .checkpointNotFound (ImportCheckpointRepository.get db jobId)
  require .staleCheckpoint (checkpoint.phase = .infoStaged)
  assertAllFences db jobId ownerToken fencingToken checkpoint
  require .batchSequence (batchSeq = checkpoint.payload.batchSeq.getD 0 + 1)
  let (db, result) ← ProjectService.ingestFileBatch env db scanId batch
  let nextPayload : Payload :=
    { phasePayload with
      batchSeq := some batchSeq
      lastFileIdentity := result.lastFileIdentity
      processedFileCount := some (processedFileCount + result.fileCount)
      processedLineCount := some (processedLineCount + result.lineCount)
      fencingToken := some fencingToken }
  let db ← ImportCheckpointRepository.saveBatch db jobId checkpoint.checkpointSeq fencingToken
    nextPayload
  pure (db, result)

/-! ## Seal and publish -/

/-- The statuses a Candidate can be sealed from. -/
def sealable : ScanStatus → Bool
  | .importing | .validating | .building => true
  | _ => false

/-- `seal` -/
def sealImport (db : Db) (jobId ownerToken fencingToken : Nat) : Except Failure Db := do
  let checkpoint ← orFail .checkpointNotFound (ImportCheckpointRepository.get db jobId)
  assertAllFences db jobId ownerToken fencingToken checkpoint
  let scan ← orFail .scanNotImporting (ProjectRepository.getScan db checkpoint.scanId)
  require .scanNotImporting (sealable scan.status = true)
  let db := ProjectRepository.setStatus db checkpoint.scanId .sealed
  ImportCheckpointRepository.advance db jobId checkpoint.checkpointSeq fencingToken .sealed
    { checkpoint.payload with scanId := some checkpoint.scanId }

/-- The read set a publication validates: the caller's, or the one of the checkpoint. -/
def publishedReadSet (readSet : Option ReadSetArg) (payload : Payload) : ReadSetArg :=
  readSet.getD ((payload.readSet.map ReadSetArg.compact).getD .absent)

/-- `assert_fences` of the publication: the rows that name the job, with the tokens these rows
carry. -/
def assertLocks (jobId : Nat) (locks : List (Nat × Lock)) (db : Db) : Except Failure Unit :=
  locks.forM fun lock => assertFence db lock.1 jobId lock.2.ownerToken lock.2.fencingToken

/-- The release of the locks of a published import. -/
def releaseAll (db : Db) (jobId : Nat) (locks : List (Nat × Lock)) : Db :=
  locks.foldl (fun db lock => release db jobId lock.2.ownerToken (some lock.2.fencingToken)) db

/-- `_publish_transaction`; the last component says whether CURRENT was written. -/
def publishTransaction (env : Env) (db : Db) (jobId : Nat) (expectedCurrentScanId : Option Nat)
    (readSet : Option ReadSetArg) : Except Failure (Db × Bool) := do
  let job ← orFail .importJobNotFound (JobRepository.get db jobId)
  let checkpoint ← orFail .checkpointNotFound (ImportCheckpointRepository.get db jobId)
  if checkpoint.phase = .published ∨ checkpoint.phase = .done then pure (db, false)
  else do
    require .importNotSealed (checkpoint.phase = .sealed)
    let locks := locksForJob db jobId
    let expected := expectedCurrentScanId.or job.inputPayload.predecessorScanId
    let db ← ScanPublicationService.publishInTransaction env db job.inputPayload.projectId
      job.inputPayload.scanId (some expected) (publishedReadSet readSet checkpoint.payload)
      (assertLocks jobId locks)
    let db ← ImportCheckpointRepository.advance db jobId checkpoint.checkpointSeq
      checkpoint.fencingToken .published { scanId := some job.inputPayload.scanId }
    let db ← orFail .jobStateFenceFailed
      (JobRepository.transitionTerminal db jobId job.leaseOwner .completed)
    pure (releaseAll db jobId locks, true)

/-- The status of a Candidate whose publication raised `e`. -/
def failureStatus (e : Failure) : ScanStatus :=
  if ["CURRENT_POINTER_CHANGED", "PREDECESSOR_MISMATCH", "READ_SET_CHANGED",
      "IMPORT_NOT_SEALED"].contains e.errorCode then .aborted else .failed

/-- The second transaction of a failed publication; its own failure is swallowed. -/
def recordPublishFailure (db : Db) (jobId observedOwner : Nat) (e : Failure) : Db :=
  match recordFailure db jobId "PUBLISH" e.message none (failureStatus e) observedOwner with
  | .ok db' => db'
  | .error _ => db

/-! ## The worker -/

/-- A worker's program over the database. -/
abbrev Worker (α : Type) := Process Db Failure ImportEvent α

/-- `context` of `_load_execution_context`. -/
structure ExecutionContext where
  /-- The job. -/
  jobId : Nat
  /-- The worker's token. -/
  ownerToken : Nat
  /-- The worker's fencing token. -/
  fencingToken : Nat
  /-- The Candidate. -/
  scanId : Nat
  /-- The job's description. -/
  payload : JobPayload
  /-- The checkpoint the worker starts from. -/
  checkpoint : Checkpoint
  /-- `snapshots` -/
  snapshots : List Snapshot

/-- `_load_execution_context`; a missing owner is that of the first lock, a missing fencing token
that of the checkpoint. -/
def loadExecutionContext (db : Db) (jobId : Nat) (ownerToken fencingToken : Option Nat)
    (verifyArtifact : Bool) (observed : ImmutableArtifactStager.Observed) :
    Except Failure ExecutionContext := do
  let job ← orFail .scanImportJobNotFound (JobRepository.get db jobId)
  require .scanImportJobNotFound (job.isScanImport = true)
  let checkpoint ← orFail .checkpointNotFound (ImportCheckpointRepository.get db jobId)
  let owner := ownerToken.getD
    (((locksForJob db jobId).head?.map fun lock => lock.2.ownerToken).getD 0)
  let fence := fencingToken.getD checkpoint.fencingToken
  assertAllFences db jobId owner fence checkpoint
  let _ ← if verifyArtifact then
      ImmutableArtifactStager.verifyStaged db job.inputPayload.artifactId
        job.inputPayload.artifactSha256 observed
    else ImmutableArtifactStager.getDescriptor db job.inputPayload.artifactId observed
  let scanId := if job.inputPayload.scanId ≠ 0 then job.inputPayload.scanId else checkpoint.scanId
  pure ⟨jobId, owner, fence, scanId, job.inputPayload, checkpoint,
    ProjectRepository.listRepositorySnapshots db scanId⟩

/-- `_advance_phase` and `_run_phase_operation` as a step of the worker. -/
def phaseStep (ctx : ExecutionContext) (target : Phase) (payload : Payload)
    (operation : Db → Payload → Except Failure (Db × Payload)) : Worker Payload := do
  let r ← Process.transact
    (fun db => runPhaseOperation db ctx.jobId ctx.ownerToken ctx.fencingToken target payload
      operation)
    (fun r => if r.2 then [ImportEvent.phase target] else [])
  pure r.1

/-- `_checkpoint` read outside a transaction. -/
def readPhase (jobId : Nat) : Worker Phase :=
  Process.observe fun db =>
    (orFail .checkpointNotFound (ImportCheckpointRepository.get db jobId)).map Checkpoint.phase

/-- The variables of `_ingest_coverage_in_batches`. -/
structure IngestState where
  /-- `batch_seq` -/
  batchSeq : Nat
  /-- `processed_file_count` -/
  processedFileCount : Nat
  /-- `processed_line_count` -/
  processedLineCount : Nat
  /-- `phase_payload` -/
  phasePayload : Payload
  deriving DecidableEq, Repr

/-- The checks of `_ingest_coverage_in_batches` on a stored policy, and the limits to go on with: a
checkpoint from before the limits keeps its file-count-only batches. -/
def batchPolicy (config : CoordinatorConfig) (payload : Payload) :
    Except Failure (Nat × BatchLimits) := do
  let batchSize := max 1 config.fileBatchSize
  let stored := payload.batchSize.getD 0
  require .batchSizeChanged (stored = 0 ∨ stored = batchSize)
  let policyPresent := payload.maxLines.isSome ∨ payload.maxEstBytes.isSome
  require .batchPolicyChanged (¬ policyPresent ∨ (payload.maxLines.getD 0 = config.limits.maxLines ∧
    payload.maxEstBytes.getD 0 = config.limits.maxEstBytes))
  if payload.batchSeq.getD 0 ≠ 0 ∧ ¬ policyPresent then pure (batchSize, ⟨0, 0⟩)
  else pure (batchSize, config.limits)

/-- `phase_payload.update` after a batch. -/
def IngestState.afterBatch (st : IngestState) (batchSize fencingToken batchSeq files lines : Nat)
    (result : BatchResult) : IngestState :=
  ⟨batchSeq, files, lines,
    { st.phasePayload with
      batchSize := some batchSize
      batchSeq := some batchSeq
      lastFileIdentity := result.lastFileIdentity
      processedFileCount := some files
      processedLineCount := some lines
      fencingToken := some fencingToken }⟩

/-- `consume_batch`: a batch that was committed before the worker started is replayed, any other
is ingested. -/
def consumeBatch (env : Env) (ctx : ExecutionContext) (batchSize completedBatchSeq : Nat)
    (st : IngestState) (batch : List CoverageItem) : Worker IngestState := do
  let batchSeq := st.batchSeq + 1
  if batchSeq ≤ completedBatchSeq then
    pure (st.afterBatch batchSize ctx.fencingToken batchSeq st.processedFileCount
      st.processedLineCount (consumeCoverageBatch env batch))
  else do
    let result ← Process.transact
      (fun db => ingestCoverageBatch env db ctx.jobId ctx.ownerToken ctx.fencingToken ctx.scanId
        batch batchSeq st.processedFileCount st.processedLineCount st.phasePayload)
      (fun _ => [ImportEvent.batch batchSeq batch])
    pure (st.afterBatch batchSize ctx.fencingToken batchSeq
      (st.processedFileCount + result.fileCount) (st.processedLineCount + result.lineCount) result)

/-- `import_stats["line_count"]` -/
def inputLineCount (files : List CoverageItem) : Nat :=
  (files.map fun item => item.lines.length).sum

/-- `_ingest_coverage_in_batches` -/
def ingestCoverageInBatches (env : Env) (config : CoordinatorConfig) (ctx : ExecutionContext)
    (files : List CoverageItem) (phasePayload : Payload) : Worker Payload := do
  let (batchSize, limits) ← Process.ofExcept (batchPolicy config phasePayload)
  let start : IngestState := ⟨0, phasePayload.processedFileCount.getD 0,
    phasePayload.processedLineCount.getD 0,
    { phasePayload with
      batchSize := some batchSize
      maxLines := some limits.maxLines
      maxEstBytes := some limits.maxEstBytes
      fencingToken := some ctx.fencingToken }⟩
  let st ← (iterCoverageBatches env files batchSize limits).foldlM
    (consumeBatch env ctx batchSize (phasePayload.batchSeq.getD 0)) start
  Process.ofExcept (require .inputCountMismatch
    (st.processedFileCount = files.length ∧ st.processedLineCount = inputLineCount files))
  let payload : Payload :=
    { st.phasePayload with
      fileCount := some files.length
      lineCount := some (inputLineCount files) }
  phaseStep ctx .coverageImported payload
    (finalizeCoverage ctx.jobId ctx.ownerToken ctx.fencingToken ctx.scanId files.length
      (inputLineCount files))

/-- `_repository_path_map` -/
def repositoryPathMap (repositories : List RepositoryInput) (explicit : List (String × String)) :
    List (String × String) :=
  repositories.foldl (fun result r =>
    if r.repositoryName ≠ "" ∧ r.repositoryPath ≠ "" ∧ (result.lookup r.repositoryName).isNone then
      result ++ [(r.repositoryName, r.repositoryPath)]
    else result) explicit

/-- One snapshot of `_verify_git_snapshots`. -/
def verifyGitSnapshot (env : Env) (paths : List (String × String)) (s : Snapshot) :
    Except Failure Unit :=
  let oldCommit := s.oldCommitSha.getD ""
  let newCommit := if s.newCommitSha.getD "" ≠ "" then s.newCommitSha.getD ""
    else s.commitSha.getD ""
  if oldCommit = "" ∨ newCommit = "" then pure ()
  else
    let known := (paths.lookup s.repositoryName).getD ""
    let repoPath := if known ≠ "" then known else s.repositoryPath
    if repoPath = "" then .error (.technicalFailure
      ("repository path is required for Git verification: " ++ s.repositoryName))
    else match env.isAncestor repoPath oldCommit newCommit with
      | .error detail => .error (.technicalFailure detail)
      | .ok ancestor => require .gitAncestryFailed (ancestor = true)

/-- `publish`: a publication that raises leaves a terminal Candidate in a second transaction. -/
def publish (env : Env) (jobId : Nat) (expectedCurrentScanId : Option Nat)
    (readSet : Option ReadSetArg) : Worker Unit := do
  let observedOwner ← Process.observe fun db =>
    pure (((JobRepository.get db jobId).map Job.leaseOwner).getD 0)
  let r ← Process.attempt (fun db => publishTransaction env db jobId expectedCurrentScanId readSet)
    fun committed => if committed then [ImportEvent.phase .published] else []
  match r with
  | .ok _ => pure ()
  | .error e => do
    Process.transact (fun db => pure (recordPublishFailure db jobId observedOwner e, ()))
      fun _ => []
    Process.raise e

/-- `phase_payload` a worker starts with. -/
def startPayload (ctx : ExecutionContext) : Payload :=
  let payload := { ctx.checkpoint.payload with scanId := some ctx.scanId }
  if ctx.checkpoint.phase.index < Phase.coverageImported.index then
    { payload with fileCount := some 0, lineCount := some 0 }
  else payload

/-- The construction phases of `_execute_bound`, up to the seal. -/
def construct (env : Env) (config : CoordinatorConfig) (ctx : ExecutionContext)
    (files : List CoverageItem) (repositoryPaths : List (String × String)) : Worker Unit := do
  let payload := startPayload ctx
  let payload ← phaseStep ctx .scanCreated payload noOperation
  let payload ← phaseStep ctx .infoStaged payload noOperation
  let payload ←
    if ctx.checkpoint.phase.index < Phase.coverageImported.index then
      ingestCoverageInBatches env config ctx files payload
    else pure payload
  let paths := repositoryPathMap ctx.payload.repositories repositoryPaths
  let phase ← readPhase ctx.jobId
  let payload ←
    if phase.index < Phase.gitVerified.index then do
      Process.ofExcept (ctx.snapshots.forM (verifyGitSnapshot env paths))
      phaseStep ctx .gitVerified payload noOperation
    else pure payload
  let payload ← phaseStep ctx .sourcePrepared payload noOperation
  let payload ← phaseStep ctx .lineMapBuilt payload noOperation
  let payload ← phaseStep ctx .inheritanceComputed payload
    (computeInheritance env ctx.scanId paths)
  let payload ← phaseStep ctx .statsRebuilt payload noOperation
  let _ ← phaseStep ctx .consistencyVerified payload (verifyConsistency ctx.jobId ctx.scanId)
  Process.transact
    (fun db => (sealImport db ctx.jobId ctx.ownerToken ctx.fencingToken).map fun db => (db, ()))
    fun _ => [ImportEvent.phase .sealed]

/-- `execute` -/
def execute (env : Env) (config : CoordinatorConfig) (jobId : Nat)
    (ownerToken fencingToken : Option Nat) (files : List CoverageItem)
    (repositoryPaths : List (String × String)) (verifyArtifact : Bool)
    (observed : ImmutableArtifactStager.Observed) : Worker Unit := do
  let ctx ← Process.observe fun db =>
    loadExecutionContext db jobId ownerToken fencingToken verifyArtifact observed
  if ctx.checkpoint.phase = .published ∨ ctx.checkpoint.phase = .done then pure ()
  else if ctx.checkpoint.phase = .sealed then publish env jobId none none
  else do
    construct env config ctx files repositoryPaths
    publish env jobId none none

end ScanImportCoordinator

end FosCoverage
