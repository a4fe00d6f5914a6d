import FosCoverage.Lib.Trace
import FosCoverage.Service.Review
import FosCoverage.Import.Coordinator

/-!
# The system

Everything the modelled services do to the database, one `Action` for each transaction, so that a
list of actions is an interleaving of reviewers, importers and workers.  An action that raises is
rolled back and leaves the database alone (`exec`).

* `Mutation` has the five analysis operations.
* A worker appears with the three values it carries (`WorkerId`); what it keeps in memory besides is
  an argument of its transactions, so every order of the transactions of any number of workers is
  covered.
* A publication and the record of its failure are two transactions, and two actions.
-/

set_option autoImplicit false

namespace FosCoverage

open Relational Outcome

/-! ## Analysis operations -/

/-- The analysis operations of a reviewer. -/
inductive Mutation
  /-- `AnalysisService.save` -/
  | save (projectName : String) (scanId : Nat) (records : List AnalysisService.Item)
      (reviewer : String) (enforceCurrent : Bool)
  /-- `InheritanceReviewService.confirm` -/
  | confirm (projectId scanId : Nat) (selectedLineIds : List Nat) (expectedMap : List (Nat × Nat))
      (default : Option Nat) (reviewer : String)
  /-- `InheritanceReviewService.edit_confirm` -/
  | editConfirm (projectName : String) (scanId : Nat) (records : List AnalysisService.Item)
      (reviewer : String)
  /-- `InheritanceRejectionService.reject` -/
  | reject (projectId scanId lineId : Nat) (rejectedBy : String) (expectedRelationRevision : Nat)
  /-- `InheritanceRejectionService.undo` -/
  | undo (projectId scanId lineId rejectionId expectedRejectionRevision
      expectedRelationRevision : Nat)

/-- The transaction of an analysis operation. -/
def Mutation.apply (env : Env) (db : Db) : Mutation → Except Failure Db
  | .save projectName scanId records reviewer enforceCurrent =>
    AnalysisService.save env db projectName scanId records reviewer enforceCurrent
  | .confirm projectId scanId selectedLineIds expectedMap default reviewer =>
    InheritanceReviewService.confirm db projectId scanId selectedLineIds expectedMap default
      reviewer
  | .editConfirm projectName scanId records reviewer =>
    InheritanceReviewService.editConfirm env db projectName scanId records reviewer
  | .reject projectId scanId lineId rejectedBy expected =>
    InheritanceReviewService.reject db projectId scanId lineId rejectedBy expected
  | .undo projectId scanId lineId rejectionId er el =>
    InheritanceReviewService.undo db projectId scanId lineId rejectionId er el

/-- The scan an operation works on. -/
def Mutation.scanId : Mutation → Nat
  | .save _ scanId _ _ _ => scanId
  | .confirm _ scanId _ _ _ _ => scanId
  | .editConfirm _ scanId _ _ => scanId
  | .reject _ scanId _ _ _ => scanId
  | .undo _ scanId _ _ _ _ => scanId

/-- The operations of a save request, whichever of the two entry points it came through. -/
def Mutation.request : Mutation → Option (List AnalysisService.Item × String)
  | .save _ _ records reviewer _ => some (records, reviewer)
  | .editConfirm _ _ records reviewer => some (records, reviewer)
  | _ => none

/-- An operation names a line of its scan. -/
def Mutation.Names (env : Env) (db : Db) (m : Mutation) (lineId : Nat) : Prop :=
  match m with
  | .save _ scanId records reviewer _ | .editConfirm _ scanId records reviewer =>
    ∃ resolved, AnalysisService.resolveRecords env db scanId records reviewer = .ok resolved ∧
      lineId ∈ resolved.map AnalysisService.Resolved.lineId
  | .confirm _ _ selectedLineIds _ _ _ => lineId ∈ selectedLineIds
  | .reject _ _ l _ _ => lineId = l
  | .undo _ _ l _ _ _ => lineId = l

/-- One after the other; an operation that raises changes nothing. -/
def Mutation.exec (env : Env) (db : Db) (m : Mutation) : Db :=
  match m.apply env db with
  | .ok db' => db'
  | .error _ => db

theorem Mutation.apply_eq_ok {env : Env} {db : Db} {m : Mutation}
    (h : (m.apply env db).isOk = true) : m.apply env db = .ok (m.exec env db) := by
  obtain ⟨db', hok⟩ := exists_of_isOk h
  simp [exec, hok]

/-! ## Actions -/

/-- What a worker entered `execute` with. -/
structure WorkerId where
  /-- The job. -/
  jobId : Nat
  /-- The owner token. -/
  ownerToken : Nat
  /-- The fencing token. -/
  fencingToken : Nat
  deriving DecidableEq, Repr

/-- The operation a phase transaction carries. -/
inductive PhaseOp
  /-- A checkpoint only. -/
  | checkpoint
  /-- `finalize_coverage` with the counts of the input. -/
  | finalizeCoverage (fileCount lineCount : Nat)
  /-- `compute_inheritance` -/
  | computeInheritance (repositoryPaths : List (String × String))
  /-- `verify_consistency` -/
  | verifyConsistency

/-- The transactions of the system. -/
inductive Action
  /-- Time passes. -/
  | tick (microseconds : Nat)
  /-- A physical resource is registered. -/
  | registerResource (resourceId : Nat)
  /-- An analysis operation. -/
  | mutate (m : Mutation)
  /-- `backfill_legacy` of one scan. -/
  | backfill (scanId : Nat)
  /-- `InheritanceEngine.run` on its own. -/
  | runEngine (scanId : Nat) (repositoryPaths : List (String × String))
  /-- `ProjectService.create_scan` -/
  | createScan (identity : ScanIdentity) (status : ScanStatus)
  /-- `ProjectService.create_scan_and_ingest` -/
  | createScanAndIngest (identity : ScanIdentity) (status : ScanStatus)
      (files : List CoverageItem)
  /-- `ProjectService.ingest_files` -/
  | ingestFiles (scanId : Nat) (files : List CoverageItem)
  /-- `ProjectService.seal_scan` -/
  | sealScan (scanId : Nat)
  /-- `ScanImportCoordinator.create` -/
  | create (request : ImportRequest)
  /-- `_run_phase_operation` -/
  | phase (w : WorkerId) (target : Phase) (payload : Payload) (op : PhaseOp)
  /-- `_ingest_coverage_batch` -/
  | batch (w : WorkerId) (items : List CoverageItem)
      (batchSeq processedFileCount processedLineCount : Nat) (payload : Payload)
  /-- `seal` -/
  | sealImport (w : WorkerId)
  /-- `_publish_transaction` -/
  | publish (w : WorkerId) (expectedCurrentScanId : Option Nat) (readSet : Option ReadSetArg)
  /-- `ScanImportRecoveryService.reclaim` by a new worker. -/
  | reclaim (jobId : Nat) (observed : ImmutableArtifactStager.Observed)
  /-- `ScanImportRecoveryService.record_failure` -/
  | recordFailure (jobId : Nat) (phase message : String) (fencingToken : Option Nat)
      (aborted : Bool) (ownerToken : Nat)

/-- The Candidate of a job. -/
def Db.jobScan (db : Db) (jobId : Nat) : Nat :=
  ((JobRepository.get db jobId).map fun job => job.inputPayload.scanId).getD 0

/-- The operation of a phase transaction. -/
def PhaseOp.operation (env : Env) (w : WorkerId) (scanId : Nat) :
    PhaseOp → Db → Payload → Except Failure (Db × Payload)
  | .checkpoint => ScanImportCoordinator.noOperation
  | .finalizeCoverage fileCount lineCount =>
    ScanImportCoordinator.finalizeCoverage w.jobId w.ownerToken w.fencingToken scanId fileCount
      lineCount
  | .computeInheritance repositoryPaths =>
    ScanImportCoordinator.computeInheritance env scanId repositoryPaths
  | .verifyConsistency => ScanImportCoordinator.verifyConsistency w.jobId scanId

namespace Action

/-- The transaction of an action. -/
def apply (env : Env) (db : Db) : Action → Except Failure Db
  | tick d => pure { db with now := db.now + d }
  | registerResource r =>
    if (db.imports.resources.get? r).isSome then pure db
    else pure { db with imports.resources := db.imports.resources.put r 0 }
  | mutate m => m.apply env db
  | backfill scanId => AnalysisDomainRepository.backfillLegacy db scanId
  | runEngine scanId repositoryPaths =>
    (InheritanceEngine.run env db scanId repositoryPaths).map Prod.fst
  | createScan identity status => ProjectService.createScan env db identity status
  | createScanAndIngest identity status files =>
    ProjectService.createScanAndIngest env db identity status files
  | ingestFiles scanId files => ProjectService.ingestFiles env db scanId files
  | sealScan scanId => ProjectRepository.sealScan db scanId .ready
  | create request => (ScanImportCoordinator.create env db request).map Prod.fst
  | phase w target payload op =>
    (ScanImportCoordinator.runPhaseOperation db w.jobId w.ownerToken w.fencingToken target payload
      (op.operation env w (db.jobScan w.jobId))).map Prod.fst
  | batch w items batchSeq files lines payload =>
    (ScanImportCoordinator.ingestCoverageBatch env db w.jobId w.ownerToken w.fencingToken
      (db.jobScan w.jobId) items batchSeq files lines payload).map Prod.fst
  | sealImport w => ScanImportCoordinator.sealImport db w.jobId w.ownerToken w.fencingToken
  | publish w expected readSet =>
    (ScanImportCoordinator.publishTransaction env db w.jobId expected readSet).map Prod.fst
  | reclaim jobId observed =>
    (ScanImportRecoveryService.reclaim db jobId none none ScanImportCoordinator.leaseSeconds
      observed).map Prod.fst
  | recordFailure jobId name message fencingToken aborted ownerToken =>
    ScanImportRecoveryService.recordFailure db jobId name message fencingToken
      (if aborted then .aborted else .failed) ownerToken

/-- The database after an action; one that raises leaves it alone. -/
def exec (env : Env) (db : Db) (a : Action) : Db :=
  match a.apply env db with
  | .ok db' => db'
  | .error _ => db

theorem exec_of_ok {env : Env} {db db' : Db} {a : Action} (h : a.apply env db = .ok db') :
    exec env db a = db' := by
  simp [exec, h]

theorem exec_of_error {env : Env} {db : Db} {a : Action} {e : Failure}
    (h : a.apply env db = .error e) : exec env db a = db := by
  simp [exec, h]

/-- What every accepted action keeps, every action keeps. -/
theorem exec_inv {env : Env} {P : Db → Prop} {db : Db} (h₀ : P db)
    (h : ∀ (a : Action) (db' : Db), a.apply env db = .ok db' → P db') (a : Action) :
    P (exec env db a) := by
  unfold exec
  split
  · exact h a _ ‹_›
  · exact h₀

end Action

/-- A database some interleaving leads to from an empty one. -/
def Reachable (env : Env) (db : Db) : Prop :=
  ∃ actions, db = Trace.run (Action.exec env) Db.empty actions

/-- **What holds of the empty database and is kept by every accepted action holds of every reachable
one.** -/
theorem Reachable.inv {env : Env} {P : Db → Prop} {db : Db} (h : Reachable env db)
    (h₀ : P Db.empty)
    (step : ∀ db (a : Action) db', P db → a.apply env db = .ok db' → P db') : P db := by
  obtain ⟨actions, rfl⟩ := h
  exact Trace.run_inv (fun d a hd => Action.exec_inv hd (fun a d' ha => step d a d' hd ha) a) h₀ _

/-! ## A small history

One project with one repository and one file, on which the system can be evaluated.  The hash
functions are replaced by injective ones, and the two versions of a file are compared line by
line. -/

namespace Sample

/-- Functions with the behaviour the services rely on. -/
def env : Env where
  collates := fun a b => a.toList.map Char.toLower = b.toList.map Char.toLower
  computeDbFilePathHash := fun path repository => repository ++ "/" ++ path
  itemDigest := fun kind id revision =>
    (id * 1000 + revision) * 2 + (if kind = "record" then 1 else 0)
  decisionRunId := fun candidate predecessor =>
    toString candidate ++ "-" ++ toString (predecessor.getD 0)
  projectScanKey := fun i => i.projectName ++ ":" ++ i.infoSha256
  importScanKey := fun i => i.projectName ++ ":" ++ i.infoSha256
  estimateBaseBytes := fun _ _ _ _ => 100
  estimateRecordBytes := fun _ => 50
  isAncestor := fun _ _ _ => .ok true
  snapshot := fun _ _ _ _ => .ok (.ok ⟨[], [], ⟨some, fun _ => false, "identity"⟩,
    fun old new _ _ => if old = new then none else some "TEXT_CHANGED"⟩)

/-- The repository. -/
def repository : RepositoryInput where
  repositoryName := "core"
  repositoryPath := "/src/core"
  branchName := "main"
  commitSha := some "c0ffee"
  identityVerified := true
  identityProvenance := "git"

/-- The scan with the given input hash. -/
def identity (sha : String) : ScanIdentity := ⟨"fos", sha, [repository], "full", ""⟩

/-- A line nobody has covered. -/
def uncovered (n : Nat) (text : String) : LineRecord :=
  { lineNumber := n, lineText := some text, coverageState := some "uncovered" }

/-- A file of the repository. -/
def file (path : String) (lines : List LineRecord) : CoverageItem :=
  { repositoryName := "core", filePathHash := "", filePath := path, sourceFileName := "",
    lines := lines }

/-- A file with two uncovered lines. -/
def twoLines : CoverageItem := file "a.cpp" [uncovered 1 "a();", uncovered 2 "b();"]

/-- Another file with these lines, whose name differs in case. -/
def upperTwoLines : CoverageItem := file "A.cpp" [uncovered 1 "a();", uncovered 2 "b();"]

/-- A save of a range of lines of `a.cpp`. -/
def conclude (first last : Int) (status : String) : AnalysisService.Item :=
  { lineStart := some first, lineEnd := some last, repositoryName := "core", filePath := "a.cpp",
    status := some status }

/-- A first scan, published in one transaction. -/
def firstScan (files : List CoverageItem) : Action :=
  .createScanAndIngest (identity "sha1") .building files

/-- Two lines with one conclusion on the first scan. -/
def reviewed : List Action :=
  [firstScan [twoLines], .mutate (.save "fos" 1 [conclude 1 2 "可覆盖"] "ann" true)]

/-- The transactions of an import up to the seal, in one batch. -/
def construct (w : WorkerId) (scanId : Nat) (files : List CoverageItem) (lines : Nat) :
    List Action :=
  let payload : Payload := { scanId := some scanId }
  [.phase w .scanCreated payload .checkpoint, .phase w .infoStaged payload .checkpoint,
    .batch w files 1 0 0 payload,
    .phase w .coverageImported payload (.finalizeCoverage files.length lines),
    .phase w .gitVerified payload .checkpoint, .phase w .sourcePrepared payload .checkpoint,
    .phase w .lineMapBuilt payload .checkpoint,
    .phase w .inheritanceComputed payload (.computeInheritance [("core", "/src/core")])]

/-- The transactions from the engine run to the publication; the read set of the checkpoint is
carried along. -/
def complete (w : WorkerId) (payload : Payload) : List Action :=
  [.phase w .statsRebuilt payload .checkpoint,
    .phase w .consistencyVerified payload .verifyConsistency, .sealImport w, .publish w none none]

/-- The worker of the first import of a system. -/
def worker : WorkerId := ⟨1, 2, 1⟩

/-- A second scan with the same file, imported and published. -/
def inherited : List Action :=
  reviewed ++ [.registerResource 7, .create ⟨identity "sha2", [7], "sha2", 10⟩] ++
    construct worker 2 [twoLines] 2 ++ complete worker { scanId := some 2 }

/-- The database after the second scan is CURRENT. -/
def inheritedDb : Db := Trace.run (Action.exec env) Db.empty inherited

theorem reachable_inheritedDb : Reachable env inheritedDb := ⟨inherited, rfl⟩

end Sample

end FosCoverage
