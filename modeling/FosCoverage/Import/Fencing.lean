import FosCoverage.Import.Current

/-!
# Who may commit for an import

A worker holds an import while every physical resource of the job has a lock row with its owner
token.  The transactions of the worker look at the rows that name the job, not at the resources: a
row that another job has taken over names that job, and is not looked at.  The publication does not
compare the owner token either.

* `Fenced` is what a commit is supposed to rest on, `Action.Held` what the code leaves unchecked: for
  a commit the one holds exactly when the other does (`fenced_iff_held`).
* `Leases` is what every action does to the lock rows: a row is an old one, or it carries a token that
  has just been drawn.  So a lock that is gone does not come back.
* `import_fencing` says that in a run whose worker transactions find their rows still naming the job,
  every commit is fenced and nobody commits after a take-over.  Without the condition a worker commits
  a phase of an import whose only resource another job has taken over
  (`commit_after_take_over`).
-/

set_option autoImplicit false

namespace FosCoverage

open Relational Outcome RepositoryResourceLockService

/-! ## Commits -/

/-- The worker whose transaction the action commits, if it does. -/
def Action.commits (env : Env) (db : Db) : Action → Option WorkerId
  | .phase w target payload op =>
    match ScanImportCoordinator.runPhaseOperation db w.jobId w.ownerToken w.fencingToken target
        payload (op.operation env w (db.jobScan w.jobId)) with
    | .ok (_, _, true) => some w
    | _ => none
  | .batch w items batchSeq files lines payload =>
    if ((Action.batch w items batchSeq files lines payload).apply env db).isOk then some w else none
  | .sealImport w => if ((Action.sealImport w).apply env db).isOk then some w else none
  | .publish w expected readSet =>
    match ScanImportCoordinator.publishTransaction env db w.jobId expected readSet with
    | .ok (_, true) => some w
    | _ => none
  | _ => none

/-- `repository_resource_ids` of a job. -/
def Db.resourcesOf (db : Db) (jobId : Nat) : List Nat :=
  ((JobRepository.get db jobId).map fun job => job.inputPayload.repositoryResourceIds).getD []

/-- The worker holds the lock of the resource. -/
def Holds (db : Db) (w : WorkerId) (r : Nat) : Prop :=
  ∃ lock ∈ db.imports.locks.get? r, lock.jobId = w.jobId ∧ lock.ownerToken = w.ownerToken

instance (db : Db) (w : WorkerId) (r : Nat) : Decidable (Holds db w r) :=
  inferInstanceAs (Decidable (∃ lock ∈ db.imports.locks.get? r,
    lock.jobId = w.jobId ∧ lock.ownerToken = w.ownerToken))

/-- Every resource of the job is locked by the worker, under a lease that runs. -/
def Fenced (db : Db) (w : WorkerId) : Prop :=
  ∀ r ∈ db.resourcesOf w.jobId, ∃ lock ∈ db.imports.locks.get? r,
    lock.jobId = w.jobId ∧ lock.ownerToken = w.ownerToken ∧ expired db.now lock = false

instance (db : Db) (w : WorkerId) : Decidable (Fenced db w) :=
  inferInstanceAs (Decidable (∀ r ∈ db.resourcesOf w.jobId, ∃ lock ∈ db.imports.locks.get? r,
    lock.jobId = w.jobId ∧ lock.ownerToken = w.ownerToken ∧ expired db.now lock = false))

/-- The lock row of every resource of the job still names the job; for a publication, with the token
of the worker. -/
def Action.Held (db : Db) : Action → Prop
  | .phase w _ _ _ | .batch w _ _ _ _ _ | .sealImport w =>
    ∀ r ∈ db.resourcesOf w.jobId, ∃ lock ∈ db.imports.locks.get? r, lock.jobId = w.jobId
  | .publish w _ _ => ∀ r ∈ db.resourcesOf w.jobId, Holds db w r
  | _ => True

instance (db : Db) : (a : Action) → Decidable (a.Held db)
  | .phase w _ _ _ | .batch w _ _ _ _ _ | .sealImport w => inferInstanceAs (Decidable
      (∀ r ∈ db.resourcesOf w.jobId, ∃ lock ∈ db.imports.locks.get? r, lock.jobId = w.jobId))
  | .publish w _ _ => inferInstanceAs (Decidable (∀ r ∈ db.resourcesOf w.jobId, Holds db w r))
  | .tick _ | .registerResource _ | .mutate _ | .backfill _ | .runEngine _ _ | .createScan _ _
  | .createScanAndIngest _ _ _ | .ingestFiles _ _ | .sealScan _ | .create _ | .reclaim _ _
  | .recordFailure _ _ _ _ _ _ => isTrue trivial

section Commit

variable {env : Env} {db : Db} {w : WorkerId}

/-- The fences of a worker transaction make up for everything but a row that no longer names the
job. -/
theorem fenced_of_assertAllFences {c : Checkpoint} {u : Unit}
    (h : ScanImportCoordinator.assertAllFences db w.jobId w.ownerToken w.fencingToken c = .ok u) :
    Fenced db w ↔
      ∀ r ∈ db.resourcesOf w.jobId, ∃ lock ∈ db.imports.locks.get? r, lock.jobId = w.jobId := by
  have hlocks := (ScanImportCoordinator.assertAllFences_eq_ok.1 h).2
  refine forall_congr' fun r => imp_congr_right fun _ => ⟨?_, ?_⟩
  · rintro ⟨lock, hget, hjob, _⟩
    exact ⟨lock, hget, hjob⟩
  · rintro ⟨lock, hget, hjob⟩
    exact ⟨lock, hget, hjob, hlocks r lock hget hjob⟩

/-- Those of a publication make up for the lease only. -/
theorem fenced_of_assertLocks {d : Db} {u : Unit} (hd : d.imports = db.imports ∧ d.now = db.now)
    (h : ScanImportCoordinator.assertLocks w.jobId (locksForJob db w.jobId) d = .ok u) :
    Fenced db w ↔ ∀ r ∈ db.resourcesOf w.jobId, Holds db w r := by
  simp only [ScanImportCoordinator.assertLocks, forM_eq_ok, assertFence_eq_ok] at h
  refine forall_congr' fun r => imp_congr_right fun _ => ⟨?_, ?_⟩
  · rintro ⟨lock, hget, hjob, hown, _⟩
    exact ⟨lock, hget, hjob, hown⟩
  · rintro ⟨lock, hget, hjob, hown⟩
    obtain ⟨lock', hget', _, _, _, hlease⟩ := h (r, lock) (mem_locksForJob.2 ⟨hget, hjob⟩)
    rw [hd.1] at hget'
    rw [hd.2] at hlease
    obtain rfl : lock = lock' := Option.some.inj ((Option.mem_def.1 hget).symm.trans hget')
    exact ⟨lock, hget, hjob, hown, hlease⟩

/-- **A commit is fenced exactly when the lock rows still name the job.** -/
theorem fenced_iff_held {a : Action} (h : a.commits env db = some w) :
    Fenced db w ↔ a.Held db := by
  cases a with
  | phase w' target payload op =>
    simp only [Action.commits] at h
    split at h
    · rename_i hphase
      obtain rfl := Option.some.inj h
      obtain ⟨c, _, ⟨hfalse, _⟩ | ⟨_, _, hf, _⟩⟩ := ScanImportCoordinator.runPhaseOperation_ok hphase
      · cases hfalse
      · exact fenced_of_assertAllFences hf
    · cases h
  | batch w' items batchSeq files lines payload =>
    simp only [Action.commits] at h
    split at h
    · rename_i hok
      obtain rfl := Option.some.inj h
      obtain ⟨db', hok⟩ := exists_of_isOk hok
      obtain ⟨_, hbatch⟩ := map_fst_eq_ok hok
      obtain ⟨c, _, _, _, hf, _⟩ := ScanImportCoordinator.ingestCoverageBatch_ok hbatch
      exact fenced_of_assertAllFences hf
    · cases h
  | sealImport w' =>
    simp only [Action.commits] at h
    split at h
    · rename_i hok
      obtain rfl := Option.some.inj h
      obtain ⟨db', hok⟩ := exists_of_isOk hok
      obtain ⟨c, _, _, hf, _⟩ := ScanImportCoordinator.sealImport_ok hok
      exact fenced_of_assertAllFences hf
    · cases h
  | publish w' expected readSet =>
    simp only [Action.commits] at h
    split at h
    · rename_i hpub
      obtain rfl := Option.some.inj h
      obtain ⟨job, c, _, _, ⟨hfalse, _⟩ | ⟨_, _, db₁, _, hpub, _⟩⟩ :=
        ScanImportCoordinator.publishTransaction_ok hpub
      · cases hfalse
      · obtain ⟨_, _, _, _, hf⟩ := ScanPublicationService.published_of_ok hpub
        exact fenced_of_assertLocks ⟨by simp, by simp⟩ hf
    · cases h
  | _ => cases h

end Commit

/-! ## Lock rows -/

/-- What an action does to locks and jobs. -/
structure Leases (db db' : Db) : Prop where
  /-- A lock row is an old one, or its token has just been drawn. -/
  lock : ∀ r lock, db'.imports.locks.get? r = some lock → db.imports.locks.get? r = some lock ∨
    (db.uuid ≤ lock.ownerToken ∧ lock.ownerToken < db'.uuid)
  /-- Identifiers are drawn in ascending order. -/
  uuid : db.uuid ≤ db'.uuid
  /-- A job keeps its description. -/
  job : ∀ j job, JobRepository.get db j = some job →
    ∃ job', JobRepository.get db' j = some job' ∧ job'.inputPayload = job.inputPayload

namespace Leases

variable {env : Env} {db db' db'' : Db}

theorem refl (db : Db) : Leases db db :=
  ⟨fun _ _ h => .inl h, Nat.le_refl _, fun _ job h => ⟨job, h, rfl⟩⟩

theorem trans (h : Leases db db') (h' : Leases db' db'') : Leases db db'' := by
  refine ⟨fun r lock hr => ?_, Nat.le_trans h.uuid h'.uuid, fun j job hj => ?_⟩
  · rcases h'.lock r lock hr with hr | ⟨hge, hlt⟩
    · rcases h.lock r lock hr with hr | ⟨hge, hlt⟩
      · exact .inl hr
      · exact .inr ⟨hge, Nat.lt_of_lt_of_le hlt h'.uuid⟩
    · exact .inr ⟨Nat.le_trans h.uuid hge, hlt⟩
  · obtain ⟨job', hj', hp⟩ := h.job j job hj
    obtain ⟨job'', hj'', hp'⟩ := h'.job j job' hj'
    exact ⟨job'', hj'', hp'.trans hp⟩

/-- Neither locks nor jobs are written. -/
theorem of_imports (hl : db'.imports.locks = db.imports.locks)
    (hj : db'.imports.jobs = db.imports.jobs) (hu : db'.uuid = db.uuid) : Leases db db' := by
  refine ⟨fun r lock hr => .inl (by rw [← hl]; exact hr), Nat.le_of_eq hu.symm, fun j job h => ?_⟩
  exact ⟨job, by rw [JobRepository.get, hj]; exact h, rfl⟩

/-- Locks are dropped, and a job is rewritten. -/
theorem of_release {jobId : Nat} {job job' : Job} (hu : db'.uuid = db.uuid)
    (hl : ∀ r lock, db'.imports.locks.get? r = some lock → db.imports.locks.get? r = some lock)
    (hj : db'.imports.jobs = db.imports.jobs.put jobId job')
    (hget : JobRepository.get db jobId = some job) (hp : job'.inputPayload = job.inputPayload) :
    Leases db db' := by
  refine ⟨fun r lock hr => .inl (hl r lock hr), Nat.le_of_eq hu.symm, fun j job₁ hj₁ => ?_⟩
  rw [JobRepository.get, hj, Keyed.get?_put]
  split
  · rename_i hid
    subst hid
    obtain rfl : job = job₁ := Option.some.inj (hget.symm.trans hj₁)
    exact ⟨job', rfl, hp⟩
  · exact ⟨job₁, hj₁, rfl⟩

/-- Locks are acquired under a token that has just been drawn. -/
theorem of_acquired {resources : List Nat} {jobId ownerToken lease : Nat}
    {acquired : List (Nat × Nat)} {d d' : Db}
    (h : Acquired jobId ownerToken lease d (normalize resources) d' acquired)
    (hd : d.imports.locks = db.imports.locks) (hge : db.uuid ≤ ownerToken)
    (hlt : ownerToken < db'.uuid) (hl : db'.imports.locks = d'.imports.locks) {r : Nat} {lock : Lock}
    (hr : db'.imports.locks.get? r = some lock) : db.imports.locks.get? r = some lock ∨
      (db.uuid ≤ lock.ownerToken ∧ lock.ownerToken < db'.uuid) := by
  rw [hl] at hr
  by_cases hmem : r ∈ normalize resources
  · obtain ⟨lock', hlock', _, hown, _⟩ := h.held r hmem
    obtain rfl : lock = lock' := Option.some.inj (hr.symm.trans hlock')
    rw [hown]
    exact .inr ⟨hge, hlt⟩
  · rw [h.other r hmem, hd] at hr
    exact .inl hr

theorem openScan {identity : ScanIdentity} {status : ScanStatus} {projectId scanId : Nat}
    {existing : Bool}
    (h : ProjectService.openScan env db identity status = .ok (db', projectId, scanId, existing)) :
    db'.imports = db.imports ∧ db'.uuid = db.uuid := by
  simp only [ProjectService.openScan, bind_eq_ok, Prod.exists] at h
  obtain ⟨db₁, p, hp, h⟩ := h
  obtain ⟨projects, rfl⟩ := ProjectService.ensureProject_ok hp
  split at h
  · simp only [bind_eq_ok, pure_eq_ok, Prod.mk.injEq] at h
    obtain ⟨_, _, rfl, _⟩ := h
    simp
  · simp only [bind_eq_ok, pure_eq_ok, Prod.exists, Prod.mk.injEq] at h
    obtain ⟨db₂, id, hcreate, db₃, hreg, rfl, _⟩ := h
    obtain ⟨repositories, snapshots, rfl⟩ := ProjectService.registerRepositories_ok hreg
    obtain ⟨_, ⟨rfl, _⟩ | ⟨_, rfl⟩⟩ := ProjectService.createScan_ok hcreate
    · exact ⟨rfl, rfl⟩
    · exact ⟨rfl, rfl⟩

theorem sealAndPublish {projectId scanId : Nat}
    (h : ProjectService.sealAndPublish env db projectId scanId = .ok db') :
    db'.imports = db.imports ∧ db'.uuid = db.uuid := by
  simp only [ProjectService.sealAndPublish, bind_eq_ok] at h
  obtain ⟨db₁, hgate, db₂, hseal, hpub⟩ := h
  simp only [ProjectRepository.sealScan, bind_eq_ok, pure_eq_ok] at hseal
  obtain ⟨_, _, _, _, rfl⟩ := hseal
  have hreb := FileStateService.rebuilt_of_ok hgate
  have hp := (ScanPublicationService.published_of_ok hpub).1
  constructor
  · rw [hp.imports]
    exact hreb.imports.trans (by simp [ProjectStateRepository.advance])
  · rw [hp.uuid]
    exact hreb.uuid.trans (by simp [ProjectStateRepository.advance])

theorem createScan {identity : ScanIdentity} {status : ScanStatus}
    (h : ProjectService.createScan env db identity status = .ok db') :
    db'.imports = db.imports ∧ db'.uuid = db.uuid := by
  simp only [ProjectService.createScan, bind_eq_ok, Prod.exists] at h
  obtain ⟨db₁, p, scanId, existing, hopen, h⟩ := h
  obtain ⟨hi, hu⟩ := openScan hopen
  split at h
  · obtain rfl := pure_eq_ok.1 h
    exact ⟨hi, hu⟩
  · obtain rfl := pure_eq_ok.1 h
    exact ⟨by simp [ProjectStateRepository.advance, hi],
      by simp [ProjectStateRepository.advance, hu]⟩

/-- Ingestion, seal and publication in one transaction. -/
theorem ingest {db₁ : Db} {projectId scanId : Nat} {files : List CoverageItem}
    (hing : ProjectService.ingestAll env db scanId files = .ok db₁)
    (h : ProjectService.sealAndPublish env db₁ projectId scanId = .ok db') :
    db'.imports = db.imports ∧ db'.uuid = db.uuid := by
  have hpub := sealAndPublish h
  rw [(ProjectService.ingestAll_ok hing).frame] at hpub
  exact hpub

theorem createScanAndIngest {identity : ScanIdentity} {status : ScanStatus}
    {files : List CoverageItem}
    (h : ProjectService.createScanAndIngest env db identity status files = .ok db') :
    db'.imports = db.imports ∧ db'.uuid = db.uuid := by
  simp only [ProjectService.createScanAndIngest, bind_eq_ok, Prod.exists] at h
  obtain ⟨db₁, p, scanId, existing, hopen, h⟩ := h
  obtain ⟨hi, hu⟩ := openScan hopen
  split at h
  · obtain rfl := pure_eq_ok.1 h
    exact ⟨hi, hu⟩
  · simp only [bind_eq_ok] at h
    obtain ⟨db₂, hing, h⟩ := h
    obtain ⟨hi', hu'⟩ := ingest hing h
    exact ⟨hi'.trans hi, hu'.trans hu⟩

theorem ingestFiles {scanId : Nat} {files : List CoverageItem}
    (h : ProjectService.ingestFiles env db scanId files = .ok db') :
    db'.imports = db.imports ∧ db'.uuid = db.uuid := by
  simp only [ProjectService.ingestFiles, bind_eq_ok] at h
  obtain ⟨scan, _, db₁, hing, h⟩ := h
  exact ingest hing h

theorem create {r : ImportRequest} {created : CreatedImport}
    (h : ScanImportCoordinator.create env db r = .ok (db', created)) : Leases db db' := by
  simp only [ScanImportCoordinator.create, bind_eq_ok, pure_eq_ok, Prod.exists,
    Prod.mk.injEq] at h
  obtain ⟨_, _, db₁, acquired, hacq, _, _, db₂, projectId, hproj, db₃, scanId, hscan, db₄, hreg,
    db₅, hjob, rfl, _⟩ := h
  have hacq := acquire_ok hacq
  obtain ⟨projects, rfl⟩ := ProjectService.ensureProject_ok hproj
  obtain ⟨repositories, snapshots, rfl⟩ := ProjectService.registerRepositories_ok hreg
  simp only [JobRepository.create, bind_eq_ok, require_eq_ok, pure_eq_ok] at hjob
  obtain ⟨_, hnew, rfl⟩ := hjob
  generalize hdb : ProjectStateRepository.ensure _ projectId = db₀ at hscan
  have h₀ : db₀.imports.locks = db₁.imports.locks ∧ db₀.imports.jobs = db₁.imports.jobs ∧
      db₀.uuid = db₁.uuid := by
    rw [← hdb]
    simp [ImmutableArtifactStager.stage]
  have h₁ : db₃.imports.locks = db₁.imports.locks ∧ db₃.imports.jobs = db₁.imports.jobs ∧
      db₃.uuid = db₁.uuid := by
    obtain ⟨_, ⟨rfl, _⟩ | ⟨_, rfl⟩⟩ := ProjectService.createScan_ok hscan
    · exact h₀
    · exact h₀
  obtain ⟨hlocks, hjobs, huuid⟩ := h₁
  obtain ⟨rs, ls, hframe⟩ := hacq.frame
  rw [hframe] at hjobs huuid
  generalize hrow : (⟨projectId, scanId, true, _, _, _, _, true⟩ : Job) = row
  generalize hd : Db.putJob _ db.uuid row = d
  have hd' : (ImportCheckpointRepository.create d db.uuid scanId r.artifactSha256
      (ScanImportRecoveryService.firstToken acquired) { scanId := some scanId }).imports.locks =
        db₁.imports.locks ∧
      (ImportCheckpointRepository.create d db.uuid scanId r.artifactSha256
        (ScanImportRecoveryService.firstToken acquired) { scanId := some scanId }).imports.jobs =
          db.imports.jobs.put db.uuid row ∧
      (ImportCheckpointRepository.create d db.uuid scanId r.artifactSha256
        (ScanImportRecoveryService.firstToken acquired) { scanId := some scanId }).uuid =
          db.uuid + 2 := by
    unfold ImportCheckpointRepository.create
    rw [← hd]
    split <;> simp [Db.putCheckpoint, Db.putJob, ProjectStateRepository.advance, hlocks, hjobs,
      huuid]
  obtain ⟨hl, hj, hu⟩ := hd'
  refine ⟨fun r' lock hr => ?_, by rw [hu]; omega, fun j job hjob => ⟨job, ?_, rfl⟩⟩
  · exact of_acquired hacq (show _ = db.imports.locks from rfl) (by omega) (by rw [hu]; omega) hl hr
  · rw [JobRepository.get, hj, Keyed.get?_put, if_neg]
    · exact hjob
    · rintro rfl
      simp only [JobRepository.get, ProjectStateRepository.advance,
        ProjectStateRepository.imports_modify, hjobs, Option.isNone_iff_eq_none] at hnew
      rw [JobRepository.get, hnew] at hjob
      cases hjob

theorem reclaim {jobId : Nat} {resources : Option (List Nat)} {lease : Nat}
    {observed : ImmutableArtifactStager.Observed} {result : Nat × Nat}
    (h : ScanImportRecoveryService.reclaim db jobId resources none lease observed =
      .ok (db', result)) : Leases db db' := by
  obtain ⟨job, c, acquired, db₁, hjob, _, _, hacq, _, hdb⟩ :=
    ScanImportRecoveryService.reclaim_ok h
  obtain ⟨rs, ls, hframe⟩ := hacq.frame
  have hu : db₁.uuid = db.uuid + 1 := by
    rw [hframe]
    rfl
  have hj : db₁.imports.jobs = db.imports.jobs := by rw [hframe]
  have key : ∀ d : Db, d.imports.locks = db₁.imports.locks → d.uuid = db₁.uuid →
      d.imports.jobs = db₁.imports.jobs.put jobId
        { job with state := .running, leaseOwner := db.uuid } → Leases db d := by
    intro d hdl hdu hdj
    refine ⟨fun r lock hr => ?_, by omega, fun j job₁ hj₁ => ?_⟩
    · exact of_acquired hacq (show _ = db.imports.locks from rfl) (Nat.le_refl _)
        (by rw [hdu, hu]; exact Nat.lt_succ_self _) hdl hr
    · rw [JobRepository.get, hdj, Keyed.get?_put]
      split
      · rename_i hid
        subst hid
        obtain rfl : job = job₁ := Option.some.inj (hjob.symm.trans hj₁)
        exact ⟨_, rfl, rfl⟩
      · rw [hj]
        exact ⟨job₁, hj₁, rfl⟩
  rcases hdb with ⟨_, rfl⟩ | ⟨_, _, rfl⟩
  · exact key _ rfl rfl rfl
  · exact key _ rfl rfl rfl

theorem recordFailure {jobId : Nat} {phase message : String} {fencingToken : Option Nat}
    {status : ScanStatus} {owner : Nat}
    (h : ScanImportRecoveryService.recordFailure db jobId phase message fencingToken status owner =
      .ok db') : Leases db db' := by
  obtain ⟨job, failures, hjob, rfl | ⟨owner', _, rfl⟩⟩ :=
    ScanImportRecoveryService.recordFailure_ok h
  · exact of_imports rfl rfl rfl
  · generalize hdb₁ : Db.putJob _ jobId _ = db₁
    obtain ⟨himp, hu⟩ := ScanImportRecoveryService.failScan_imports db₁ job.scanId status
    have hjobs : (ScanImportRecoveryService.failScan db₁ job.scanId status).imports.jobs =
        db.imports.jobs.put jobId { job with state := .failed } := by
      rw [himp, ← hdb₁]
      rfl
    refine of_release ?_ (fun r lock hr => ?_) hjobs hjob rfl
    · exact hu.trans (by rw [← hdb₁]; rfl)
    · simp only [release, Keyed.get?_deleteWhere, Option.filter_eq_some_iff, himp] at hr
      rw [← hdb₁] at hr
      exact hr.1

end Leases

/-- The operation of a phase leaves the imports alone. -/
theorem PhaseOp.operation_imports {env : Env} {w : WorkerId} {scanId : Nat} {op : PhaseOp}
    {db db' : Db} {payload payload' : Payload}
    (h : op.operation env w scanId db payload = .ok (db', payload')) :
    db'.imports = db.imports ∧ db'.uuid = db.uuid := by
  cases op with
  | checkpoint =>
    obtain ⟨rfl, _⟩ := Prod.mk.inj (pure_eq_ok.1 h)
    exact ⟨rfl, rfl⟩
  | finalizeCoverage =>
    rw [ScanImportCoordinator.finalizeCoverage_eq h]
    exact ⟨rfl, rfl⟩
  | computeInheritance =>
    simp only [PhaseOp.operation, ScanImportCoordinator.computeInheritance, bind_eq_ok, pure_eq_ok,
      Prod.exists, Prod.mk.injEq] at h
    obtain ⟨_, readSet, hrun, rfl, _⟩ := h
    rw [InheritanceEngine.run_frame hrun]
    exact ⟨rfl, rfl⟩
  | verifyConsistency =>
    obtain ⟨p, version, hr⟩ := ScanImportCoordinator.verifyConsistency_rebuilt h
    exact ⟨hr.imports, hr.uuid⟩

/-- **Every action keeps the jobs and issues locks under new tokens only.** -/
theorem Action.leases {env : Env} {db db' : Db} {a : Action} (h : a.apply env db = .ok db') :
    Leases db db' := by
  have same : ∀ {d d' : Db}, d'.imports = d.imports → d'.uuid = d.uuid → Leases d d' :=
    fun hi hu => .of_imports (by rw [hi]) (by rw [hi]) hu
  cases a with
  | tick d =>
    obtain rfl := pure_eq_ok.1 h
    exact same rfl rfl
  | registerResource r =>
    simp only [Action.apply] at h
    split at h <;> obtain rfl := pure_eq_ok.1 h <;> exact .of_imports rfl rfl rfl
  | mutate m =>
    have hr := Mutation.reviewed (m := m) h
    exact same hr.imports hr.uuid
  | backfill scanId =>
    rw [AnalysisDomainRepository.backfillLegacy_frame h]
    exact same rfl rfl
  | runEngine scanId paths =>
    obtain ⟨_, hrun⟩ := map_fst_eq_ok h
    rw [InheritanceEngine.run_frame hrun]
    exact same rfl rfl
  | createScan identity status =>
    obtain ⟨hi, hu⟩ := Leases.createScan h
    exact same hi hu
  | createScanAndIngest identity status files =>
    obtain ⟨hi, hu⟩ := Leases.createScanAndIngest h
    exact same hi hu
  | ingestFiles scanId files =>
    obtain ⟨hi, hu⟩ := Leases.ingestFiles h
    exact same hi hu
  | sealScan scanId =>
    simp only [Action.apply, ProjectRepository.sealScan, bind_eq_ok, pure_eq_ok] at h
    obtain ⟨_, _, _, _, rfl⟩ := h
    exact same rfl rfl
  | create request =>
    obtain ⟨_, hcreate⟩ := map_fst_eq_ok h
    exact Leases.create hcreate
  | phase w target payload op =>
    obtain ⟨⟨payload', committed⟩, hphase⟩ := map_fst_eq_ok h
    obtain ⟨c, _, ⟨_, rfl, _⟩ | ⟨_, _, _, db₁, c₁, hop, _, _, _, rfl⟩⟩ :=
      ScanImportCoordinator.runPhaseOperation_ok hphase
    · exact .refl db'
    · obtain ⟨hi, hu⟩ := PhaseOp.operation_imports hop
      exact (same hi hu).trans (.of_imports rfl rfl rfl)
  | batch w items batchSeq files lines payload =>
    obtain ⟨_, hbatch⟩ := map_fst_eq_ok h
    obtain ⟨c, db₁, _, _, _, _, hing, _, rfl⟩ := ScanImportCoordinator.ingestCoverageBatch_ok hbatch
    have hframe := (ProjectService.ingestFileBatch_ok hing).1.frame
    have hing : Leases db db₁ := same (by rw [hframe]) (by rw [hframe])
    exact hing.trans (.of_imports rfl rfl rfl)
  | sealImport w =>
    obtain ⟨c, scan, _, _, _, _, _, _, _, rfl⟩ := ScanImportCoordinator.sealImport_ok h
    exact .of_imports rfl rfl rfl
  | publish w expected readSet =>
    obtain ⟨committed, hpub⟩ := map_fst_eq_ok h
    obtain ⟨job, c, hjob, _, ⟨_, rfl, _⟩ | ⟨_, _, db₁, ls, hmove, _, hls, rfl⟩⟩ :=
      ScanImportCoordinator.publishTransaction_ok hpub
    · exact .refl db'
    · have hp := (ScanPublicationService.published_of_ok hmove).1
      have hjobs : db₁.imports.jobs.put w.jobId { job with state := .completed } =
          db.imports.jobs.put w.jobId { job with state := .completed } := by rw [hp.imports]
      exact .of_release hp.uuid hls hjobs hjob rfl
  | reclaim jobId observed =>
    obtain ⟨_, hreclaim⟩ := map_fst_eq_ok h
    exact Leases.reclaim hreclaim
  | recordFailure jobId phase message fencingToken aborted ownerToken => exact Leases.recordFailure h

theorem Action.leases_exec (env : Env) (db : Db) (a : Action) : Leases db (a.exec env db) :=
  Action.exec_inv (.refl db) (fun _ _ h => Action.leases h) a

/-! ## Runs -/

section Run

variable {env : Env}

/-- Every lock was issued under a token drawn before. -/
def LocksIssued (db : Db) : Prop :=
  ∀ r lock, db.imports.locks.get? r = some lock → lock.ownerToken < db.uuid

theorem LocksIssued.step {db db' : Db} (hi : LocksIssued db) (h : Leases db db') :
    LocksIssued db' := by
  intro r lock hr
  rcases h.lock r lock hr with hold | ⟨_, hlt⟩
  · exact Nat.lt_of_lt_of_le (hi r lock hold) h.uuid
  · exact hlt

theorem run_locksIssued (actions : List Action) :
    LocksIssued (Trace.run (Action.exec env) Db.empty actions) :=
  Trace.run_inv (fun db a hi => hi.step (a.leases_exec env db))
    (fun r _ hr => by simp [Db.empty, Keyed.get?_empty] at hr) actions

theorem run_leases (env : Env) (db : Db) (actions : List Action) :
    Leases db (Trace.run (Action.exec env) db actions) :=
  Trace.run_rel Leases.refl Leases.trans (fun db a => a.leases_exec env db) db actions

/-- **A lock that is gone does not come back**: whoever acquires the resource again has a new
token. -/
theorem not_holds_run {db : Db} {w : WorkerId} {r : Nat} (hdrawn : w.ownerToken < db.uuid)
    (hlost : ¬ Holds db w r) (actions : List Action) :
    ¬ Holds (Trace.run (Action.exec env) db actions) w r := by
  rintro ⟨lock, hget, hjob, hown⟩
  rcases (run_leases env db actions).lock r lock hget with hold | ⟨hge, _⟩
  · exact hlost ⟨lock, hold, hjob, hown⟩
  · omega

/-- A resource of a job stays one. -/
theorem resourcesOf_run (env : Env) {db : Db} {j r : Nat} (hr : r ∈ db.resourcesOf j) (actions : List Action) :
    r ∈ (Trace.run (Action.exec env) db actions).resourcesOf j := by
  cases hjob : JobRepository.get db j with
  | none => simp [Db.resourcesOf, hjob] at hr
  | some job =>
    obtain ⟨job', hjob', hp⟩ := (run_leases env db actions).job j job hjob
    simpa [Db.resourcesOf, hjob, hjob', hp] using hr

theorem Fenced.holds {db : Db} {w : WorkerId} {r : Nat} (h : Fenced db w)
    (hr : r ∈ db.resourcesOf w.jobId) : Holds db w r := by
  obtain ⟨lock, hget, hjob, hown, _⟩ := h r hr
  exact ⟨lock, hget, hjob, hown⟩

/-- What fencing means for a run. -/
structure FencedRun (env : Env) (actions : List Action) : Prop where
  /-- Whoever commits holds every resource of the job. -/
  commit : ∀ before a rest w, actions = before ++ a :: rest →
    a.commits env (Trace.run (Action.exec env) Db.empty before) = some w →
    Fenced (Trace.run (Action.exec env) Db.empty before) w
  /-- Whoever has lost the lock of a resource never commits again. -/
  stopped : ∀ before between after a rest w r, actions = before ++ between ++ after ++ a :: rest →
    r ∈ (Trace.run (Action.exec env) Db.empty before).resourcesOf w.jobId →
    Holds (Trace.run (Action.exec env) Db.empty before) w r →
    ¬ Holds (Trace.run (Action.exec env) Db.empty (before ++ between)) w r →
    a.commits env (Trace.run (Action.exec env) Db.empty (before ++ between ++ after)) ≠ some w

/-- **Import fencing.**  In a run whose worker transactions find the lock rows of their resources
still naming the job, every commit is fenced, and a worker that lost a lock is stopped for good. -/
theorem import_fencing {actions : List Action}
    (h : Trace.Along (Action.exec env) (fun db a => a.Held db) Db.empty actions) :
    FencedRun env actions := by
  have commit : ∀ before a rest w, actions = before ++ a :: rest →
      a.commits env (Trace.run (Action.exec env) Db.empty before) = some w →
      Fenced (Trace.run (Action.exec env) Db.empty before) w := by
    rintro before a rest w rfl hcommit
    exact (fenced_iff_held hcommit).2 (Trace.along_at h)
  refine ⟨commit, fun before between after a rest w r heq hr hheld hlost hcommit => ?_⟩
  have hfenced := commit (before ++ between ++ after) a rest w heq hcommit
  have hissued : w.ownerToken < (Trace.run (Action.exec env) Db.empty (before ++ between)).uuid := by
    obtain ⟨lock, hget, _, hown⟩ := hheld
    have hlt := run_locksIssued before r lock hget
    rw [hown] at hlt
    rw [Trace.run_append]
    exact Nat.lt_of_lt_of_le hlt (run_leases env _ between).uuid
  rw [Trace.run_append] at hfenced
  have hres := resourcesOf_run env hr (between ++ after)
  rw [← Trace.run_append, ← List.append_assoc, Trace.run_append] at hres
  exact not_holds_run hissued hlost after (hfenced.holds hres)

end Run

namespace Sample

/-- Two jobs over one resource, the second of which takes the lock over when the lease of the first
has run out. -/
def takenOver : List Action :=
  [.registerResource 1, .create ⟨identity "shaA", [1], "shaA", 10⟩,
    .tick (301 * 1000000), .create ⟨identity "shaB", [1], "shaB", 10⟩]

/-- A phase of the first of them. -/
def lateCheckpoint : Action := .phase worker .scanCreated { scanId := some 1 } .checkpoint

end Sample

theorem import_fencing_inherited : FencedRun Sample.env Sample.inherited :=
  import_fencing (by decide +kernel)

/-- The first worker commits a phase although the only resource of its job is locked by the second
job. -/
theorem commit_after_take_over :
    ¬ FencedRun Sample.env (Sample.takenOver ++ [Sample.lateCheckpoint]) := by
  intro h
  have hcommit : Sample.lateCheckpoint.commits Sample.env
      (Trace.run (Action.exec Sample.env) Db.empty Sample.takenOver) = some Sample.worker := by
    decide +kernel
  have hfenced := h.commit Sample.takenOver Sample.lateCheckpoint [] Sample.worker rfl hcommit
  revert hfenced
  decide +kernel

end FosCoverage
