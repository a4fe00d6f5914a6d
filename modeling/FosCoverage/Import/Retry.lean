import FosCoverage.Import.Facts

/-!
# Importing the same input again

The key of a scan is computed from the inputs of the import, and scan rows are never deleted.  When
a Candidate ends `FAILED` or `ABORTED` its row stays behind, and `create` with the same inputs finds
it again: `create_scan` returns a row that exists as it is.

* `Reachable.uniqueScanKeys`: in every reachable database two scans have two keys, so that the row
  that is found is the one the failed import left.
* `FailedBefore` is the state a retry starts from, `Retried` what it is for.
* `retry_never_succeeds`: no retry succeeds.  When `create` returns at all, it returns the failed
  Candidate (`create_returns_failed`); with a repository it raises, since a snapshot cannot be added
  to a scan that is not under construction (`retry_raises`).
-/

set_option autoImplicit false

namespace FosCoverage

open Relational Outcome

/-! ## Scan keys -/

/-- `scan_key` identifies a scan. -/
def UniqueScanKeys (db : Db) : Prop := db.facts.scans.UniqueOn Scan.scanKey

/-- The scans are the same ones, under the same keys. -/
def SameKeys (db db' : Db) : Prop :=
  ∀ k, (db'.facts.scans.get? k).map Scan.scanKey = (db.facts.scans.get? k).map Scan.scanKey

namespace SameKeys

variable {db db' db'' : Db}

theorem of_scans (h : db'.facts.scans = db.facts.scans) : SameKeys db db' := fun k => by rw [h]

theorem trans (h : SameKeys db db') (h' : SameKeys db' db'') : SameKeys db db'' :=
  fun k => (h' k).trans (h k)

/-- A change of status keeps the keys. -/
theorem setStatus (db : Db) (scanId : Nat) (status : ScanStatus) :
    SameKeys db (ProjectRepository.setStatus db scanId status) := by
  intro k
  rw [ProjectRepository.setStatus]
  simp only [Table.toKeyed_updateWhere, Keyed.get?_updateWhere, Option.map_map]
  congr 1
  funext s
  by_cases hk : k = scanId <;> simp [hk]

theorem unique (h : SameKeys db db') (hu : UniqueScanKeys db) : UniqueScanKeys db' := by
  intro k k' s s' hk hk' he
  have hmap := h k
  have hmap' := h k'
  rw [hk, Option.map_some, eq_comm, Option.map_eq_some_iff] at hmap
  rw [hk', Option.map_some, eq_comm, Option.map_eq_some_iff] at hmap'
  obtain ⟨t, ht, hkey⟩ := hmap
  obtain ⟨t', ht', hkey'⟩ := hmap'
  exact hu k k' t t' ht ht' (by rw [hkey, hkey', he])

end SameKeys

section Keys

variable {env : Env} {db db' : Db}

/-- A scan that exists is found under its key. -/
theorem UniqueScanKeys.getScanByKey (hu : UniqueScanKeys db) {k : Nat} {scan : Scan}
    (h : db.facts.scans.get? k = some scan) :
    ProjectRepository.getScanByKey db scan.scanKey = some k := by
  unfold ProjectRepository.getScanByKey
  cases hfind : db.facts.scans.rows.find? fun r => r.2.scanKey = scan.scanKey with
  | none =>
    have := List.find?_eq_none.1 hfind (k, scan) (Keyed.get?_eq_some_iff.1 h)
    simp at this
  | some r =>
    have hkey : r.2.scanKey = scan.scanKey := by simpa using List.find?_some hfind
    have hget := Keyed.get?_eq_some_iff.2 (List.mem_of_find?_eq_some hfind)
    rw [Option.map_some, hu r.1 k r.2 scan hget h hkey]

/-- A key that is not there yet gets a row of its own. -/
theorem UniqueScanKeys.createScan (hu : UniqueScanKeys db) {projectId scanId : Nat}
    {scanKey : String} {status : ScanStatus} {predecessor : Option Nat}
    (h : ProjectRepository.createScan db projectId scanKey status predecessor =
      .ok (db', scanId)) : UniqueScanKeys db' := by
  simp only [ProjectRepository.createScan, bind_eq_ok] at h
  obtain ⟨_, _, h⟩ := h
  split at h
  · obtain ⟨rfl, _⟩ := Prod.mk.inj (pure_eq_ok.1 h)
    exact hu
  · rename_i hnone
    obtain ⟨rfl, _⟩ := Prod.mk.inj (pure_eq_ok.1 h)
    let row : Scan := ⟨projectId, scanKey, status, predecessor⟩
    change (db.facts.scans.insertMany [row]).UniqueOn Scan.scanKey
    refine Table.UniqueOn.insertMany hu (List.nodup_singleton _) fun a ha k b hb he => ?_
    obtain rfl := List.mem_singleton.1 ha
    have hfound := hu.getScanByKey hb
    rw [he, hnone] at hfound
    cases hfound

/-- Opening a scan keeps the keys apart. -/
theorem UniqueScanKeys.openScan (hu : UniqueScanKeys db) {identity : ScanIdentity}
    {status : ScanStatus} {projectId scanId : Nat} {existing : Bool}
    (h : ProjectService.openScan env db identity status =
      .ok (db', projectId, scanId, existing)) : UniqueScanKeys db' := by
  simp only [ProjectService.openScan, bind_eq_ok, Prod.exists] at h
  obtain ⟨db₁, p, hp, h⟩ := h
  obtain ⟨projects, rfl⟩ := ProjectService.ensureProject_ok hp
  split at h
  · simp only [bind_eq_ok, pure_eq_ok, Prod.mk.injEq] at h
    obtain ⟨_, _, rfl, _⟩ := h
    have hsame : SameKeys db (ProjectStateRepository.ensure { db with projects := projects } p) :=
      .of_scans (by simp)
    exact hsame.unique hu
  · simp only [bind_eq_ok, pure_eq_ok, Prod.exists, Prod.mk.injEq] at h
    obtain ⟨db₂, id, hcreate, db₃, hreg, rfl, _⟩ := h
    obtain ⟨repositories, snapshots, rfl⟩ := ProjectService.registerRepositories_ok hreg
    have hu₁ : UniqueScanKeys { db with projects := projects } := hu
    have hu₂ : UniqueScanKeys db₂ := hu₁.createScan hcreate
    exact hu₂

/-- The end of a synchronous construction keeps the scans. -/
theorem SameKeys.sealAndPublish {projectId scanId : Nat}
    (h : ProjectService.sealAndPublish env db projectId scanId = .ok db') : SameKeys db db' := by
  simp only [ProjectService.sealAndPublish, bind_eq_ok] at h
  obtain ⟨db₁, hgate, db₂, hseal, hpub⟩ := h
  simp only [ProjectRepository.sealScan, bind_eq_ok, pure_eq_ok] at hseal
  obtain ⟨_, _, _, _, rfl⟩ := hseal
  have hgate := (FileStateService.rebuilt_of_ok hgate).facts
  have hpub := (ScanPublicationService.published_of_ok hpub).1.facts
  have h₁ : SameKeys db db₁ := .of_scans (by simp [hgate, ProjectStateRepository.advance])
  exact (h₁.trans (.setStatus db₁ scanId .ready)).trans (.of_scans (by rw [hpub]))

/-- So does the record of a failure. -/
theorem SameKeys.recordFailure {jobId owner : Nat} {phase message : String}
    {fencingToken : Option Nat} {status : ScanStatus}
    (h : ScanImportRecoveryService.recordFailure db jobId phase message fencingToken status owner =
      .ok db') : SameKeys db db' := by
  obtain ⟨job, failures, _, rfl | ⟨owner', _, rfl⟩⟩ :=
    ScanImportRecoveryService.recordFailure_ok h
  · exact .of_scans rfl
  · generalize hd : Db.putJob _ jobId _ = d
    have hstart : SameKeys db d := by
      rw [← hd]
      exact .of_scans rfl
    have hend : SameKeys d (ScanImportRecoveryService.failScan d job.scanId status) := by
      rcases ScanImportRecoveryService.failScan_eq d job.scanId status with he | he
      · rw [he]
        exact .of_scans rfl
      · rw [he]
        exact .setStatus d job.scanId status
    exact hstart.trans hend

/-- What `create` does to the scans: it opens one, and writes nothing else to them. -/
theorem ScanImportCoordinator.create_scans {r : ImportRequest} {created : CreatedImport}
    (h : create env db r = .ok (db', created)) :
    ∃ db₁ db₂ projectId, db₁.facts.scans = db.facts.scans ∧ db'.facts.scans = db₂.facts.scans ∧
      ProjectRepository.createScan db₁ projectId (env.importScanKey (effectiveIdentity r))
        .importing (db₁.stateOf projectId).currentScanId = .ok (db₂, created.scanId) := by
  simp only [create, bind_eq_ok, pure_eq_ok, Prod.exists, Prod.mk.injEq] at h
  obtain ⟨_, _, db₁, acquired, hacq, _, _, db₂, projectId, hproj, db₃, scanId, hscan, db₄, hreg,
    db₅, hjob, rfl, rfl⟩ := h
  obtain ⟨rs, ls, rfl⟩ := (RepositoryResourceLockService.acquire_ok hacq).frame
  obtain ⟨projects, rfl⟩ := ProjectService.ensureProject_ok hproj
  obtain ⟨repositories, snapshots, rfl⟩ := ProjectService.registerRepositories_ok hreg
  simp only [JobRepository.create, bind_eq_ok, require_eq_ok, pure_eq_ok] at hjob
  obtain ⟨_, _, rfl⟩ := hjob
  refine ⟨_, db₃, projectId, ?_, ?_, hscan⟩
  · simp [ImmutableArtifactStager.stage]
  · unfold ImportCheckpointRepository.create
    split <;> simp [Db.putJob, Db.putCheckpoint, ProjectStateRepository.advance]

/-- **Every action keeps the keys of scans apart.** -/
theorem UniqueScanKeys.step {a : Action} (hu : UniqueScanKeys db)
    (h : a.apply env db = .ok db') : UniqueScanKeys db' := by
  cases a with
  | tick d =>
    obtain rfl := pure_eq_ok.1 h
    exact hu
  | registerResource r =>
    simp only [Action.apply] at h
    split at h <;> obtain rfl := pure_eq_ok.1 h <;> exact hu
  | mutate m => exact (SameKeys.of_scans (by rw [(Mutation.reviewed h).facts])).unique hu
  | backfill scanId =>
    rw [AnalysisDomainRepository.backfillLegacy_frame h]
    exact hu
  | runEngine scanId paths =>
    obtain ⟨_, hrun⟩ := map_fst_eq_ok h
    rw [InheritanceEngine.run_frame hrun]
    exact hu
  | createScan identity status =>
    simp only [Action.apply, ProjectService.createScan, bind_eq_ok, Prod.exists] at h
    obtain ⟨db₁, p, scanId, existing, hopen, h⟩ := h
    have hu₁ := hu.openScan hopen
    split at h <;> obtain rfl := pure_eq_ok.1 h
    · exact hu₁
    · exact (SameKeys.of_scans (by simp [ProjectStateRepository.advance])).unique hu₁
  | createScanAndIngest identity status files =>
    simp only [Action.apply, ProjectService.createScanAndIngest, bind_eq_ok, Prod.exists] at h
    obtain ⟨db₁, p, scanId, existing, hopen, h⟩ := h
    have hu₁ := hu.openScan hopen
    split at h
    · obtain rfl := pure_eq_ok.1 h
      exact hu₁
    · simp only [bind_eq_ok] at h
      obtain ⟨db₂, hing, h⟩ := h
      have hsame : SameKeys db₁ db₂ := .of_scans (ProjectService.ingestAll_ok hing).scans
      exact (hsame.trans (.sealAndPublish h)).unique hu₁
  | ingestFiles scanId files =>
    simp only [Action.apply, ProjectService.ingestFiles, bind_eq_ok] at h
    obtain ⟨scan, _, db₁, hing, h⟩ := h
    have hsame : SameKeys db db₁ := .of_scans (ProjectService.ingestAll_ok hing).scans
    exact (hsame.trans (.sealAndPublish h)).unique hu
  | sealScan scanId =>
    simp only [Action.apply, ProjectRepository.sealScan, bind_eq_ok, pure_eq_ok] at h
    obtain ⟨_, _, _, _, rfl⟩ := h
    exact (SameKeys.setStatus db scanId .ready).unique hu
  | create request =>
    obtain ⟨created, hcreate⟩ := map_fst_eq_ok h
    obtain ⟨db₁, db₂, projectId, hstart, hend, hscan⟩ :=
      ScanImportCoordinator.create_scans hcreate
    have hu₁ : UniqueScanKeys db₁ := (SameKeys.of_scans hstart).unique hu
    exact (SameKeys.of_scans hend).unique (hu₁.createScan hscan)
  | phase w target payload op =>
    obtain ⟨⟨payload', committed⟩, hphase⟩ := map_fst_eq_ok h
    obtain ⟨c, _, ⟨_, rfl, _⟩ | ⟨_, _, _, db₁, c₁, hop, _, _, _, rfl⟩⟩ :=
      ScanImportCoordinator.runPhaseOperation_ok hphase
    · exact hu
    · have hsame : SameKeys db db₁ := .of_scans (by rw [PhaseOp.operation_facts hop])
      exact hsame.unique hu
  | batch w items batchSeq files lines payload =>
    obtain ⟨_, hbatch⟩ := map_fst_eq_ok h
    obtain ⟨c, db₁, _, _, _, _, hing, _, rfl⟩ := ScanImportCoordinator.ingestCoverageBatch_ok hbatch
    have hsame : SameKeys db db₁ := .of_scans (ProjectService.ingestFileBatch_ok hing).1.scans
    exact hsame.unique hu
  | sealImport w =>
    obtain ⟨c, scan, _, _, _, _, _, _, _, rfl⟩ := ScanImportCoordinator.sealImport_ok h
    exact (SameKeys.setStatus db c.scanId .sealed).unique hu
  | publish w expected readSet =>
    obtain ⟨committed, hpub⟩ := map_fst_eq_ok h
    obtain ⟨job, c, _, _, ⟨_, rfl, _⟩ | ⟨_, _, db₁, ls, hmove, _, _, rfl⟩⟩ :=
      ScanImportCoordinator.publishTransaction_ok hpub
    · exact hu
    · have hpub := (ScanPublicationService.published_of_ok hmove).1
      have hsame : SameKeys db db₁ := .of_scans (by rw [hpub.facts])
      exact hsame.unique hu
  | reclaim jobId observed =>
    obtain ⟨_, hreclaim⟩ := map_fst_eq_ok h
    obtain ⟨uuid, imports, rfl⟩ := ScanImportRecoveryService.reclaim_frame hreclaim
    exact hu
  | recordFailure jobId phase message fencingToken aborted ownerToken =>
    exact (SameKeys.recordFailure h).unique hu

theorem Reachable.uniqueScanKeys (h : Reachable env db) : UniqueScanKeys db :=
  h.inv (fun k => by simp [Db.empty]) fun _ _ _ hd ha => hd.step ha

end Keys

/-! ## Retries -/

open RepositoryResourceLockService ScanImportCoordinator

/-- An earlier import of the same inputs ended without a publication: its Candidate, which has the
key of these inputs, is `FAILED` or `ABORTED`, and it holds no locks. -/
def FailedBefore (env : Env) (db : Db) (r : ImportRequest) (jobId : Nat) : Prop :=
  ∃ job ∈ JobRepository.get db jobId, ∃ scan ∈ ProjectRepository.getScan db job.scanId,
    scan.scanKey = env.importScanKey (effectiveIdentity r) ∧
      (scan.status = .failed ∨ scan.status = .aborted) ∧ locksForJob db jobId = []

instance (env : Env) (db : Db) (r : ImportRequest) (jobId : Nat) :
    Decidable (FailedBefore env db r jobId) :=
  inferInstanceAs (Decidable (∃ job ∈ JobRepository.get db jobId, ∃ scan ∈
    ProjectRepository.getScan db job.scanId, _ ∧ _ ∧ _))

/-- What a retry is for: a Candidate under construction, without files, whose predecessor is
CURRENT. -/
def Retried (env : Env) (db : Db) (r : ImportRequest) : Prop :=
  ∃ db' created scan, create env db r = .ok (db', created) ∧
    ProjectRepository.getScan db' created.scanId = some scan ∧
    scan.status.underConstruction = true ∧
    scan.predecessorScanId = (db.stateOf scan.projectId).currentScanId ∧
    FileStateRepository.filesOf db' created.scanId none = []

section Retries

variable {env : Env} {db db' : Db} {r : ImportRequest} {jobId : Nat}

/-- **`create` returns the failed Candidate**, when it returns at all. -/
theorem create_returns_failed {created : CreatedImport} (hu : UniqueScanKeys db)
    (hf : FailedBefore env db r jobId) (h : create env db r = .ok (db', created)) :
    ∃ scan, ProjectRepository.getScan db created.scanId = some scan ∧
      ProjectRepository.getScan db' created.scanId = some scan ∧
      scan.status.underConstruction = false := by
  obtain ⟨job, _, scan, hscan, hkey, hstatus, _⟩ := hf
  have hscan : db.facts.scans.get? job.scanId = some scan := hscan
  obtain ⟨db₁, db₂, projectId, hstart, hend, hopen⟩ := create_scans h
  have hu₁ : UniqueScanKeys db₁ := (SameKeys.of_scans hstart).unique hu
  have hscan₁ : db₁.facts.scans.get? job.scanId = some scan := by rw [hstart, hscan]
  have hfound := hu₁.getScanByKey hscan₁
  simp only [ProjectRepository.createScan, bind_eq_ok, ← hkey, hfound, pure_eq_ok,
    Prod.mk.injEq] at hopen
  obtain ⟨_, _, rfl, hid⟩ := hopen
  rw [← hid]
  refine ⟨scan, hscan, ?_, ?_⟩
  · rw [ProjectRepository.getScan, hend, hstart, hscan]
  · rcases hstatus with he | he <;> rw [he] <;> rfl

/-- **No retry succeeds**: in a reachable database in which an import of the same inputs has ended
without a publication, `create` does not give a Candidate under construction. -/
theorem retry_never_succeeds (h : Reachable env db) (hf : FailedBefore env db r jobId) :
    ¬ Retried env db r := by
  rintro ⟨db', created, scan, hcreate, hscan, hstatus, _⟩
  obtain ⟨scan', _, hscan', hended⟩ := create_returns_failed h.uniqueScanKeys hf hcreate
  obtain rfl : scan = scan' := Option.some.inj (hscan.symm.trans hscan')
  rw [hstatus] at hended
  cases hended

end Retries

namespace Sample

/-- An import that fails before its first phase. -/
def failedImport : List Action :=
  [.registerResource 7, .create ⟨identity "sha1", [7], "sha1", 10⟩,
    .recordFailure 1 "EXECUTE" "disk full" (some 1) false 2]

/-- The database it leaves. -/
def failedDb : Db := Trace.run (Action.exec env) Db.empty failedImport

end Sample

theorem retry_never_succeeds_sample :
    FailedBefore Sample.env Sample.failedDb ⟨Sample.identity "sha1", [7], "sha1", 10⟩ 1 ∧
      ¬ Retried Sample.env Sample.failedDb ⟨Sample.identity "sha1", [7], "sha1", 10⟩ := by
  have hfailed : FailedBefore Sample.env Sample.failedDb
      ⟨Sample.identity "sha1", [7], "sha1", 10⟩ 1 := by decide +kernel
  exact ⟨hfailed, retry_never_succeeds ⟨Sample.failedImport, rfl⟩ hfailed⟩

/-- The retry of an import that failed before its first phase raises. -/
theorem retry_raises :
    FailedBefore Sample.env Sample.failedDb ⟨Sample.identity "sha1", [7], "sha1", 10⟩ 1 ∧
      (create Sample.env Sample.failedDb ⟨Sample.identity "sha1", [7], "sha1", 10⟩).isOk = false ∧
      ¬ Retried Sample.env Sample.failedDb ⟨Sample.identity "sha1", [7], "sha1", 10⟩ := by
  have hraises : (create Sample.env Sample.failedDb
      ⟨Sample.identity "sha1", [7], "sha1", 10⟩).isOk = false := by decide +kernel
  refine ⟨by decide +kernel, hraises, ?_⟩
  rintro ⟨db', created, _, hcreate, _⟩
  rw [hcreate] at hraises
  cases hraises

end FosCoverage
