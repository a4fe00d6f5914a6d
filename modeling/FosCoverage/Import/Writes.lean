import FosCoverage.Import.Facts
import FosCoverage.Import.Fencing
import FosCoverage.Import.Handover

/-!
# Who writes to a Candidate

An import owns three things: its checkpoint, its Candidate, and the files and lines of the Candidate.
`Action.writes_inv` says of every action of the system which of them it may write, so that a fact
about an import follows from what a few kinds of writes do.

`Elsewhere` are the actions of everybody else, and `Aside` what they leave of an import: the fencing
token of its checkpoint may be raised, and nothing else.
-/

set_option autoImplicit false

namespace FosCoverage

open Relational Outcome

/-! ## Checkpoints -/

namespace ImportCheckpointRepository

theorem get_putCheckpoint (db : Db) (jobId : Nat) (c : Checkpoint) :
    get (db.putCheckpoint jobId c) jobId = some c := by
  simp [get, Db.putCheckpoint]

variable {db : Db} {jobId scanId token : Nat} {sha : String} {payload : Payload}

theorem get_create (h : get db jobId = none) :
    get (create db jobId scanId sha token payload) jobId =
      some ⟨scanId, .locked, 0, payload, sha, token⟩ := by
  rw [create, if_neg (by simp [h])]
  exact get_putCheckpoint db jobId _

theorem create_jobs :
    (create db jobId scanId sha token payload).imports.jobs = db.imports.jobs := by
  rw [create]
  split <;> rfl

end ImportCheckpointRepository

/-! ## Writes -/

/-- The scans an action may add files and lines to. -/
def Action.IngestsInto (db : Db) : Action → Nat → Prop
  | .batch w _ _ _ _ _, s => s = db.jobScan w.jobId
  | .ingestFiles t _, s => s = t
  | .createScanAndIngest _ _ _, s => db.facts.scans.get? s = none
  | _, _ => False

/-- The jobs whose checkpoint an action may write. -/
def Action.Checkpoints (db : Db) : Action → Nat → Prop
  | .phase w _ _ _, j | .batch w _ _ _ _ _, j | .sealImport w, j | .publish w _ _, j => j = w.jobId
  | .create _, j => j = db.uuid ∧ JobRepository.get db j = none
  | _, _ => False

/-- Scans, files, lines and checkpoints are untouched. -/
structure SameImport (db db' : Db) : Prop where
  /-- The scans. -/
  scans : db'.facts.scans = db.facts.scans
  /-- The files. -/
  files : db'.facts.files = db.facts.files
  /-- The lines. -/
  lines : db'.facts.lines = db.facts.lines
  /-- The checkpoints. -/
  checkpoints : db'.imports.checkpoints = db.imports.checkpoints

/-- A property of scans, files, lines and checkpoints that survives the writes of an action. -/
structure SurvivesWrites (env : Env) (db₀ : Db) (a : Action) (P : Db → Prop) : Prop where
  /-- Nothing of an import is written. -/
  same : ∀ d d', SameImport d d' → P d → P d'
  /-- A scan is registered. -/
  newScan : ∀ d scan, P d → P { d with facts.scans := d.facts.scans.insert scan }
  /-- A scan leaves the construction. -/
  settle : ∀ d s status, ScanImportCoordinator.sealable status = false → P d →
    P (ProjectRepository.setStatus d s status)
  /-- A batch of files is written. -/
  ingest : ∀ d d' s batch result, a.IngestsInto db₀ s →
    ProjectService.ingestFileBatch env d s batch = .ok (d', result) → P d → P d'
  /-- A checkpoint is written. -/
  checkpoint : ∀ d j c, a.Checkpoints db₀ j → P d → P (d.putCheckpoint j c)
  /-- A checkpoint is claimed. -/
  claim : ∀ d j c token, ImportCheckpointRepository.get d j = some c → c.fencingToken < token →
    P d → P (d.putCheckpoint j { c with fencingToken := token })

section Writes

variable {env : Env} {db db' : Db}

theorem SameImport.of_facts (hf : db'.facts = db.facts)
    (hi : db'.imports.checkpoints = db.imports.checkpoints) : SameImport db db' :=
  ⟨by rw [hf], by rw [hf], by rw [hf], hi⟩

/-- What every batch of an ingestion keeps, the ingestion keeps. -/
theorem ProjectService.ingestAll_scan {P : Db → Prop} {scanId : Nat}
    (ingest : ∀ d d' batch result, ingestFileBatch env d scanId batch = .ok (d', result) →
      P d → P d') {files : List CoverageItem} (h : ingestAll env db scanId files = .ok db')
    (h₀ : P db) : P db' := by
  refine foldlM_inv P (fun d batch d' _ hd hbatch => ?_) h₀ h
  cases hb : ingestFileBatch env d scanId batch with
  | error e => simp [hb, Except.map] at hbatch
  | ok r =>
    obtain ⟨d₁, result⟩ := r
    obtain rfl : d₁ = d' := by simpa [hb, Except.map] using hbatch
    exact ingest d d₁ batch result hb hd

namespace SurvivesWrites

variable {a : Action} {P : Db → Prop} {d d' : Db}

/-- Opening a scan registers at most one, under a new id. -/
theorem openScan (h : SurvivesWrites env db a P) {identity : ScanIdentity} {status : ScanStatus}
    {projectId scanId : Nat} {existing : Bool}
    (hopen : ProjectService.openScan env d identity status = .ok (d', projectId, scanId, existing))
    (hd : P d) : P d' ∧ (existing = false → d.facts.scans.get? scanId = none) := by
  simp only [ProjectService.openScan, bind_eq_ok, Prod.exists] at hopen
  obtain ⟨d₁, p, hp, hopen⟩ := hopen
  obtain ⟨projects, rfl⟩ := ProjectService.ensureProject_ok hp
  have hd₁ : P { d with projects := projects } := h.same d _ (.of_facts rfl rfl) hd
  split at hopen
  · simp only [bind_eq_ok, pure_eq_ok, Prod.mk.injEq] at hopen
    obtain ⟨_, _, rfl, _, _, rfl⟩ := hopen
    refine ⟨h.same { d with projects := projects } _ (.of_facts ?_ ?_) hd₁, fun he => by cases he⟩
    · simp
    · simp
  · rename_i hnone
    simp only [bind_eq_ok, pure_eq_ok, Prod.exists, Prod.mk.injEq] at hopen
    obtain ⟨d₂, id, hcreate, d₃, hreg, rfl, _, rfl, rfl⟩ := hopen
    obtain ⟨repositories, snapshots, rfl⟩ := ProjectService.registerRepositories_ok hreg
    simp only [ProjectRepository.createScan, hnone, bind_eq_ok, pure_eq_ok, Prod.mk.injEq] at hcreate
    obtain ⟨_, _, rfl, rfl⟩ := hcreate
    have hd₂ := h.newScan { d with projects := projects }
      ⟨p, env.projectScanKey identity, status,
        ({ d with projects := projects }.stateOf p).currentScanId⟩ hd₁
    refine ⟨h.same _ _ ?_ hd₂, fun _ => Table.get?_eq_none_of_le (Nat.le_refl _)⟩
    exact ⟨rfl, rfl, rfl, rfl⟩

/-- The end of a synchronous construction. -/
theorem sealAndPublish (h : SurvivesWrites env db a P) {projectId scanId : Nat}
    (hpub : ProjectService.sealAndPublish env d projectId scanId = .ok d') (hd : P d) : P d' := by
  simp only [ProjectService.sealAndPublish, bind_eq_ok] at hpub
  obtain ⟨d₁, hgate, d₂, hseal, hpub⟩ := hpub
  simp only [ProjectRepository.sealScan, bind_eq_ok, pure_eq_ok] at hseal
  obtain ⟨_, _, _, _, rfl⟩ := hseal
  have hgate := FileStateService.rebuilt_of_ok hgate
  have hpub := (ScanPublicationService.published_of_ok hpub).1
  have hd₁ : P d₁ := by
    refine h.same d _ (.of_facts (hgate.facts.trans ?_) ?_) hd
    · simp [ProjectStateRepository.advance]
    · rw [hgate.imports]
      simp [ProjectStateRepository.advance]
  exact h.same _ _ (.of_facts hpub.facts (by rw [hpub.imports])) (h.settle d₁ scanId .ready rfl hd₁)

/-- The creation of an import. -/
theorem create {r : ImportRequest} (h : SurvivesWrites env db (.create r) P)
    {created : CreatedImport}
    (hcreate : ScanImportCoordinator.create env db r = .ok (db', created)) (hd : P db) : P db' := by
  simp only [ScanImportCoordinator.create, bind_eq_ok, pure_eq_ok, Prod.exists,
    Prod.mk.injEq] at hcreate
  obtain ⟨_, _, db₁, acquired, hacq, _, _, db₂, projectId, hproj, db₃, scanId, hscan, db₄, hreg,
    db₅, hjob, rfl, _⟩ := hcreate
  obtain ⟨rs, ls, rfl⟩ := (RepositoryResourceLockService.acquire_ok hacq).frame
  obtain ⟨projects, rfl⟩ := ProjectService.ensureProject_ok hproj
  obtain ⟨repositories, snapshots, rfl⟩ := ProjectService.registerRepositories_ok hreg
  simp only [JobRepository.create, bind_eq_ok, require_eq_ok, pure_eq_ok] at hjob
  obtain ⟨_, hfree, rfl⟩ := hjob
  -- up to the new scan only projects, pointers and locks are written
  generalize hdb : ProjectStateRepository.ensure _ projectId = db₀ at hscan
  have hd₀ : P db₀ := by
    rw [← hdb]
    refine h.same db _ (.of_facts ?_ ?_) hd
    · simp [ImmutableArtifactStager.stage]
    · simp [ImmutableArtifactStager.stage]
  have hd₃ : P db₃ := by
    obtain ⟨_, ⟨rfl, _⟩ | ⟨_, rfl⟩⟩ := ProjectService.createScan_ok hscan
    · exact hd₀
    · exact h.newScan db₀ _ hd₀
  have hjobs : db₃.imports.jobs = db.imports.jobs := by
    obtain ⟨_, ⟨rfl, _⟩ | ⟨_, rfl⟩⟩ := ProjectService.createScan_ok hscan
    · rw [← hdb]
      simp [ImmutableArtifactStager.stage]
    · rw [← hdb]
      simp [ImmutableArtifactStager.stage]
  unfold ImportCheckpointRepository.create
  split
  · refine h.same db₃ _ ?_ hd₃
    refine ⟨?_, ?_, ?_, ?_⟩ <;> simp [Db.putJob, ProjectStateRepository.advance]
  · refine h.checkpoint _ _ _ ?_ (h.same db₃ _ ?_ hd₃)
    · have hnone : JobRepository.get db₃ db.uuid = none := by
        simpa [JobRepository.get, ProjectStateRepository.advance] using hfree
      exact ⟨rfl, by simpa [JobRepository.get, hjobs] using hnone⟩
    · refine ⟨?_, ?_, ?_, ?_⟩ <;> simp [Db.putJob, ProjectStateRepository.advance]

theorem createScan (h : SurvivesWrites env db a P) {identity : ScanIdentity} {status : ScanStatus}
    (hcreate : ProjectService.createScan env db identity status = .ok db') (hd : P db) : P db' := by
  simp only [ProjectService.createScan, bind_eq_ok, Prod.exists] at hcreate
  obtain ⟨db₁, p, scanId, existing, hopen, hcreate⟩ := hcreate
  have hd₁ := (h.openScan hopen hd).1
  split at hcreate <;> obtain rfl := pure_eq_ok.1 hcreate
  · exact hd₁
  · refine h.same db₁ _ (.of_facts ?_ ?_) hd₁ <;> simp [ProjectStateRepository.advance]

/-- A construction in one transaction ingests into a scan that was not there. -/
theorem createScanAndIngest {identity : ScanIdentity} {status : ScanStatus}
    {files : List CoverageItem}
    (h : SurvivesWrites env db (.createScanAndIngest identity status files) P)
    (hcreate : ProjectService.createScanAndIngest env db identity status files = .ok db')
    (hd : P db) : P db' := by
  simp only [ProjectService.createScanAndIngest, bind_eq_ok, Prod.exists] at hcreate
  obtain ⟨db₁, p, scanId, existing, hopen, hcreate⟩ := hcreate
  obtain ⟨hd₁, hnew⟩ := h.openScan hopen hd
  split at hcreate
  · obtain rfl := pure_eq_ok.1 hcreate
    exact hd₁
  · rename_i hex
    simp only [bind_eq_ok] at hcreate
    obtain ⟨db₂, hing, hpub⟩ := hcreate
    have hfree := hnew (by simpa using hex)
    exact h.sealAndPublish hpub (ProjectService.ingestAll_scan
      (fun d d' batch result hb hdd => h.ingest d d' scanId batch result hfree hb hdd) hing hd₁)

theorem ingestFiles {scanId : Nat} {files : List CoverageItem}
    (h : SurvivesWrites env db (.ingestFiles scanId files) P)
    (hing : ProjectService.ingestFiles env db scanId files = .ok db') (hd : P db) : P db' := by
  simp only [ProjectService.ingestFiles, bind_eq_ok] at hing
  obtain ⟨scan, _, db₁, hing, hpub⟩ := hing
  exact h.sealAndPublish hpub (ProjectService.ingestAll_scan
    (fun d d' batch result hb hdd => h.ingest d d' scanId batch result rfl hb hdd) hing hd)

/-- A publication writes the checkpoint of its job. -/
theorem publish {w : WorkerId} {expected : Option Nat} {readSet : Option ReadSetArg}
    {committed : Bool} (h : SurvivesWrites env db (.publish w expected readSet) P)
    (hpub : ScanImportCoordinator.publishTransaction env db w.jobId expected readSet =
      .ok (db', committed)) (hd : P db) : P db' := by
  obtain ⟨job, c, _, _, ⟨_, rfl, _⟩ | ⟨_, _, db₁, ls, hmove, _, _, rfl⟩⟩ :=
    ScanImportCoordinator.publishTransaction_ok hpub
  · exact hd
  · have hmove := (ScanPublicationService.published_of_ok hmove).1
    have hd₁ : P db₁ := h.same db db₁ (.of_facts hmove.facts (by rw [hmove.imports])) hd
    exact h.same (db₁.putCheckpoint w.jobId _) _ ⟨rfl, rfl, rfl, rfl⟩
      (h.checkpoint db₁ w.jobId _ rfl hd₁)

/-- A recovery claims the checkpoint when the new token is above the old one. -/
theorem reclaim (h : SurvivesWrites env db a P) {jobId lease : Nat} {resources : Option (List Nat)}
    {owner : Option Nat} {observed : ImmutableArtifactStager.Observed} {result : Nat × Nat}
    (hreclaim : ScanImportRecoveryService.reclaim db jobId resources owner lease observed =
      .ok (db', result)) (hd : P db) : P db' := by
  obtain ⟨job, c, acquired, db₁, _, _, hc, hacq, _, hend⟩ :=
    ScanImportRecoveryService.reclaim_ok hreclaim
  obtain ⟨rs, ls, rfl⟩ := hacq.frame
  rcases hend with ⟨_, rfl⟩ | ⟨_, hlt, rfl⟩
  · exact h.same db _ ⟨rfl, rfl, rfl, rfl⟩ hd
  · refine h.claim _ jobId c _ hc hlt (h.same db _ ?_ hd)
    exact ⟨rfl, rfl, rfl, rfl⟩

/-- A failed import settles its scan. -/
theorem recordFailure (h : SurvivesWrites env db a P) {jobId owner : Nat} {phase message : String}
    {fencingToken : Option Nat} {status : ScanStatus}
    (hstatus : ScanImportCoordinator.sealable status = false)
    (hfail : ScanImportRecoveryService.recordFailure db jobId phase message fencingToken status
      owner = .ok db') (hd : P db) : P db' := by
  obtain ⟨job, failures, _, rfl | ⟨owner', _, rfl⟩⟩ :=
    ScanImportRecoveryService.recordFailure_ok hfail
  · exact h.same db _ ⟨rfl, rfl, rfl, rfl⟩ hd
  · generalize hdb : Db.putJob _ jobId _ = db₁
    have hd₁ : P db₁ := by
      rw [← hdb]
      exact h.same db _ ⟨rfl, rfl, rfl, rfl⟩ hd
    have hd₂ : P (ScanImportRecoveryService.failScan db₁ job.scanId status) := by
      rcases ScanImportRecoveryService.failScan_eq db₁ job.scanId status with he | he
      · rw [he]
        exact hd₁
      · rw [he]
        exact h.settle db₁ _ _ hstatus hd₁
    refine h.same _ _ ?_ hd₂
    exact ⟨rfl, rfl, rfl, rfl⟩

end SurvivesWrites

/-- The operation of a phase writes to none of them. -/
theorem PhaseOp.operation_same {w : WorkerId} {scanId : Nat} {op : PhaseOp}
    {payload payload' : Payload}
    (h : op.operation env w scanId db payload = .ok (db', payload')) : SameImport db db' :=
  .of_facts (operation_facts h) (by rw [(operation_imports h).1])

/-- **What an action writes of an import.** -/
theorem Action.writes_inv {a : Action} {P : Db → Prop} (h : a.apply env db = .ok db')
    (hw : SurvivesWrites env db a P) (hd : P db) : P db' := by
  cases a with
  | tick d =>
    obtain rfl := pure_eq_ok.1 h
    exact hw.same db _ ⟨rfl, rfl, rfl, rfl⟩ hd
  | registerResource r =>
    simp only [Action.apply] at h
    split at h <;> obtain rfl := pure_eq_ok.1 h <;> exact hw.same db _ ⟨rfl, rfl, rfl, rfl⟩ hd
  | mutate m =>
    have hr := Mutation.reviewed (m := m) h
    exact hw.same _ _ (.of_facts hr.facts (by rw [hr.imports])) hd
  | backfill scanId =>
    rw [AnalysisDomainRepository.backfillLegacy_frame h]
    exact hw.same db _ ⟨rfl, rfl, rfl, rfl⟩ hd
  | runEngine scanId paths =>
    obtain ⟨_, hrun⟩ := map_fst_eq_ok h
    rw [InheritanceEngine.run_frame hrun]
    exact hw.same db _ ⟨rfl, rfl, rfl, rfl⟩ hd
  | createScan identity status => exact hw.createScan h hd
  | createScanAndIngest identity status files => exact hw.createScanAndIngest h hd
  | ingestFiles scanId files => exact hw.ingestFiles h hd
  | sealScan scanId =>
    simp only [Action.apply, ProjectRepository.sealScan, bind_eq_ok, pure_eq_ok] at h
    obtain ⟨_, _, _, _, rfl⟩ := h
    exact hw.settle db scanId .ready rfl hd
  | create request =>
    obtain ⟨_, hcreate⟩ := map_fst_eq_ok h
    exact hw.create hcreate hd
  | phase w target payload op =>
    obtain ⟨⟨payload', committed⟩, hphase⟩ := map_fst_eq_ok h
    obtain ⟨c, _, ⟨_, rfl, _⟩ | ⟨_, _, _, db₁, c₁, hop, _, _, _, rfl⟩⟩ :=
      ScanImportCoordinator.runPhaseOperation_ok hphase
    · exact hd
    · exact hw.checkpoint db₁ w.jobId _ rfl (hw.same db db₁ (PhaseOp.operation_same hop) hd)
  | batch w items batchSeq files lines payload =>
    obtain ⟨_, hbatch⟩ := map_fst_eq_ok h
    obtain ⟨c, db₁, _, _, _, _, hing, _, rfl⟩ := ScanImportCoordinator.ingestCoverageBatch_ok hbatch
    exact hw.checkpoint db₁ w.jobId _ rfl (hw.ingest db db₁ _ items _ rfl hing hd)
  | sealImport w =>
    obtain ⟨c, scan, _, _, _, _, _, _, _, rfl⟩ := ScanImportCoordinator.sealImport_ok h
    exact hw.checkpoint _ w.jobId _ rfl (hw.settle db c.scanId .sealed rfl hd)
  | publish w expected readSet =>
    obtain ⟨committed, hpub⟩ := map_fst_eq_ok h
    exact hw.publish hpub hd
  | reclaim jobId observed =>
    obtain ⟨_, hreclaim⟩ := map_fst_eq_ok h
    exact hw.reclaim hreclaim hd
  | recordFailure jobId phase message fencingToken aborted ownerToken =>
    refine hw.recordFailure ?_ h hd
    cases aborted <;> rfl

end Writes

/-! ## Owners -/

section Owners

variable {env : Env} {db db' : Db}

/-- Every file belongs to a scan, and every checkpoint to a job. -/
structure Owned (db : Db) : Prop where
  /-- The files. -/
  file : ∀ k f, db.facts.files.get? k = some f → ∃ scan, db.facts.scans.get? f.scanId = some scan
  /-- The checkpoints. -/
  checkpoint : ∀ j c, ImportCheckpointRepository.get db j = some c →
    ∃ job, JobRepository.get db j = some job

theorem ScanImportCoordinator.create_jobId {r : ImportRequest} {created : CreatedImport}
    (h : create env db r = .ok (db', created)) : created.jobId = db.uuid := by
  simp only [create, bind_eq_ok, pure_eq_ok, Prod.exists, Prod.mk.injEq] at h
  obtain ⟨_, _, _, _, _, _, _, _, _, _, _, _, _, _, _, _, _, _, rfl⟩ := h
  rfl

/-- A checkpoint an action writes belongs to a job afterwards. -/
theorem Owned.checkpoints (ho : Owned db) {a : Action} (h : a.apply env db = .ok db') {j : Nat}
    (hj : a.Checkpoints db j) : ∃ job, JobRepository.get db' j = some job := by
  have known : ∀ c, ImportCheckpointRepository.get db j = some c →
      ∃ job, JobRepository.get db' j = some job := by
    intro c hc
    obtain ⟨job, hjob⟩ := ho.checkpoint j c hc
    obtain ⟨job', hjob', _⟩ := (Action.leases h).job j job hjob
    exact ⟨job', hjob'⟩
  cases a with
  | tick | registerResource | mutate | backfill | runEngine | createScan | createScanAndIngest
    | ingestFiles | sealScan | reclaim | recordFailure => exact absurd hj id
  | create request =>
    obtain ⟨created, hcreate⟩ := map_fst_eq_ok h
    obtain ⟨job, hjob, _⟩ := ScanImportCoordinator.create_row hcreate
    rw [ScanImportCoordinator.create_jobId hcreate] at hjob
    exact ⟨job, by rw [hj.1, hjob]⟩
  | phase w target payload op =>
    obtain rfl : j = w.jobId := hj
    obtain ⟨_, hphase⟩ := map_fst_eq_ok h
    obtain ⟨c, hc, _⟩ := ScanImportCoordinator.runPhaseOperation_ok hphase
    exact known c hc
  | batch w items batchSeq files lines payload =>
    obtain rfl : j = w.jobId := hj
    obtain ⟨_, hbatch⟩ := map_fst_eq_ok h
    obtain ⟨c, _, hc, _⟩ := ScanImportCoordinator.ingestCoverageBatch_ok hbatch
    exact known c hc
  | sealImport w =>
    obtain rfl : j = w.jobId := hj
    obtain ⟨c, _, hc, _⟩ := ScanImportCoordinator.sealImport_ok h
    exact known c hc
  | publish w expected readSet =>
    obtain rfl : j = w.jobId := hj
    obtain ⟨_, hpub⟩ := map_fst_eq_ok h
    obtain ⟨_, c, _, hc, _⟩ := ScanImportCoordinator.publishTransaction_ok hpub
    exact known c hc

theorem Owned.step (ho : Owned db) {a : Action} (h : a.apply env db = .ok db') : Owned db' := by
  have hall : (∀ k f, db'.facts.files.get? k = some f →
        ∃ scan, db'.facts.scans.get? f.scanId = some scan) ∧
      ∀ j c, ImportCheckpointRepository.get db' j = some c →
        ∃ job, JobRepository.get db' j = some job := by
    refine Action.writes_inv h (P := fun d => (∀ k f, d.facts.files.get? k = some f →
        ∃ scan, d.facts.scans.get? f.scanId = some scan) ∧
      ∀ j c, ImportCheckpointRepository.get d j = some c →
        ∃ job, JobRepository.get db' j = some job) ?_ ⟨ho.file, fun j c hc => ?_⟩
    · constructor
      case same =>
        intro d d' hs hd
        refine ⟨fun k f hk => ?_, fun j c hc => hd.2 j c ?_⟩
        · rw [hs.scans]
          exact hd.1 k f (by rw [← hs.files]; exact hk)
        · rw [ImportCheckpointRepository.get, ← hs.checkpoints]
          exact hc
      case newScan =>
        refine fun d scan hd => ⟨fun k f hk => ?_, hd.2⟩
        obtain ⟨scan', hscan'⟩ := hd.1 k f hk
        exact ⟨scan', Table.get?_insert_of_some hscan'⟩
      case settle =>
        refine fun d s status _ hd => ⟨fun k f hk => ?_, hd.2⟩
        obtain ⟨scan, hscan⟩ := hd.1 k f hk
        rw [ProjectRepository.setStatus]
        simp only [Table.toKeyed_updateWhere, Keyed.get?_updateWhere, hscan, Option.map_some]
        exact ⟨_, rfl⟩
      case ingest =>
        intro d d' s batch result _ hing hd
        obtain ⟨hi, scan, hscan, _⟩ := ProjectService.ingestFileBatch_ok hing
        obtain ⟨files, lines, rfl, hf, _⟩ := hi.rows
        refine ⟨fun k f hk => ?_, hd.2⟩
        rcases Table.get?_insertMany_cases hk with hold | ⟨_, hmem⟩
        · exact hd.1 k f hold
        · exact ⟨scan, by rw [hf f hmem]; exact hscan⟩
      case checkpoint =>
        refine fun d j c hj hd => ⟨hd.1, fun j' c' hc' => ?_⟩
        by_cases he : j' = j
        · rw [he]
          exact ho.checkpoints h hj
        · exact hd.2 j' c' (by simpa [ImportCheckpointRepository.get, Db.putCheckpoint, he] using hc')
      case claim =>
        refine fun d j c token hc _ hd => ⟨hd.1, fun j' c' hc' => ?_⟩
        by_cases he : j' = j
        · rw [he]
          exact hd.2 j c hc
        · exact hd.2 j' c' (by simpa [ImportCheckpointRepository.get, Db.putCheckpoint, he] using hc')
    · obtain ⟨job, hjob⟩ := ho.checkpoint j c hc
      obtain ⟨job', hjob', _⟩ := (Action.leases h).job j job hjob
      exact ⟨job', hjob'⟩
  exact ⟨hall.1, hall.2⟩

theorem Reachable.owned (h : Reachable env db) : Owned db := by
  refine h.inv ⟨fun k f hk => ?_, fun j c hc => ?_⟩ fun _ _ _ hd ha => hd.step ha
  · simp [Db.empty] at hk
  · simp [ImportCheckpointRepository.get, Db.empty] at hc

end Owners

/-! ## Everybody else -/

/-- The checkpoint of the job has been claimed at most. -/
def Claimed (jobId : Nat) (db db' : Db) : Prop :=
  ∀ c, ImportCheckpointRepository.get db jobId = some c → ∃ token, c.fencingToken ≤ token ∧
    ImportCheckpointRepository.get db' jobId = some { c with fencingToken := token }

namespace Claimed

variable {env : Env} {db db' db'' : Db} {jobId : Nat}

theorem of_eq (h : db'.imports.checkpoints = db.imports.checkpoints) : Claimed jobId db db' :=
  fun c hc => ⟨c.fencingToken, Nat.le_refl _, by
    rw [ImportCheckpointRepository.get, h]
    exact hc⟩

theorem trans (h : Claimed jobId db db') (h' : Claimed jobId db' db'') : Claimed jobId db db'' := by
  intro c hc
  obtain ⟨token, hle, hc'⟩ := h c hc
  obtain ⟨token', hle', hc''⟩ := h' _ hc'
  exact ⟨token', Nat.le_trans hle hle', hc''⟩

/-- The checkpoint of another job is written. -/
theorem of_put {j : Nat} (hne : jobId ≠ j) (c : Checkpoint) :
    Claimed jobId db (db.putCheckpoint j c) := by
  refine fun c' hc' => ⟨c'.fencingToken, Nat.le_refl _, ?_⟩
  rw [← hc']
  simp [ImportCheckpointRepository.get, Db.putCheckpoint, hne]

/-- A checkpoint is claimed. -/
theorem of_claim {j token : Nat} {c : Checkpoint} (hc : ImportCheckpointRepository.get db j = some c)
    (hlt : c.fencingToken < token) :
    Claimed jobId db (db.putCheckpoint j { c with fencingToken := token }) := by
  by_cases hj : jobId = j
  · subst hj
    intro c' hc'
    obtain rfl : c = c' := Option.some.inj (hc.symm.trans hc')
    exact ⟨token, Nat.le_of_lt hlt, by simp [ImportCheckpointRepository.get, Db.putCheckpoint]⟩
  · exact of_put hj _

/-- **What an action that is not a transaction of the job leaves of its checkpoint.** -/
theorem of_action {a : Action} (he : ¬ a.Checkpoints db jobId) (h : a.apply env db = .ok db') :
    Claimed jobId db db' := by
  refine Action.writes_inv h (P := fun d => Claimed jobId db d) ?_ (.of_eq rfl)
  constructor
  case same => exact fun d d' hsame hd => hd.trans (.of_eq hsame.checkpoints)
  case newScan => exact fun d scan hd => hd.trans (.of_eq rfl)
  case settle => exact fun d s status _ hd => hd.trans (.of_eq rfl)
  case ingest =>
    intro d d' s batch result _ hing hd
    obtain ⟨_, _, rfl, _⟩ := (ProjectService.ingestFileBatch_ok hing).1.rows
    exact hd.trans (.of_eq rfl)
  case checkpoint =>
    intro d j c hj hd
    refine hd.trans (.of_put ?_ c)
    rintro rfl
    exact he hj
  case claim => exact fun d j c token hc hlt hd => hd.trans (.of_claim hc hlt)

end Claimed

/-- An action that is not a transaction of the job and writes nothing into its Candidate. -/
def Action.Elsewhere (jobId scanId : Nat) (db : Db) (a : Action) : Prop :=
  ¬ a.IngestsInto db scanId ∧ ¬ a.Checkpoints db jobId

/-- What everybody else leaves of an import. -/
structure Aside (jobId scanId : Nat) (db db' : Db) : Prop where
  /-- The checkpoint has been claimed at most. -/
  checkpoint : Claimed jobId db db'
  /-- The files of the Candidate are the same ones. -/
  file : ∀ k f, f.scanId = scanId →
    (db'.facts.files.get? k = some f ↔ db.facts.files.get? k = some f)
  /-- So are its lines. -/
  line : ∀ k l f, db.facts.files.get? l.fileId = some f → f.scanId = scanId →
    (db'.facts.lines.get? k = some l ↔ db.facts.lines.get? k = some l)
  /-- The Candidate stays, and does not return to its construction. -/
  scan : ∀ scan, db.facts.scans.get? scanId = some scan →
    ∃ scan', db'.facts.scans.get? scanId = some scan' ∧
      (ScanImportCoordinator.sealable scan.status = false →
        ScanImportCoordinator.sealable scan'.status = false)

namespace Aside

variable {env : Env} {db db' db'' : Db} {jobId scanId : Nat}

theorem refl (db : Db) : Aside jobId scanId db db where
  checkpoint := .of_eq rfl
  file := fun _ _ _ => Iff.rfl
  line := fun _ _ _ _ _ => Iff.rfl
  scan := fun scan hs => ⟨scan, hs, id⟩

theorem trans (h : Aside jobId scanId db db') (h' : Aside jobId scanId db' db'') :
    Aside jobId scanId db db'' where
  checkpoint := h.checkpoint.trans h'.checkpoint
  file := fun k f hf => (h'.file k f hf).trans (h.file k f hf)
  line := fun k l f hf hs =>
    (h'.line k l f ((h.file _ f hs).2 hf) hs).trans (h.line k l f hf hs)
  scan := by
    intro scan hs
    obtain ⟨scan', hs', hset⟩ := h.scan scan hs
    obtain ⟨scan'', hs'', hset'⟩ := h'.scan scan' hs'
    exact ⟨scan'', hs'', fun hseal => hset' (hset hseal)⟩

theorem of_same (h : SameImport db db') : Aside jobId scanId db db' where
  checkpoint := .of_eq h.checkpoints
  file := fun _ _ _ => by rw [h.files]
  line := fun _ _ _ _ _ => by rw [h.lines]
  scan := fun scan hs => ⟨scan, by rw [h.scans, hs], id⟩

/-- Rows of another scan are added. -/
theorem of_ingests {s : Nat} (h : Ingests s db db') (hne : s ≠ scanId) :
    Aside jobId scanId db db' := by
  obtain ⟨files, lines, rfl, hf, hl⟩ := h.rows
  have hfile : ∀ k f, f.scanId = scanId →
      ((db.facts.files.insertMany files).get? k = some f ↔ db.facts.files.get? k = some f) := by
    intro k f hs
    refine ⟨fun hk => ?_, Table.get?_insertMany_of_some⟩
    rcases Table.get?_insertMany_cases hk with hold | ⟨_, hmem⟩
    · exact hold
    · exact absurd ((hf f hmem).symm.trans hs) hne
  refine ⟨.of_eq rfl, hfile, fun k l f hk hs => ?_,
    fun scan hs => ⟨scan, hs, id⟩⟩
  refine ⟨fun hline => ?_, Table.get?_insertMany_of_some⟩
  rcases Table.get?_insertMany_cases hline with hold | ⟨_, hmem⟩
  · exact hold
  · obtain ⟨f', hf', hs'⟩ := hl l hmem
    obtain rfl : f = f' := Option.some.inj (((hfile _ f hs).2 hk).symm.trans hf')
    exact absurd (hs'.symm.trans hs) hne

/-- The status of a scan changes for good. -/
theorem of_setStatus (db : Db) (s : Nat) {status : ScanStatus}
    (h : ScanImportCoordinator.sealable status = false) :
    Aside jobId scanId db (ProjectRepository.setStatus db s status) where
  checkpoint := .of_eq rfl
  file := fun _ _ _ => Iff.rfl
  line := fun _ _ _ _ _ => Iff.rfl
  scan := by
    intro scan hs
    have hget : (ProjectRepository.setStatus db s status).facts.scans.get? scanId =
        some (if scanId = s then { scan with status := status } else scan) := by
      rw [ProjectRepository.setStatus]
      simp only [Table.toKeyed_updateWhere, Keyed.get?_updateWhere, hs, Option.map_some]
      by_cases he : scanId = s <;> simp [he]
    refine ⟨_, hget, fun hseal => ?_⟩
    split
    · exact h
    · exact hseal

/-- **What everybody else leaves of an import.** -/
theorem of_elsewhere {a : Action} (he : a.Elsewhere jobId scanId db)
    (h : a.apply env db = .ok db') : Aside jobId scanId db db' := by
  refine Action.writes_inv h (P := fun d => Aside jobId scanId db d) ?_ (.refl db)
  constructor
  case same => exact fun d d' hsame hd => hd.trans (.of_same hsame)
  case newScan =>
    refine fun d scan hd => hd.trans ⟨.of_eq rfl, fun _ _ _ => Iff.rfl,
      fun _ _ _ _ _ => Iff.rfl, fun scan' hs => ⟨scan', ?_, id⟩⟩
    exact Table.get?_insert_of_some hs
  case settle => exact fun d s status hst hd => hd.trans (.of_setStatus d s hst)
  case ingest =>
    intro d d' s batch result hinto hing hd
    refine hd.trans (.of_ingests (ProjectService.ingestFileBatch_ok hing).1 ?_)
    rintro rfl
    exact he.1 hinto
  case checkpoint =>
    intro d j c hj hd
    have hne : jobId ≠ j := by
      rintro rfl
      exact he.2 hj
    exact hd.trans ⟨.of_put hne c, fun _ _ _ => Iff.rfl, fun _ _ _ _ _ => Iff.rfl,
      fun scan hs => ⟨scan, hs, id⟩⟩
  case claim =>
    intro d j c token hc hlt hd
    exact hd.trans ⟨.of_claim hc hlt, fun _ _ _ => Iff.rfl, fun _ _ _ _ _ => Iff.rfl,
      fun scan hs => ⟨scan, hs, id⟩⟩

end Aside

end FosCoverage
