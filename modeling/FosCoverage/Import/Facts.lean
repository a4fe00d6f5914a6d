import FosCoverage.Service.Ingestion
import FosCoverage.Import.Current

/-!
# The keys of the fact tables over runs

Files and lines are written by ingestion alone, so the constraints of their tables hold in every
reachable database (`Reachable.factsOk`).  All other actions leave the two tables as they are.
-/

set_option autoImplicit false

namespace FosCoverage

open Relational Outcome

/-- Files and lines are untouched. -/
structure SameRows (db db' : Db) : Prop where
  /-- The files. -/
  files : db'.facts.files = db.facts.files
  /-- The lines. -/
  lines : db'.facts.lines = db.facts.lines

namespace SameRows

variable {db db' db'' : Db}

theorem of_facts (h : db'.facts = db.facts) : SameRows db db' := ⟨by rw [h], by rw [h]⟩

theorem refl (db : Db) : SameRows db db := ⟨rfl, rfl⟩

theorem trans (h : SameRows db db') (h' : SameRows db' db'') : SameRows db db'' :=
  ⟨h'.files.trans h.files, h'.lines.trans h.lines⟩

theorem factsOk (h : SameRows db db') (hok : FactsOk db) : FactsOk db' := hok.congr h.files h.lines

end SameRows

variable {env : Env} {db db' : Db}

namespace ProjectService

theorem sealAndPublish_sameRows {projectId scanId : Nat}
    (h : sealAndPublish env db projectId scanId = .ok db') : SameRows db db' := by
  simp only [sealAndPublish, bind_eq_ok] at h
  obtain ⟨db₁, hgate, db₂, hseal, hpub⟩ := h
  simp only [ProjectRepository.sealScan, bind_eq_ok, pure_eq_ok] at hseal
  obtain ⟨_, _, _, _, rfl⟩ := hseal
  have hgate := (FileStateService.rebuilt_of_ok hgate).facts
  rw [show (ProjectStateRepository.advance db projectId).facts = db.facts by
    simp [ProjectStateRepository.advance]] at hgate
  have hpub := (ScanPublicationService.published_of_ok hpub).1.facts
  have hseal : SameRows db₁ (ProjectRepository.setStatus db₁ scanId .ready) := ⟨rfl, rfl⟩
  exact (SameRows.of_facts hgate).trans (hseal.trans (.of_facts hpub))

end ProjectService

theorem ImportCheckpointRepository.create_facts (d : Db) (jobId scanId fencingToken : Nat)
    (sha : String) (payload : Payload) :
    (ImportCheckpointRepository.create d jobId scanId sha fencingToken payload).facts = d.facts := by
  unfold ImportCheckpointRepository.create
  split <;> rfl

namespace ScanImportCoordinator

theorem create_sameRows {r : ImportRequest} {created : CreatedImport}
    (h : create env db r = .ok (db', created)) : SameRows db db' := by
  simp only [create, bind_eq_ok, pure_eq_ok, Prod.exists, Prod.mk.injEq] at h
  obtain ⟨_, _, db₁, acquired, hacq, _, _, db₂, projectId, hproj, db₃, scanId, hscan, db₄, hreg,
    db₅, hjob, rfl, _⟩ := h
  obtain ⟨rs, ls, rfl⟩ := (RepositoryResourceLockService.acquire_ok hacq).frame
  obtain ⟨projects, rfl⟩ := ProjectService.ensureProject_ok hproj
  obtain ⟨repositories, snapshots, rfl⟩ := ProjectService.registerRepositories_ok hreg
  simp only [JobRepository.create, bind_eq_ok, require_eq_ok, pure_eq_ok] at hjob
  obtain ⟨_, _, rfl⟩ := hjob
  have hrows : SameRows db db₃ := by
    obtain ⟨_, ⟨rfl, _⟩ | ⟨_, rfl⟩⟩ := ProjectService.createScan_ok hscan
    · exact .of_facts (by simp [ImmutableArtifactStager.stage])
    · exact ⟨by simp [ImmutableArtifactStager.stage], by simp [ImmutableArtifactStager.stage]⟩
  refine hrows.trans ⟨?_, ?_⟩ <;> rw [ImportCheckpointRepository.create_facts] <;> simp [Db.putJob, ProjectStateRepository.advance]

end ScanImportCoordinator

/-- The operation of a phase leaves the facts alone. -/
theorem PhaseOp.operation_facts {w : WorkerId} {scanId : Nat} {op : PhaseOp}
    {payload payload' : Payload} (h : op.operation env w scanId db payload = .ok (db', payload')) :
    db'.facts = db.facts := by
  cases op with
  | checkpoint =>
    obtain ⟨rfl, _⟩ := Prod.mk.inj (pure_eq_ok.1 h)
    rfl
  | finalizeCoverage => rw [ScanImportCoordinator.finalizeCoverage_eq h]
  | computeInheritance =>
    simp only [PhaseOp.operation, ScanImportCoordinator.computeInheritance, bind_eq_ok, pure_eq_ok,
      Prod.exists, Prod.mk.injEq] at h
    obtain ⟨_, readSet, hrun, rfl, _⟩ := h
    rw [InheritanceEngine.run_frame hrun]
  | verifyConsistency =>
    obtain ⟨p, version, hr⟩ := ScanImportCoordinator.verifyConsistency_rebuilt h
    exact hr.facts

/-- The end of a scan leaves its files and lines alone. -/
theorem ScanImportRecoveryService.recordFailure_sameRows {jobId owner : Nat}
    {phase message : String} {fencingToken : Option Nat} {status : ScanStatus}
    (h : recordFailure db jobId phase message fencingToken status owner = .ok db') :
    SameRows db db' := by
  obtain ⟨job, failures, _, rfl | ⟨owner', _, rfl⟩⟩ := recordFailure_ok h
  · exact ⟨rfl, rfl⟩
  · generalize hd : Db.putJob _ jobId _ = d
    have hstart : SameRows db d := by
      rw [← hd]
      exact ⟨rfl, rfl⟩
    have hend : SameRows db (failScan d job.scanId status) := by
      rcases failScan_eq d job.scanId status with he | he
      · rw [he]
        exact hstart
      · rw [he]
        exact ⟨hstart.files, hstart.lines⟩
    exact ⟨hend.files, hend.lines⟩

/-- What every batch of an ingestion keeps, the ingestion keeps. -/
theorem ProjectService.ingestAll_inv {P : Db → Prop}
    (ingest : ∀ d d' scanId batch result, ingestFileBatch env d scanId batch = .ok (d', result) →
      P d → P d') {scanId : Nat} {files : List CoverageItem}
    (h : ingestAll env db scanId files = .ok db') (h₀ : P db) : P db' := by
  refine foldlM_inv P (fun d batch d' _ hd hbatch => ?_) h₀ h
  cases hb : ingestFileBatch env d scanId batch with
  | error e => simp [hb, Except.map] at hbatch
  | ok r =>
    obtain ⟨d₁, result⟩ := r
    obtain rfl : d₁ = d' := by simpa [hb, Except.map] using hbatch
    exact ingest d d₁ scanId batch result hb hd

/-- **Files and lines are written by the batches of an ingestion alone.** -/
theorem Action.rows_inv {P : Db → Prop} (same : ∀ d d', SameRows d d' → P d → P d')
    (ingest : ∀ d d' scanId batch result,
      ProjectService.ingestFileBatch env d scanId batch = .ok (d', result) → P d → P d')
    {a : Action} (hok : P db) (h : a.apply env db = .ok db') : P db' := by
  cases a with
  | tick d =>
    obtain rfl := pure_eq_ok.1 h
    exact same db _ ⟨rfl, rfl⟩ hok
  | registerResource r =>
    simp only [Action.apply] at h
    split at h <;> obtain rfl := pure_eq_ok.1 h <;> exact same db _ ⟨rfl, rfl⟩ hok
  | mutate m => exact same _ _ (SameRows.of_facts (Mutation.reviewed h).facts) hok
  | backfill scanId =>
    rw [AnalysisDomainRepository.backfillLegacy_frame h]
    exact same db _ ⟨rfl, rfl⟩ hok
  | runEngine scanId paths =>
    obtain ⟨_, hrun⟩ := map_fst_eq_ok h
    rw [InheritanceEngine.run_frame hrun]
    exact same db _ ⟨rfl, rfl⟩ hok
  | createScan identity status =>
    simp only [Action.apply, ProjectService.createScan, bind_eq_ok, Prod.exists] at h
    obtain ⟨db₁, p, scanId, existing, hopen, h⟩ := h
    obtain ⟨_, _, _, _, _, rfl⟩ := ProjectService.openScan_frame hopen
    split at h <;> obtain rfl := pure_eq_ok.1 h
    · exact same db _ ⟨rfl, rfl⟩ hok
    · refine same db _ ⟨?_, ?_⟩ hok <;> simp [ProjectStateRepository.advance]
  | createScanAndIngest identity status files =>
    simp only [Action.apply, ProjectService.createScanAndIngest, bind_eq_ok, Prod.exists] at h
    obtain ⟨db₁, p, scanId, existing, hopen, h⟩ := h
    obtain ⟨_, _, _, _, _, hframe⟩ := ProjectService.openScan_frame hopen
    have hok₁ : P db₁ := same db _ ⟨by rw [hframe], by rw [hframe]⟩ hok
    split at h
    · obtain rfl := pure_eq_ok.1 h
      exact hok₁
    · simp only [bind_eq_ok] at h
      obtain ⟨db₂, hing, h⟩ := h
      exact same _ _ (ProjectService.sealAndPublish_sameRows h)
        (ProjectService.ingestAll_inv ingest hing hok₁)
  | ingestFiles scanId files =>
    simp only [Action.apply, ProjectService.ingestFiles, bind_eq_ok] at h
    obtain ⟨scan, _, db₁, hing, h⟩ := h
    exact same _ _ (ProjectService.sealAndPublish_sameRows h)
      (ProjectService.ingestAll_inv ingest hing hok)
  | sealScan scanId =>
    simp only [Action.apply, ProjectRepository.sealScan, bind_eq_ok, pure_eq_ok] at h
    obtain ⟨_, _, _, _, rfl⟩ := h
    exact same db _ ⟨rfl, rfl⟩ hok
  | create request =>
    obtain ⟨_, hcreate⟩ := map_fst_eq_ok h
    exact same _ _ (ScanImportCoordinator.create_sameRows hcreate) hok
  | phase w target payload op =>
    obtain ⟨⟨payload', committed⟩, hphase⟩ := map_fst_eq_ok h
    obtain ⟨c, _, ⟨_, rfl, _⟩ | ⟨_, _, _, db₁, c₁, hop, _, _, _, rfl⟩⟩ :=
      ScanImportCoordinator.runPhaseOperation_ok hphase
    · exact hok
    · have hop := PhaseOp.operation_facts hop
      exact same db _ ⟨congrArg Facts.files hop, congrArg Facts.lines hop⟩ hok
  | batch w items batchSeq files lines payload =>
    obtain ⟨_, hbatch⟩ := map_fst_eq_ok h
    obtain ⟨c, db₁, _, _, _, _, hing, _, rfl⟩ := ScanImportCoordinator.ingestCoverageBatch_ok hbatch
    exact same db₁ _ ⟨rfl, rfl⟩ (ingest _ _ _ _ _ hing hok)
  | sealImport w =>
    obtain ⟨c, scan, _, _, _, _, _, _, _, rfl⟩ := ScanImportCoordinator.sealImport_ok h
    exact same db _ ⟨rfl, rfl⟩ hok
  | publish w expected readSet =>
    obtain ⟨committed, hpub⟩ := map_fst_eq_ok h
    obtain ⟨job, c, _, _, ⟨_, rfl, _⟩ | ⟨_, _, db₁, ls, hmove, _, _, rfl⟩⟩ :=
      ScanImportCoordinator.publishTransaction_ok hpub
    · exact hok
    · have hpub := (ScanPublicationService.published_of_ok hmove).1.facts
      exact same db _ ⟨congrArg Facts.files hpub, congrArg Facts.lines hpub⟩ hok
  | reclaim jobId observed =>
    obtain ⟨_, hreclaim⟩ := map_fst_eq_ok h
    obtain ⟨uuid, imports, rfl⟩ := ScanImportRecoveryService.reclaim_frame hreclaim
    exact same db _ ⟨rfl, rfl⟩ hok
  | recordFailure jobId phase message fencingToken aborted ownerToken =>
    exact same _ _ (ScanImportRecoveryService.recordFailure_sameRows h) hok

/-- **Every action keeps the constraints of the fact tables.** -/
theorem FactsOk.step {a : Action} (hok : FactsOk db) (h : a.apply env db = .ok db') :
    FactsOk db' :=
  Action.rows_inv (fun _ _ hs hd => hs.factsOk hd)
    (fun _ _ _ _ _ hing hd => (ProjectService.ingestFileBatch_spec hd hing).1.ok) hok h

theorem Reachable.factsOk (h : Reachable env db) : FactsOk db :=
  h.inv FactsOk.empty fun _ _ _ hd ha => hd.step ha

/-! ## Names -/

/-- Every file has a path. -/
def PathsOk (db : Db) : Prop := ∀ k f, db.facts.files.get? k = some f → f.filePath ≠ ""

/-- The lines of a file are written to no other table. -/
theorem LineIndexRepository.upsertLines_files {fileId : Nat} {records : List LineRecord}
    (h : upsertLines db fileId records = .ok db') : db'.facts.files = db.facts.files := by
  simp only [upsertLines, bind_eq_ok, pure_eq_ok] at h
  obtain ⟨_, _, _, _, _, _, _, _, rfl⟩ := h
  rfl

/-- Only files with a path are registered. -/
theorem PathsOk.ensureFiles {scanId : Nat} {items : List ProjectRepository.FileItem}
    (hok : PathsOk db) (h : ProjectRepository.ensureFiles db scanId items = .ok db') :
    PathsOk db' := by
  simp only [ProjectRepository.ensureFiles, bind_eq_ok, pure_eq_ok] at h
  obtain ⟨_, _, normalized, hnorm, _, _, rfl⟩ := h
  have hnamed : ∀ item ∈ normalized, item.filePath ≠ "" := by
    refine foldlM_inv (fun seen : List ProjectRepository.FileItem =>
      ∀ item ∈ seen, item.filePath ≠ "") (fun seen item seen' _ hseen hstep => ?_)
      (fun _ hmem => absurd hmem List.not_mem_nil) hnorm
    simp only [ProjectRepository.normalizeFile, bind_eq_ok, require_eq_ok] at hstep
    obtain ⟨_, ⟨_, hpath⟩, hstep⟩ := hstep
    split at hstep
    · simp only [bind_eq_ok, pure_eq_ok] at hstep
      obtain ⟨_, _, rfl⟩ := hstep
      exact hseen
    · obtain rfl := pure_eq_ok.1 hstep
      intro i hi
      rcases List.mem_append.1 hi with hi | hi
      · exact hseen i hi
      · rw [List.mem_singleton.1 hi]
        exact hpath
  intro k f hk
  rcases Table.get?_insertMany_cases hk with hold | ⟨_, hmem⟩
  · exact hok k f hold
  · obtain ⟨item, hitem, rfl⟩ := List.mem_map.1 hmem
    exact hnamed item (List.mem_filter.1 hitem).1

/-- Every file of a reachable database has a path. -/
theorem Reachable.pathsOk (h : Reachable env db) : PathsOk db := by
  refine h.inv (fun k f hk => absurd hk (by simp [Db.empty])) fun d a d' hd ha => ?_
  refine Action.rows_inv (fun e e' hs he k f hk => he k f (hs.files ▸ hk))
    (fun e e' scanId batch result hing he => ?_) hd ha
  simp only [ProjectService.ingestFileBatch, bind_eq_ok] at hing
  obtain ⟨_, _, hing⟩ := hing
  split at hing
  · simp only [pure_eq_ok, Prod.mk.injEq] at hing
    obtain ⟨rfl, _⟩ := hing
    exact he
  · simp only [bind_eq_ok, pure_eq_ok, Prod.mk.injEq] at hing
    obtain ⟨e₁, hfiles, e₂, hlines, rfl, _⟩ := hing
    have hsame : e₂.facts.files = e₁.facts.files :=
      foldlM_rel (fun x y : Db => y.facts.files = x.facts.files) (fun _ => rfl)
        (fun h₁ h₂ => h₂.trans h₁) (fun x item y _ hitem => by
          simp only [ProjectService.ingestItem, bind_eq_ok, Prod.exists] at hitem
          obtain ⟨_, _, _, hitem⟩ := hitem
          exact foldlM_rel (fun x y : Db => y.facts.files = x.facts.files) (fun _ => rfl)
            (fun h₁ h₂ => h₂.trans h₁) (fun _ _ _ _ => LineIndexRepository.upsertLines_files)
            hitem) hlines
    intro k f hk
    rw [hsame] at hk
    exact he.ensureFiles hfiles k f hk

end FosCoverage
