import FosCoverage.Analysis.Concurrency
import FosCoverage.Import.Facts

/-!
# Data versions

Every project has a data version.  No action lowers it (`Action.versions`), and an accepted analysis
operation on a line raises that of the project of its scan by one (`Mutation.advances`), in the same
transaction that writes the domain.  A reader who sees a version therefore sees every operation
committed with that version or an earlier one.
-/

set_option autoImplicit false

namespace FosCoverage

open Relational Outcome AnalysisDomainRepository

/-- No data version falls. -/
def VersionsGrow (db db' : Db) : Prop :=
  ∀ p, (db.stateOf p).dataVersion ≤ (db'.stateOf p).dataVersion

namespace VersionsGrow

variable {db db' db'' : Db}

theorem refl (db : Db) : VersionsGrow db db := fun _ => Nat.le_refl _

theorem trans (h : VersionsGrow db db') (h' : VersionsGrow db' db'') : VersionsGrow db db'' :=
  fun p => Nat.le_trans (h p) (h' p)

theorem of_states (h : db'.states = db.states) : VersionsGrow db db' := by
  intro p
  unfold Db.stateOf
  rw [h]

theorem ensure (h : VersionsGrow db db') (p : Nat) :
    VersionsGrow db (ProjectStateRepository.ensure db' p) := by
  intro q
  rw [ProjectStateRepository.stateOf_ensure]
  exact h q

theorem advance (p : Nat) : VersionsGrow db (ProjectStateRepository.advance db p) := by
  intro q
  rw [ProjectStateRepository.advance, ProjectStateRepository.stateOf_modify]
  split
  · rename_i hq
    rw [hq]
    exact Nat.le_succ _
  · exact Nat.le_refl _

theorem rebuilt {p v : Nat} (h : FileStateService.Rebuilt db p v db') : VersionsGrow db db' := by
  intro q
  rw [h.stateOf q]
  split
  · rename_i hq
    rw [hq]
  · exact Nat.le_refl _

theorem published {p s : Nat} (h : ScanPublicationService.Published db p s db') :
    VersionsGrow db db' := by
  intro q
  rw [h.stateOf q]
  split
  · rename_i hq
    rw [hq]
  · exact Nat.le_refl _

theorem mutated {p : Nat} (h : AnalysisService.Mutated db p db') : VersionsGrow db db' := by
  intro q
  rw [h.stateOf q]
  split
  · rename_i hq
    rw [hq]
    exact Nat.le_succ _
  · exact Nat.le_refl _

end VersionsGrow

/-! ## No action lowers a version -/

section Grow

variable {env : Env} {db db' : Db}

theorem AnalysisService.save_versions {projectName reviewer : String} {scanId : Nat}
    {records : List AnalysisService.Item} {enforceCurrent : Bool}
    (h : AnalysisService.save env db projectName scanId records reviewer enforceCurrent =
      .ok db') : VersionsGrow db db' := by
  by_cases hne : records = []
  · subst hne
    obtain ⟨p, rfl⟩ := AnalysisService.save_nil h
    exact (VersionsGrow.refl db).ensure p
  · obtain ⟨p, _, _, _, _, _, hmut⟩ := AnalysisService.saved_of_ok hne h
    exact .mutated hmut

theorem Mutation.versions {m : Mutation} (h : m.apply env db = .ok db') : VersionsGrow db db' := by
  cases m with
  | save => exact AnalysisService.save_versions h
  | editConfirm => exact AnalysisService.save_versions h
  | confirm =>
    exact .mutated (InheritanceReviewService.confirm_inv h (fun _ => True)
      (fun _ _ _ _ _ _ _ => trivial) trivial).2.1
  | reject =>
    obtain ⟨_, _, _, _, _, hmut, _⟩ := InheritanceReviewService.reject_ok h
    exact .mutated hmut
  | undo =>
    obtain ⟨_, _, _, _, _, _, _, _, _, hmut, _⟩ := InheritanceReviewService.undo_ok h
    exact .mutated hmut

namespace ProjectService

theorem createScan_states {projectId scanId : Nat} {scanKey : String} {status : ScanStatus}
    {predecessor : Option Nat}
    (h : ProjectRepository.createScan db projectId scanKey status predecessor =
      .ok (db', scanId)) : db'.states = db.states := by
  obtain ⟨_, ⟨rfl, _⟩ | ⟨_, rfl⟩⟩ := createScan_ok h <;> rfl

theorem openScan_versions {identity : ScanIdentity} {status : ScanStatus} {projectId scanId : Nat}
    {existing : Bool} (h : openScan env db identity status = .ok (db', projectId, scanId, existing)) :
    VersionsGrow db db' := by
  simp only [openScan, bind_eq_ok, Prod.exists] at h
  obtain ⟨db₁, p, hp, h⟩ := h
  obtain ⟨projects, rfl⟩ := ensureProject_ok hp
  split at h
  · simp only [bind_eq_ok, pure_eq_ok, Prod.mk.injEq] at h
    obtain ⟨_, _, rfl, _⟩ := h
    refine VersionsGrow.ensure ?_ p
    exact .of_states rfl
  · simp only [bind_eq_ok, pure_eq_ok, Prod.exists, Prod.mk.injEq] at h
    obtain ⟨db₂, id, hcreate, db₃, hreg, rfl, _⟩ := h
    obtain ⟨repositories, snapshots, rfl⟩ := registerRepositories_ok hreg
    have hstates := createScan_states hcreate
    exact .of_states hstates

theorem sealAndPublish_versions {projectId scanId : Nat}
    (h : sealAndPublish env db projectId scanId = .ok db') : VersionsGrow db db' := by
  simp only [sealAndPublish, bind_eq_ok] at h
  obtain ⟨db₁, hgate, db₂, hseal, hpub⟩ := h
  simp only [ProjectRepository.sealScan, bind_eq_ok, pure_eq_ok] at hseal
  obtain ⟨_, _, _, _, rfl⟩ := hseal
  have hgate : VersionsGrow db db₁ :=
    VersionsGrow.trans (.advance projectId) (.rebuilt (FileStateService.rebuilt_of_ok hgate))
  have hseal : VersionsGrow db₁ (ProjectRepository.setStatus db₁ scanId .ready) := .of_states rfl
  exact (hgate.trans hseal).trans (.published (ScanPublicationService.published_of_ok hpub).1)

theorem ingestAll_versions {scanId : Nat} {files : List CoverageItem}
    (h : ingestAll env db scanId files = .ok db') : VersionsGrow db db' := by
  obtain ⟨_, _, rfl, _⟩ := (ingestAll_ok h).rows
  exact .of_states rfl

end ProjectService

theorem ScanImportCoordinator.create_versions {r : ImportRequest} {created : CreatedImport}
    (h : create env db r = .ok (db', created)) : VersionsGrow db db' := by
  simp only [create, bind_eq_ok, pure_eq_ok, Prod.exists, Prod.mk.injEq] at h
  obtain ⟨_, _, db₁, acquired, hacq, _, _, db₂, projectId, hproj, db₃, scanId, hscan, db₄, hreg,
    db₅, hjob, rfl, _⟩ := h
  obtain ⟨rs, ls, rfl⟩ := (RepositoryResourceLockService.acquire_ok hacq).frame
  obtain ⟨projects, rfl⟩ := ProjectService.ensureProject_ok hproj
  obtain ⟨repositories, snapshots, rfl⟩ := ProjectService.registerRepositories_ok hreg
  simp only [JobRepository.create, bind_eq_ok, require_eq_ok, pure_eq_ok] at hjob
  obtain ⟨_, _, rfl⟩ := hjob
  generalize hstart : ProjectStateRepository.ensure _ projectId = db₀ at hscan
  have h₀ : VersionsGrow db db₀ := by
    rw [← hstart]
    refine VersionsGrow.ensure ?_ projectId
    exact .of_states rfl
  have h₁ := (h₀.trans (.of_states (ProjectService.createScan_states hscan))).trans
    (.advance projectId)
  refine h₁.trans (.of_states ?_)
  unfold ImportCheckpointRepository.create
  split <;> rfl

/-- The operation of a phase transaction. -/
theorem PhaseOp.operation_versions {w : WorkerId} {scanId : Nat} {op : PhaseOp}
    {payload payload' : Payload} (h : op.operation env w scanId db payload = .ok (db', payload')) :
    VersionsGrow db db' := by
  cases op with
  | checkpoint =>
    obtain ⟨rfl, _⟩ := Prod.mk.inj (pure_eq_ok.1 h)
    exact .refl _
  | finalizeCoverage =>
    rw [ScanImportCoordinator.finalizeCoverage_eq h]
    exact .refl _
  | computeInheritance =>
    simp only [PhaseOp.operation, ScanImportCoordinator.computeInheritance, bind_eq_ok, pure_eq_ok,
      Prod.exists, Prod.mk.injEq] at h
    obtain ⟨_, readSet, hrun, rfl, _⟩ := h
    rw [InheritanceEngine.run_frame hrun]
    exact .of_states rfl
  | verifyConsistency =>
    obtain ⟨p, version, hr⟩ := ScanImportCoordinator.verifyConsistency_rebuilt h
    exact .rebuilt hr

theorem ScanImportRecoveryService.recordFailure_versions {jobId owner : Nat}
    {phase message : String} {fencingToken : Option Nat} {status : ScanStatus}
    (h : recordFailure db jobId phase message fencingToken status owner = .ok db') :
    VersionsGrow db db' := by
  obtain ⟨job, failures, _, rfl | ⟨owner', _, rfl⟩⟩ := recordFailure_ok h
  · exact .of_states rfl
  · generalize hd : Db.putJob _ jobId _ = d
    have hstart : d.states = db.states := by
      rw [← hd]
      rfl
    refine .of_states ?_
    rcases failScan_eq d job.scanId status with he | he
    · rw [he]
      exact hstart
    · rw [he]
      exact hstart

/-- **No action lowers a data version.** -/
theorem Action.versions {a : Action} (h : a.apply env db = .ok db') : VersionsGrow db db' := by
  cases a with
  | tick d =>
    obtain rfl := pure_eq_ok.1 h
    exact .of_states rfl
  | registerResource r =>
    simp only [Action.apply] at h
    split at h <;> obtain rfl := pure_eq_ok.1 h <;> exact .of_states rfl
  | mutate m => exact Mutation.versions h
  | backfill scanId =>
    rw [backfillLegacy_frame h]
    exact .of_states rfl
  | runEngine scanId paths =>
    obtain ⟨_, hrun⟩ := map_fst_eq_ok h
    rw [InheritanceEngine.run_frame hrun]
    exact .of_states rfl
  | createScan identity status =>
    simp only [Action.apply, ProjectService.createScan, bind_eq_ok, Prod.exists] at h
    obtain ⟨db₁, p, scanId, existing, hopen, h⟩ := h
    split at h <;> obtain rfl := pure_eq_ok.1 h
    · exact ProjectService.openScan_versions hopen
    · exact (ProjectService.openScan_versions hopen).trans (.advance p)
  | createScanAndIngest identity status files =>
    simp only [Action.apply, ProjectService.createScanAndIngest, bind_eq_ok, Prod.exists] at h
    obtain ⟨db₁, p, scanId, existing, hopen, h⟩ := h
    split at h
    · obtain rfl := pure_eq_ok.1 h
      exact ProjectService.openScan_versions hopen
    · simp only [bind_eq_ok] at h
      obtain ⟨db₂, hing, h⟩ := h
      exact ((ProjectService.openScan_versions hopen).trans
        (ProjectService.ingestAll_versions hing)).trans (ProjectService.sealAndPublish_versions h)
  | ingestFiles scanId files =>
    simp only [Action.apply, ProjectService.ingestFiles, bind_eq_ok] at h
    obtain ⟨scan, _, db₁, hing, h⟩ := h
    exact (ProjectService.ingestAll_versions hing).trans (ProjectService.sealAndPublish_versions h)
  | sealScan scanId =>
    simp only [Action.apply, ProjectRepository.sealScan, bind_eq_ok, pure_eq_ok] at h
    obtain ⟨_, _, _, _, rfl⟩ := h
    exact .of_states rfl
  | create request =>
    obtain ⟨_, hcreate⟩ := map_fst_eq_ok h
    exact ScanImportCoordinator.create_versions hcreate
  | phase w target payload op =>
    obtain ⟨⟨payload', committed⟩, hphase⟩ := map_fst_eq_ok h
    obtain ⟨c, _, ⟨_, rfl, _⟩ | ⟨_, _, _, db₁, c₁, hop, _, _, _, rfl⟩⟩ :=
      ScanImportCoordinator.runPhaseOperation_ok hphase
    · exact .refl _
    · exact (PhaseOp.operation_versions hop).trans (.of_states rfl)
  | batch w items batchSeq files lines payload =>
    obtain ⟨_, hbatch⟩ := map_fst_eq_ok h
    obtain ⟨c, db₁, _, _, _, _, hing, _, rfl⟩ := ScanImportCoordinator.ingestCoverageBatch_ok hbatch
    obtain ⟨_, _, rfl, _⟩ := (ProjectService.ingestFileBatch_ok hing).1.rows
    exact .of_states rfl
  | sealImport w =>
    obtain ⟨c, scan, _, _, _, _, _, _, _, rfl⟩ := ScanImportCoordinator.sealImport_ok h
    exact .of_states rfl
  | publish w expected readSet =>
    obtain ⟨committed, hpub⟩ := map_fst_eq_ok h
    obtain ⟨job, c, _, _, ⟨_, rfl, _⟩ | ⟨_, _, db₁, ls, hmove, _, _, rfl⟩⟩ :=
      ScanImportCoordinator.publishTransaction_ok hpub
    · exact .refl _
    · exact VersionsGrow.trans (.published (ScanPublicationService.published_of_ok hmove).1)
        (.of_states rfl)
  | reclaim jobId observed =>
    obtain ⟨_, hreclaim⟩ := map_fst_eq_ok h
    obtain ⟨uuid, imports, rfl⟩ := ScanImportRecoveryService.reclaim_frame hreclaim
    exact .of_states rfl
  | recordFailure jobId phase message fencingToken aborted ownerToken =>
    exact ScanImportRecoveryService.recordFailure_versions h

end Grow

end FosCoverage
