import FosCoverage.Analysis.Projection
import FosCoverage.Analysis.ProgressRuns

/-!
# The projection over whole runs

The ready gate leaves right rows and every analysis operation keeps them right, so a row of CURRENT
can only become wrong by a write that passes no gate: the lines of an import batch, an engine run, a
migration.  None of these is refused on a scan that is CURRENT already, or that a verified import is
about to make CURRENT.

* `Db.verified` marks these scans, and `Action.ungated` names the scan such a write is on.
* `Spares` is what every transaction does to the rows of the other scans.
* `ProjectionSound` is the statement about CURRENT; it holds over every run in which no ungated write
  is on a verified scan (`projection_sound`), and fails in a run with such a write
  (`engine_run_leaves_stale_rows`).
-/

set_option autoImplicit false

namespace FosCoverage

open Relational Outcome AnalysisDomainRepository FileStateRepository

/-! ## Transactions and the scans they leave alone -/

/-- The rows of a scan are as in `db`, and so is everything they are computed from. -/
structure Spares (db db' : Db) (scanId : Nat) : Prop where
  /-- The files, and what is known of their lines. -/
  inputs : SameInputs db db' scanId
  /-- The rows. -/
  rows : ∀ f, db'.fileStates.get? (scanId, f) = db.fileStates.get? (scanId, f)

theorem Spares.rowsOk {db db' : Db} {scanId : Nat} (h : Spares db db' scanId)
    (hrows : RowsOk db scanId) : RowsOk db' scanId :=
  h.inputs.rowsOk hrows h.rows

/-- The tables of the projection and of its inputs are the same. -/
structure SameTables (db db' : Db) : Prop where
  /-- The files. -/
  files : db'.facts.files = db.facts.files
  /-- The lines. -/
  lines : db'.facts.lines = db.facts.lines
  /-- The domain. -/
  domain : db'.domain = db.domain
  /-- The rows. -/
  rows : db'.fileStates = db.fileStates

namespace SameTables

variable {db db' db'' : Db}

theorem refl (db : Db) : SameTables db db := ⟨rfl, rfl, rfl, rfl⟩

theorem trans (h : SameTables db db') (h' : SameTables db' db'') : SameTables db db'' :=
  ⟨h'.files.trans h.files, h'.lines.trans h.lines, h'.domain.trans h.domain, h'.rows.trans h.rows⟩

theorem spares (h : SameTables db db') (scanId : Nat) : Spares db db' scanId := by
  refine ⟨⟨fun f file _ => by rw [h.files], fun f file _ _ => ?_⟩, fun f => by rw [h.rows]⟩
  unfold fileReviews Db.lineReview Db.activeLink
  rw [h.lines, h.domain]

theorem ensure (p : Nat) : SameTables db (ProjectStateRepository.ensure db p) := by
  constructor <;> simp

theorem modify (p : Nat) (f : ProjectState → ProjectState) :
    SameTables db (ProjectStateRepository.modify db p f) := by
  constructor <;> simp

theorem setStatus (scanId : Nat) (status : ScanStatus) :
    SameTables db (ProjectRepository.setStatus db scanId status) :=
  ⟨rfl, rfl, rfl, rfl⟩

end SameTables

/-- An ingestion spares the other scans. -/
theorem Ingests.spares {db db' : Db} {scanId s : Nat} (h : Ingests scanId db db')
    (hne : s ≠ scanId) : Spares db db' s := by
  obtain ⟨files, lines, rfl, hfiles, hlines⟩ := h.rows
  refine ⟨⟨fun f file hs => ⟨fun hf => ?_, Table.get?_insertMany_of_some⟩, fun f file hf hs => ?_⟩,
    fun _ => rfl⟩
  · rcases Table.get?_insertMany_cases hf with hold | ⟨_, hmem⟩
    · exact hold
    · exact absurd (hs.symm.trans (hfiles file hmem)) hne
  · have hsel : ∀ k : Nat, ∀ l ∈ lines, decide (l.fileId = f) = false := by
      intro k l hl
      obtain ⟨file', hf', hs'⟩ := hlines l hl
      refine decide_eq_false fun he => hne ?_
      rw [he, Table.get?_insertMany_of_some hf] at hf'
      rw [← hs, Option.some.inj hf', hs']
    exact congrArg (fun ls => ls.map fun l => db.lineReview s l.1 l.2)
      (Table.select_insertMany (t := db.facts.lines) (q := fun _ l => l.fileId = f) hsel)

/-- `d` has relations of lines of the scan, and records, written on top of `db`. -/
structure WritesScan (db : Db) (scanId : Nat) (d : Db) : Prop where
  /-- The legacy rows are untouched. -/
  analyses : d.domain.analyses = db.domain.analyses
  /-- No record changes. -/
  record : ∀ k c, db.domain.records.get? k = some c → d.domain.records.get? k = some c
  /-- Lines of other scans keep their active relation. -/
  others : ∀ s l, s ≠ scanId → d.activeLink s l = db.activeLink s l

namespace WritesScan

variable {db d : Db} {scanId : Nat}

theorem refl (db : Db) (scanId : Nat) : WritesScan db scanId db :=
  ⟨rfl, fun _ _ h => h, fun _ _ _ => rfl⟩

theorem writeLinks (h : WritesScan db scanId d) (items : List LinkItem) :
    WritesScan db scanId
      { d with domain.links := AnalysisDomainRepository.writeLinks d.domain.links scanId items } := by
  refine ⟨h.analyses, h.record, fun s l hne => ?_⟩
  rw [← h.others s l hne]
  refine find?_writeLinks_of_ne _ fun r hr item _ hsame => hne ?_
  simp only [decide_eq_true_eq] at hr
  exact hr.1.symm.trans hsame.1

/-- What is known of the lines of another scan is known as before. -/
theorem sameReview (h : WritesScan db scanId d) (hl : LinksOk db) {s : Nat} (hne : s ≠ scanId)
    (l : Nat) : SameReview db d s l := by
  refine SameReview.of_rows (h.others s l hne) (by rw [h.analyses]) fun k q hq => ?_
  obtain ⟨c, hc⟩ := Option.isSome_iff_exists.1 (hl.record k q (activeLink_some hq).1)
  rw [hc, h.record _ _ hc]

theorem spares (h : WritesScan db scanId d) (hl : LinksOk db) (hf : d.facts = db.facts)
    (hr : d.fileStates = db.fileStates) {s : Nat} (hne : s ≠ scanId) : Spares db d s := by
  refine ⟨⟨fun f file _ => by rw [hf], fun f file _ _ => ?_⟩, fun f => by rw [hr]⟩
  unfold fileReviews
  rw [hf]
  exact List.map_congr_left fun l _ => h.sameReview hl hne l.1 l.2

end WritesScan

/-- An engine run writes relations of its scan. -/
theorem InheritanceEngine.run_writesScan {env : Env} {db db' : Db} {scanId : Nat}
    {paths : List (String × String)} {readSet : Option ReadSet}
    (h : run env db scanId paths = .ok (db', readSet)) : WritesScan db scanId db' := by
  refine (run_inv (P := fun d => WritesScan db scanId d) h
    (fun d rows _ hd => ⟨hd.analyses, hd.record, hd.others⟩) (fun ctx hctx _ => ?_)
    (.refl db scanId)).2
  intro _ d r lineId line i _ _ _ _ hd _
  have hgrow : WritesScan db scanId (i.beforeLink d) :=
    ⟨hd.analyses, fun k c hc => Table.get?_insertMany_of_some (hd.record k c hc), hd.others⟩
  rw [hctx]
  exact hgrow.writeLinks [i.item]

/-- An engine run spares every scan but the one it is on. -/
theorem InheritanceEngine.run_spares {env : Env} {db db' : Db} {scanId s : Nat}
    {paths : List (String × String)} {readSet : Option ReadSet} (hl : LinksOk db)
    (h : run env db scanId paths = .ok (db', readSet)) (hne : s ≠ scanId) : Spares db db' s := by
  have hframe := run_frame h
  exact (run_writesScan h).spares hl (by rw [hframe]) (by rw [hframe]) hne

/-- So does a migration. -/
theorem AnalysisDomainRepository.backfill_writesScan {db db' : Db} {scanId : Nat}
    (h : backfillLegacy db scanId = .ok db') : WritesScan db scanId db' := by
  refine foldlM_inv (fun d => WritesScan db scanId d) ?_ (.refl db scanId) h
  intro d row d' _ hd hok
  dsimp only at hok
  split at hok
  · obtain ⟨rfl, _⟩ := AnalysisService.createLinksMany_ok hok
    refine WritesScan.writeLinks ?_ _
    unfold legacyRecord
    split
    · exact hd
    · refine ⟨hd.analyses, fun k c hc => ?_, hd.others⟩
      have hold := hd.record k c hc
      show (Table.insert _ _).get? k = some c
      rw [Table.get?_insert, if_neg (by have := Table.get?_issued hold; omega), hold]
  · obtain rfl := pure_eq_ok.1 hok
    exact hd

/-- A migration spares every scan but the one it is on. -/
theorem AnalysisDomainRepository.backfill_spares {db db' : Db} {scanId s : Nat} (hl : LinksOk db)
    (h : backfillLegacy db scanId = .ok db') (hne : s ≠ scanId) : Spares db db' s := by
  have hframe := backfillLegacy_frame h
  exact (backfill_writesScan h).spares hl (by rw [hframe]) (by rw [hframe]) hne

/-! ## Scans whose rows have been verified -/

/-- The rows of the Candidate have been verified, and CURRENT is not moved yet. -/
def Phase.verified : Phase → Bool
  | .consistencyVerified | .sealed => true
  | _ => false

/-- The scan is CURRENT of a project, or the Candidate of an import that has verified its rows. -/
def Db.verified (db : Db) (scanId : Nat) : Bool :=
  (db.states.rows.any fun r => r.2.currentScanId = some scanId) ||
  db.imports.jobs.rows.any fun r => r.2.inputPayload.scanId = scanId &&
    (ImportCheckpointRepository.get db r.1).any fun c => c.phase.verified

theorem Db.verified_iff {db : Db} {scanId : Nat} : db.verified scanId = true ↔
    (∃ p, (db.stateOf p).currentScanId = some scanId) ∨
    ∃ j job c, JobRepository.get db j = some job ∧ job.inputPayload.scanId = scanId ∧
      ImportCheckpointRepository.get db j = some c ∧ c.phase.verified = true := by
  rw [Db.verified, Bool.or_eq_true, List.any_eq_true, List.any_eq_true]
  refine or_congr ⟨?_, ?_⟩ ⟨?_, ?_⟩
  · rintro ⟨⟨p, state⟩, hp, hs⟩
    refine ⟨p, ?_⟩
    rw [Db.stateOf, Keyed.get?_eq_some_iff.2 hp]
    simpa using hs
  · rintro ⟨p, hs⟩
    cases hp : db.states.get? p with
    | none => simp [Db.stateOf, hp, ProjectState.initial] at hs
    | some state =>
      refine ⟨(p, state), Keyed.get?_eq_some_iff.1 hp, ?_⟩
      rw [Db.stateOf, hp] at hs
      simpa using hs
  · rintro ⟨⟨j, job⟩, hj, hand⟩
    rw [Bool.and_eq_true, decide_eq_true_eq, Option.any_eq_true] at hand
    obtain ⟨hs, c, hc, hv⟩ := hand
    exact ⟨j, job, c, Keyed.get?_eq_some_iff.2 hj, hs, hc, hv⟩
  · rintro ⟨j, job, c, hj, hs, hc, hv⟩
    refine ⟨(j, job), Keyed.get?_eq_some_iff.1 hj, ?_⟩
    rw [Bool.and_eq_true, decide_eq_true_eq, Option.any_eq_true]
    exact ⟨hs, c, hc, hv⟩

/-- The scan an action writes lines or relations of without a gate.  A phase that is committed
already is skipped, and a batch is refused outside of its phase. -/
def Action.ungated (db : Db) : Action → Option Nat
  | .phase w target _ (.computeInheritance _) =>
    if (ImportCheckpointRepository.get db w.jobId).any fun c => c.phase.index < target.index then
      some (db.jobScan w.jobId)
    else none
  | .batch w _ _ _ _ _ =>
    if (ImportCheckpointRepository.get db w.jobId).any fun c => c.phase = .infoStaged then
      some (db.jobScan w.jobId)
    else none
  | .runEngine scanId _ => some scanId
  | .backfill scanId => some scanId
  | _ => none

/-- A worker reaches `CONSISTENCY_VERIFIED` through `verify_consistency`. -/
def Action.verifies : Action → Bool
  | .phase _ .consistencyVerified _ .verifyConsistency => true
  | .phase _ .consistencyVerified _ _ => false
  | _ => true

/-! ## What an action does to imports and scans -/

/-- An action as far as verified scans go: jobs keep their Candidate, every checkpoint belongs to a
job, and a Candidate counts as verified when it did so before or has the right rows. -/
structure KeepsImports (db db' : Db) : Prop where
  /-- Jobs stay, with their Candidate. -/
  job : ∀ j job, JobRepository.get db j = some job → ∃ job', JobRepository.get db' j = some job' ∧
    job'.inputPayload.scanId = job.inputPayload.scanId
  /-- A checkpoint is an old one that has not become a verified one without the right rows, or one
  of a new job. -/
  checkpoint : ∀ j c', ImportCheckpointRepository.get db' j = some c' →
    (∃ c, ImportCheckpointRepository.get db j = some c ∧
      (c'.phase.verified = true → c.phase.verified = true ∨
        ∀ job, JobRepository.get db j = some job → RowsOk db' job.inputPayload.scanId)) ∨
    (c'.phase.verified = false ∧ (JobRepository.get db' j).isSome)

/-- The imports are untouched. -/
theorem KeepsImports.of_imports {db db' : Db} (hj : db'.imports.jobs = db.imports.jobs)
    (hc : db'.imports.checkpoints = db.imports.checkpoints) : KeepsImports db db' := by
  constructor
  · intro j job hjob
    exact ⟨job, by rw [JobRepository.get, hj]; exact hjob, rfl⟩
  · intro j c' hc'
    rw [ImportCheckpointRepository.get, hc] at hc'
    exact .inl ⟨c', hc', .inl⟩

/-- **What the projection rests on**: the right rows for every verified scan. -/
structure ProjectionInv (db : Db) : Prop where
  /-- CURRENT is a sealed scan of its project. -/
  history : HistoryOk db
  /-- The references of the domain. -/
  integrity : Integrity db
  /-- A checkpoint belongs to a job. -/
  owned : ∀ j, (ImportCheckpointRepository.get db j).isSome → (JobRepository.get db j).isSome
  /-- A verified scan has the right rows. -/
  rows : ∀ s, db.verified s = true → RowsOk db s

theorem ProjectionInv.empty : ProjectionInv Db.empty := by
  refine ⟨HistoryOk.empty, Integrity.empty, fun j h => ?_, fun s h => ?_⟩
  · simp [ImportCheckpointRepository.get, Db.empty] at h
  · cases h

/-- The four things to check of a transaction. -/
theorem ProjectionInv.next {db db' : Db} (h : ProjectionInv db) (hh : HistoryOk db')
    (hi : Integrity db') (hk : KeepsImports db db')
    (hcur : ∀ p s, (db'.stateOf p).currentScanId = some s →
      (db.stateOf p).currentScanId = some s ∨ RowsOk db' s)
    (hs : ∀ s, db.verified s = true → RowsOk db s → RowsOk db' s) : ProjectionInv db' := by
  have kept : ∀ s, db.verified s = true → RowsOk db' s := fun s hv => hs s hv (h.rows s hv)
  refine ⟨hh, hi, fun j hc => ?_, fun s hv => ?_⟩
  · obtain ⟨c', hc'⟩ := Option.isSome_iff_exists.1 hc
    rcases hk.checkpoint j c' hc' with ⟨c, hc, _⟩ | ⟨_, hjob⟩
    · obtain ⟨job, hjob⟩ := Option.isSome_iff_exists.1 (h.owned j (by rw [hc]; rfl))
      obtain ⟨job', hjob', _⟩ := hk.job j job hjob
      rw [hjob']
      rfl
    · exact hjob
  · rcases Db.verified_iff.1 hv with ⟨p, hp⟩ | ⟨j, job', c', hjob', rfl, hc', hverified⟩
    · rcases hcur p s hp with hp | hrows
      · exact kept s (Db.verified_iff.2 (.inl ⟨p, hp⟩))
      · exact hrows
    · rcases hk.checkpoint j c' hc' with ⟨c, hc, himp⟩ | ⟨hnot, _⟩
      · obtain ⟨job, hjob⟩ := Option.isSome_iff_exists.1 (h.owned j (by rw [hc]; rfl))
        obtain ⟨job₁, hjob₁, hscan⟩ := hk.job j job hjob
        obtain rfl : job₁ = job' := Option.some.inj (hjob₁.symm.trans hjob')
        rw [hscan]
        rcases himp hverified with hv | hrows
        · exact kept _ (Db.verified_iff.2 (.inr ⟨j, job, c, hjob, rfl, hc, hv⟩))
        · exact hrows job hjob
      · rw [hverified] at hnot
        cases hnot

/-! ## Transactions of the project service -/

/-- A passed gate spares the other scans. -/
theorem FileStateService.gate_spares {db db' : Db} {projectId scanId dataVersion s : Nat}
    {affected : Option (List Nat)} {previousReady : Bool}
    (h : rebuildValidateAndMarkReadyInTransaction db projectId scanId dataVersion affected
      previousReady = .ok db') (hne : s ≠ scanId) : Spares db db' s :=
  ⟨.of_domain (rebuilt_of_ok h).facts (rebuilt_of_ok h).domain,
    fun f => (gate_rows h).other s f hne⟩

/-- After a full gate on one of the scans, the rows that were right are right. -/
theorem FileStateService.gate_keeps {db db' : Db} {projectId scanId dataVersion s : Nat}
    {previousReady : Bool} (h : rebuildValidateAndMarkReadyInTransaction db projectId scanId
      dataVersion none previousReady = .ok db') (hrows : s ≠ scanId → RowsOk db s) :
    RowsOk db' s := by
  by_cases hs : s = scanId
  · subst hs
    exact gate_full h
  · exact (gate_spares h hs).rowsOk (hrows hs)

namespace ProjectService

variable {env : Env} {db db' : Db}

theorem openScan_sameTables {identity : ScanIdentity} {status : ScanStatus}
    {projectId scanId : Nat} {existing : Bool}
    (h : openScan env db identity status = .ok (db', projectId, scanId, existing)) :
    SameTables db db' ∧ db'.imports = db.imports := by
  simp only [openScan, bind_eq_ok, Prod.exists] at h
  obtain ⟨db₁, p, hp, h⟩ := h
  obtain ⟨projects, rfl⟩ := ensureProject_ok hp
  have h₀ : SameTables db { db with projects := projects } := ⟨rfl, rfl, rfl, rfl⟩
  split at h
  · simp only [bind_eq_ok, pure_eq_ok, Prod.mk.injEq] at h
    obtain ⟨_, _, rfl, _⟩ := h
    exact ⟨h₀.trans (.ensure p), by simp⟩
  · simp only [bind_eq_ok, pure_eq_ok, Prod.exists, Prod.mk.injEq] at h
    obtain ⟨db₂, id, hcreate, db₃, hreg, rfl, _⟩ := h
    obtain ⟨repositories, snapshots, rfl⟩ := registerRepositories_ok hreg
    obtain ⟨_, ⟨rfl, _⟩ | ⟨_, rfl⟩⟩ := createScan_ok hcreate
    · exact ⟨⟨rfl, rfl, rfl, rfl⟩, rfl⟩
    · exact ⟨⟨rfl, rfl, rfl, rfl⟩, rfl⟩

/-- The end of a synchronous construction leaves the right rows of its scan, and the others. -/
theorem sealAndPublish_rows {projectId scanId : Nat}
    (h : sealAndPublish env db projectId scanId = .ok db') :
    (∀ s, (s ≠ scanId → RowsOk db s) → RowsOk db' s) ∧ db'.imports = db.imports ∧
    ∀ p s, (db'.stateOf p).currentScanId = some s →
      (db.stateOf p).currentScanId = some s ∨ s = scanId := by
  simp only [sealAndPublish, bind_eq_ok] at h
  obtain ⟨db₁, hgate, db₂, hseal, hpub⟩ := h
  simp only [ProjectRepository.sealScan, bind_eq_ok, pure_eq_ok] at hseal
  obtain ⟨_, _, _, _, rfl⟩ := hseal
  have hreb := FileStateService.rebuilt_of_ok hgate
  have hp := (ScanPublicationService.published_of_ok hpub).1
  have hend : SameTables db₁ db' := (SameTables.setStatus scanId .ready).trans
    ⟨by rw [hp.facts], by rw [hp.facts], hp.domain, hp.fileStates⟩
  refine ⟨fun s hrows => (hend.spares s).rowsOk (FileStateService.gate_keeps hgate fun hne => ?_),
    ?_, fun p s hs => ?_⟩
  · exact ((SameTables.modify projectId _).spares s).rowsOk (hrows hne)
  · rw [hp.imports]
    exact hreb.imports.trans (by simp [ProjectStateRepository.advance])
  · rw [hp.stateOf] at hs
    split at hs
    · exact .inr (Option.some.inj hs).symm
    · left
      change (db₁.stateOf p).currentScanId = some s at hs
      rw [hreb.stateOf] at hs
      split at hs <;> simp_all [ProjectStateRepository.advance]

/-- Ingestion, seal and publication in one transaction. -/
theorem ingest_rows {db₁ : Db} {projectId scanId : Nat} {files : List CoverageItem}
    (hing : ingestAll env db scanId files = .ok db₁)
    (h : sealAndPublish env db₁ projectId scanId = .ok db') :
    (∀ s, (s ≠ scanId → RowsOk db s) → RowsOk db' s) ∧ db'.imports = db.imports ∧
    ∀ p s, (db'.stateOf p).currentScanId = some s →
      (db.stateOf p).currentScanId = some s ∨ s = scanId := by
  obtain ⟨hrows, himp, hcur⟩ := sealAndPublish_rows h
  have hi := ingestAll_ok hing
  refine ⟨fun s hs => hrows s fun hne => (hi.spares hne).rowsOk (hs hne), ?_, fun p s hs => ?_⟩
  · rw [himp, hi.frame]
  · have := hcur p s hs
    rwa [hi.frame] at this

end ProjectService

/-! ## Transactions of an import -/

section Imports

variable {db db' : Db}

theorem KeepsImports.refl (db : Db) : KeepsImports db db := .of_imports rfl rfl

/-- The checkpoint of a job is written, and it is a verified one only with reason. -/
theorem KeepsImports.putCheckpoint {db₁ : Db} {jobId : Nat} {c c' : Checkpoint}
    (himp : db₁.imports = db.imports) (hget : ImportCheckpointRepository.get db jobId = some c)
    (hv : c'.phase.verified = true → c.phase.verified = true ∨ ∀ job,
      JobRepository.get db jobId = some job →
        RowsOk (db₁.putCheckpoint jobId c') job.inputPayload.scanId) :
    KeepsImports db (db₁.putCheckpoint jobId c') := by
  constructor
  · intro j job hjob
    refine ⟨job, ?_, rfl⟩
    show db₁.imports.jobs.get? j = some job
    rw [himp]
    exact hjob
  · intro j c₁ hc₁
    simp only [ImportCheckpointRepository.get, Db.putCheckpoint, Keyed.get?_put, himp] at hc₁
    split at hc₁
    · rename_i hid
      obtain rfl := Option.some.inj hc₁
      rw [hid]
      exact .inl ⟨c, hget, hv⟩
    · exact .inl ⟨c₁, hc₁, .inl⟩

/-- A job is rewritten and keeps its Candidate; its checkpoint keeps its phase. -/
theorem KeepsImports.putJob {jobId : Nat} {job job' : Job}
    (hj : db'.imports.jobs = db.imports.jobs.put jobId job')
    (hget : JobRepository.get db jobId = some job)
    (hscan : job'.inputPayload.scanId = job.inputPayload.scanId)
    (hc : ∀ j c', ImportCheckpointRepository.get db' j = some c' →
      ∃ c, ImportCheckpointRepository.get db j = some c ∧
        (c'.phase.verified = true → c.phase.verified = true)) : KeepsImports db db' := by
  constructor
  · intro j job₁ hjob₁
    rw [JobRepository.get, hj, Keyed.get?_put]
    split
    · rename_i hid
      subst hid
      obtain rfl : job = job₁ := Option.some.inj (hget.symm.trans hjob₁)
      exact ⟨job', rfl, hscan⟩
    · exact ⟨job₁, hjob₁, rfl⟩
  · intro j c' hc'
    obtain ⟨c, hget', himp⟩ := hc j c' hc'
    exact .inl ⟨c, hget', fun hv => .inl (himp hv)⟩

end Imports

namespace ScanImportCoordinator

variable {env : Env} {db db' : Db}

theorem create_keeps {r : ImportRequest} {created : CreatedImport}
    (hown : ∀ j, (ImportCheckpointRepository.get db j).isSome → (JobRepository.get db j).isSome)
    (h : create env db r = .ok (db', created)) : SameTables db db' ∧ KeepsImports db db' := by
  simp only [create, bind_eq_ok, pure_eq_ok, Prod.exists, Prod.mk.injEq] at h
  obtain ⟨_, _, db₁, acquired, hacq, _, _, db₂, projectId, hproj, db₃, scanId, hscan, db₄, hreg,
    db₅, hjob, rfl, _⟩ := h
  obtain ⟨rs, ls, rfl⟩ := (RepositoryResourceLockService.acquire_ok hacq).frame
  obtain ⟨projects, rfl⟩ := ProjectService.ensureProject_ok hproj
  obtain ⟨repositories, snapshots, rfl⟩ := ProjectService.registerRepositories_ok hreg
  simp only [JobRepository.create, bind_eq_ok, require_eq_ok, pure_eq_ok] at hjob
  obtain ⟨_, hnew, rfl⟩ := hjob
  generalize hdb : ProjectStateRepository.ensure _ projectId = db₀ at hscan
  have h₀ : SameTables db db₀ ∧ db₀.imports.jobs = db.imports.jobs ∧
      db₀.imports.checkpoints = db.imports.checkpoints := by
    rw [← hdb]
    refine ⟨SameTables.trans ?_ (.ensure projectId), ?_, ?_⟩
    · exact ⟨rfl, rfl, rfl, rfl⟩
    · simp [ImmutableArtifactStager.stage]
    · simp [ImmutableArtifactStager.stage]
  have h₁ : SameTables db db₃ ∧ db₃.imports.jobs = db.imports.jobs ∧
      db₃.imports.checkpoints = db.imports.checkpoints := by
    obtain ⟨_, ⟨rfl, _⟩ | ⟨_, rfl⟩⟩ := ProjectService.createScan_ok hscan
    · exact h₀
    · exact ⟨h₀.1.trans ⟨rfl, rfl, rfl, rfl⟩, h₀.2⟩
  obtain ⟨htables, hjobs, hckpts⟩ := h₁
  generalize hrow : (⟨projectId, scanId, true, _, _, _, _, true⟩ : Job) = row
  -- the job is new, and so is its checkpoint
  have hnone : ImportCheckpointRepository.get db db.uuid = none := by
    rw [Option.eq_none_iff_forall_not_mem]
    intro c hc
    have := hown db.uuid (by rw [Option.mem_def.1 hc]; rfl)
    simp only [JobRepository.get, ProjectStateRepository.advance,
      ProjectStateRepository.imports_modify, hjobs, Option.isNone_iff_eq_none] at hnew
    rw [JobRepository.get, hnew] at this
    cases this
  have hget : ∀ j, (ProjectStateRepository.advance db₃ projectId).imports.checkpoints.get? j =
      ImportCheckpointRepository.get db j := fun j => by
    simp [ProjectStateRepository.advance, hckpts, ImportCheckpointRepository.get]
  have hjget : ∀ j, (ProjectStateRepository.advance db₃ projectId).imports.jobs.get? j =
      JobRepository.get db j := fun j => by
    simp [ProjectStateRepository.advance, hjobs, JobRepository.get]
  unfold ImportCheckpointRepository.create
  rw [if_neg (by
    simp only [ImportCheckpointRepository.get, Db.putJob]
    rw [hget, hnone]
    simp)]
  refine ⟨(htables.trans (.modify projectId _)).trans ⟨rfl, rfl, rfl, rfl⟩, ?_, ?_⟩
  · intro j job hj
    refine ⟨job, ?_, rfl⟩
    simp only [JobRepository.get, Db.putCheckpoint, Db.putJob, Keyed.get?_put]
    rw [hjget, if_neg, hj]
    rintro rfl
    rw [← hjget] at hj
    simp only [JobRepository.get, Option.isNone_iff_eq_none] at hnew
    rw [hnew] at hj
    cases hj
  · intro j c' hc'
    simp only [ImportCheckpointRepository.get, Db.putCheckpoint, Db.putJob, Keyed.get?_put] at hc'
    rw [hget] at hc'
    split at hc'
    · rename_i hid
      obtain rfl := Option.some.inj hc'
      refine .inr ⟨rfl, ?_⟩
      simp [JobRepository.get, Db.putCheckpoint, Db.putJob, hid]
    · exact .inl ⟨c', hc', .inl⟩

/-- What a phase transaction keeps, when its operation is given. -/
theorem runPhaseOperation_keeps {w : WorkerId} {target : Phase} {payload : Payload} {op : PhaseOp}
    {db₁ : Db} {c c₁ : Checkpoint} {payload' payload'' : Payload}
    (hv : (Action.phase w target payload op).verifies = true)
    (hc : ImportCheckpointRepository.get db w.jobId = some c)
    (hidx : c.phase.index + 1 = target.index)
    (hop : op.operation env w (db.jobScan w.jobId) db payload = .ok (db₁, payload'))
    (hdb : db' = db₁.putCheckpoint w.jobId
      { c₁ with phase := target, checkpointSeq := c.checkpointSeq + 1, payload := payload'' }) :
    KeepsImports db db' ∧
    ∀ s, (∀ paths, op = .computeInheritance paths → s ≠ db.jobScan w.jobId) → LinksOk db →
      RowsOk db s → RowsOk db' s := by
  have hput : SameTables db₁ db' := by
    rw [hdb]
    exact ⟨rfl, rfl, rfl, rfl⟩
  have himp : db₁.imports = db.imports := by
    cases op with
    | checkpoint =>
      obtain ⟨rfl, _⟩ := Prod.mk.inj (pure_eq_ok.1 hop)
      rfl
    | finalizeCoverage => rw [finalizeCoverage_eq hop]
    | computeInheritance =>
      simp only [PhaseOp.operation, computeInheritance, bind_eq_ok, pure_eq_ok, Prod.exists,
        Prod.mk.injEq] at hop
      obtain ⟨_, readSet, hrun, rfl, _⟩ := hop
      rw [InheritanceEngine.run_frame hrun]
    | verifyConsistency =>
      obtain ⟨p, version, hr⟩ := verifyConsistency_rebuilt hop
      exact hr.imports
  constructor
  · rw [hdb]
    refine KeepsImports.putCheckpoint himp hc fun hver => ?_
    rw [← hdb]
    have hphase : target.verified = true := hver
    cases target with
    | sealed =>
      left
      have : c.phase = .consistencyVerified := Phase.index_injective (by simpa [Phase.index] using hidx)
      rw [this]
      rfl
    | consistencyVerified =>
      right
      intro job hjob
      cases op with
      | verifyConsistency =>
        simp only [PhaseOp.operation, verifyConsistency, bind_eq_ok, pure_eq_ok,
          Prod.mk.injEq] at hop
        obtain ⟨_, _, scan, _, db₂, hgate, rfl, _⟩ := hop
        have hscan : db.jobScan w.jobId = job.inputPayload.scanId := by
          rw [Db.jobScan, hjob]
          rfl
        rw [← hscan]
        exact (hput.spares _).rowsOk (FileStateService.gate_full hgate)
      | checkpoint => cases hv
      | finalizeCoverage => cases hv
      | computeInheritance => cases hv
    | _ => cases hphase
  · intro s hne hl hrows
    refine (hput.spares s).rowsOk ?_
    cases op with
    | checkpoint =>
      obtain ⟨rfl, _⟩ := Prod.mk.inj (pure_eq_ok.1 hop)
      exact hrows
    | finalizeCoverage =>
      rw [finalizeCoverage_eq hop]
      exact hrows
    | computeInheritance paths =>
      simp only [PhaseOp.operation, computeInheritance, bind_eq_ok, pure_eq_ok, Prod.exists,
        Prod.mk.injEq] at hop
      obtain ⟨_, readSet, hrun, rfl, _⟩ := hop
      exact (InheritanceEngine.run_spares hl hrun (hne paths rfl)).rowsOk hrows
    | verifyConsistency =>
      simp only [PhaseOp.operation, verifyConsistency, bind_eq_ok, pure_eq_ok, Prod.mk.injEq] at hop
      obtain ⟨_, _, scan, _, db₂, hgate, rfl, _⟩ := hop
      exact FileStateService.gate_keeps hgate fun _ => hrows

theorem publishTransaction_keeps {jobId : Nat} {expected : Option Nat} {readSet : Option ReadSetArg}
    {committed : Bool}
    (h : publishTransaction env db jobId expected readSet = .ok (db', committed)) :
    SameTables db db' ∧ KeepsImports db db' ∧
    ∀ p s, (db'.stateOf p).currentScanId = some s →
      (db.stateOf p).currentScanId = some s ∨ db.verified s = true := by
  obtain ⟨job, c, hjob, hc, ⟨_, rfl, _⟩ | ⟨_, hsealed, db₁, ls, hpub, _, _, rfl⟩⟩ :=
    publishTransaction_ok h
  · exact ⟨.refl db', .refl db', fun _ _ hs => .inl hs⟩
  · have hp := (ScanPublicationService.published_of_ok hpub).1
    refine ⟨⟨by rw [← hp.facts]; rfl, by rw [← hp.facts]; rfl, hp.domain, hp.fileStates⟩, ?_,
      fun p s hs => ?_⟩
    · have hjobs : db₁.imports.jobs.put jobId { job with state := .completed } =
          db.imports.jobs.put jobId { job with state := .completed } := by rw [hp.imports]
      refine KeepsImports.putJob hjobs hjob rfl fun j c' hc' => ?_
      simp only [ImportCheckpointRepository.get, Db.putCheckpoint, Db.putJob, Keyed.get?_put] at hc'
      split at hc'
      · rename_i hid
        obtain rfl := Option.some.inj hc'
        exact ⟨c, by rw [hid]; exact hc, fun hv => by cases hv⟩
      · exact ⟨c', by rw [ImportCheckpointRepository.get, ← hp.imports]; exact hc', id⟩
    · have hs : (db₁.stateOf p).currentScanId = some s := hs
      rw [hp.stateOf] at hs
      split at hs
      · right
        obtain rfl : job.inputPayload.scanId = s := Option.some.inj hs
        exact Db.verified_iff.2 (.inr ⟨jobId, job, c, hjob, rfl, hc, by rw [hsealed]; rfl⟩)
      · exact .inl hs

end ScanImportCoordinator

namespace ScanImportRecoveryService

variable {db db' : Db}

theorem reclaim_keeps {jobId : Nat} {resources : Option (List Nat)} {owner : Option Nat}
    {lease : Nat} {observed : ImmutableArtifactStager.Observed} {result : Nat × Nat}
    (h : reclaim db jobId resources owner lease observed = .ok (db', result)) :
    KeepsImports db db' := by
  obtain ⟨job, c, acquired, db₁, hjob, _, hc, hacq, _, hdb⟩ := reclaim_ok h
  obtain ⟨rs, ls, rfl⟩ := hacq.frame
  rcases hdb with ⟨_, rfl⟩ | ⟨_, _, rfl⟩
  · exact KeepsImports.putJob rfl hjob rfl fun j c' hc' => ⟨c', hc', id⟩
  · refine KeepsImports.putJob rfl hjob rfl fun j c' hc' => ?_
    simp only [ImportCheckpointRepository.get, Db.putCheckpoint, Db.putJob, Keyed.get?_put] at hc'
    split at hc'
    · rename_i hid
      obtain rfl := Option.some.inj hc'
      exact ⟨c, by rw [hid]; exact hc, id⟩
    · exact ⟨c', hc', id⟩

theorem recordFailure_keeps {jobId : Nat} {phase message : String} {fencingToken : Option Nat}
    {status : ScanStatus} {owner : Nat}
    (h : recordFailure db jobId phase message fencingToken status owner = .ok db') :
    SameTables db db' ∧ KeepsImports db db' := by
  obtain ⟨job, failures, hjob, rfl | ⟨owner', _, rfl⟩⟩ := recordFailure_ok h
  · exact ⟨⟨rfl, rfl, rfl, rfl⟩, .of_imports rfl rfl⟩
  · generalize hdb₁ : Db.putJob _ jobId _ = db₁
    have htables : SameTables db₁ (failScan db₁ job.scanId status) := by
      rcases failScan_eq db₁ job.scanId status with he | he
      · rw [he]
        exact .refl db₁
      · rw [he]
        exact .setStatus job.scanId status
    obtain ⟨himp, _⟩ := failScan_imports db₁ job.scanId status
    constructor
    · have h₁ : SameTables db db₁ := by
        rw [← hdb₁]
        exact ⟨rfl, rfl, rfl, rfl⟩
      exact (h₁.trans htables).trans ⟨rfl, rfl, rfl, rfl⟩
    · have hjobs : (failScan db₁ job.scanId status).imports.jobs =
          db.imports.jobs.put jobId { job with state := .failed } := by
        rw [himp, ← hdb₁]
        rfl
      refine KeepsImports.putJob hjobs hjob rfl fun j c' hc' => ⟨c', ?_, id⟩
      have hc' : (failScan db₁ job.scanId status).imports.checkpoints.get? j = some c' := hc'
      rw [himp, ← hdb₁] at hc'
      exact hc'

end ScanImportRecoveryService

/-! ## The step -/

namespace ProjectionInv

variable {env : Env} {db db' : Db}

/-- No pointer moves. -/
theorem next_of_current (h : ProjectionInv db) (hh : HistoryOk db') (hi : Integrity db')
    (hk : KeepsImports db db')
    (hcur : ∀ p, (db'.stateOf p).currentScanId = (db.stateOf p).currentScanId)
    (hs : ∀ s, db.verified s = true → RowsOk db s → RowsOk db' s) : ProjectionInv db' :=
  h.next hh hi hk (fun p s hp => .inl (by rw [← hcur p]; exact hp)) hs

/-- Neither does any table of the projection. -/
theorem next_of_tables (h : ProjectionInv db) (hh : HistoryOk db') (hi : Integrity db')
    (ht : SameTables db db') (hk : KeepsImports db db')
    (hcur : ∀ p, (db'.stateOf p).currentScanId = (db.stateOf p).currentScanId) :
    ProjectionInv db' :=
  h.next_of_current hh hi hk hcur fun s _ hrows => (ht.spares s).rowsOk hrows

/-- A scan is opened. -/
theorem createScan {identity : ScanIdentity} {status : ScanStatus} (h : ProjectionInv db)
    (hh : HistoryOk db') (hi : Integrity db')
    (hok : ProjectService.createScan env db identity status = .ok db') : ProjectionInv db' := by
  have hcur := (ProjectService.createScan_quiet h.history.current hok).1.current
  simp only [ProjectService.createScan, bind_eq_ok, Prod.exists] at hok
  obtain ⟨db₁, p, scanId, existing, hopen, hok⟩ := hok
  obtain ⟨ht, himp⟩ := ProjectService.openScan_sameTables hopen
  split at hok
  · obtain rfl := pure_eq_ok.1 hok
    exact h.next_of_tables hh hi ht (.of_imports (by rw [himp]) (by rw [himp])) hcur
  · obtain rfl := pure_eq_ok.1 hok
    exact h.next_of_tables hh hi (ht.trans (.modify p _))
      (.of_imports (by simp [ProjectStateRepository.advance, himp])
        (by simp [ProjectStateRepository.advance, himp])) hcur

/-- Ingestion and publication in one transaction: the gate stands between them, so the scan that
becomes CURRENT has the right rows. -/
theorem ingested {db₁ db₂ : Db} {projectId scanId : Nat} {files : List CoverageItem}
    (h : ProjectionInv db) (hh : HistoryOk db') (hi : Integrity db') (ht : SameTables db db₁)
    (himp : db₁.imports = db.imports)
    (hcur : ∀ p, (db₁.stateOf p).currentScanId = (db.stateOf p).currentScanId)
    (hing : ProjectService.ingestAll env db₁ scanId files = .ok db₂)
    (hpub : ProjectService.sealAndPublish env db₂ projectId scanId = .ok db') :
    ProjectionInv db' := by
  obtain ⟨hrows, himp', hcur'⟩ := ProjectService.ingest_rows hing hpub
  refine h.next hh hi (.of_imports (by rw [himp', himp]) (by rw [himp', himp]))
    (fun p s hs => ?_) fun s _ hs => hrows s fun _ => (ht.spares s).rowsOk hs
  rcases hcur' p s hs with hs | rfl
  · exact .inl (by rw [← hcur p]; exact hs)
  · exact .inr (hrows s fun hne => absurd rfl hne)

theorem createScanAndIngest {identity : ScanIdentity} {status : ScanStatus}
    {files : List CoverageItem} (h : ProjectionInv db) (hh : HistoryOk db') (hi : Integrity db')
    (hok : ProjectService.createScanAndIngest env db identity status files = .ok db') :
    ProjectionInv db' := by
  simp only [ProjectService.createScanAndIngest, bind_eq_ok, Prod.exists] at hok
  obtain ⟨db₁, p, scanId, existing, hopen, hok⟩ := hok
  obtain ⟨ht, himp⟩ := ProjectService.openScan_sameTables hopen
  have hcur := (ProjectService.openScan_quiet h.history.current hopen).1.current
  split at hok
  · obtain rfl := pure_eq_ok.1 hok
    exact h.next_of_tables hh hi ht (.of_imports (by rw [himp]) (by rw [himp])) hcur
  · simp only [bind_eq_ok] at hok
    obtain ⟨db₂, hing, hpub⟩ := hok
    exact h.ingested hh hi ht himp hcur hing hpub

theorem ingestFiles {scanId : Nat} {files : List CoverageItem} (h : ProjectionInv db)
    (hh : HistoryOk db') (hi : Integrity db')
    (hok : ProjectService.ingestFiles env db scanId files = .ok db') : ProjectionInv db' := by
  simp only [ProjectService.ingestFiles, bind_eq_ok] at hok
  obtain ⟨scan, _, db₁, hing, hpub⟩ := hok
  exact h.ingested hh hi (.refl db) rfl (fun _ => rfl) hing hpub

/-- A scan with an ungated write is not a verified one. -/
theorem ne_of_ungated {a : Action} (hu : ∀ s ∈ a.ungated db, db.verified s = false) {s t : Nat}
    (hs : db.verified s = true) (ht : t ∈ a.ungated db) : s ≠ t := by
  rintro rfl
  rw [hu s ht] at hs
  cases hs

/-- A phase writes rows of its Candidate, and only an engine run does so without the gate. -/
theorem phase {w : WorkerId} {target : Phase} {payload payload' : Payload} {op : PhaseOp}
    {committed : Bool} (h : ProjectionInv db) (hh : HistoryOk db') (hi : Integrity db')
    (hv : (Action.phase w target payload op).verifies = true)
    (hu : ∀ s ∈ (Action.phase w target payload op).ungated db, db.verified s = false)
    (hphase : ScanImportCoordinator.runPhaseOperation db w.jobId w.ownerToken w.fencingToken target
      payload (op.operation env w (db.jobScan w.jobId)) = .ok (db', payload', committed)) :
    ProjectionInv db' := by
  have hq := ScanImportCoordinator.runPhaseOperation_quiet hphase
    fun _ _ hop => PhaseOp.operation_quiet hop
  obtain ⟨c, hget, ⟨_, rfl, _⟩ | ⟨_, hidx, _, db₁, c₁, hop, _, _, _, hdb⟩⟩ :=
    ScanImportCoordinator.runPhaseOperation_ok hphase
  · exact h
  · obtain ⟨hk, hrows⟩ := ScanImportCoordinator.runPhaseOperation_keeps hv hget hidx hop hdb
    refine h.next_of_current hh hi hk hq.current
      fun s hs hok => hrows s ?_ h.integrity.toLinksOk hok
    rintro paths rfl
    refine ne_of_ungated hu hs ?_
    have hlt : ((ImportCheckpointRepository.get db w.jobId).any fun c =>
        decide (c.phase.index < target.index)) = true := by
      rw [hget, Option.any_some, decide_eq_true_eq]
      omega
    simp [Action.ungated, hlt]

/-- A batch writes lines of its Candidate. -/
theorem batch {w : WorkerId} {items : List CoverageItem} {batchSeq files lines : Nat}
    {payload : Payload} {result : BatchResult} (h : ProjectionInv db) (hh : HistoryOk db')
    (hi : Integrity db')
    (hu : ∀ s ∈ (Action.batch w items batchSeq files lines payload).ungated db,
      db.verified s = false)
    (hbatch : ScanImportCoordinator.ingestCoverageBatch env db w.jobId w.ownerToken w.fencingToken
      (db.jobScan w.jobId) items batchSeq files lines payload = .ok (db', result)) :
    ProjectionInv db' := by
  have hq := (ScanImportCoordinator.ingestCoverageBatch_quiet h.history.current hbatch).1
  obtain ⟨c, db₁, hget, hph, _, _, hing, _, rfl⟩ :=
    ScanImportCoordinator.ingestCoverageBatch_ok hbatch
  have hi₁ := (ProjectService.ingestFileBatch_ok hing).1
  have himp : db₁.imports = db.imports := by rw [hi₁.frame]
  refine h.next_of_current hh hi (.putCheckpoint himp hget .inl) hq.current fun s hs hrows => ?_
  have hspares := hi₁.spares (ne_of_ungated hu hs (t := db.jobScan w.jobId)
    (by simp [Action.ungated, hget, hph]))
  exact (SameTables.spares ⟨rfl, rfl, rfl, rfl⟩ s).rowsOk (hspares.rowsOk hrows)

/-- The seal verifies nothing: it follows the phases that did. -/
theorem sealImport {w : WorkerId} (h : ProjectionInv db) (hh : HistoryOk db') (hi : Integrity db')
    (hseal : ScanImportCoordinator.sealImport db w.jobId w.ownerToken w.fencingToken = .ok db') :
    ProjectionInv db' := by
  have hq := (ScanImportCoordinator.sealImport_quiet h.history.current hseal).1
  obtain ⟨c, scan, hget, _, _, _, hle, hge, _, rfl⟩ := ScanImportCoordinator.sealImport_ok hseal
  refine h.next_of_tables hh hi ⟨rfl, rfl, rfl, rfl⟩
    (.putCheckpoint rfl hget fun _ => .inl ?_) hq.current
  revert hle hge
  cases c.phase <;> decide

/-- A publication makes a verified scan CURRENT. -/
theorem publish {jobId : Nat} {expected : Option Nat} {readSet : Option ReadSetArg}
    {committed : Bool} (h : ProjectionInv db) (hh : HistoryOk db') (hi : Integrity db')
    (hpub : ScanImportCoordinator.publishTransaction env db jobId expected readSet =
      .ok (db', committed)) : ProjectionInv db' := by
  obtain ⟨ht, hk, hcur⟩ := ScanImportCoordinator.publishTransaction_keeps hpub
  refine h.next hh hi hk (fun p s hs => ?_) fun s _ hrows => (ht.spares s).rowsOk hrows
  rcases hcur p s hs with hs | hs
  · exact .inl hs
  · exact .inr ((ht.spares s).rowsOk (h.rows s hs))

theorem act {a : Action} (h : ProjectionInv db) (hv : a.verifies = true)
    (hu : ∀ s ∈ a.ungated db, db.verified s = false) (ha : a.apply env db = .ok db') :
    ProjectionInv db' := by
  have hh := h.history.step ha
  have hi := h.integrity.step h.history.current ha
  have hl := h.integrity.toLinksOk
  have hc := h.history.current
  cases a with
  | tick d =>
    obtain rfl := pure_eq_ok.1 ha
    exact h.next_of_tables hh hi ⟨rfl, rfl, rfl, rfl⟩ (.of_imports rfl rfl) fun _ => rfl
  | registerResource r =>
    simp only [Action.apply] at ha
    split at ha <;> obtain rfl := pure_eq_ok.1 ha <;>
      exact h.next_of_tables hh hi ⟨rfl, rfl, rfl, rfl⟩ (.of_imports rfl rfl) fun _ => rfl
  | mutate m =>
    have hr := Mutation.reviewed (m := m) ha
    exact h.next_of_current hh hi (.of_imports (by rw [hr.imports]) (by rw [hr.imports]))
      hr.current fun s _ hrows => Mutation.rowsOk h.integrity ha hrows
  | backfill scanId =>
    have hframe := backfillLegacy_frame ha
    refine h.next_of_current hh hi (.of_imports (by rw [hframe]) (by rw [hframe]))
      (fun p => by rw [hframe]; rfl) fun s hs hrows => ?_
    exact (backfill_spares hl ha (ne_of_ungated hu hs rfl)).rowsOk hrows
  | runEngine scanId paths =>
    obtain ⟨_, hrun⟩ := map_fst_eq_ok ha
    have hframe := InheritanceEngine.run_frame hrun
    refine h.next_of_current hh hi (.of_imports (by rw [hframe]) (by rw [hframe]))
      (fun p => by rw [hframe]; rfl) fun s hs hrows => ?_
    exact (InheritanceEngine.run_spares hl hrun (ne_of_ungated hu hs rfl)).rowsOk hrows
  | createScan identity status => exact h.createScan hh hi ha
  | createScanAndIngest identity status files => exact h.createScanAndIngest hh hi ha
  | ingestFiles scanId files => exact h.ingestFiles hh hi ha
  | sealScan scanId =>
    simp only [Action.apply, ProjectRepository.sealScan, bind_eq_ok, pure_eq_ok] at ha
    obtain ⟨_, _, _, _, rfl⟩ := ha
    exact h.next_of_tables hh hi (.setStatus scanId .ready) (.of_imports rfl rfl) fun _ => rfl
  | create request =>
    obtain ⟨_, hcreate⟩ := map_fst_eq_ok ha
    obtain ⟨ht, hk⟩ := ScanImportCoordinator.create_keeps h.owned hcreate
    exact h.next_of_tables hh hi ht hk (ScanImportCoordinator.create_quiet hc hcreate).1.current
  | phase w target payload op =>
    obtain ⟨⟨payload', committed⟩, hphase⟩ := map_fst_eq_ok ha
    exact h.phase hh hi hv hu hphase
  | batch w items batchSeq files lines payload =>
    obtain ⟨result, hbatch⟩ := map_fst_eq_ok ha
    exact h.batch hh hi hu hbatch
  | sealImport w => exact h.sealImport hh hi ha
  | publish w expected readSet =>
    obtain ⟨committed, hpub⟩ := map_fst_eq_ok ha
    exact h.publish hh hi hpub
  | reclaim jobId observed =>
    obtain ⟨_, hreclaim⟩ := map_fst_eq_ok ha
    have hk := ScanImportRecoveryService.reclaim_keeps hreclaim
    obtain ⟨uuid, imports, rfl⟩ := ScanImportRecoveryService.reclaim_frame hreclaim
    exact h.next_of_tables hh hi ⟨rfl, rfl, rfl, rfl⟩ hk fun _ => rfl
  | recordFailure jobId phase message fencingToken aborted ownerToken =>
    obtain ⟨ht, hk⟩ := ScanImportRecoveryService.recordFailure_keeps ha
    exact h.next_of_tables hh hi ht hk
      (ScanImportRecoveryService.recordFailure_quiet hc ha).1.current

end ProjectionInv

/-! ## Runs -/

/-- `rebuild_validate_and_mark_ready`: the gate over a whole scan in a transaction of its own; when
it fails, a second transaction marks the projection as stale. -/
def FileStateService.rebuildValidateAndMarkReady (db : Db) (projectId scanId dataVersion : Nat) :
    Db :=
  match rebuildValidateAndMarkReadyInTransaction db projectId scanId dataVersion none false with
  | .ok db' => db'
  | .error _ => ProjectStateRepository.invalidate db projectId

/-- What may happen to the projection: an action of the system, or a rebuild of any scan. -/
inductive ProjectionAction
  /-- An action of the system. -/
  | act (a : Action)
  /-- `rebuild_validate_and_mark_ready` -/
  | rebuild (projectId scanId dataVersion : Nat)

namespace ProjectionAction

/-- The database after it. -/
def exec (env : Env) (db : Db) : ProjectionAction → Db
  | act a => Action.exec env db a
  | rebuild projectId scanId dataVersion =>
    FileStateService.rebuildValidateAndMarkReady db projectId scanId dataVersion

/-- The import phases are those of a worker. -/
def verifies : ProjectionAction → Bool
  | act a => a.verifies
  | rebuild .. => true

/-- A write without a gate is not on a verified scan. -/
def Guarded (db : Db) : ProjectionAction → Prop
  | act a => ∀ s ∈ a.ungated db, db.verified s = false
  | rebuild .. => True

instance (db : Db) : (a : ProjectionAction) → Decidable (a.Guarded db)
  | act a => inferInstanceAs (Decidable (∀ s ∈ a.ungated db, db.verified s = false))
  | rebuild .. => inferInstanceAs (Decidable True)

end ProjectionAction

theorem ProjectionInv.rebuild {db : Db} (h : ProjectionInv db) (projectId scanId version : Nat) :
    ProjectionInv
      (FileStateService.rebuildValidateAndMarkReady db projectId scanId version) := by
  unfold FileStateService.rebuildValidateAndMarkReady
  split
  · rename_i db' hgate
    have hreb := FileStateService.rebuilt_of_ok hgate
    have hq := Quiet.rebuilt hreb
    exact h.next_of_current (h.history.quiet hq) (h.integrity.congr hreb.facts hreb.domain)
      (.of_imports (by rw [hreb.imports]) (by rw [hreb.imports])) hq.current
      fun s _ hrows => FileStateService.gate_keeps hgate fun _ => hrows
  · have hq : Quiet db (ProjectStateRepository.invalidate db projectId) :=
      Quiet.modify fun _ => rfl
    exact h.next_of_tables (h.history.quiet hq)
      (h.integrity.congr (by simp [ProjectStateRepository.invalidate])
        (by simp [ProjectStateRepository.invalidate])) (.modify projectId _)
      (.of_imports (by simp [ProjectStateRepository.invalidate])
        (by simp [ProjectStateRepository.invalidate])) hq.current

theorem ProjectionInv.exec {env : Env} {db : Db} (h : ProjectionInv db) (a : ProjectionAction)
    (hv : a.verifies = true) (hg : a.Guarded db) : ProjectionInv (a.exec env db) := by
  cases a with
  | act a =>
    show ProjectionInv (Action.exec env db a)
    unfold Action.exec
    split
    · exact h.act hv hg ‹_›
    · exact h
  | rebuild projectId scanId version => exact h.rebuild projectId scanId version

/-! ## CURRENT -/

/-- The projection of a project is ready. -/
def Db.ready (db : Db) (projectId : Nat) : Bool :=
  (db.stateOf projectId).fileStateVersion = (db.stateOf projectId).dataVersion

/-- The row of a file is worth what it says. -/
structure Projected (db : Db) (scanId fileId : Nat) : Prop where
  /-- The file has one row, and over it the ten fields of a summary are those of the file. -/
  counters : scanAggregate db scanId (some [fileId]) =
    ⟨1, authoritativeFileSummary db scanId fileId⟩
  /-- The row has these counters. -/
  row : (db.fileStates.get? (scanId, fileId)).map FileState.totals =
    some (authoritativeFileSummary db scanId fileId)
  /-- Every uncovered line is confirmed or pending. -/
  uncovered : (authoritativeFileSummary db scanId fileId).totalUncovered =
    (authoritativeFileSummary db scanId fileId).confirmedTotal +
      (authoritativeFileSummary db scanId fileId).pendingTotal
  /-- Every pending line is pending of one kind. -/
  pending : (authoritativeFileSummary db scanId fileId).pendingTotal =
    (authoritativeFileSummary db scanId fileId).ordinaryPendingTotal +
      (authoritativeFileSummary db scanId fileId).inheritedPendingTotal +
      (authoritativeFileSummary db scanId fileId).manualDraftPendingTotal
  /-- A full rebuild gives the same counters. -/
  rebuild : ∀ version,
    ((rebuildScan db scanId version none).fileStates.get? (scanId, fileId)).map FileState.totals =
      (db.fileStates.get? (scanId, fileId)).map FileState.totals

/-- When the projection of a project is ready, every file of its CURRENT is projected. -/
def ProjectionSound (db : Db) : Prop :=
  ∀ p s, (db.stateOf p).currentScanId = some s → db.ready p = true →
    ∀ f ∈ filesOf db s none, Projected db s f.1

/-- The rows of one file. -/
theorem scanAggregate_singleton {db : Db} {scanId fileId : Nat} {row : FileState}
    (h : db.fileStates.get? (scanId, fileId) = some row) :
    scanAggregate db scanId (some [fileId]) = ⟨1, row.totals⟩ := by
  have hrows : statesOf db scanId (some [fileId]) = [((scanId, fileId), row)] := by
    have hmem : ∀ x, x ∈ statesOf db scanId (some [fileId]) ↔ x = ((scanId, fileId), row) := by
      rintro ⟨⟨s, f⟩, row'⟩
      rw [statesOf, Keyed.mem_select, ← Keyed.get?_eq_some_iff]
      simp only [Option.mem_def, Option.some.injEq, forall_eq', List.mem_singleton,
        decide_eq_true_eq, Prod.mk.injEq]
      constructor
      · rintro ⟨hget, rfl, rfl⟩
        exact ⟨⟨rfl, rfl⟩, Option.some.inj (hget.symm.trans h)⟩
      · rintro ⟨⟨rfl, rfl⟩, rfl⟩
        exact ⟨h, rfl, rfl⟩
    have hnodup : (statesOf db scanId (some [fileId])).Nodup :=
      (List.Nodup.of_map Prod.fst db.fileStates.nodup).filter _
    exact List.perm_singleton.1 ((List.perm_ext_iff_of_nodup hnodup (List.nodup_singleton _)).2
      fun x => (hmem x).trans List.mem_singleton.symm)
  simp [scanAggregate, hrows, Totals.sum]

theorem RowsOk.projected {db : Db} {scanId fileId : Nat} {file : FileRow} (h : RowsOk db scanId)
    (hf : db.facts.files.get? fileId = some file) (hs : file.scanId = scanId) :
    Projected db scanId fileId := by
  have heq := authoritativeFileSummary_eq hf hs
  have hrow := h fileId file hf hs
  obtain ⟨row, hget, htotals⟩ := Option.map_eq_some_iff.1 hrow
  constructor
  case counters => rw [scanAggregate_singleton hget, heq, htotals]
  case row => rw [heq, hrow]
  case uncovered =>
    rw [heq]
    exact (Totals.count_partition _).1
  case pending =>
    rw [heq]
    exact (Totals.count_partition _).2
  case rebuild =>
    intro version
    rw [hrow, get?_rebuildScan_of_mem hf hs (by simp), Option.map_some]

theorem ProjectionInv.sound {db : Db} (h : ProjectionInv db) : ProjectionSound db := by
  rintro p s hcur - ⟨f, file⟩ hf
  obtain ⟨hget, hs, _⟩ := mem_filesOf.1 hf
  exact (h.rows s (Db.verified_iff.2 (.inl ⟨p, hcur⟩))).projected hget hs

/-- **The projection is sound** in every state of every run in which no write without a gate is on
a verified scan. -/
theorem projection_sound {env : Env} {actions : List ProjectionAction}
    (hv : ∀ a ∈ actions, a.verifies = true)
    (hg : Trace.Along (ProjectionAction.exec env) (fun db a => a.Guarded db) Db.empty actions) :
    ProjectionSound (Trace.run (ProjectionAction.exec env) Db.empty actions) := by
  have hstep : Trace.Along (ProjectionAction.exec env)
      (fun db a => a.verifies = true ∧ a.Guarded db) Db.empty actions := by
    generalize Db.empty = db at hg
    induction actions generalizing db with
    | nil => trivial
    | cons a actions ih =>
      refine ⟨⟨hv a List.mem_cons_self, hg.1⟩, ih (fun b hb => hv b (List.mem_cons_of_mem _ hb)) _ ?_⟩
      exact hg.2
  exact (Trace.run_inv_along (I := ProjectionInv) (fun db a h hp => h.exec a hp.1 hp.2)
    ProjectionInv.empty hstep).sound

namespace Sample

/-- An import, a confirmation of what it inherited, and a rebuild. -/
def projectedRun : List ProjectionAction :=
  inherited.map .act ++ [.act (.mutate (.confirm 1 2 [3] [(3, 1)] none "bob")), .rebuild 1 2 4]

/-- An import up to the engine run, whose scan is published by `ingest_files` before that run. -/
def publishedEarly : List Action :=
  reviewed ++ [.registerResource 7, .create ⟨identity "sha2", [7], "sha2", 10⟩] ++
    (construct worker 2 [twoLines] 2).dropLast ++ [.ingestFiles 2 [],
      .phase worker .inheritanceComputed { scanId := some 2 }
        (.computeInheritance [("core", "/src/core")])]

/-- The run as it is seen from the projection. -/
def staleRun : List ProjectionAction := publishedEarly.map .act

end Sample

theorem projection_sound_sample :
    (∀ a ∈ Sample.projectedRun, a.verifies = true) ∧
    ((Trace.run (ProjectionAction.exec Sample.env) Db.empty Sample.projectedRun).stateOf 1 =
      ⟨some 2, 4, 4⟩) ∧
    ProjectionSound (Trace.run (ProjectionAction.exec Sample.env) Db.empty Sample.projectedRun) :=
  ⟨by decide +kernel, by decide +kernel, projection_sound (by decide +kernel) (by decide +kernel)⟩

/-- The engine writes two pending relations into CURRENT, and the row of their file still counts two
lines without a relation. -/
theorem engine_run_leaves_stale_rows :
    (∀ a ∈ Sample.staleRun, a.verifies = true) ∧
    ¬ ProjectionSound (Trace.run (ProjectionAction.exec Sample.env) Db.empty Sample.staleRun) := by
  refine ⟨by decide +kernel, fun hsound => ?_⟩
  have hcur : ((Trace.run (ProjectionAction.exec Sample.env) Db.empty
      Sample.staleRun).stateOf 1).currentScanId = some 2 := by decide +kernel
  have hready : (Trace.run (ProjectionAction.exec Sample.env) Db.empty
      Sample.staleRun).ready 1 = true := by decide +kernel
  have hfile : (filesOf (Trace.run (ProjectionAction.exec Sample.env) Db.empty Sample.staleRun) 2
      none).map Prod.fst = [2] := by decide +kernel
  obtain ⟨f, hf, hid⟩ := List.mem_map.1 (show 2 ∈ _ from hfile ▸ List.mem_singleton.2 rfl)
  have hrow := (hsound 1 2 hcur hready f hf).row
  rw [hid] at hrow
  revert hrow
  decide +kernel

end FosCoverage
