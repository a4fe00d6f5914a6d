import FosCoverage.Service.ProjectSpec
import FosCoverage.Import.Coordinator

/-!
# What the transactions of an import do

One lemma for each transaction of the coordinator and of the recovery: which checks an accepted
transaction has passed, and the database it leaves.  Later results never unfold the transactions
themselves.
-/

set_option autoImplicit false

namespace FosCoverage

open Relational Outcome

namespace RepositoryResourceLockService

/-- A lock is taken over only when it has expired or belongs to the same job. -/
structure Acquired (jobId ownerToken leaseSeconds : Nat) (db : Db) (resources : List Nat)
    (db' : Db) (acquired : List (Nat × Nat)) : Prop where
  /-- Only resources and locks are written. -/
  frame : ∃ rs ls, db' = { db with imports.resources := rs, imports.locks := ls }
  /-- Locks of other resources are untouched. -/
  other : ∀ r, r ∉ resources → db'.imports.locks.get? r = db.imports.locks.get? r
  /-- Every resource is now held by the job and the owner, with the token that is reported. -/
  held : ∀ r ∈ resources, ∃ lock, db'.imports.locks.get? r = some lock ∧ lock.jobId = jobId ∧
    lock.ownerToken = ownerToken ∧ (r, lock.fencingToken) ∈ acquired ∧
    lock.expiresAt = expiry db.now leaseSeconds
  /-- A reported token is that of a resource. -/
  reported : acquired.map Prod.fst = resources
  /-- A lock that was replaced had expired or belonged to the job. -/
  replaced : ∀ r ∈ resources, ∀ lock, db.imports.locks.get? r = some lock →
    expired db.now lock = true ∨ lock.jobId = jobId

theorem acquireOne_ok {jobId ownerToken leaseSeconds : Nat} {acc acc' : Db × List (Nat × Nat)}
    {resourceId : Nat} (h : acquireOne jobId ownerToken leaseSeconds acc resourceId = .ok acc') :
    ∃ rs token, acc' = ({ acc.1 with
        imports.resources := rs
        imports.locks := acc.1.imports.locks.put resourceId
          ⟨jobId, ownerToken, token, expiry acc.1.now leaseSeconds⟩ },
      acc.2 ++ [(resourceId, token)]) ∧
    ∀ lock, acc.1.imports.locks.get? resourceId = some lock →
      expired acc.1.now lock = true ∨ lock.jobId = jobId := by
  simp only [acquireOne, nextToken, bind_eq_ok, require_eq_ok, orFail_eq_ok, pure_eq_ok,
    Prod.exists, Prod.mk.injEq] at h
  obtain ⟨_, hfree, db₁, token, ⟨t, _, rfl, rfl⟩, rfl⟩ := h
  exact ⟨_, t + 1, rfl, hfree⟩

/-- The loop of `acquire`, after the resources `pre`. -/
theorem acquire_fold {jobId ownerToken leaseSeconds : Nat} (l pre : List Nat) (db db₁ db' : Db)
    (acq acq' : List (Nat × Nat)) (hn : (pre ++ l).Nodup)
    (h₀ : Acquired jobId ownerToken leaseSeconds db pre db₁ acq)
    (h : l.foldlM (acquireOne jobId ownerToken leaseSeconds) (db₁, acq) = .ok (db', acq')) :
    Acquired jobId ownerToken leaseSeconds db (pre ++ l) db' acq' := by
  induction l generalizing pre db₁ acq with
  | nil =>
    simp only [List.foldlM_nil, pure_eq_ok, Prod.mk.injEq] at h
    obtain ⟨rfl, rfl⟩ := h
    simpa using h₀
  | cons r l ih =>
    rw [List.foldlM_cons, bind_eq_ok] at h
    obtain ⟨⟨db₂, acq₂⟩, hone, h⟩ := h
    obtain ⟨rs, token, heq, hfree⟩ := acquireOne_ok hone
    obtain ⟨rfl, rfl⟩ := Prod.mk.inj heq
    have hr : r ∉ pre := by
      intro hmem
      rw [List.nodup_append] at hn
      exact hn.2.2 r hmem r List.mem_cons_self rfl
    obtain ⟨rs₀, ls₀, rfl⟩ := h₀.frame
    rw [show pre ++ r :: l = (pre ++ [r]) ++ l by simp] at hn ⊢
    refine ih (pre ++ [r]) _ _ hn ?_ h
    constructor
    case frame => exact ⟨_, _, rfl⟩
    case other =>
      intro r' hr'
      rw [List.mem_append, not_or] at hr'
      have hne : r' ≠ r := fun he => hr'.2 (by simp [he])
      simpa [hne] using h₀.other r' hr'.1
    case held =>
      intro r' hr'
      rcases List.mem_append.1 hr' with hmem | hmem
      · have hne : r' ≠ r := fun he => hr (he ▸ hmem)
        obtain ⟨lock, hl, h₁, h₂, h₃, h₄⟩ := h₀.held r' hmem
        refine ⟨lock, ?_, h₁, h₂, List.mem_append.2 (.inl h₃), h₄⟩
        simpa [hne] using hl
      · obtain rfl := List.mem_singleton.1 hmem
        exact ⟨_, by simp; rfl, rfl, rfl, by simp, rfl⟩
    case reported => simp [h₀.reported]
    case replaced =>
      intro r' hr' lock hlock
      rcases List.mem_append.1 hr' with hmem | hmem
      · exact h₀.replaced r' hmem lock hlock
      · obtain rfl := List.mem_singleton.1 hmem
        have := h₀.other r' hr
        exact hfree lock (this.trans hlock)

theorem nodup_normalize (resourceIds : List Nat) : (normalize resourceIds).Nodup :=
  (List.perm_insertionSort _ _).nodup_iff.2 (List.nodup_dedup _)

/-- **What an accepted acquisition does.** -/
theorem acquire_ok {db db' : Db} {resourceIds : List Nat} {jobId ownerToken leaseSeconds : Nat}
    {acquired : List (Nat × Nat)}
    (h : acquire db resourceIds jobId ownerToken leaseSeconds = .ok (db', acquired)) :
    Acquired jobId ownerToken leaseSeconds db (normalize resourceIds) db' acquired := by
  refine acquire_fold (normalize resourceIds) [] db db db' [] acquired
    (nodup_normalize resourceIds) ?_ h
  exact ⟨⟨_, _, rfl⟩, fun _ _ => rfl, fun r hr => by simp at hr, rfl, fun r hr => by simp at hr⟩

end RepositoryResourceLockService

namespace ScanImportRecoveryService

open RepositoryResourceLockService

/-- **What an accepted recovery does**: the job gets a new owner, its resources new tokens, and the
checkpoint the first of them. -/
theorem reclaim_ok {db db' : Db} {jobId : Nat} {resources : Option (List Nat)} {owner : Option Nat}
    {lease : Nat} {observed : ImmutableArtifactStager.Observed} {result : Nat × Nat}
    (h : reclaim db jobId resources owner lease observed = .ok (db', result)) :
    ∃ job c acquired db₁, JobRepository.get db jobId = some job ∧ job.state.live = true ∧
      ImportCheckpointRepository.get db jobId = some c ∧
      Acquired jobId (owner.getD db.uuid) lease
        { db with uuid := if owner.isSome then db.uuid else db.uuid + 1 }
        (normalize (resources.getD job.inputPayload.repositoryResourceIds)) db₁ acquired ∧
      result = (owner.getD db.uuid, firstToken acquired) ∧
      ((acquired = [] ∧ db' = db₁.putJob jobId
          { job with state := .running, leaseOwner := owner.getD db.uuid }) ∨
      (acquired ≠ [] ∧ c.fencingToken < firstToken acquired ∧
        db' = (db₁.putJob jobId
          { job with state := .running, leaseOwner := owner.getD db.uuid }).putCheckpoint jobId
            { c with fencingToken := firstToken acquired })) := by
  have hdb : (if owner.isSome then db else { db with uuid := db.uuid + 1 }) =
      { db with uuid := if owner.isSome then db.uuid else db.uuid + 1 } := by
    split <;> rfl
  unfold reclaim at h
  rw [hdb] at h
  simp only [bind_eq_ok, orFail_eq_ok, Prod.exists] at h
  obtain ⟨job, hval, db₁, acquired, hacq, db₂, hjob, h⟩ := h
  simp only [validate, bind_eq_ok, orFail_eq_ok, pure_eq_ok] at hval
  obtain ⟨job', hjob', _, _, _, _, c, hc, _, _, _, _, _, _, _, _, _, _, rfl⟩ := hval
  have hacq := acquire_ok hacq
  obtain ⟨rs, ls, rfl⟩ := hacq.frame
  unfold JobRepository.reclaim at hjob
  split at hjob
  · rename_i job₁ hget
    obtain rfl : job' = job₁ := Option.some.inj (hjob'.symm.trans hget)
    split at hjob
    · rename_i hlive
      obtain rfl := Option.some.inj hjob
      refine ⟨job', c, acquired, _, hjob', hlive, hc, hacq, ?_⟩
      split at h
      · rename_i hnil
        simp only [bind_eq_ok, pure_eq_ok, Prod.mk.injEq] at h
        obtain ⟨_, rfl, rfl, rfl⟩ := h
        exact ⟨rfl, .inl ⟨hnil, rfl⟩⟩
      · rename_i hne
        simp only [ImportCheckpointRepository.claimFencing, bind_eq_ok, orFail_eq_ok,
          require_eq_ok, pure_eq_ok, Prod.mk.injEq] at h
        obtain ⟨_, ⟨c₁, hc₁, _, hlt, rfl⟩, rfl, rfl⟩ := h
        obtain rfl : c = c₁ := Option.some.inj (hc.symm.trans hc₁)
        exact ⟨rfl, .inr ⟨hne, hlt, rfl⟩⟩
    · cases hjob
  · cases hjob

end ScanImportRecoveryService

namespace ScanImportCoordinator

open RepositoryResourceLockService ScanImportRecoveryService

/-! ## Fences -/

/-- What the fences of a worker transaction check: the checkpoint's token, and every lock row that
still names the job. -/
theorem assertAllFences_eq_ok {db : Db} {jobId ownerToken fencingToken : Nat} {c : Checkpoint}
    {u : Unit} :
    assertAllFences db jobId ownerToken fencingToken c = .ok u ↔
      (c.fencingToken = 0 ∨ fencingToken = c.fencingToken) ∧
      ∀ r lock, db.imports.locks.get? r = some lock → lock.jobId = jobId →
        lock.ownerToken = ownerToken ∧ expired db.now lock = false := by
  simp only [assertAllFences, bind_eq_ok, require_eq_ok, forM_eq_ok, assertFence_eq_ok]
  constructor
  · rintro ⟨_, hf, hlocks⟩
    refine ⟨hf, fun r lock hl hj => ?_⟩
    obtain ⟨lock', hl', _, ho, _, he⟩ := hlocks (r, lock) (mem_locksForJob.2 ⟨hl, hj⟩)
    obtain rfl : lock = lock' := Option.some.inj (hl.symm.trans hl')
    exact ⟨ho, he⟩
  · rintro ⟨hf, hlocks⟩
    refine ⟨⟨⟩, hf, ?_⟩
    rintro ⟨r, lock⟩ hmem
    obtain ⟨hl, hj⟩ := mem_locksForJob.1 hmem
    obtain ⟨ho, he⟩ := hlocks r lock hl hj
    exact ⟨lock, hl, hj, ho, rfl, he⟩

/-! ## Phases -/

/-- **What a phase transaction does**: nothing if the phase was committed before, else its
operation and one checkpoint. -/
theorem runPhaseOperation_ok {db db' : Db} {jobId ownerToken fencingToken : Nat} {target : Phase}
    {payload payload' : Payload} {op : Db → Payload → Except Failure (Db × Payload)}
    {committed : Bool}
    (h : runPhaseOperation db jobId ownerToken fencingToken target payload op =
      .ok (db', payload', committed)) :
    ∃ c, ImportCheckpointRepository.get db jobId = some c ∧
      ((committed = false ∧ db' = db ∧ payload' = payload ∧ target.index ≤ c.phase.index) ∨
      (committed = true ∧ c.phase.index + 1 = target.index ∧
        assertAllFences db jobId ownerToken fencingToken c = .ok () ∧
        ∃ db₁ c₁, op db payload = .ok (db₁, payload') ∧
          ImportCheckpointRepository.get db₁ jobId = some c₁ ∧
          c₁.checkpointSeq = c.checkpointSeq ∧ c₁.fencingToken = fencingToken ∧
          db' = db₁.putCheckpoint jobId { c₁ with
            phase := target
            checkpointSeq := c.checkpointSeq + 1
            payload := payload' })) := by
  simp only [runPhaseOperation, bind_eq_ok, orFail_eq_ok] at h
  obtain ⟨c, hc, h⟩ := h
  refine ⟨c, hc, ?_⟩
  split at h
  · rename_i hle
    simp only [pure_eq_ok, Prod.mk.injEq] at h
    obtain ⟨rfl, rfl, rfl⟩ := h
    exact .inl ⟨rfl, rfl, rfl, hle⟩
  · simp only [bind_eq_ok, require_eq_ok, pure_eq_ok, Prod.exists, Prod.mk.injEq,
      ImportCheckpointRepository.advance_eq_ok] at h
    obtain ⟨_, hidx, _, hf, db₁, p₁, hop, db₂, ⟨c₁, hc₁, _, _, hseq, hfence, rfl⟩, rfl, rfl, rfl⟩ := h
    exact .inr ⟨rfl, hidx, hf, db₁, c₁, hop, hc₁, hseq, hfence, rfl⟩

/-! ## Batches -/

/-- The payload a batch leaves in its checkpoint. -/
def batchPayload (phasePayload : Payload) (fencingToken batchSeq files lines : Nat)
    (result : BatchResult) : Payload :=
  { phasePayload with
    batchSeq := some batchSeq
    lastFileIdentity := result.lastFileIdentity
    processedFileCount := some (files + result.fileCount)
    processedLineCount := some (lines + result.lineCount)
    fencingToken := some fencingToken }

/-- **What a batch transaction does.** -/
theorem ingestCoverageBatch_ok {env : Env} {db db' : Db}
    {jobId ownerToken fencingToken scanId : Nat} {batch : List CoverageItem}
    {batchSeq files lines : Nat} {payload : Payload} {result : BatchResult}
    (h : ingestCoverageBatch env db jobId ownerToken fencingToken scanId batch batchSeq files lines
      payload = .ok (db', result)) :
    ∃ c db₁, ImportCheckpointRepository.get db jobId = some c ∧ c.phase = .infoStaged ∧
      assertAllFences db jobId ownerToken fencingToken c = .ok () ∧
      batchSeq = c.payload.batchSeq.getD 0 + 1 ∧
      ProjectService.ingestFileBatch env db scanId batch = .ok (db₁, result) ∧
      c.fencingToken = fencingToken ∧
      db' = db₁.putCheckpoint jobId { c with
        checkpointSeq := c.checkpointSeq + 1
        payload := batchPayload payload fencingToken batchSeq files lines result } := by
  simp only [ingestCoverageBatch, bind_eq_ok, orFail_eq_ok, require_eq_ok, pure_eq_ok, Prod.exists,
    Prod.mk.injEq, ImportCheckpointRepository.saveBatch_eq_ok] at h
  obtain ⟨c, hc, _, hph, _, hf, _, hseq, db₁, res, hing, db₂, ⟨c₁, hc₁, _, hs, hfe, rfl⟩, rfl, rfl⟩ := h
  have hsame : ImportCheckpointRepository.get db₁ jobId = ImportCheckpointRepository.get db jobId := by
    rw [(ProjectService.ingestFileBatch_ok hing).1.frame]
    rfl
  obtain rfl : c = c₁ := Option.some.inj (hc.symm.trans (hsame.symm.trans hc₁))
  exact ⟨c, db₁, hc, hph, hf, hseq, hing, hfe, rfl⟩

/-! ## Seal and publish -/

/-- **What a seal does.** -/
theorem sealImport_ok {db db' : Db} {jobId ownerToken fencingToken : Nat}
    (h : sealImport db jobId ownerToken fencingToken = .ok db') :
    ∃ c scan, ImportCheckpointRepository.get db jobId = some c ∧
      assertAllFences db jobId ownerToken fencingToken c = .ok () ∧
      db.facts.scans.get? c.scanId = some scan ∧ sealable scan.status = true ∧
      c.phase.index ≤ Phase.sealed.index ∧ Phase.sealed.index ≤ c.phase.index + 1 ∧
      c.fencingToken = fencingToken ∧
      db' = (ProjectRepository.setStatus db c.scanId .sealed).putCheckpoint jobId { c with
        phase := .sealed
        checkpointSeq := c.checkpointSeq + 1
        payload := { c.payload with scanId := some c.scanId } } := by
  simp only [sealImport, bind_eq_ok, orFail_eq_ok, require_eq_ok,
    ImportCheckpointRepository.advance_eq_ok] at h
  obtain ⟨c, hc, _, hf, scan, hs, _, hst, c₁, hc₁, hle, hge, _, hfe, rfl⟩ := h
  obtain rfl : c = c₁ := Option.some.inj (hc.symm.trans hc₁)
  exact ⟨c, scan, hc, hf, hs, hst, hle, hge, hfe, rfl⟩

theorem transitionTerminal_some {db db' : Db} {jobId leaseOwner : Nat} {state : JobState}
    (h : JobRepository.transitionTerminal db jobId leaseOwner state = some db') :
    ∃ job, JobRepository.get db jobId = some job ∧ leaseOwner ≠ 0 ∧ job.state.live = true ∧
      job.leaseOwner = leaseOwner ∧ db' = db.putJob jobId { job with state := state } := by
  unfold JobRepository.transitionTerminal at h
  split at h
  · rename_i job hjob
    split at h
    · rename_i hc
      exact ⟨job, hjob, hc.1, hc.2.1, hc.2.2, (Option.some.inj h).symm⟩
    · cases h
  · cases h

/-- The locks of a published import, released. -/
theorem releaseAll_eq (db : Db) (jobId : Nat) (locks : List (Nat × Lock)) :
    ∃ ls, releaseAll db jobId locks = { db with imports.locks := ls } ∧
      ∀ r lock, ls.get? r = some lock → db.imports.locks.get? r = some lock := by
  unfold releaseAll
  induction locks generalizing db with
  | nil => exact ⟨_, rfl, fun _ _ h => h⟩
  | cons l locks ih =>
    rw [List.foldl_cons]
    obtain ⟨ls, hls, hsub⟩ := ih (release db jobId l.2.ownerToken (some l.2.fencingToken))
    refine ⟨ls, hls, fun r lock hr => ?_⟩
    have := hsub r lock hr
    simp only [release, Keyed.get?_deleteWhere, Option.filter_eq_some_iff] at this
    exact this.1

/-- **What a publication transaction does**: nothing if the import was published before, else it
moves CURRENT, writes the checkpoint and the job, and releases the locks. -/
theorem publishTransaction_ok {env : Env} {db db' : Db} {jobId : Nat}
    {expectedCurrentScanId : Option Nat} {readSet : Option ReadSetArg} {committed : Bool}
    (h : publishTransaction env db jobId expectedCurrentScanId readSet = .ok (db', committed)) :
    ∃ job c, JobRepository.get db jobId = some job ∧
      ImportCheckpointRepository.get db jobId = some c ∧
      ((committed = false ∧ db' = db ∧ (c.phase = .published ∨ c.phase = .done)) ∨
      (committed = true ∧ c.phase = .sealed ∧
        ∃ db₁ ls, ScanPublicationService.publishInTransaction env db job.inputPayload.projectId
            job.inputPayload.scanId (some (expectedCurrentScanId.or
              job.inputPayload.predecessorScanId)) (publishedReadSet readSet c.payload)
            (assertLocks jobId (locksForJob db jobId)) = .ok db₁ ∧
          job.state.live = true ∧
          (∀ r lock, ls.get? r = some lock → db.imports.locks.get? r = some lock) ∧
          db' = { (db₁.putCheckpoint jobId { c with
              phase := .published
              checkpointSeq := c.checkpointSeq + 1
              payload := { scanId := some job.inputPayload.scanId } }).putJob jobId
                { job with state := .completed } with imports.locks := ls })) := by
  simp only [publishTransaction, bind_eq_ok, orFail_eq_ok] at h
  obtain ⟨job, hjob, c, hc, h⟩ := h
  refine ⟨job, c, hjob, hc, ?_⟩
  split at h
  · rename_i hph
    simp only [pure_eq_ok, Prod.mk.injEq] at h
    obtain ⟨rfl, rfl⟩ := h
    exact .inl ⟨rfl, rfl, hph⟩
  · simp only [bind_eq_ok, require_eq_ok, orFail_eq_ok, pure_eq_ok, Prod.mk.injEq,
      ImportCheckpointRepository.advance_eq_ok] at h
    obtain ⟨_, hsealed, db₁, hpub, db₂, ⟨c₁, hc₁, _, _, _, _, rfl⟩, db₃, hterm, rfl, rfl⟩ := h
    have himp := (ScanPublicationService.published_of_ok hpub).1.imports
    have hget : ImportCheckpointRepository.get db₁ jobId = ImportCheckpointRepository.get db jobId := by
      unfold ImportCheckpointRepository.get
      rw [himp]
    obtain rfl : c = c₁ := Option.some.inj (hc.symm.trans (hget.symm.trans hc₁))
    obtain ⟨job', hjob', _, hlive, _, rfl⟩ := transitionTerminal_some hterm
    have hjg : JobRepository.get (db₁.putCheckpoint jobId { c with
        phase := .published
        checkpointSeq := c.checkpointSeq + 1
        payload := { scanId := some job.inputPayload.scanId } }) jobId =
        JobRepository.get db jobId := by
      unfold JobRepository.get Db.putCheckpoint
      rw [himp]
    obtain rfl : job = job' := Option.some.inj (hjob.symm.trans (hjg.symm.trans hjob'))
    obtain ⟨ls, hls, hsub⟩ := releaseAll_eq ((db₁.putCheckpoint jobId { c with
        phase := .published
        checkpointSeq := c.checkpointSeq + 1
        payload := { scanId := some job.inputPayload.scanId } }).putJob jobId
          { job with state := .completed }) jobId (locksForJob db jobId)
    refine .inr ⟨rfl, hsealed, db₁, ls, hpub, hlive, fun r lock hr => ?_, hls⟩
    have := hsub r lock hr
    rw [← himp]
    exact this

end ScanImportCoordinator

end FosCoverage
