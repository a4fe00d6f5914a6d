import FosCoverage.Import.ExactlyOnce

/-!
# Checkpoints from before the limits

A checkpoint that has batches but no limits was made with batches of whole files, and a worker that
resumes it goes on with such batches: without limits.  It writes these (`max_lines` and
`max_est_bytes`, both zero) with its first batch.  The next worker compares them with the limits of
its coordinator.  So a coordinator with limits resumes such a checkpoint once: when the worker is
gone behind its first batch, no worker ever commits anything again (`legacy_resumes_once`).

There are two invariants, both kept by all workers in any interleaving: `Older` of what workers make
of such a checkpoint, and `Stuck` of a checkpoint whose limits are not those of the coordinator.
-/

set_option autoImplicit false

namespace FosCoverage

open Relational Outcome ProjectService

namespace ScanImportCoordinator

/-- A checkpoint with batches and without limits. -/
structure Legacy (c : Checkpoint) : Prop where
  /-- The input is staged. -/
  phase : c.phase = .infoStaged
  /-- There are batches. -/
  batches : c.payload.batchSeq.getD 0 ≠ 0
  /-- `max_lines` is missing. -/
  maxLines : c.payload.maxLines = none
  /-- `max_est_bytes` is missing. -/
  maxEstBytes : c.payload.maxEstBytes = none

/-- A checkpoint whose batches were made without limits, which it says. -/
structure Unlimited (c : Checkpoint) : Prop where
  /-- The input is staged. -/
  phase : c.phase = .infoStaged
  /-- `max_lines` -/
  maxLines : c.payload.maxLines = some 0
  /-- `max_est_bytes` -/
  maxEstBytes : c.payload.maxEstBytes = some 0

/-- What becomes of a checkpoint without limits. -/
inductive Aged (log : List ImportEvent) (c : Checkpoint) : Prop
  /-- Nothing has been committed since. -/
  | legacy (h : Legacy c) (hlog : log = [])
  /-- Batches have been committed. -/
  | unlimited (h : Unlimited c) (hlog : log ≠ [])
  /-- The batches are complete. -/
  | late (h : Phase.coverageImported.index ≤ c.phase.index)

/-- The invariant of a checkpoint without limits. -/
def Older (jobId : Nat) (log : List ImportEvent) (db : Db) : Prop :=
  ∃ c, ImportCheckpointRepository.get db jobId = some c ∧ Aged log c

/-- The limits of a checkpoint are not those of the coordinator. -/
structure Mismatch (config : CoordinatorConfig) (c : Checkpoint) : Prop where
  /-- The input is staged. -/
  phase : c.phase = .infoStaged
  /-- The limits are there. -/
  present : c.payload.maxLines.isSome ∨ c.payload.maxEstBytes.isSome
  /-- They are different ones. -/
  differs : ¬ (c.payload.maxLines.getD 0 = config.limits.maxLines ∧
    c.payload.maxEstBytes.getD 0 = config.limits.maxEstBytes)

/-- The invariant of an import that does not go on. -/
def Stuck (config : CoordinatorConfig) (jobId : Nat) (log₀ log : List ImportEvent) (db : Db) :
    Prop :=
  log = log₀ ∧ ∃ c, ImportCheckpointRepository.get db jobId = some c ∧ Mismatch config c

section Workers

variable {env : Env} {config : CoordinatorConfig} {files : List CoverageItem}
  {jobId scanId : Nat} {ctx : ExecutionContext} {log log₀ : List ImportEvent} {db db' : Db}

/-! ## The payload of a worker -/

/-- A worker that has read its checkpoint has a job. -/
theorem loadExecutionContext_job {owner fence : Option Nat} {verify : Bool}
    {observed : ImmutableArtifactStager.Observed}
    (h : loadExecutionContext db jobId owner fence verify observed = .ok ctx) :
    ∃ job, JobRepository.get db jobId = some job := by
  obtain ⟨job, hjob, _⟩ := bind_eq_ok.1 h
  exact ⟨job, orFail_eq_ok.1 hjob⟩

/-- The payload of a worker has the batches and limits of the checkpoint. -/
theorem startPayload_policy (ctx : ExecutionContext) :
    (startPayload ctx).batchSeq = ctx.checkpoint.payload.batchSeq ∧
      (startPayload ctx).maxLines = ctx.checkpoint.payload.maxLines ∧
      (startPayload ctx).maxEstBytes = ctx.checkpoint.payload.maxEstBytes := by
  unfold startPayload
  dsimp only
  split
  · exact ⟨rfl, rfl, rfl⟩
  · exact ⟨rfl, rfl, rfl⟩

/-- The policy a worker goes on with. -/
theorem batchPolicy_ok {payload : Payload} {policy : Nat × BatchLimits}
    (h : batchPolicy config payload = .ok policy) :
    (¬ (payload.maxLines.isSome ∨ payload.maxEstBytes.isSome) ∨
      (payload.maxLines.getD 0 = config.limits.maxLines ∧
        payload.maxEstBytes.getD 0 = config.limits.maxEstBytes)) ∧
    policy.2 = if payload.batchSeq.getD 0 ≠ 0 ∧
      ¬ (payload.maxLines.isSome ∨ payload.maxEstBytes.isSome) then ⟨0, 0⟩ else config.limits := by
  simp only [batchPolicy, bind_eq_ok, require_eq_ok] at h
  obtain ⟨_, _, _, hpolicy, h⟩ := h
  refine ⟨hpolicy, ?_⟩
  split at h
  · rw [if_pos ‹_›, ← pure_eq_ok.1 h]
  · rw [if_neg ‹_›, ← pure_eq_ok.1 h]

/-! ## What keeps the checkpoint of others -/

theorem Legacy.claimed {c : Checkpoint} (h : Legacy c) (token : Nat) :
    Legacy { c with fencingToken := token } :=
  ⟨h.phase, h.batches, h.maxLines, h.maxEstBytes⟩

theorem Aged.claimed {c : Checkpoint} (h : Aged log c) (token : Nat) :
    Aged log { c with fencingToken := token } := by
  cases h with
  | legacy h hlog => exact .legacy (h.claimed token) hlog
  | unlimited h hlog => exact .unlimited ⟨h.phase, h.maxLines, h.maxEstBytes⟩ hlog
  | late h => exact .late h

/-- A transaction that is not one of the job. -/
def Besides (env : Env) (jobId : Nat) (db db' : Db) : Prop :=
  ∃ a : Action, ¬ a.Checkpoints db jobId ∧ db' = a.exec env db

theorem Others.besides (ho : Others env jobId scanId db db') : Besides env jobId db db' := by
  obtain ⟨a, he, rfl⟩ := ho
  exact ⟨a, he.2, rfl⟩

/-- It claims the checkpoint at most. -/
theorem Besides.checkpoint {c : Checkpoint} (ho : Besides env jobId db db')
    (hc : ImportCheckpointRepository.get db jobId = some c) :
    ∃ token, ImportCheckpointRepository.get db' jobId = some { c with fencingToken := token } := by
  obtain ⟨a, he, rfl⟩ := ho
  unfold Action.exec
  split
  · obtain ⟨token, _, hc'⟩ := Claimed.of_action he ‹_› c hc
    exact ⟨token, hc'⟩
  · exact ⟨c.fencingToken, hc⟩

theorem Older.besides (h : Older jobId log db) (ho : Besides env jobId db db') :
    Older jobId log db' := by
  obtain ⟨c, hc, haged⟩ := h
  obtain ⟨token, hc'⟩ := ho.checkpoint hc
  exact ⟨_, hc', haged.claimed token⟩

theorem Stuck.besides (h : Stuck config jobId log₀ log db) (ho : Besides env jobId db db') :
    Stuck config jobId log₀ log db' := by
  obtain ⟨hlog, c, hc, hphase, hpresent, hdiffers⟩ := h
  obtain ⟨token, hc'⟩ := ho.checkpoint hc
  exact ⟨hlog, _, hc', ⟨hphase, hpresent, hdiffers⟩⟩

theorem Aged.staged {c : Checkpoint} (h : Aged log c) : 2 ≤ c.phase.index := by
  cases h with
  | legacy h _ => rw [h.phase]; decide
  | unlimited h _ => rw [h.phase]; decide
  | late h => exact Nat.le_of_lt h

/-- A phase that has been reached is not entered again. -/
theorem runPhaseOperation_reached {owner token : Nat} {target : Phase} {payload payload' : Payload}
    {op : Db → Payload → Except Failure (Db × Payload)} {committed : Bool} {c : Checkpoint}
    (hc : ImportCheckpointRepository.get db jobId = some c) (hle : target.index ≤ c.phase.index)
    (h : runPhaseOperation db jobId owner token target payload op = .ok (db', payload', committed)) :
    committed = false ∧ db' = db ∧ payload' = payload := by
  obtain ⟨c', hc', ⟨rfl, rfl, rfl, _⟩ | ⟨_, hnext, _⟩⟩ := runPhaseOperation_ok h
  · exact ⟨rfl, rfl, rfl⟩
  · obtain rfl : c = c' := Option.some.inj (hc.symm.trans hc')
    omega

/-- A phase that has been reached, as a step of a worker. -/
theorem keeps_reached {I : List ImportEvent → Db → Prop} {target : Phase} {payload : Payload}
    (hI : ∀ log db, I log db → ∃ c, ImportCheckpointRepository.get db ctx.jobId = some c ∧
      target.index ≤ c.phase.index) :
    Process.Keeps I (phaseStep ctx target payload noOperation) log fun log' payload' =>
      log <+: log' ∧ payload' = payload := by
  refine .bind (.transact fun log' s s' r hlog h hr => ?_)
  obtain ⟨payload', committed⟩ := r
  obtain ⟨c, hc, hle⟩ := hI log' s h
  obtain ⟨rfl, rfl, rfl⟩ := runPhaseOperation_reached hc hle hr
  simp only [Bool.false_eq_true, if_false, List.append_nil]
  exact ⟨h, .pure ⟨hlog, rfl⟩⟩

/-! ## A checkpoint that is resumed -/

theorem Older.late {c : Checkpoint} (hc : ImportCheckpointRepository.get db jobId = some c)
    (hlate : Phase.coverageImported.index ≤ c.phase.index) : Older jobId log db :=
  ⟨c, hc, .late hlate⟩

/-- A phase after the batches. -/
theorem older_phaseStep {target : Phase} {payload : Payload}
    {op : Db → Payload → Except Failure (Db × Payload)} (hjob : ctx.jobId = jobId)
    (hlow : Phase.coverageImported.index ≤ target.index) :
    Process.Keeps (Older jobId) (phaseStep ctx target payload op) log fun _ _ => True := by
  refine .bind (.transact fun log' s s' r _ h hr => ?_)
  obtain ⟨payload', committed⟩ := r
  rw [hjob] at hr
  obtain ⟨c, _, ⟨rfl, rfl, _, _⟩ | ⟨_, _, _, db₁, c₁, _, _, _, _, rfl⟩⟩ := runPhaseOperation_ok hr
  · simp only [Bool.false_eq_true, if_false, List.append_nil]
    exact ⟨h, .pure trivial⟩
  · exact ⟨.late (ImportCheckpointRepository.get_putCheckpoint db₁ jobId _) hlow, .pure trivial⟩

theorem older_sealConstruction (hjob : ctx.jobId = jobId) {paths : List (String × String)}
    {payload : Payload} :
    Process.Keeps (Older jobId) (sealConstruction env ctx paths payload) log fun _ _ => True := by
  refine .bind ((older_phaseStep hjob (by decide)).imp fun _ _ _ => ?_)
  refine .bind ((older_phaseStep hjob (by decide)).imp fun _ _ _ => ?_)
  refine .bind ((older_phaseStep hjob (by decide)).imp fun _ _ _ => ?_)
  refine .bind ((older_phaseStep hjob (by decide)).imp fun _ _ _ => ?_)
  refine .bind ((older_phaseStep hjob (by decide)).imp fun _ _ _ => ?_)
  refine .transact fun log' s s' a _ h hr => ⟨?_, trivial⟩
  rw [hjob] at hr
  cases hseal : sealImport s jobId ctx.ownerToken ctx.fencingToken with
  | error e => simp [hseal, Except.map] at hr
  | ok d =>
    obtain rfl : d = s' := by simpa [hseal, Except.map] using hr
    obtain ⟨c, scan, _, _, _, _, _, _, _, rfl⟩ := sealImport_ok hseal
    exact .late (ImportCheckpointRepository.get_putCheckpoint _ jobId _)
      (show Phase.coverageImported.index ≤ Phase.sealed.index by decide)

theorem older_finishConstruction (hjob : ctx.jobId = jobId) {paths : List (String × String)}
    {payload : Payload} :
    Process.Keeps (Older jobId) (finishConstruction env ctx paths payload) log fun _ _ => True := by
  refine .bind (.observe fun log' s phase _ _ _ => ?_)
  split
  · refine .bind (.ofExcept fun _ _ => ?_)
    exact .bind ((older_phaseStep hjob (by decide)).imp fun _ _ _ => older_sealConstruction hjob)
  · exact older_sealConstruction hjob

theorem older_publish {expected : Option Nat} {readSet : Option ReadSetArg} :
    Process.Keeps (Older jobId) (publish env jobId expected readSet) log fun _ _ => True := by
  refine .bind (.observe fun _ _ owner _ _ _ => ?_)
  refine .bind (.attempt (fun log' s s' committed _ h hr => ⟨?_, trivial⟩) fun log' s e _ h hr => ?_)
  · obtain ⟨job, c, _, _, ⟨rfl, rfl, _⟩ | ⟨_, _, db₁, ls, _, _, _, rfl⟩⟩ := publishTransaction_ok hr
    · simpa using h
    · refine .late (c := { c with
        phase := .published
        checkpointSeq := c.checkpointSeq + 1
        payload := { scanId := some job.inputPayload.scanId } }) ?_
        (show Phase.coverageImported.index ≤ Phase.published.index by decide)
      simp only [ImportCheckpointRepository.get, Db.putJob, Db.putCheckpoint, Keyed.get?_put,
        if_pos]
  · refine .bind (.transact fun log' s s' a _ h hr => ?_)
    obtain ⟨rfl, _⟩ := Prod.mk.inj (pure_eq_ok.1 hr)
    have hothers : Others env jobId 0 s (recordPublishFailure s jobId owner e) :=
      recordPublishFailure_others jobId 0 s owner e
    rw [List.append_nil]
    exact ⟨h.besides hothers.besides, trivial⟩

/-- The batches of a worker that goes on without limits. -/
theorem older_ingestCoverageInBatches (hjob : ctx.jobId = jobId) {payload : Payload}
    (hzero : ∀ policy, batchPolicy config payload = .ok policy → policy.2 = ⟨0, 0⟩) :
    Process.Keeps (Older jobId) (ingestCoverageInBatches env config ctx files payload) log
      fun _ _ => True := by
  refine .bind (.ofExcept fun policy hpolicy => ?_)
  obtain ⟨size, limits⟩ := policy
  obtain rfl : limits = ⟨0, 0⟩ := hzero _ hpolicy
  refine .bind ((Process.Keeps.foldlM (fun _ st _ =>
    st.phasePayload.maxLines = some 0 ∧ st.phasePayload.maxEstBytes = some 0) _ ⟨rfl, rfl⟩
    fun pre items post st log _ hst => ?_).imp fun log st hst => ?_)
  · unfold consumeBatch
    dsimp only
    split
    · exact .pure hst
    · refine .bind (.transact fun log' s s' result _ h hr => ?_)
      rw [hjob] at hr
      obtain ⟨c, db₁, _, hphase, _, _, _, _, rfl⟩ := ingestCoverageBatch_ok hr
      exact ⟨⟨_, ImportCheckpointRepository.get_putCheckpoint db₁ jobId _,
        .unlimited ⟨hphase, hst.1, hst.2⟩ (by simp)⟩, .pure hst⟩
  · exact .bind (.ofExcept fun _ _ => older_phaseStep hjob (by decide))

/-- **Every transaction of a worker keeps the fate of a checkpoint without limits.** -/
theorem older_execute (owner fence : Option Nat) (paths : List (String × String)) (verify : Bool)
    (observed : ImmutableArtifactStager.Observed) :
    Process.Keeps (Older jobId) (execute env config jobId owner fence files paths verify observed)
      log fun _ _ => True := by
  refine .bind (.observe fun log' s ctx _ h hload => ?_)
  obtain ⟨c, hc, haged⟩ := h
  obtain ⟨job, hget⟩ := loadExecutionContext_job hload
  obtain ⟨hjob, hcheckpoint, _⟩ := loadExecutionContext_reads hget hc hload
  split
  · exact .pure trivial
  · split
    · exact older_publish
    · refine .bind (Process.Keeps.imp (Q := fun _ _ => True) ?_ fun _ _ _ => older_publish)
      have hreached : ∀ target : Phase, target.index ≤ 2 → ∀ log db, Older jobId log db →
          ∃ c, ImportCheckpointRepository.get db ctx.jobId = some c ∧
            target.index ≤ c.phase.index := by
        rintro target hle log db ⟨c, hc, haged⟩
        exact ⟨c, by rw [hjob]; exact hc, hle.trans haged.staged⟩
      rw [construct_eq]
      refine .bind ((keeps_reached (hreached _ (by decide))).imp fun log₁ p₁ ⟨_, hp₁⟩ => ?_)
      rw [hp₁]
      refine .bind ((keeps_reached (hreached _ (by decide))).imp fun log₂ p₂ ⟨_, hp₂⟩ => ?_)
      rw [hp₂]
      split
      · rename_i hphase
        refine .bind ((older_ingestCoverageInBatches hjob fun policy hpolicy => ?_).imp
          fun _ _ _ => older_finishConstruction hjob)
        obtain ⟨hsame, hlimits⟩ := batchPolicy_ok hpolicy
        obtain ⟨hseq, hlines, hbytes⟩ := startPayload_policy ctx
        rw [hcheckpoint] at hseq hlines hbytes hphase
        cases haged with
        | legacy h _ =>
          rw [hlimits, if_pos]
          rw [hseq, hlines, hbytes, h.maxLines, h.maxEstBytes]
          exact ⟨h.batches, by simp⟩
        | unlimited h _ =>
          rw [hlines, hbytes, h.maxLines, h.maxEstBytes] at hsame
          rw [hlimits, if_neg (fun hnone => hnone.2 (.inl (by rw [hlines, h.maxLines]; rfl)))]
          obtain hnone | ⟨hl, hb⟩ := hsame
          · exact absurd (.inl rfl) hnone
          · exact congrArg₂ BatchLimits.mk hl.symm hb.symm
        | late h => exact absurd hphase (Nat.not_lt.2 h)
      · exact older_finishConstruction hjob

/-! ## A checkpoint that is not -/

/-- **A worker whose limits are different ones commits nothing.** -/
theorem stuck_execute (owner fence : Option Nat) (paths : List (String × String)) (verify : Bool)
    (observed : ImmutableArtifactStager.Observed) :
    Process.Keeps (Stuck config jobId log₀)
      (execute env config jobId owner fence files paths verify observed) log fun _ _ => True := by
  refine .bind (.observe fun log' s ctx _ h hload => ?_)
  obtain ⟨_, c, hc, hmismatch⟩ := h
  obtain ⟨job, hget⟩ := loadExecutionContext_job hload
  obtain ⟨hjob, hcheckpoint, _⟩ := loadExecutionContext_reads hget hc hload
  have hphase : ctx.checkpoint.phase = .infoStaged := by rw [hcheckpoint, hmismatch.phase]
  rw [if_neg (by rw [hphase]; decide), if_neg (by rw [hphase]; decide)]
  have hreached : ∀ target : Phase, target.index ≤ 2 → ∀ log db,
      Stuck config jobId log₀ log db → ∃ c,
        ImportCheckpointRepository.get db ctx.jobId = some c ∧ target.index ≤ c.phase.index := by
    rintro target hle log db ⟨_, c, hc, hmismatch⟩
    exact ⟨c, by rw [hjob]; exact hc, by rw [hmismatch.phase]; exact hle⟩
  refine .bind (Process.Keeps.imp (Q := fun _ _ => False) ?_ fun _ _ hfalse => hfalse.elim)
  rw [construct_eq]
  refine .bind ((keeps_reached (hreached _ (by decide))).imp fun log₁ p₁ ⟨_, hp₁⟩ => ?_)
  rw [hp₁]
  refine .bind ((keeps_reached (hreached _ (by decide))).imp fun log₂ p₂ ⟨_, hp₂⟩ => ?_)
  rw [hp₂, if_pos (by rw [hphase]; decide)]
  refine .bind (Process.Keeps.imp (Q := fun _ _ => False)
    (.bind (.ofExcept fun policy hpolicy => ?_)) fun _ _ hfalse => hfalse.elim)
  obtain ⟨_, hlines, hbytes⟩ := startPayload_policy ctx
  obtain ⟨hsame, _⟩ := batchPolicy_ok hpolicy
  rw [hlines, hbytes, hcheckpoint] at hsame
  obtain hnone | hsame := hsame
  · exact absurd hmismatch.present hnone
  · exact absurd hsame hmismatch.differs

end Workers

/-! ## Every run -/

/-- **A checkpoint without limits is resumed once.** -/
theorem legacy_resumes_once {env : Env} {config : CoordinatorConfig} {files : List CoverageItem}
    {jobId : Nat} {db : Db} {c c' : Checkpoint}
    {pool pool' : Process.Pool Db Failure ImportEvent Unit}
    (hc : ImportCheckpointRepository.get db jobId = some c) (hlegacy : Legacy c)
    (hlimits : config.limits ≠ ⟨0, 0⟩)
    (hrun : Process.Pool.Run (Executes env config jobId files) (Besides env jobId)
      ⟨db, [], []⟩ pool)
    (hcommitted : pool.log ≠ [])
    (hc' : ImportCheckpointRepository.get pool.state jobId = some c')
    (hphase : c'.phase = .infoStaged) (hgone : pool.workers = [])
    (hrun' : Process.Pool.Run (Executes env config jobId files) (Besides env jobId)
      pool pool') :
    pool'.log = pool.log ∧ ∃ c'', ImportCheckpointRepository.get pool'.state jobId = some c'' ∧
      c''.phase = .infoStaged := by
  have hstart : Process.Pool.Ok (Older jobId)
      (⟨db, [], []⟩ : Process.Pool Db Failure ImportEvent Unit) :=
    ⟨⟨c, hc, .legacy hlegacy rfl⟩, fun p hp => absurd hp List.not_mem_nil⟩
  have holder : Older jobId pool.log pool.state := by
    refine hrun.inv hstart ?_ fun log s s' ho h => h.besides ho
    rintro p ⟨owner, fence, paths, verify, observed, rfl⟩ log
    exact older_execute owner fence paths verify observed
  have hmismatch : Mismatch config c' := by
    obtain ⟨c₁, hc₁, haged⟩ := holder
    obtain rfl : c' = c₁ := Option.some.inj (hc'.symm.trans hc₁)
    cases haged with
    | legacy _ hlog => exact absurd hlog hcommitted
    | unlimited h _ =>
      refine ⟨hphase, .inl (by rw [h.maxLines]; rfl), fun hsame => hlimits ?_⟩
      rw [h.maxLines, h.maxEstBytes] at hsame
      exact congrArg₂ BatchLimits.mk hsame.1.symm hsame.2.symm
    | late h => exact absurd h (by rw [hphase]; decide)
  have hstuck : Process.Pool.Ok (Stuck config jobId pool.log) pool :=
    ⟨⟨rfl, c', hc', hmismatch⟩, fun p hp => absurd hp (by rw [hgone]; exact List.not_mem_nil)⟩
  obtain ⟨hlog, c'', hc'', hmismatch''⟩ := hrun'.inv hstuck
    (by
      rintro p ⟨owner, fence, paths, verify, observed, rfl⟩ log
      exact stuck_execute owner fence paths verify observed)
    fun log s s' ho h => h.besides ho
  exact ⟨hlog, c'', hc'', hmismatch''.phase⟩

end ScanImportCoordinator

namespace Sample

open ScanImportCoordinator

/-- The database behind the first batch, as it was before checkpoints had limits. -/
def olderDb : Db :=
  match ImportCheckpointRepository.get firstWorker.state 1 with
  | some c => firstWorker.state.putCheckpoint 1
      { c with payload := { c.payload with maxLines := none, maxEstBytes := none } }
  | none => Db.empty

/-- A worker that is gone behind the next batch. -/
def olderWorker : Process.Report Db Failure ImportEvent Unit :=
  Process.run importWorker (List.replicate 4 id) olderDb

/-- Another one. -/
def thirdWorker : Process.Report Db Failure ImportEvent Unit :=
  Process.run importWorker (List.replicate 20 id) olderWorker.state

end Sample

open Sample in
/-- A second batch is committed, and then nothing. -/
theorem legacy_resumes_once_twoFiles : olderWorker.log ≠ [] ∧
    olderWorker.log ++ thirdWorker.log = olderWorker.log := by
  have hidle : ∀ (n : Nat), ∀ act ∈ List.replicate n (id : Db → Db), ∀ s,
      ScanImportCoordinator.Besides Sample.env 1 s (act s) := by
    intro n act hact s
    rw [List.eq_of_mem_replicate hact]
    exact ⟨.tick 0, id, rfl⟩
  have hworker : ScanImportCoordinator.Executes Sample.env smallBatches 1 twoFiles importWorker :=
    ⟨_, _, _, _, _, rfl⟩
  have hcommitted : olderWorker.log ≠ [] := by decide +kernel
  have hsecond : ∃ p, Process.Pool.Run
      (ScanImportCoordinator.Executes Sample.env smallBatches 1 twoFiles)
      (ScanImportCoordinator.Besides Sample.env 1) ⟨olderDb, [], [importWorker]⟩
      ⟨olderWorker.state, olderWorker.log, [p]⟩ :=
    Process.Pool.run_exec (hidle 4) olderDb [] []
  obtain ⟨p, hsecond⟩ := hsecond
  have hthird : ∃ q, Process.Pool.Run
      (ScanImportCoordinator.Executes Sample.env smallBatches 1 twoFiles)
      (ScanImportCoordinator.Besides Sample.env 1)
      ⟨olderWorker.state, olderWorker.log, [importWorker]⟩
      ⟨thirdWorker.state, olderWorker.log ++ thirdWorker.log, [q]⟩ :=
    Process.Pool.run_exec (hidle 20) olderWorker.state _ []
  obtain ⟨q, hthird⟩ := hthird
  have hc : ∃ c, ImportCheckpointRepository.get olderDb 1 = some c ∧
      c.phase = .infoStaged ∧ c.payload.batchSeq.getD 0 ≠ 0 ∧ c.payload.maxLines = none ∧
        c.payload.maxEstBytes = none := by decide +kernel
  obtain ⟨c, hc, hphase, hbatches, hlines, hbytes⟩ := hc
  have hc' : ∃ c', ImportCheckpointRepository.get olderWorker.state 1 = some c' ∧
      c'.phase = .infoStaged := by decide +kernel
  obtain ⟨c', hc', hphase'⟩ := hc'
  exact ⟨hcommitted, (ScanImportCoordinator.legacy_resumes_once hc ⟨hphase, hbatches, hlines, hbytes⟩
    (by decide) ((Relation.ReflTransGen.head (.start olderDb [] [] hworker) hsecond).tail
      (.crash _ _ [] p [])) hcommitted hc' hphase' rfl
    (.head (.start _ _ [] hworker) hthird)).1⟩

end FosCoverage
