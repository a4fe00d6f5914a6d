import FosCoverage.Lib.Pool
import FosCoverage.Import.BatchSpec
import FosCoverage.Import.Progress

/-!
# Exactly-once imports

Any number of workers execute one job over its staged input: started at any time with whatever
tokens, gone at any point between two transactions, and running beside each other and beside
everything else the system does.  What they commit together is a beginning of the one history of the
job, and the Candidate has the files and lines of the batches in it, each once
(`import_exactly_once`).

The invariant is `InProgress`.  A worker knows more of its own (`Loaded`, `Reading`): how many
batches were committed when it started, and that its counters are those of the batches it has seen
since.  Such knowledge survives the transactions of all others, because it is about the beginning of
the log.
-/

set_option autoImplicit false

namespace FosCoverage

open Relational Outcome ProjectService

namespace ScanImportCoordinator

/-! ## What a worker knows -/

/-- A worker has read a checkpoint with `n` batches. -/
structure Loaded (env : Env) (config : CoordinatorConfig) (files : List CoverageItem)
    (jobId scanId n : Nat) (ctx : ExecutionContext) (log : List ImportEvent) : Prop where
  /-- Its job. -/
  job : ctx.jobId = jobId
  /-- The Candidate of the job. -/
  scan : ctx.scanId = scanId
  /-- Everything up to the checkpoint is committed. -/
  seq : ctx.checkpoint.phase.index + n ≤ log.length
  /-- There are no batches before the input is staged. -/
  early : ctx.checkpoint.phase.index < 2 → n = 0
  /-- The counters, as long as they are needed. -/
  counts : ctx.checkpoint.phase.index ≤ 2 → CountsTo env config files n (startPayload ctx)

/-- A worker has gone through the first `k` batches, the first `n` of which were committed before it
started. -/
structure Reading (env : Env) (config : CoordinatorConfig) (files : List CoverageItem)
    (n k : Nat) (st : IngestState) (log : List ImportEvent) : Prop where
  /-- `batch_seq` -/
  batchSeq : st.batchSeq = k
  /-- `processed_file_count` -/
  fileCount : st.processedFileCount = filesIn ((batchesOf env config files).take (max n k))
  /-- `processed_line_count` -/
  lineCount : st.processedLineCount = linesIn ((batchesOf env config files).take (max n k))
  /-- The settings are noted. -/
  configured : Configured config st.phasePayload
  /-- These batches are committed. -/
  seq : 2 + max n k ≤ log.length

/-- A transaction of somebody else. -/
def Others (env : Env) (jobId scanId : Nat) (db db' : Db) : Prop :=
  ∃ a : Action, a.Elsewhere jobId scanId db ∧ db' = a.exec env db

section Workers

variable {env : Env} {config : CoordinatorConfig} {files : List CoverageItem}
  {jobId scanId n : Nat} {ctx : ExecutionContext} {log : List ImportEvent} {db : Db}

theorem CountsTo.start (h : CountsTo env config files n ctx.checkpoint.payload) :
    CountsTo env config files n (startPayload ctx) := by
  unfold startPayload
  dsimp only
  split
  · exact ⟨h.batchSeq, h.fileCount, h.lineCount, h.batchSize, h.limits⟩
  · exact ⟨h.batchSeq, h.fileCount, h.lineCount, h.batchSize, h.limits⟩

theorem InProgress.others {db' : Db} (h : InProgress env config files jobId scanId log db)
    (ho : Others env jobId scanId db db') : InProgress env config files jobId scanId log db' := by
  obtain ⟨a, he, rfl⟩ := ho
  unfold Action.exec
  split
  · exact h.aside he ‹_›
  · exact h

/-- What a worker has read. -/
theorem loadExecutionContext_reads {owner fence : Option Nat} {verify : Bool}
    {observed : ImmutableArtifactStager.Observed} {job : Job} {c : Checkpoint}
    (hjob : JobRepository.get db jobId = some job)
    (hc : ImportCheckpointRepository.get db jobId = some c)
    (h : loadExecutionContext db jobId owner fence verify observed = .ok ctx) :
    ctx.jobId = jobId ∧ ctx.checkpoint = c ∧
      ctx.scanId = if job.inputPayload.scanId ≠ 0 then job.inputPayload.scanId else c.scanId := by
  simp only [loadExecutionContext, bind_eq_ok, orFail_eq_ok] at h
  obtain ⟨job', hjob', _, _, c', hc', _, _, h⟩ := h
  obtain rfl : job = job' := Option.some.inj (hjob.symm.trans hjob')
  obtain rfl : c = c' := Option.some.inj (hc.symm.trans hc')
  split at h
  · simp only [bind_eq_ok, pure_eq_ok] at h
    obtain ⟨_, _, rfl⟩ := h
    exact ⟨rfl, rfl, rfl⟩
  · simp only [bind_eq_ok, pure_eq_ok] at h
    obtain ⟨_, _, rfl⟩ := h
    exact ⟨rfl, rfl, rfl⟩

theorem InProgress.load (h : InProgress env config files jobId scanId log db)
    {owner fence : Option Nat} {verify : Bool} {observed : ImmutableArtifactStager.Observed}
    (hr : loadExecutionContext db jobId owner fence verify observed = .ok ctx) :
    ∃ n, Loaded env config files jobId scanId n ctx log := by
  obtain ⟨c, n, hc, hpos⟩ := h.position
  obtain ⟨job, hjob, hcandidate⟩ := h.job
  obtain ⟨hid, rfl, hscan⟩ := loadExecutionContext_reads hjob hc hr
  refine ⟨n, hid, ?_, ?_, hpos.early, fun hle => (hpos.payload hle).start⟩
  · rw [hscan]
    split
    · exact hcandidate
    · exact hpos.candidate
  · rw [hpos.length, hpos.seq]

theorem Loaded.mono {log' : List ImportEvent} (h : Loaded env config files jobId scanId n ctx log)
    (hlog : log <+: log') : Loaded env config files jobId scanId n ctx log' :=
  ⟨h.job, h.scan, h.seq.trans hlog.length_le, h.early, h.counts⟩

/-- A phase without an operation hands its payload on. -/
theorem payload_of_noOperation {s s' : Db} {owner token : Nat} {target : Phase}
    {payload payload' : Payload} {committed : Bool}
    (h : runPhaseOperation s jobId owner token target payload noOperation =
      .ok (s', payload', committed)) : payload' = payload := by
  obtain ⟨c, _, ⟨_, _, hp, _⟩ | ⟨_, _, _, db₁, c₁, hdone, _⟩⟩ := runPhaseOperation_ok h
  · exact hp
  · exact ((Prod.mk.inj (pure_eq_ok.1 hdone)).2).symm

/-- A phase whose operation writes neither facts nor jobs. -/
theorem keeps_phaseStep {target : Phase} {payload : Payload}
    {op : Db → Payload → Except Failure (Db × Payload)} (hjob : ctx.jobId = jobId)
    (hop : ∀ d d' p', op d payload = .ok (d', p') → d'.facts = d.facts ∧ d'.imports = d.imports)
    (hhigh : target.index ≤ 9)
    (hstart : target.index ≤ 2 → ∀ log', log <+: log' → log'.length < 2 →
      op = noOperation ∧ CountsTo env config files 0 payload)
    (hfull : target.index = 3 → (batchesOf env config files).length + 2 ≤ log.length) :
    Process.Keeps (InProgress env config files jobId scanId) (phaseStep ctx target payload op) log
      fun log' payload' => log <+: log' ∧ target.index ≤ log'.length ∧
        (op = noOperation → payload' = payload) := by
  refine .bind (.transact fun log' s s' r hlog hI hr => ?_)
  obtain ⟨payload', committed⟩ := r
  rw [hjob] at hr
  have hsame : op = noOperation → payload' = payload := by
    rintro rfl
    exact payload_of_noOperation hr
  obtain ⟨hI', hindex⟩ := hI.phase hr (fun db₁ hdone => hop s db₁ payload' hdone) hhigh
    (fun hle hshort => by
      obtain ⟨hno, hcounts⟩ := hstart hle log' hlog hshort
      rwa [hsame hno])
    (fun he => (hfull he).trans hlog.length_le)
  exact ⟨hI', .pure ⟨hlog.trans (List.prefix_append _ _), hindex, hsame⟩⟩

/-- The first two phases. -/
theorem keeps_phaseStep_early (h : Loaded env config files jobId scanId n ctx log) {target : Phase}
    (hle : target.index ≤ 2) :
    Process.Keeps (InProgress env config files jobId scanId)
      (phaseStep ctx target (startPayload ctx) noOperation) log fun log' payload' =>
        Loaded env config files jobId scanId n ctx log' ∧ target.index ≤ log'.length ∧
          payload' = startPayload ctx := by
  refine (keeps_phaseStep h.job (fun d d' p' hd => ?_) (by omega)
    (fun _ log' hlog hshort => ⟨rfl, ?_⟩) (fun he => by omega)).imp ?_
  · obtain ⟨rfl, _⟩ := Prod.mk.inj (pure_eq_ok.1 hd)
    exact ⟨rfl, rfl⟩
  · -- nothing but the phase before can have been committed
    have hseq := (h.mono hlog).seq
    have hn : n = 0 := by
      rcases Nat.lt_or_ge ctx.checkpoint.phase.index 2 with hlt | hge
      · exact h.early hlt
      · omega
    rw [← hn]
    exact h.counts (by omega)
  · exact fun log' payload' ⟨hlog, hindex, hsame⟩ => ⟨h.mono hlog, hindex, hsame rfl⟩

/-- A phase after the batches. -/
theorem keeps_phaseStep_late {target : Phase} {payload : Payload}
    {op : Db → Payload → Except Failure (Db × Payload)} (hjob : ctx.jobId = jobId)
    (hop : ∀ d d' p', op d payload = .ok (d', p') → d'.facts = d.facts ∧ d'.imports = d.imports)
    (hlow : 4 ≤ target.index) (hhigh : target.index ≤ 9) :
    Process.Keeps (InProgress env config files jobId scanId) (phaseStep ctx target payload op) log
      fun _ _ => True :=
  (keeps_phaseStep hjob hop hhigh (fun hle => by omega) (fun he => by omega)).imp
    fun _ _ _ => trivial

/-! ## The batches -/

/-- The settings of the coordinator pass the checks against its own checkpoint. -/
theorem batchPolicy_eq {payload : Payload} (h : CountsTo env config files n payload) :
    batchPolicy config payload = .ok (max 1 config.fileBatchSize, config.limits) := by
  have hpolicy : ¬ (payload.maxLines.isSome ∨ payload.maxEstBytes.isSome) ∨
      (payload.maxLines.getD 0 = config.limits.maxLines ∧
        payload.maxEstBytes.getD 0 = config.limits.maxEstBytes) := by
    rcases h.limits with ⟨hlines, hbytes, _⟩ | ⟨hlines, hbytes⟩
    · exact .inl (by rw [hlines, hbytes]; simp)
    · exact .inr ⟨by rw [hlines]; rfl, by rw [hbytes]; rfl⟩
  have hlegacy : ¬ (payload.batchSeq.getD 0 ≠ 0 ∧
      ¬ (payload.maxLines.isSome ∨ payload.maxEstBytes.isSome)) := by
    rintro ⟨hsome, hnone⟩
    rw [h.batchSeq] at hsome
    rcases h.limits with ⟨_, _, hn⟩ | ⟨hlines, _⟩
    · exact hsome hn
    · exact hnone (.inl (by rw [hlines]; rfl))
  have hsize : require Failure.batchSizeChanged
      (payload.batchSize.getD 0 = 0 ∨ payload.batchSize.getD 0 = max 1 config.fileBatchSize) =
      .ok () := require_eq_ok.2 h.batchSize
  have hlimits : require Failure.batchPolicyChanged
      (¬ (payload.maxLines.isSome ∨ payload.maxEstBytes.isSome) ∨
        (payload.maxLines.getD 0 = config.limits.maxLines ∧
          payload.maxEstBytes.getD 0 = config.limits.maxEstBytes)) = .ok () :=
    require_eq_ok.2 hpolicy
  rw [batchPolicy, hsize, ok_bind]
  dsimp only
  rw [hlimits, ok_bind, if_neg hlegacy]
  rfl

/-- One turn of the loop. -/
theorem keeps_consumeBatch {k : Nat} {st : IngestState} {items : List CoverageItem}
    (hjob : ctx.jobId = jobId) (hscan : ctx.scanId = scanId)
    (hitems : (batchesOf env config files)[k]? = some items)
    (h : Reading env config files n k st log) :
    Process.Keeps (InProgress env config files jobId scanId)
      (consumeBatch env ctx (max 1 config.fileBatchSize) n st items) log
      fun log' st' => Reading env config files n (k + 1) st' log' := by
  obtain ⟨rfl, hfiles, hlines, hconf, hseq⟩ := h
  unfold consumeBatch
  dsimp only
  split
  · -- the batch was committed before
    rename_i hreplayed
    have hmax : max n (st.batchSeq + 1) = max n st.batchSeq := by omega
    exact .pure ⟨rfl, by rw [hmax]; exact hfiles, by rw [hmax]; exact hlines,
      ⟨rfl, hconf.maxLines, hconf.maxEstBytes⟩, by rw [hmax]; exact hseq⟩
  · rename_i hnew
    have hmax : max n st.batchSeq = st.batchSeq := by omega
    have hmax' : max n (st.batchSeq + 1) = st.batchSeq + 1 := by omega
    rw [hmax] at hfiles hlines hseq
    refine .bind (.transact fun log' s s' result hlog hI hr => ?_)
    rw [hjob, hscan, hfiles, hlines] at hr
    obtain ⟨hI', hfileCount, hlineCount⟩ := hI.batch hitems hconf hr
    have hlength := hlog.length_le
    refine ⟨hI', .pure ⟨rfl, ?_, ?_, ⟨rfl, hconf.maxLines, hconf.maxEstBytes⟩, ?_⟩⟩
    · rw [hmax', filesIn_succ hitems, ← hfileCount, ← hfiles]
      rfl
    · rw [hmax', linesIn_succ hitems, ← hlineCount, ← hlines]
      rfl
    · rw [hmax', List.length_append, List.length_singleton]
      omega

/-- `_ingest_coverage_in_batches` -/
theorem keeps_ingestCoverageInBatches (h : Loaded env config files jobId scanId n ctx log)
    {payload : Payload} (hcounts : CountsTo env config files n payload)
    (hseq : 2 + n ≤ log.length) :
    Process.Keeps (InProgress env config files jobId scanId)
      (ingestCoverageInBatches env config ctx files payload) log fun _ _ => True := by
  refine .bind (.ofExcept fun policy hpolicy => ?_)
  obtain rfl := Except.ok.inj ((batchPolicy_eq hcounts).symm.trans hpolicy)
  refine .bind ((Process.Keeps.foldlM
    (fun pre st log => Reading env config files n pre.length st log) _ ?_ ?_).imp ?_)
  · -- nothing has been read yet
    refine ⟨rfl, ?_, ?_, ⟨rfl, rfl, rfl⟩, by simpa using hseq⟩
    · simpa using hcounts.fileCount
    · simpa using hcounts.lineCount
  · intro pre items post st log hl hreading
    rw [hcounts.batchSeq, List.length_append, List.length_singleton]
    refine keeps_consumeBatch h.job h.scan ?_ hreading
    rw [batchesOf, hl, List.getElem?_append_right (Nat.le_refl _), Nat.sub_self]
    rfl
  · intro log st hreading
    have hfull := hreading.seq
    refine .bind (.ofExcept fun _ _ => (keeps_phaseStep h.job (fun d d' p' hd => ?_) (by decide)
      (fun hle => absurd hle (by decide)) fun _ => ?_).imp fun _ _ _ => trivial)
    · rw [finalizeCoverage_eq hd]
      exact ⟨rfl, rfl⟩
    · rw [batchesOf]
      omega

/-! ## The worker -/

/-- The last construction phases and the seal. -/
def sealConstruction (env : Env) (ctx : ExecutionContext) (paths : List (String × String))
    (payload : Payload) : Worker Unit := do
  let payload ← phaseStep ctx .sourcePrepared payload noOperation
  let payload ← phaseStep ctx .lineMapBuilt payload noOperation
  let payload ← phaseStep ctx .inheritanceComputed payload
    (computeInheritance env ctx.scanId paths)
  let payload ← phaseStep ctx .statsRebuilt payload noOperation
  let _ ← phaseStep ctx .consistencyVerified payload (verifyConsistency ctx.jobId ctx.scanId)
  Process.transact
    (fun db => (sealImport db ctx.jobId ctx.ownerToken ctx.fencingToken).map fun db => (db, ()))
    fun _ => [ImportEvent.phase .sealed]

/-- The construction after the batches. -/
def finishConstruction (env : Env) (ctx : ExecutionContext) (paths : List (String × String))
    (payload : Payload) : Worker Unit := do
  let phase ← readPhase ctx.jobId
  if phase.index < Phase.gitVerified.index then
    Process.ofExcept (ctx.snapshots.forM (verifyGitSnapshot env paths))
    let payload ← phaseStep ctx .gitVerified payload noOperation
    sealConstruction env ctx paths payload
  else sealConstruction env ctx paths payload

/-- The construction, cut in three. -/
theorem construct_eq (env : Env) (config : CoordinatorConfig) (ctx : ExecutionContext)
    (files : List CoverageItem) (paths : List (String × String)) :
    construct env config ctx files paths = (do
      let payload ← phaseStep ctx .scanCreated (startPayload ctx) noOperation
      let payload ← phaseStep ctx .infoStaged payload noOperation
      if ctx.checkpoint.phase.index < Phase.coverageImported.index then
        let payload ← ingestCoverageInBatches env config ctx files payload
        finishConstruction env ctx (repositoryPathMap ctx.payload.repositories paths) payload
      else
        finishConstruction env ctx (repositoryPathMap ctx.payload.repositories paths) payload) := by
  simp only [construct, finishConstruction, sealConstruction, Process.pure_bind]

theorem keeps_checkpoint (hjob : ctx.jobId = jobId) {target : Phase} {payload : Payload}
    (hlow : 4 ≤ target.index) (hhigh : target.index ≤ 9) :
    Process.Keeps (InProgress env config files jobId scanId)
      (phaseStep ctx target payload noOperation) log fun _ _ => True := by
  refine keeps_phaseStep_late hjob (fun d d' p' hd => ?_) hlow hhigh
  obtain ⟨rfl, _⟩ := Prod.mk.inj (pure_eq_ok.1 hd)
  exact ⟨rfl, rfl⟩

theorem keeps_operation (hjob : ctx.jobId = jobId) {target : Phase} {payload : Payload}
    (op : PhaseOp) (hlow : 4 ≤ target.index) (hhigh : target.index ≤ 9) :
    Process.Keeps (InProgress env config files jobId scanId)
      (phaseStep ctx target payload (op.operation env ⟨ctx.jobId, 0, 0⟩ ctx.scanId)) log
      fun _ _ => True :=
  keeps_phaseStep_late hjob
    (fun _ _ _ hd => ⟨PhaseOp.operation_facts hd, (PhaseOp.operation_imports hd).1⟩) hlow hhigh

theorem keeps_sealConstruction (hjob : ctx.jobId = jobId) {paths : List (String × String)}
    {payload : Payload} :
    Process.Keeps (InProgress env config files jobId scanId)
      (sealConstruction env ctx paths payload) log fun _ _ => True := by
  refine .bind ((keeps_checkpoint hjob (by decide) (by decide)).imp fun _ _ _ => ?_)
  refine .bind ((keeps_checkpoint hjob (by decide) (by decide)).imp fun _ _ _ => ?_)
  refine .bind ((keeps_operation hjob (.computeInheritance paths) (by decide)
    (by decide)).imp fun _ _ _ => ?_)
  refine .bind ((keeps_checkpoint hjob (by decide) (by decide)).imp fun _ _ _ => ?_)
  refine .bind ((keeps_operation hjob .verifyConsistency (by decide) (by decide)).imp
    fun _ _ _ => ?_)
  refine .transact fun log' s s' a _ hI hr => ⟨?_, trivial⟩
  rw [hjob] at hr
  cases hseal : sealImport s jobId ctx.ownerToken ctx.fencingToken with
  | error e => simp [hseal, Except.map] at hr
  | ok d =>
    obtain rfl : d = s' := by simpa [hseal, Except.map] using hr
    exact hI.sealed hseal

theorem keeps_finishConstruction (hjob : ctx.jobId = jobId) {paths : List (String × String)}
    {payload : Payload} :
    Process.Keeps (InProgress env config files jobId scanId)
      (finishConstruction env ctx paths payload) log fun _ _ => True := by
  refine .bind (.observe fun log' s phase _ _ _ => ?_)
  split
  · refine .bind (.ofExcept fun _ _ => ?_)
    exact .bind ((keeps_checkpoint hjob (by decide) (by decide)).imp fun _ _ _ =>
      keeps_sealConstruction hjob)
  · exact keeps_sealConstruction hjob

theorem keeps_construct (h : Loaded env config files jobId scanId n ctx log)
    {paths : List (String × String)} :
    Process.Keeps (InProgress env config files jobId scanId) (construct env config ctx files paths)
      log fun _ _ => True := by
  rw [construct_eq]
  refine .bind ((keeps_phaseStep_early h (by decide)).imp fun log₁ p₁ ⟨h₁, _, hp₁⟩ => ?_)
  rw [hp₁]
  refine .bind ((keeps_phaseStep_early h₁ (by decide)).imp fun log₂ p₂ ⟨h₂, hlen, hp₂⟩ => ?_)
  rw [hp₂]
  split
  · rename_i hphase
    have hle : ctx.checkpoint.phase.index ≤ 2 := Nat.le_of_lt_succ hphase
    have hseq : 2 + n ≤ log₂.length := by
      have hsize := h₂.seq
      rcases Nat.lt_or_ge ctx.checkpoint.phase.index 2 with hlt | hge
      · rw [h₂.early hlt]
        exact hlen
      · omega
    exact .bind ((keeps_ingestCoverageInBatches h₂ (h₂.counts hle) hseq).imp fun _ _ _ =>
      keeps_finishConstruction h.job)
  · exact keeps_finishConstruction h.job

/-- The record of a failed publication is an act of anybody. -/
theorem recordPublishFailure_others (jobId scanId : Nat) (db : Db) (owner : Nat) (e : Failure) :
    Others env jobId scanId db (recordPublishFailure db jobId owner e) := by
  refine ⟨.recordFailure jobId "PUBLISH" e.message none (failureStatus e = .aborted) owner,
    ⟨id, id⟩, ?_⟩
  have happly : (Action.recordFailure jobId "PUBLISH" e.message none
      (failureStatus e = .aborted) owner).apply env db =
      ScanImportRecoveryService.recordFailure db jobId "PUBLISH" e.message none (failureStatus e)
        owner := by
    have hstatus : (if decide (failureStatus e = .aborted) = true then .aborted else .failed) =
        failureStatus e := by
      unfold failureStatus
      split <;> rfl
    rw [Action.apply, hstatus]
  rw [Action.exec, happly]
  rfl

theorem keeps_publish {expected : Option Nat} {readSet : Option ReadSetArg} :
    Process.Keeps (InProgress env config files jobId scanId) (publish env jobId expected readSet)
      log fun _ _ => True := by
  refine .bind (.observe fun _ _ owner _ _ _ => ?_)
  refine .bind (.attempt (fun log' s s' committed _ hI hr => ⟨hI.published hr, trivial⟩)
    fun log' s e _ hI hr => ?_)
  refine .bind (.transact fun log' s s' a _ hI hr => ?_)
  obtain ⟨rfl, _⟩ := Prod.mk.inj (pure_eq_ok.1 hr)
  rw [List.append_nil]
  exact ⟨hI.others (recordPublishFailure_others jobId scanId s owner e), trivial⟩

/-- **Every transaction of a worker keeps the import in progress.** -/
theorem keeps_execute (owner fence : Option Nat) (paths : List (String × String)) (verify : Bool)
    (observed : ImmutableArtifactStager.Observed) :
    Process.Keeps (InProgress env config files jobId scanId)
      (execute env config jobId owner fence files paths verify observed) log fun _ _ => True := by
  refine .bind (.observe fun log' s ctx _ hI hload => ?_)
  obtain ⟨n, hloaded⟩ := hI.load hload
  split
  · exact .pure trivial
  · split
    · exact keeps_publish
    · exact .bind ((keeps_construct hloaded).imp fun _ _ _ => keeps_publish)

end Workers

/-! ## What the Candidate has -/

section Stored

variable {env : Env} {scanId : Nat} {db : Db} {parts : List CoverageItem}

/-- **A scan that has some parts and nothing else has their files and their lines, each once.** -/
theorem imported_parts (hok : FactsOk db) (hnodup : (inputLines env scanId parts).Nodup)
    (hw : Within env scanId parts db) (hs : ∀ part ∈ parts, Stores env scanId db part) :
    (importedFiles db scanId).Perm (inputFiles env scanId parts).dedup ∧
      (importedLines db scanId).Perm (inputLines env scanId parts) := by
  refine ⟨(List.perm_ext_iff_of_nodup (nodup_importedFiles hok) (List.nodup_dedup _)).2 fun f => ?_,
    (List.perm_ext_iff_of_nodup (nodup_importedLines hok) hnodup).2 fun x => ?_⟩
  · rw [List.mem_dedup]
    constructor
    · intro hf
      obtain ⟨⟨k, f⟩, hmem, rfl⟩ := List.mem_map.1 hf
      obtain ⟨hk, hscan⟩ := mem_filesOf.1 hmem
      obtain ⟨part, hpart, he⟩ := hw.file k f hk hscan
      exact List.mem_map.2 ⟨part, hpart, he.symm⟩
    · intro hf
      obtain ⟨part, hpart, rfl⟩ := List.mem_map.1 hf
      obtain ⟨k, hk, _⟩ := hs part hpart
      exact List.mem_map.2 ⟨(k, _), mem_filesOf.2 ⟨hk, rfl⟩, rfl⟩
  · obtain ⟨f, facts⟩ := x
    rw [mem_importedLines]
    simp only [inputLines, List.mem_flatMap, List.mem_map, Prod.mk.injEq]
    constructor
    · rintro ⟨q, l, hq, hf, hscan, rfl⟩
      obtain ⟨part, hpart, rfl, r, hr, hfacts⟩ := hw.line q l f hq hf hscan
      exact ⟨part, hpart, r, hr, rfl, hfacts.symm⟩
    · rintro ⟨part, hpart, r, hr, rfl, rfl⟩
      obtain ⟨k, hk, hlines⟩ := hs part hpart
      obtain ⟨q, hq⟩ := hlines r hr
      exact ⟨q, _, hq, hk, rfl, rfl⟩

theorem inputLines_append (parts' : List CoverageItem) :
    inputLines env scanId (parts ++ parts') =
      inputLines env scanId parts ++ inputLines env scanId parts' :=
  List.flatMap_append

theorem itemRow_fileChunks {limits : BatchLimits} {item part : CoverageItem}
    (h : part ∈ fileChunks env limits item) :
    itemRow env scanId part = itemRow env scanId item := by
  rw [itemRow, itemRow, normalizedItem_of_mem_fileChunks env limits h]

/-- The chunks of an input have its lines. -/
theorem inputLines_chunks (limits : BatchLimits) (files : List CoverageItem) :
    inputLines env scanId (iterCoverageFileChunks env limits files) =
      inputLines env scanId files := by
  have one : ∀ item : CoverageItem, inputLines env scanId (fileChunks env limits item) =
      item.lines.map fun r => (itemRow env scanId item, r.facts) := by
    intro item
    have hrow : ∀ part ∈ fileChunks env limits item,
        (part.lines.map fun r => (itemRow env scanId part, r.facts)) =
          part.lines.map fun r => (itemRow env scanId item, r.facts) := fun part hpart => by
      rw [itemRow_fileChunks hpart]
    have hflat := congrArg (List.map fun r : LineRecord => (itemRow env scanId item, r.facts))
      (flatMap_fileChunks_lines env limits item)
    rw [List.map_flatMap] at hflat
    rw [← hflat]
    exact List.flatMap_congr hrow
  rw [iterCoverageFileChunks, inputLines, inputLines, List.flatMap_assoc]
  exact List.flatMap_congr fun item _ => one item

/-- The batches of an input have its lines. -/
theorem inputLines_batches (config : CoordinatorConfig) (files : List CoverageItem) :
    (inputLines env scanId (batchesOf env config files).flatten).Perm
      (inputLines env scanId files) := by
  have hperm := perm_flatten_iterCoverageBatches env config.limits files
    (max 1 config.fileBatchSize)
  have hchunks : (inputLines env scanId (batchesOf env config files).flatten).Perm
      (inputLines env scanId (iterCoverageFileChunks env config.limits files)) :=
    hperm.flatMap_right _
  rwa [inputLines_chunks] at hchunks

/-- The batches of an input have its files. -/
theorem mem_inputFiles_batches {config : CoordinatorConfig} {files : List CoverageItem}
    {f : FileRow} : f ∈ inputFiles env scanId (batchesOf env config files).flatten ↔
      f ∈ inputFiles env scanId files := by
  have hperm := perm_flatten_iterCoverageBatches env config.limits files
    (max 1 config.fileBatchSize)
  simp only [inputFiles, List.mem_map, batchesOf, hperm.mem_iff, iterCoverageFileChunks,
    List.mem_flatMap]
  constructor
  · rintro ⟨part, ⟨item, hitem, hpart⟩, rfl⟩
    exact ⟨item, hitem, (itemRow_fileChunks hpart).symm⟩
  · rintro ⟨item, hitem, rfl⟩
    have hchunks : ∃ c rest, fileChunks env config.limits item = c :: rest ∧ _ :=
      head_fileChunks item
    obtain ⟨part, rest, hchunks, _⟩ := hchunks
    have hpart : part ∈ fileChunks env config.limits item := by
      rw [hchunks]
      exact List.mem_cons_self
    exact ⟨part, ⟨item, hitem, hpart⟩, itemRow_fileChunks hpart⟩

end Stored

/-! ## Every run -/

/-- What the workers of a job have done, with the list of what they have committed. -/
structure ImportedOnce (env : Env) (config : CoordinatorConfig) (files : List CoverageItem)
    (jobId scanId : Nat) (log : List ImportEvent) (db : Db) : Prop where
  /-- The events are the first ones of the history of the job, each once and in order. -/
  beginning : log <+: history (batchesOf env config files)
  /-- The checkpoint counts the events and has the last phase. -/
  checkpoint : ∃ c, ImportCheckpointRepository.get db jobId = some c ∧
    c.checkpointSeq = log.length ∧ c.phase = lastPhase log
  /-- The Candidate has the files of the committed batches, each once. -/
  storedFiles : (importedFiles db scanId).Perm
    (inputFiles env scanId (ingestedParts log)).dedup
  /-- It has the lines of the committed batches, each once. -/
  storedLines : (importedLines db scanId).Perm (inputLines env scanId (ingestedParts log))
  /-- From the phase `COVERAGE_IMPORTED` on it has the whole input. -/
  complete : Phase.coverageImported.index ≤ (lastPhase log).index →
    (importedFiles db scanId).Perm (inputFiles env scanId files) ∧
      (importedLines db scanId).Perm (inputLines env scanId files)

/-- A worker of the job, entered with any tokens. -/
def Executes (env : Env) (config : CoordinatorConfig) (jobId : Nat) (files : List CoverageItem)
    (p : Worker Unit) : Prop :=
  ∃ owner fence paths verify observed,
    p = execute env config jobId owner fence files paths verify observed

section Runs

variable {env : Env} {config : CoordinatorConfig} {files : List CoverageItem}
  {jobId scanId : Nat} {log : List ImportEvent} {db db₀ : Db}

/-- The files and lines of the committed batches. -/
theorem InProgress.stored (h : InProgress env config files jobId scanId log db)
    (hinput : DistinctInput env files) :
    (importedFiles db scanId).Perm (inputFiles env scanId (ingestedParts log)).dedup ∧
      (importedLines db scanId).Perm (inputLines env scanId (ingestedParts log)) := by
  obtain ⟨c, n, _, hpos⟩ := h.position
  have hall : (inputLines env scanId (batchesOf env config files).flatten).Nodup :=
    (inputLines_batches config files).nodup_iff.2 hinput.nodup_inputLines
  rw [hpos.parts]
  rw [← List.take_append_drop n (batchesOf env config files), List.flatten_append,
    inputLines_append] at hall
  exact imported_parts h.ok (List.nodup_append.1 hall).1 hpos.within hpos.stores

/-- When all batches are committed, these are the files and lines of the input. -/
theorem InProgress.whole (h : InProgress env config files jobId scanId log db)
    (hinput : DistinctInput env files)
    (hparts : ingestedParts log = (batchesOf env config files).flatten) :
    (importedFiles db scanId).Perm (inputFiles env scanId files) ∧
      (importedLines db scanId).Perm (inputLines env scanId files) := by
  obtain ⟨hfiles, hlines⟩ := h.stored hinput
  rw [hparts] at hfiles hlines
  refine ⟨hfiles.trans ?_, hlines.trans (inputLines_batches config files)⟩
  refine (List.perm_ext_iff_of_nodup (List.nodup_dedup _) hinput.nodup_inputFiles).2 fun f => ?_
  rw [List.mem_dedup]
  exact mem_inputFiles_batches

/-- An import in progress has been done once so far. -/
theorem InProgress.importedOnce (h : InProgress env config files jobId scanId log db)
    (hinput : DistinctInput env files) : ImportedOnce env config files jobId scanId log db := by
  obtain ⟨c, n, hc, hpos⟩ := h.position
  obtain ⟨hfiles, hlines⟩ := h.stored hinput
  refine ⟨?_, ⟨c, hc, hpos.length.symm, hpos.phase.symm⟩, hfiles, hlines, fun hlate => ?_⟩
  · rw [hpos.events]
    exact List.take_prefix _ _
  · rw [hpos.phase] at hlate
    exact h.whole hinput (by rw [hpos.parts, hpos.late hlate, List.take_length])

/-- The rows an import is registered with. -/
theorem create_registers {r : ImportRequest} {created : CreatedImport}
    (hcreate : create env db r = .ok (db₀, created))
    (howned : ∀ c, ImportCheckpointRepository.get db db.uuid = some c →
      ∃ job, JobRepository.get db db.uuid = some job) :
    (∃ job, JobRepository.get db₀ created.jobId = some job ∧
      job.inputPayload.scanId = created.scanId) ∧
    (∃ scan, db₀.facts.scans.get? created.scanId = some scan) ∧
    ∃ sha token, ImportCheckpointRepository.get db₀ created.jobId =
      some ⟨created.scanId, .locked, 0, { scanId := some created.scanId }, sha, token⟩ := by
  simp only [create, bind_eq_ok, pure_eq_ok, Prod.exists, Prod.mk.injEq] at hcreate
  obtain ⟨_, _, db₁, acquired, hacq, _, _, db₂, projectId, hproj, db₃, scanId, hscan, db₄, hreg,
    db₅, hjob, rfl, rfl⟩ := hcreate
  obtain ⟨rs, ls, rfl⟩ := (RepositoryResourceLockService.acquire_ok hacq).frame
  obtain ⟨projects, rfl⟩ := ProjectService.ensureProject_ok hproj
  obtain ⟨repositories, snapshots, rfl⟩ := ProjectService.registerRepositories_ok hreg
  simp only [JobRepository.create, bind_eq_ok, require_eq_ok, pure_eq_ok] at hjob
  obtain ⟨_, hfree, rfl⟩ := hjob
  generalize hdb : ProjectStateRepository.ensure _ projectId = d at hscan
  have himports : d.imports.jobs = db.imports.jobs ∧
      d.imports.checkpoints = db.imports.checkpoints := by
    rw [← hdb]
    simp [ImmutableArtifactStager.stage]
  have hthird : db₃.imports = d.imports ∧ ∃ scan, db₃.facts.scans.get? scanId = some scan := by
    obtain ⟨_, ⟨rfl, scan, hs, _⟩ | ⟨rfl, rfl⟩⟩ := ProjectService.createScan_ok hscan
    · exact ⟨rfl, scan, hs⟩
    · exact ⟨rfl, _, by simp; rfl⟩
  obtain ⟨himports₃, scan, hs⟩ := hthird
  have hnone : JobRepository.get db db.uuid = none := by
    have hget : JobRepository.get db₃ db.uuid = none := by
      simpa [JobRepository.get, ProjectStateRepository.advance] using hfree
    rwa [JobRepository.get, himports₃, himports.1] at hget
  have hcheckpoint : ImportCheckpointRepository.get db db.uuid = none := by
    cases hc : ImportCheckpointRepository.get db db.uuid with
    | none => rfl
    | some c =>
      obtain ⟨job, hjob⟩ := howned c hc
      rw [hnone] at hjob
      cases hjob
  refine ⟨?_, ⟨scan, ?_⟩, r.artifactSha256,
    ScanImportRecoveryService.firstToken acquired, ?_⟩
  · simp only [JobRepository.get, ImportCheckpointRepository.create_jobs, Db.putJob,
      Keyed.get?_put, if_true, Option.some.injEq]
    exact ⟨_, rfl, rfl⟩
  · rw [ImportCheckpointRepository.create_facts]
    simpa [Db.putJob, ProjectStateRepository.advance] using hs
  · refine ImportCheckpointRepository.get_create ?_
    rw [← hcheckpoint, ImportCheckpointRepository.get, ImportCheckpointRepository.get, ← himports.2,
      ← himports₃]
    simp [Db.putJob, ProjectStateRepository.advance]

/-- An import that has just been created. -/
theorem InProgress.created {r : ImportRequest} {created : CreatedImport}
    (hreach : Reachable env db) (hcreate : create env db r = .ok (db₀, created))
    (hnew : db.facts.scans.get? created.scanId = none) :
    InProgress env config files created.jobId created.scanId [] db₀ := by
  have hrows := create_sameRows hcreate
  have hfree : ∀ k f, db₀.facts.files.get? k = some f → f.scanId ≠ created.scanId := by
    rintro k f hk hs
    rw [hrows.files] at hk
    obtain ⟨scan, hscan⟩ := hreach.owned.file k f hk
    rw [hs, hnew] at hscan
    cases hscan
  have hstart : (∃ job, JobRepository.get db₀ created.jobId = some job ∧
        job.inputPayload.scanId = created.scanId) ∧
      (∃ scan, db₀.facts.scans.get? created.scanId = some scan) ∧
      ∃ sha token, ImportCheckpointRepository.get db₀ created.jobId =
        some ⟨created.scanId, .locked, 0, { scanId := some created.scanId }, sha, token⟩ :=
    create_registers hcreate fun c hc => by
      obtain ⟨job, hjob⟩ := hreach.owned.checkpoint _ c hc
      exact ⟨job, hjob⟩
  obtain ⟨hjob, hscan, sha, token, hc⟩ := hstart
  refine ⟨hrows.factsOk hreach.factsOk, hjob, hscan, ⟨_, 0, hc, ?_⟩⟩
  constructor
  case seq => rfl
  case events => rfl
  case phase => rfl
  case parts => rfl
  case candidate => rfl
  case bound => exact Nat.zero_le _
  case early => exact fun _ => rfl
  case late => exact fun hlate => absurd hlate (Nat.not_lt_zero _)
  case last => exact Nat.zero_le _
  case payload => exact fun _ => ⟨rfl, rfl, rfl, .inl rfl, .inl ⟨rfl, rfl, rfl⟩⟩
  case within =>
    exact ⟨fun k f hk hs => absurd hs (hfree k f hk),
      fun k l f _ hf hs => absurd hs (hfree _ f hf)⟩
  case stores => exact fun part hpart => absurd hpart List.not_mem_nil
  case settled => exact fun hsealed => absurd hsealed (Nat.not_le.2 (Nat.zero_lt_succ _))

/-- **Exactly-once import.** -/
theorem import_exactly_once {r : ImportRequest} {created : CreatedImport}
    {pool : Process.Pool Db Failure ImportEvent Unit} (hreach : Reachable env db)
    (hcreate : create env db r = .ok (db₀, created))
    (hnew : db.facts.scans.get? created.scanId = none) (hinput : DistinctInput env files)
    (hrun : Process.Pool.Run (Executes env config created.jobId files)
      (Others env created.jobId created.scanId) ⟨db₀, [], []⟩ pool) :
    ImportedOnce env config files created.jobId created.scanId pool.log pool.state := by
  have hstart : Process.Pool.Ok (InProgress env config files created.jobId created.scanId)
      (⟨db₀, [], []⟩ : Process.Pool Db Failure ImportEvent Unit) :=
    ⟨.created hreach hcreate hnew, fun p hp => absurd hp List.not_mem_nil⟩
  refine InProgress.importedOnce (hrun.inv hstart ?_ fun log s s' ho hI => hI.others ho) hinput
  rintro p ⟨owner, fence, paths, verify, observed, rfl⟩ log
  exact keeps_execute owner fence paths verify observed

end Runs

end ScanImportCoordinator

namespace Sample

open ScanImportCoordinator

/-- One file in a batch. -/
def smallBatches : CoordinatorConfig := { fileBatchSize := 1 }

/-- Two files. -/
def twoFiles : List CoverageItem := [twoLines, file "b.cpp" [uncovered 1 "c();"]]

/-- The worker of the first import. -/
def importWorker : Worker Unit :=
  execute env smallBatches 1 (some 2) (some 1) twoFiles [] false (some ("sha1", 10))

/-- The database the first import leaves when it is created. -/
def createdDb : Db :=
  match create env oneResource firstImport with
  | .ok r => r.1
  | .error _ => Db.empty

/-- A worker that is gone after its first batch. -/
def firstWorker : Process.Report Db Failure ImportEvent Unit :=
  Process.run importWorker (List.replicate 4 id) createdDb

/-- A second one that goes on to the end. -/
def secondWorker : Process.Report Db Failure ImportEvent Unit :=
  Process.run importWorker (List.replicate 20 id) firstWorker.state

theorem create_createdDb : create env oneResource firstImport = .ok (createdDb, ⟨1, 2, 1, 1⟩) := by
  have hcreated : (create env oneResource firstImport).toOption.map Prod.snd =
      some ⟨1, 2, 1, 1⟩ := by decide +kernel
  cases h : create env oneResource firstImport with
  | error e =>
    rw [h] at hcreated
    cases hcreated
  | ok r =>
    obtain ⟨db, created⟩ := r
    rw [h] at hcreated
    obtain rfl : created = ⟨1, 2, 1, 1⟩ := Option.some.inj hcreated
    rw [createdDb, h]

end Sample

open Sample in
/-- An import of two files, resumed after a crash behind the first batch. -/
theorem import_exactly_once_resumed :
    ScanImportCoordinator.ImportedOnce Sample.env smallBatches twoFiles 1 1
      (firstWorker.log ++ secondWorker.log) secondWorker.state ∧
    (firstWorker.log ++ secondWorker.log).length = 13 := by
  have hidle : ∀ (n : Nat), ∀ act ∈ List.replicate n (id : Db → Db), ∀ s,
      ScanImportCoordinator.Others Sample.env 1 1 s (act s) := by
    intro n act hact s
    rw [List.eq_of_mem_replicate hact]
    exact ⟨.tick 0, ⟨id, id⟩, rfl⟩
  have hworker : ScanImportCoordinator.Executes Sample.env smallBatches 1 twoFiles importWorker :=
    ⟨_, _, _, _, _, rfl⟩
  have hfirst : ∃ p, Process.Pool.Run
      (ScanImportCoordinator.Executes Sample.env smallBatches 1 twoFiles)
      (ScanImportCoordinator.Others Sample.env 1 1) ⟨createdDb, [], [importWorker]⟩
      ⟨firstWorker.state, [] ++ firstWorker.log, [p]⟩ :=
    Process.Pool.run_exec (hidle 4) createdDb [] []
  obtain ⟨p, hfirst⟩ := hfirst
  have hsecond : ∃ q, Process.Pool.Run
      (ScanImportCoordinator.Executes Sample.env smallBatches 1 twoFiles)
      (ScanImportCoordinator.Others Sample.env 1 1)
      ⟨firstWorker.state, [] ++ firstWorker.log, [importWorker, p]⟩
      ⟨secondWorker.state, [] ++ firstWorker.log ++ secondWorker.log, [q, p]⟩ :=
    Process.Pool.run_exec (hidle 20) firstWorker.state _ [p]
  obtain ⟨q, hsecond⟩ := hsecond
  have hrun := (Relation.ReflTransGen.head (.start createdDb [] [] hworker) hfirst).trans
    (.head (.start firstWorker.state _ [p] hworker) hsecond)
  have hinput : ProjectService.DistinctInput Sample.env twoFiles :=
    ⟨by decide +kernel, by decide +kernel, by decide +kernel⟩
  exact ⟨ScanImportCoordinator.import_exactly_once ⟨[.registerResource 7], rfl⟩ create_createdDb
    (by decide +kernel) hinput hrun, by decide +kernel⟩

end FosCoverage
