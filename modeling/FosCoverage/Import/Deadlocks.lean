import FosCoverage.Lib.Refinement
import FosCoverage.System
import FosCoverage.Import.CoordinatorSpec

/-!
# Batches that are tried again after a deadlock

`_ingest_coverage_batch` runs its transaction under `run_transaction_with_deadlock_retry`: an attempt
that the database aborts with a deadlock is rolled back and the same batch is ingested again.

* A batch of a file-count-only policy has the line records of the reader, which can be read once.
  `consumed k` is such a batch after `k` statements with line records have been prepared, `leftover`
  is what any batch has left for the next attempt.
* Where the deadlocks strike is a schedule: for each batch the numbers of the statements at which
  its attempts are aborted.
* `ingestCoverageInBatchesRetrying` reads and stores the input under such a schedule.  Without
  strikes it is the import as it is modelled elsewhere (`retrying_nil`).

**The import under a schedule is a refinement of the import without deadlocks if and only if no
strike takes a line record away** (`deadlocks_transparent_iff`): with a limit on lines or bytes none
does, since the records of a chunk are a list.
-/

set_option autoImplicit false

namespace FosCoverage

open Relational Outcome Process

namespace ScanImportCoordinator

/-! ## What an aborted attempt leaves -/

/-- The statements with line records of a file: bounded groups of its lines. -/
def lineStatements (records : List LineRecord) : List (List LineRecord) :=
  Grouping.groups (fun current _ => ProjectService.lineIngestBatchSize ≤ current.length) records

/-- The files of a batch after so many statements; a record that was read is gone. -/
def consumed : Nat → List CoverageItem → List CoverageItem
  | _, [] => []
  | k, item :: rest =>
    { item with lines := ((lineStatements item.lines).drop k).flatten } ::
      consumed (k - (lineStatements item.lines).length) rest

/-- The batch of the next attempt.  The lines of a chunk are a list and can be read again, those of
a whole file are the iterator of the reader. -/
def leftover (limits : BatchLimits) (batch : List CoverageItem) (k : Nat) : List CoverageItem :=
  if limits.maxLines = 0 ∧ limits.maxEstBytes = 0 then consumed k batch else batch

/-- The batch after some aborted attempts. -/
def leftovers (limits : BatchLimits) (strikes : List Nat) (batch : List CoverageItem) :
    List CoverageItem := strikes.foldl (leftover limits) batch

/-! ## The import under a schedule -/

/-- A deadlock that is reported to the caller. -/
def deadlock : Failure := .technicalFailure "OperationalError"

/-- The transaction of a batch with its first attempts aborted: `run_transaction_with_deadlock_retry`
around `ingest`. -/
def ingestCoverageBatchRetrying (env : Env) (ctx : ExecutionContext) (limits : BatchLimits)
    (batchSeq files lines : Nat) (payload : Payload) :
    (strikes : List Nat) → (retries : Nat) → List CoverageItem → Worker BatchResult
  | [], _, batch => Process.transact
      (fun db => ingestCoverageBatch env db ctx.jobId ctx.ownerToken ctx.fencingToken ctx.scanId
        batch batchSeq files lines payload)
      fun _ => [ImportEvent.batch batchSeq batch]
  | _ :: _, 0, _ => .step id (fun _ => []) fun _ => .raise deadlock
  | k :: strikes, retries + 1, batch => .step id (fun _ => []) fun _ =>
      ingestCoverageBatchRetrying env ctx limits batchSeq files lines payload strikes retries
        (leftover limits batch k)

/-- `consume_batch` under a schedule. -/
def consumeBatchRetrying (env : Env) (ctx : ExecutionContext) (limits : BatchLimits)
    (retries : Nat) (schedule : Nat → List Nat) (batchSize completedBatchSeq : Nat)
    (st : IngestState) (batch : List CoverageItem) : Worker IngestState := do
  let batchSeq := st.batchSeq + 1
  if batchSeq ≤ completedBatchSeq then
    pure (st.afterBatch batchSize ctx.fencingToken batchSeq st.processedFileCount
      st.processedLineCount (consumeCoverageBatch env batch))
  else do
    let result ← ingestCoverageBatchRetrying env ctx limits batchSeq st.processedFileCount
      st.processedLineCount st.phasePayload (schedule batchSeq) retries batch
    pure (st.afterBatch batchSize ctx.fencingToken batchSeq
      (st.processedFileCount + result.fileCount) (st.processedLineCount + result.lineCount) result)

/-- `_ingest_coverage_in_batches` under a schedule. -/
def ingestCoverageInBatchesRetrying (env : Env) (config : CoordinatorConfig)
    (ctx : ExecutionContext) (retries : Nat) (schedule : Nat → List Nat)
    (files : List CoverageItem) (phasePayload : Payload) : Worker Payload := do
  let (batchSize, limits) ← Process.ofExcept (batchPolicy config phasePayload)
  let start : IngestState := ⟨0, phasePayload.processedFileCount.getD 0,
    phasePayload.processedLineCount.getD 0,
    { phasePayload with
      batchSize := some batchSize
      maxLines := some limits.maxLines
      maxEstBytes := some limits.maxEstBytes
      fencingToken := some ctx.fencingToken }⟩
  let st ← (iterCoverageBatches env files batchSize limits).foldlM
    (consumeBatchRetrying env ctx limits retries schedule batchSize
      (phasePayload.batchSeq.getD 0)) start
  Process.ofExcept (require .inputCountMismatch
    (st.processedFileCount = files.length ∧ st.processedLineCount = inputLineCount files))
  let payload : Payload :=
    { st.phasePayload with
      fileCount := some files.length
      lineCount := some (inputLineCount files) }
  phaseStep ctx .coverageImported payload
    (finalizeCoverage ctx.jobId ctx.ownerToken ctx.fencingToken ctx.scanId files.length
      (inputLineCount files))

/-- Without deadlocks the import is the modelled one. -/
theorem retrying_nil (env : Env) (config : CoordinatorConfig) (ctx : ExecutionContext)
    (retries : Nat) (files : List CoverageItem) (phasePayload : Payload) :
    ingestCoverageInBatchesRetrying env config ctx retries (fun _ => []) files phasePayload =
      ingestCoverageInBatches env config ctx files phasePayload := rfl

/-! ## Lines that are lost -/

/-- The line records of a batch. -/
def lineTotal (batch : List CoverageItem) : Nat := (batch.map fun item => item.lines.length).sum

/-- The statements that are left have no more lines, and as many only if nothing was read. -/
theorem length_drop_statements (records : List LineRecord) (k : Nat) :
    ((lineStatements records).drop k).flatten.length ≤ records.length ∧
      (((lineStatements records).drop k).flatten.length = records.length →
        ((lineStatements records).drop k).flatten = records) := by
  have hall : ((lineStatements records).take k).flatten ++
      ((lineStatements records).drop k).flatten = records := by
    rw [← List.flatten_append, List.take_append_drop]
    exact Grouping.flatten_groups _ records
  have hlen := congrArg List.length hall
  rw [List.length_append] at hlen
  refine ⟨by omega, fun heq => ?_⟩
  have hnil : ((lineStatements records).take k).flatten = [] :=
    List.eq_nil_of_length_eq_zero (by omega)
  rw [hnil, List.nil_append] at hall
  exact hall

theorem lineTotal_consumed (k : Nat) (batch : List CoverageItem) :
    lineTotal (consumed k batch) ≤ lineTotal batch ∧
      (lineTotal (consumed k batch) = lineTotal batch → consumed k batch = batch) := by
  induction batch generalizing k with
  | nil => exact ⟨Nat.le_refl _, fun _ => by rw [consumed]⟩
  | cons item rest ih =>
    obtain ⟨hle, heq⟩ := ih (k - (lineStatements item.lines).length)
    obtain ⟨hle', heq'⟩ := length_drop_statements item.lines k
    simp only [consumed, lineTotal, List.map_cons, List.sum_cons] at hle heq ⊢
    refine ⟨by omega, fun h => ?_⟩
    rw [heq (by omega), heq' (by omega)]

theorem lineTotal_leftovers (limits : BatchLimits) (strikes : List Nat) (batch : List CoverageItem) :
    lineTotal (leftovers limits strikes batch) ≤ lineTotal batch ∧
      (lineTotal (leftovers limits strikes batch) = lineTotal batch →
        leftovers limits strikes batch = batch) := by
  induction strikes generalizing batch with
  | nil => exact ⟨Nat.le_refl _, fun _ => rfl⟩
  | cons k strikes ih =>
    obtain ⟨hle, heq⟩ := ih (leftover limits batch k)
    have hone : lineTotal (leftover limits batch k) ≤ lineTotal batch ∧
        (lineTotal (leftover limits batch k) = lineTotal batch → leftover limits batch k = batch) := by
      unfold leftover
      split
      · exact lineTotal_consumed k batch
      · exact ⟨Nat.le_refl _, fun _ => rfl⟩
    refine ⟨Nat.le_trans hle hone.1, fun h => ?_⟩
    replace h : lineTotal (leftovers limits strikes (leftover limits batch k)) = lineTotal batch := h
    have hfirst := hone.2 (by omega)
    show leftovers limits strikes (leftover limits batch k) = batch
    rw [heq (by omega), hfirst]

/-- With a limit nothing is lost. -/
theorem leftovers_of_limits {limits : BatchLimits}
    (h : ¬ (limits.maxLines = 0 ∧ limits.maxEstBytes = 0)) (strikes : List Nat)
    (batch : List CoverageItem) : leftovers limits strikes batch = batch := by
  induction strikes with
  | nil => rfl
  | cons k strikes ih =>
    show leftovers limits strikes (leftover limits batch k) = batch
    rw [leftover, if_neg h, ih]

/-! ## Harmless schedules -/

/-- No strike takes a line record of the batches that are ingested, the first of which has the
number after `seq`. -/
def HarmlessFrom (limits : BatchLimits) (schedule : Nat → List Nat) (completedBatchSeq : Nat) :
    (seq : Nat) → List (List CoverageItem) → Prop
  | _, [] => True
  | seq, batch :: batches =>
    (completedBatchSeq ≤ seq → leftovers limits (schedule (seq + 1)) batch = batch) ∧
      HarmlessFrom limits schedule completedBatchSeq (seq + 1) batches

/-- The policy is refused, or no strike takes a line record away. -/
def Harmless (env : Env) (config : CoordinatorConfig) (schedule : Nat → List Nat)
    (files : List CoverageItem) (phasePayload : Payload) : Prop :=
  ∀ batchSize limits, batchPolicy config phasePayload = .ok (batchSize, limits) →
    HarmlessFrom limits schedule (phasePayload.batchSeq.getD 0) 0
      (iterCoverageBatches env files batchSize limits)

/-- The lines the import counts. -/
def delivered (limits : BatchLimits) (schedule : Nat → List Nat) (completedBatchSeq : Nat) :
    (seq : Nat) → List (List CoverageItem) → Nat
  | _, [] => 0
  | seq, batch :: batches =>
    (if seq + 1 ≤ completedBatchSeq then 0
      else lineTotal (leftovers limits (schedule (seq + 1)) batch)) +
        delivered limits schedule completedBatchSeq (seq + 1) batches

/-- **A schedule that is not harmless loses lines.** -/
theorem delivered_le {limits : BatchLimits} {schedule : Nat → List Nat} {completedBatchSeq : Nat}
    (seq : Nat) (batches : List (List CoverageItem)) :
    delivered limits schedule completedBatchSeq seq batches ≤
        delivered limits (fun _ => []) completedBatchSeq seq batches ∧
      (delivered limits schedule completedBatchSeq seq batches =
        delivered limits (fun _ => []) completedBatchSeq seq batches →
        HarmlessFrom limits schedule completedBatchSeq seq batches) := by
  induction batches generalizing seq with
  | nil => exact ⟨Nat.le_refl _, fun _ => trivial⟩
  | cons batch batches ih =>
    obtain ⟨hle, heq⟩ := ih (seq + 1)
    obtain ⟨hle', heq'⟩ := lineTotal_leftovers limits (schedule (seq + 1)) batch
    have hnone : leftovers limits [] batch = batch := rfl
    simp only [delivered, HarmlessFrom, hnone]
    split
    · rename_i hdone
      exact ⟨by omega, fun h => ⟨fun hge => absurd hdone (by omega), heq (by omega)⟩⟩
    · exact ⟨by omega, fun h => ⟨fun _ => heq' (by omega), heq (by omega)⟩⟩

theorem harmlessFrom_of_limits {limits : BatchLimits}
    (h : ¬ (limits.maxLines = 0 ∧ limits.maxEstBytes = 0)) (schedule : Nat → List Nat)
    (completedBatchSeq seq : Nat) (batches : List (List CoverageItem)) :
    HarmlessFrom limits schedule completedBatchSeq seq batches := by
  induction batches generalizing seq with
  | nil => trivial
  | cons batch batches ih => exact ⟨fun _ => leftovers_of_limits h _ batch, ih (seq + 1)⟩

/-- **With a limit on lines or bytes every schedule is harmless.** -/
theorem harmless_of_limits {env : Env} {config : CoordinatorConfig} {phasePayload : Payload}
    (h : ∀ batchSize limits, batchPolicy config phasePayload = .ok (batchSize, limits) →
      ¬ (limits.maxLines = 0 ∧ limits.maxEstBytes = 0)) (schedule : Nat → List Nat)
    (files : List CoverageItem) : Harmless env config schedule files phasePayload :=
  fun batchSize limits hpolicy =>
    harmlessFrom_of_limits (h batchSize limits hpolicy) schedule _ 0 _

/-! ## The retried transaction -/

section Retrying

variable {env : Env} {config : CoordinatorConfig} {ctx : ExecutionContext} {limits : BatchLimits}
  {schedule : Nat → List Nat}

/-- The result of a batch counts the lines the last attempt has read. -/
theorem yields_ingestRetrying (batchSeq files lines : Nat) (payload : Payload) (strikes : List Nat)
    (retries : Nat) (batch : List CoverageItem) :
    Yields (ingestCoverageBatchRetrying env ctx limits batchSeq files lines payload strikes retries
      batch) fun result => result.lineCount = lineTotal (leftovers limits strikes batch) := by
  induction strikes generalizing retries batch with
  | nil =>
    refine Yields.transact fun db db' result hok => ?_
    obtain ⟨_, _, _, _, _, _, hing, _⟩ := ingestCoverageBatch_ok hok
    simp only [ProjectService.ingestFileBatch, bind_eq_ok] at hing
    obtain ⟨_, _, hing⟩ := hing
    split at hing
    · rename_i hnil
      obtain ⟨_, rfl⟩ := Prod.mk.inj (pure_eq_ok.1 hing)
      subst hnil
      rfl
    · simp only [bind_eq_ok, pure_eq_ok, Prod.mk.injEq] at hing
      obtain ⟨_, _, _, _, _, rfl⟩ := hing
      rfl
  | cons k strikes ih =>
    cases retries with
    | zero => exact Yields.step fun _ => Yields.raise
    | succ retries => exact Yields.step fun _ => ih retries (leftover limits batch k)

/-- **Attempts that lose nothing are a refinement of the single transaction.** -/
theorem refines_ingestRetrying (batchSeq files lines : Nat) (payload : Payload)
    {strikes : List Nat} {retries : Nat} (hretries : strikes.length ≤ retries)
    {batch : List CoverageItem} (hkeep : leftovers limits strikes batch = batch) :
    Refines (ingestCoverageBatchRetrying env ctx limits batchSeq files lines payload strikes retries
      batch) (ingestCoverageBatchRetrying env ctx limits batchSeq files lines payload [] retries
        batch) := by
  induction strikes generalizing retries with
  | nil => exact .refl _
  | cons k strikes ih =>
    cases retries with
    | zero => cases hretries
    | succ retries =>
      -- no later strike gives back what the first one took
      have hfirst : leftover limits batch k = batch := by
        obtain ⟨hle, _⟩ := lineTotal_leftovers limits strikes (leftover limits batch k)
        have htotal : lineTotal (leftovers limits strikes (leftover limits batch k)) =
            lineTotal batch := congrArg lineTotal hkeep
        obtain ⟨hone, heq⟩ := lineTotal_leftovers limits [k] batch
        replace hone : lineTotal (leftover limits batch k) ≤ lineTotal batch := hone
        exact heq (show lineTotal (leftover limits batch k) = _ by omega)
      have hrest : leftovers limits strikes batch = batch := by
        have hkeep' : leftovers limits strikes (leftover limits batch k) = batch := hkeep
        rwa [hfirst] at hkeep'
      show Refines (.step id (fun _ => []) fun _ => ingestCoverageBatchRetrying env ctx limits
        batchSeq files lines payload strikes retries (leftover limits batch k)) _
      rw [hfirst]
      exact (ih (Nat.le_of_succ_le_succ hretries) hrest).skip

theorem yields_consumeRetrying (retries batchSize completedBatchSeq : Nat) (st : IngestState)
    (batch : List CoverageItem) :
    Yields (consumeBatchRetrying env ctx limits retries schedule batchSize completedBatchSeq st
      batch) fun st' => st'.batchSeq = st.batchSeq + 1 ∧
        st'.processedLineCount = st.processedLineCount +
          if st.batchSeq + 1 ≤ completedBatchSeq then 0
          else lineTotal (leftovers limits (schedule (st.batchSeq + 1)) batch) := by
  unfold consumeBatchRetrying
  dsimp only
  split
  · exact Yields.pure ⟨rfl, rfl⟩
  · refine (yields_ingestRetrying _ _ _ _ _ retries batch).bind fun result hcount => ?_
    exact Yields.pure ⟨rfl, by rw [← hcount]; rfl⟩

/-- What the loop counts. -/
theorem yields_loop (retries batchSize completedBatchSeq : Nat) (st : IngestState)
    (batches : List (List CoverageItem)) :
    Yields (batches.foldlM (consumeBatchRetrying env ctx limits retries schedule batchSize
      completedBatchSeq) st) fun st' => st'.processedLineCount = st.processedLineCount +
        delivered limits schedule completedBatchSeq st.batchSeq batches := by
  induction batches generalizing st with
  | nil => exact Yields.pure rfl
  | cons batch batches ih =>
    rw [List.foldlM_cons]
    refine (yields_consumeRetrying retries batchSize completedBatchSeq st batch).bind ?_
    rintro st₁ ⟨hseq, hcount⟩
    refine (ih st₁).conseq fun st₂ hst₂ => ?_
    rw [hst₂, hcount, hseq, Nat.add_assoc]
    rfl

theorem refines_loop {retries : Nat} (hretries : ∀ n, (schedule n).length ≤ retries)
    (batchSize completedBatchSeq : Nat) (st : IngestState) {batches : List (List CoverageItem)}
    (h : HarmlessFrom limits schedule completedBatchSeq st.batchSeq batches) :
    Refines (batches.foldlM (consumeBatchRetrying env ctx limits retries schedule batchSize
      completedBatchSeq) st) (batches.foldlM (consumeBatchRetrying env ctx limits retries
        (fun _ => []) batchSize completedBatchSeq) st) := by
  induction batches generalizing st with
  | nil => exact .refl _
  | cons batch batches ih =>
    rw [List.foldlM_cons, List.foldlM_cons]
    refine Refines.bind ?_ (yields_consumeRetrying retries batchSize completedBatchSeq st batch)
      fun st₁ hst₁ => ih st₁ (by rw [hst₁.1]; exact h.2)
    unfold consumeBatchRetrying
    dsimp only
    split
    · exact .refl _
    · rename_i hseq
      exact (refines_ingestRetrying _ _ _ _ (hretries _) (h.1 (by omega))).bind
        (Q := fun _ => True) (fun _ _ _ _ => trivial) fun _ _ => .refl _

/-- An import that ends with a result has counted every line of its input. -/
theorem yields_retrying (retries : Nat) (files : List CoverageItem) (phasePayload : Payload) :
    Yields (ingestCoverageInBatchesRetrying env config ctx retries schedule files phasePayload)
      fun _ => ∀ batchSize limits, batchPolicy config phasePayload = .ok (batchSize, limits) →
        phasePayload.processedLineCount.getD 0 +
          delivered limits schedule (phasePayload.batchSeq.getD 0) 0
            (iterCoverageBatches env files batchSize limits) = inputLineCount files := by
  unfold ingestCoverageInBatchesRetrying
  refine (Yields.ofExcept fun policy hpolicy => hpolicy).bind ?_
  rintro ⟨batchSize, limits⟩ hpolicy
  refine (yields_loop retries batchSize _ _ _).bind fun st hst => ?_
  refine (Yields.ofExcept fun u hu => hu).bind fun u hu => ?_
  intro script s payload _ batchSize' limits' hpolicy'
  obtain ⟨rfl, rfl⟩ := Prod.mk.inj (Except.ok.inj (hpolicy.symm.trans hpolicy'))
  exact hst.symm.trans (require_eq_ok.1 hu).2

/-- **Deadlock retries are transparent exactly when they take no line record away.**  An import under
a schedule of deadlocks, fewer for each batch than there are attempts, is a refinement of the import
without deadlocks if the schedule is harmless; and only then, where the import without deadlocks
succeeds on some database that nobody else touches. -/
theorem deadlocks_transparent_iff (env : Env) (config : CoordinatorConfig) (ctx : ExecutionContext)
    {retries : Nat} {schedule : Nat → List Nat} (hretries : ∀ n, (schedule n).length ≤ retries)
    (files : List CoverageItem) (phasePayload : Payload) :
    (Harmless env config schedule files phasePayload →
      Refines (ingestCoverageInBatchesRetrying env config ctx retries schedule files phasePayload)
        (ingestCoverageInBatches env config ctx files phasePayload)) ∧
    ((∃ db n payload, (run (ingestCoverageInBatches env config ctx files phasePayload)
        (List.replicate n id) db).ending = .done payload) →
      Refines (ingestCoverageInBatchesRetrying env config ctx retries schedule files phasePayload)
        (ingestCoverageInBatches env config ctx files phasePayload) →
      Harmless env config schedule files phasePayload) := by
  rw [← retrying_nil env config ctx retries files phasePayload]
  refine ⟨fun hharmless => ?_, ?_⟩
  · unfold ingestCoverageInBatchesRetrying
    refine (Refines.refl _).bind (Yields.ofExcept fun policy hpolicy => hpolicy) ?_
    rintro ⟨batchSize, limits⟩ hpolicy
    exact (refines_loop hretries batchSize _ _ (hharmless batchSize limits hpolicy)).bind
      (Q := fun _ => True) (fun _ _ _ _ => trivial) fun _ _ => .refl _
  · rintro ⟨db, n, payload, hdone⟩ hrefines batchSize limits hpolicy
    obtain ⟨m, hover⟩ :=
      exists_ending (ingestCoverageInBatchesRetrying env config ctx retries schedule files
        phasePayload) db
    have hsame := hrefines.undisturbed hover (by rw [hdone]; trivial)
    have hdone' := congrArg Report.ending hsame
    rw [hdone] at hdone'
    have hplain := yields_retrying retries files phasePayload _ db payload hdone batchSize limits
      hpolicy
    have hretried := yields_retrying retries files phasePayload _ db payload hdone' batchSize limits
      hpolicy
    exact (delivered_le 0 _).2 (by omega)

end Retrying

end ScanImportCoordinator

/-! ## Two imports of one file -/

namespace Sample

/-- An import whose input is staged. -/
def stagedImport : List Action :=
  [.registerResource 7, .create ⟨identity "sha1", [7], "sha1", 10⟩,
    .phase worker .scanCreated { scanId := some 1 } .checkpoint,
    .phase worker .infoStaged { scanId := some 1 } .checkpoint]

/-- Its database. -/
def stagedDb : Db := Trace.run (Action.exec env) Db.empty stagedImport

/-- What its worker knows. -/
def stagedContext : ScanImportCoordinator.ExecutionContext where
  jobId := worker.jobId
  ownerToken := worker.ownerToken
  fencingToken := worker.fencingToken
  scanId := 1
  payload := ⟨1, 1, none, 1, "sha1", [7], []⟩
  checkpoint := ⟨1, .infoStaged, 3, { scanId := some 1 }, "sha1", 1⟩
  snapshots := []

/-- The first attempt of the first batch is aborted at its first statement with lines. -/
def oneDeadlock (batchSeq : Nat) : List Nat := if batchSeq = 1 then [1] else []

/-- The import of a file with two lines under a schedule, undisturbed. -/
def importUnder (config : CoordinatorConfig) (schedule : Nat → List Nat) :
    Report Db Failure ImportEvent Payload :=
  Process.run (ScanImportCoordinator.ingestCoverageInBatchesRetrying env config stagedContext 2
    schedule [twoLines] { scanId := some 1 }) (List.replicate 8 id) stagedDb

/-- The import has ended with a result. -/
def succeeded (r : Report Db Failure ImportEvent Payload) : Bool :=
  match r.ending with
  | .done _ => true
  | _ => false

end Sample

/-- With the limits of the coordinator the deadlock is harmless. -/
theorem retried_import_refines :
    Refines (ScanImportCoordinator.ingestCoverageInBatchesRetrying Sample.env {}
      Sample.stagedContext 2 Sample.oneDeadlock [Sample.twoLines] { scanId := some 1 })
      (ScanImportCoordinator.ingestCoverageInBatches Sample.env {} Sample.stagedContext
        [Sample.twoLines] { scanId := some 1 }) := by
  have hretries : ∀ n, (Sample.oneDeadlock n).length ≤ 2 := by
    intro n
    unfold Sample.oneDeadlock
    split <;> decide
  refine (ScanImportCoordinator.deadlocks_transparent_iff Sample.env {} Sample.stagedContext hretries
    [Sample.twoLines] { scanId := some 1 }).1 (ScanImportCoordinator.harmless_of_limits ?_ _ _)
  intro batchSize limits hpolicy
  obtain ⟨-, rfl⟩ : 128 = batchSize ∧ (⟨20000, 8388608⟩ : BatchLimits) = limits :=
    Prod.mk.inj (Except.ok.inj hpolicy)
  decide

/-- **Without limits one deadlock loses the lines of the file.**  Undisturbed, the import stores two
lines and succeeds; after one deadlock the batch is stored without lines, and the import fails. -/
theorem deadlock_loses_lines :
    Sample.succeeded (Sample.importUnder { limits := ⟨0, 0⟩ } fun _ => []) = true ∧
      (Sample.importUnder { limits := ⟨0, 0⟩ } fun _ => []).state.facts.lines.rows.length = 2 ∧
      (Sample.importUnder { limits := ⟨0, 0⟩ } Sample.oneDeadlock).ending =
        .raised .inputCountMismatch ∧
      (Sample.importUnder { limits := ⟨0, 0⟩ } Sample.oneDeadlock).state.facts.lines.rows = [] := by
  decide +kernel

end FosCoverage
