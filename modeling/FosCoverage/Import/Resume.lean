import FosCoverage.Import.Bookkeeping
import FosCoverage.Import.ExactlyOnce

/-!
# Resuming an import

One worker of a job after the other, each of them gone at any point and resumed by the next one.
While a worker runs, others act on the database, but nobody else works on the job, so the worker
knows exactly how many events have been committed (`Here`), and its own counters agree with the
checkpoint: it does not raise one of the failures of the batch bookkeeping, in no run
(`resume_never_miscounts`).  A run that returns has gone through the whole history.

`Attempt` is one run of a worker, `attempts` a sequence of them.
-/

set_option autoImplicit false

namespace FosCoverage

open Relational Outcome ProjectService

namespace ScanImportCoordinator

/-! ## The counts of an input -/

section Counts

variable {env : Env} {config : CoordinatorConfig} {files : List CoverageItem}

/-- A count over the batches of an input is one over its files. -/
theorem sum_batches {count : CoverageItem → Nat} {total : CoverageItem → Nat}
    (h : ∀ item ∈ files,
      ((fileChunks env config.limits item).map count).sum = total item) :
    ((batchesOf env config files).flatten.map count).sum = (files.map total).sum := by
  have hperm : (batchesOf env config files).flatten.Perm
      (iterCoverageFileChunks env config.limits files) :=
    perm_flatten_iterCoverageBatches env config.limits files _
  rw [(hperm.map count).sum_eq, iterCoverageFileChunks]
  clear hperm
  induction files with
  | nil => rfl
  | cons item rest ih =>
    rw [List.flatMap_cons, List.map_append, List.sum_append, h item List.mem_cons_self,
      ih fun i hi => h i (List.mem_cons_of_mem item hi), List.map_cons, List.sum_cons]

theorem filesIn_batchesOf : filesIn (batchesOf env config files) = files.length := by
  have hone : ∀ item ∈ files, ((fileChunks env config.limits item).map
      CoverageItem.fileCountDelta).sum = (fun _ => 1) item := fun item _ =>
    sum_fileCountDelta_fileChunks env config.limits item
  rw [filesIn, sum_batches hone]
  simp

theorem linesIn_batchesOf : linesIn (batchesOf env config files) = inputLineCount files := by
  refine sum_batches fun item _ => ?_
  have hflat := congrArg List.length (flatMap_fileChunks_lines env config.limits item)
  rwa [List.length_flatMap] at hflat

end Counts

/-! ## One worker alone -/

section Alone

variable {env : Env} {config : CoordinatorConfig} {files : List CoverageItem}
  {jobId scanId n : Nat} {ctx : ExecutionContext} {log : List ImportEvent} {db db' : Db}

/-- Any number of transactions of others. -/
abbrev Meanwhile (env : Env) (jobId scanId : Nat) : Db → Db → Prop :=
  Relation.ReflTransGen (Others env jobId scanId)

theorem InProgress.meanwhile (h : InProgress env config files jobId scanId log db)
    (ho : Meanwhile env jobId scanId db db') :
    InProgress env config files jobId scanId log db' := by
  induction ho with
  | refl => exact h
  | tail _ hstep ih => exact ih.others hstep

/-- The import is in progress, and `k` events are committed. -/
def Here (env : Env) (config : CoordinatorConfig) (files : List CoverageItem)
    (jobId scanId k : Nat) (log : List ImportEvent) (db : Db) : Prop :=
  InProgress env config files jobId scanId log db ∧ log.length = k

theorem Here.stable {k : Nat} (log : List ImportEvent) (s s' : Db)
    (ho : Meanwhile env jobId scanId s s') (h : Here env config files jobId scanId k log s) :
    Here env config files jobId scanId k log s' :=
  ⟨h.1.meanwhile ho, h.2⟩

/-- A worker that raises has left the import in progress, and the failure is not one of the batch
bookkeeping. -/
def Raised (env : Env) (config : CoordinatorConfig) (files : List CoverageItem)
    (jobId scanId : Nat) (e : Failure) (log : List ImportEvent) (db : Db) : Prop :=
  InProgress env config files jobId scanId log db ∧ e.bookkeeping = false

/-- A worker's program among the acts of others. -/
abbrev Runs (env : Env) (config : CoordinatorConfig) (files : List CoverageItem)
    (jobId scanId : Nat) {α : Type} (P : List ImportEvent → Db → Prop) (p : Worker α)
    (Q : α → List ImportEvent → Db → Prop) : Prop :=
  Process.Triple (Meanwhile env jobId scanId) P p Q (Raised env config files jobId scanId)
    (InProgress env config files jobId scanId)

/-- One transaction that finds `k` events. -/
theorem runs_transact {α : Type} {k : Nat} {f : Db → Except Failure (Db × α)}
    {events : α → List ImportEvent} {Q : α → List ImportEvent → Db → Prop}
    (hok : ∀ log s s' a, Here env config files jobId scanId k log s → f s = .ok (s', a) →
      Q a (log ++ events a) s')
    (herr : ∀ log s, Here env config files jobId scanId k log s →
      Avoids Failure.bookkeeping (f s)) :
    Runs env config files jobId scanId (Here env config files jobId scanId k)
      (Process.transact f events) Q :=
  .transact Here.stable hok (fun log s e h he => ⟨h.1, herr log s h e he⟩) fun _ _ h => h.1

/-- One transaction that finds the import in progress. -/
theorem runs_transact_any {α : Type} {f : Db → Except Failure (Db × α)}
    {events : α → List ImportEvent} {Q : α → List ImportEvent → Db → Prop}
    (hok : ∀ log s s' a, InProgress env config files jobId scanId log s → f s = .ok (s', a) →
      Q a (log ++ events a) s')
    (herr : ∀ s, Avoids Failure.bookkeeping (f s)) :
    Runs env config files jobId scanId (InProgress env config files jobId scanId)
      (Process.transact f events) Q :=
  .transact (fun _ _ _ ho h => h.meanwhile ho) hok (fun _ s e h he => ⟨h, herr s e he⟩)
    fun _ _ h => h

theorem runs_ofExcept {α : Type} {P : List ImportEvent → Db → Prop} {x : Except Failure α}
    {Q : α → List ImportEvent → Db → Prop} (hok : ∀ a, x = .ok a → ∀ log s, P log s → Q a log s)
    (hprogress : ∀ log s, P log s → InProgress env config files jobId scanId log s)
    (herr : Avoids Failure.bookkeeping x) :
    Runs env config files jobId scanId P (Process.ofExcept x) Q :=
  .ofExcept hok fun e he log s h => ⟨hprogress log s h, herr e he⟩

/-- What a worker knows may be assumed. -/
theorem runs_of_known {α : Type} {known : Prop} {P P' : List ImportEvent → Db → Prop}
    {p : Worker α} {Q : α → List ImportEvent → Db → Prop}
    (h : known → Runs env config files jobId scanId P p Q)
    (hP : ∀ log s, P' log s → known ∧ P log s) : Runs env config files jobId scanId P' p Q :=
  (Process.Triple.fact_pre h).conseq hP (fun _ _ _ hQ => hQ) (fun _ _ _ hE => hE) fun _ _ hC => hC

/-! ## Positions -/

/-- As long as no batch is missing and none is too many, the input is staged. -/
theorem Position.of_length {c : Checkpoint} {m k : Nat}
    (h : Position env config files scanId c m log db) (hk : log.length = 2 + k)
    (hle : k ≤ (batchesOf env config files).length) : c.phase.index = 2 ∧ m = k := by
  have hlength := h.length
  have hseq := h.seq
  rcases Nat.lt_or_ge c.phase.index 2 with hlt | hge
  · have := h.early hlt
    omega
  · rcases Nat.lt_or_ge 2 c.phase.index with hlt | hge'
    · have := h.late hlt
      omega
    · omega

/-- A phase transaction fails as its operation does. -/
theorem runPhaseOperation_avoids_at {s : Db} {owner token : Nat} {target : Phase}
    {payload : Payload} {op : Db → Payload → Except Failure (Db × Payload)}
    (h : Avoids Failure.bookkeeping (op s payload)) : Avoids Failure.bookkeeping
      (runPhaseOperation s jobId owner token target payload op) := by
  refine .bind (.orFail rfl) fun _ => .ite (.pure _) ?_
  exact .bind (.require rfl) fun _ => .bind assertAllFences_avoids fun _ => .bind h fun _ =>
    .bind ImportCheckpointRepository.advance_avoids fun _ => .pure _

/-- The first two phases. -/
theorem runs_phaseStep_early {k : Nat} {target : Phase} (hjob : ctx.jobId = jobId)
    (hle : target.index ≤ 2)
    (hcounts : k < 2 → CountsTo env config files 0 (startPayload ctx)) :
    Runs env config files jobId scanId (Here env config files jobId scanId k)
      (phaseStep ctx target (startPayload ctx) noOperation) fun payload log s =>
        payload = startPayload ctx ∧
          Here env config files jobId scanId (max k target.index) log s := by
  refine .bind (Q := fun r log s => r.1 = startPayload ctx ∧
    Here env config files jobId scanId (max k target.index) log s) ?_
    fun r => .pure fun log s h => h
  refine runs_transact (fun log s s' r h hr => ?_) fun log s h =>
    runPhaseOperation_avoids fun _ _ => noOperation_avoids
  obtain ⟨payload', committed⟩ := r
  obtain ⟨hI, hk⟩ := h
  rw [hjob] at hr
  have hsame : payload' = startPayload ctx := payload_of_noOperation hr
  obtain ⟨c, m, hc, hpos⟩ := hI.position
  have hlength := hpos.length
  have hseq := hpos.seq
  obtain ⟨hI', hindex⟩ := hI.phase hr
    (fun db₁ hd => by
      obtain ⟨rfl, _⟩ := Prod.mk.inj (pure_eq_ok.1 hd)
      exact ⟨rfl, rfl⟩)
    (by omega) (fun _ hshort => by rw [hsame]; exact hcounts (by omega)) (fun he => by omega)
  refine ⟨hsame, hI', ?_⟩
  obtain ⟨c', hc', ⟨rfl, _, _, hdone⟩ | ⟨rfl, hnext, _⟩⟩ := runPhaseOperation_ok hr
  · simp only [Bool.false_eq_true, if_false, List.append_nil] at hindex ⊢
    omega
  · obtain rfl : c = c' := Option.some.inj (hc.symm.trans hc')
    have hm := hpos.early (by omega)
    simp only [if_true, List.length_append, List.length_singleton]
    omega

/-! ## The batches -/

/-- A batch transaction that continues the checkpoint. -/
theorem ingestCoverageBatch_avoids {s : Db} {owner token k files' lines' : Nat}
    {items : List CoverageItem} {payload : Payload}
    (h : ∀ c, ImportCheckpointRepository.get s jobId = some c → c.payload.batchSeq.getD 0 = k) :
    Avoids Failure.bookkeeping (ingestCoverageBatch env s jobId owner token scanId items (k + 1)
      files' lines' payload) := by
  refine .bind_ok (.orFail rfl) fun c hc => .bind (.require rfl) fun _ =>
    .bind assertAllFences_avoids fun _ => ?_
  rw [h c (orFail_eq_ok.1 hc)]
  refine .bind (fun e he => ?_) fun _ => .bind ProjectService.ingestFileBatch_avoids fun _ =>
    .bind ImportCheckpointRepository.saveBatch_avoids fun _ => .pure _
  exact absurd rfl (require_eq_error.1 he).1

/-- One turn of the loop. -/
theorem runs_consumeBatch {k : Nat} {st : IngestState} {items : List CoverageItem}
    (hjob : ctx.jobId = jobId) (hscan : ctx.scanId = scanId)
    (hitems : (batchesOf env config files)[k]? = some items) :
    Runs env config files jobId scanId
      (fun log s => Reading env config files n k st log ∧
        Here env config files jobId scanId (2 + max n k) log s)
      (consumeBatch env ctx (max 1 config.fileBatchSize) n st items) fun st' log s =>
        Reading env config files n (k + 1) st' log ∧
          Here env config files jobId scanId (2 + max n (k + 1)) log s := by
  refine runs_of_known (?_ : (∃ log, Reading env config files n k st log) → _)
    fun log s h => ⟨⟨log, h.1⟩, h.2⟩
  rintro ⟨_, rfl, hfiles, hlines, hconf, _⟩
  have hlt : st.batchSeq < (batchesOf env config files).length :=
    (List.getElem?_eq_some_iff.1 hitems).1
  unfold consumeBatch
  dsimp only
  split
  · -- the batch was committed before
    rename_i hreplayed
    have hmax : max n (st.batchSeq + 1) = max n st.batchSeq := by omega
    rw [hmax]
    exact .pure fun log s h => ⟨⟨rfl, by rw [hmax]; exact hfiles, by rw [hmax]; exact hlines,
      ⟨rfl, hconf.maxLines, hconf.maxEstBytes⟩, by rw [hmax, h.2]⟩, h⟩
  · rename_i hnew
    have hmax : max n st.batchSeq = st.batchSeq := by omega
    have hmax' : max n (st.batchSeq + 1) = st.batchSeq + 1 := by omega
    rw [hmax] at hfiles hlines ⊢
    rw [hmax', hjob, hscan, hfiles, hlines]
    refine .bind (Q := fun result log s =>
        (result.fileCount = (items.map CoverageItem.fileCountDelta).sum ∧
          result.lineCount = (items.map fun item => item.lines.length).sum) ∧
        Here env config files jobId scanId (2 + (st.batchSeq + 1)) log s)
      (runs_transact (fun log s s' result h hr => ?_) fun log s h =>
        ingestCoverageBatch_avoids fun c hc => ?_) fun result => ?_
    · obtain ⟨hI, hcounts⟩ := h.1.batch hitems hconf hr
      refine ⟨hcounts, hI, ?_⟩
      rw [List.length_append, h.2, List.length_singleton, Nat.add_assoc]
    · obtain ⟨c', m, hc', hpos⟩ := h.1.position
      obtain rfl : c = c' := Option.some.inj (hc.symm.trans hc')
      obtain ⟨hphase, rfl⟩ := hpos.of_length h.2 (Nat.le_of_lt hlt)
      exact (hpos.payload (by omega)).batchSeq
    · refine .pure fun log s ⟨⟨hfileCount, hlineCount⟩, h⟩ => ⟨⟨rfl, ?_, ?_,
        ⟨rfl, hconf.maxLines, hconf.maxEstBytes⟩, ?_⟩, h⟩
      · rw [hmax', filesIn_succ hitems, ← hfileCount]
        rfl
      · rw [hmax', linesIn_succ hitems, ← hlineCount]
        rfl
      · rw [hmax', h.2]

/-! ## The end of the batches -/

/-- With the whole input stored the final count is right. -/
theorem finalizeCoverage_avoids {s : Db} {owner token : Nat} {payload : Payload}
    (hinput : DistinctInput env files) (h : Here env config files jobId scanId
      (2 + (batchesOf env config files).length) log s) :
    Avoids Failure.bookkeeping (finalizeCoverage jobId owner token scanId files.length
      (inputLineCount files) s payload) := by
  obtain ⟨c, m, _, hpos⟩ := h.1.position
  obtain ⟨_, rfl⟩ := hpos.of_length h.2 (Nat.le_refl _)
  obtain ⟨hf, hl⟩ := h.1.whole hinput (by rw [hpos.parts, List.take_length])
  have hfiles : (FileStateRepository.filesOf s scanId none).length = files.length := by
    have hlength := hf.length_eq
    rwa [importedFiles, inputFiles, List.length_map, List.length_map] at hlength
  have hlines : (lineRows s scanId).length = inputLineCount files := by
    have hlength := hl.length_eq
    rw [length_importedLines, inputLines, List.length_flatMap] at hlength
    rw [hlength, inputLineCount]
    simp
  refine .bind (.orFail rfl) fun _ => .bind assertAllFences_avoids fun _ =>
    .bind (fun e he => ?_) fun _ => .pure _
  exact absurd ⟨hfiles, hlines⟩ (require_eq_error.1 he).1

/-- `_ingest_coverage_in_batches` -/
theorem runs_ingestCoverageInBatches (hinput : DistinctInput env files) (hjob : ctx.jobId = jobId)
    (hscan : ctx.scanId = scanId) {payload : Payload}
    (hcounts : CountsTo env config files n payload)
    (hle : n ≤ (batchesOf env config files).length) :
    Runs env config files jobId scanId (Here env config files jobId scanId (2 + n))
      (ingestCoverageInBatches env config ctx files payload) fun _ log s =>
        InProgress env config files jobId scanId log s := by
  have hpolicy := batchPolicy_eq hcounts
  refine .bind (Q := fun policy log s => policy = (max 1 config.fileBatchSize, config.limits) ∧
    Here env config files jobId scanId (2 + n) log s)
    (runs_ofExcept (fun policy hok log s h => ⟨Except.ok.inj (hok.symm.trans hpolicy), h⟩)
      (fun _ _ h => h.1) (by rw [hpolicy]; exact .ok _)) fun policy => ?_
  refine runs_of_known (?_ : policy = (max 1 config.fileBatchSize, config.limits) → _)
    fun log s h => h
  rintro rfl
  refine .bind (Q := fun st log s =>
    Reading env config files n (batchesOf env config files).length st log ∧
      Here env config files jobId scanId
        (2 + max n (batchesOf env config files).length) log s) ?_ fun st => ?_
  · refine (Process.Triple.foldlM (fun pre st log s =>
      Reading env config files n pre.length st log ∧
        Here env config files jobId scanId (2 + max n pre.length) log s) _ _ ?_).conseq ?_
      (fun _ _ _ h => h) (fun _ _ _ h => h) fun _ _ h => h
    · intro pre items post st hl
      rw [hcounts.batchSeq, List.length_append, List.length_singleton]
      refine runs_consumeBatch hjob hscan ?_
      rw [batchesOf, hl, List.getElem?_append_right (Nat.le_refl _), Nat.sub_self]
      rfl
    · intro log s h
      have hmax : max n (List.length ([] : List (List CoverageItem))) = n := by simp
      rw [hmax]
      refine ⟨⟨rfl, ?_, ?_, ⟨rfl, rfl, rfl⟩, ?_⟩, h⟩
      · rw [hmax]
        exact hcounts.fileCount
      · rw [hmax]
        exact hcounts.lineCount
      · rw [hmax, h.2]
  · rw [Nat.max_eq_right hle]
    refine runs_of_known (?_ : (∃ log, Reading env config files n
      (batchesOf env config files).length st log) → _) fun log s h => ⟨⟨log, h.1⟩, h.2⟩
    rintro ⟨_, hreading⟩
    have hfiles := hreading.fileCount
    have hlines := hreading.lineCount
    rw [Nat.max_eq_right hle, List.take_length] at hfiles hlines
    rw [filesIn_batchesOf] at hfiles
    rw [linesIn_batchesOf] at hlines
    refine .bind (Q := fun _ => Here env config files jobId scanId
      (2 + (batchesOf env config files).length))
      (runs_ofExcept (fun _ _ _ _ h => h) (fun _ _ h => h.1) fun e he =>
        absurd ⟨hfiles, hlines⟩ (require_eq_error.1 he).1) fun _ => ?_
    refine .bind (Q := fun _ log s => InProgress env config files jobId scanId log s)
      (runs_transact (fun log s s' r h hr => ?_) fun log s h => ?_) fun r => .pure fun _ _ h => h
    · obtain ⟨payload', committed⟩ := r
      rw [hjob] at hr
      refine (h.1.phase hr (fun db₁ hd => ?_) (by decide) (fun hle => absurd hle (by decide))
        fun _ => ?_).1
      · rw [finalizeCoverage_eq hd]
        exact ⟨rfl, rfl⟩
      · rw [h.2]
        omega
    · rw [hjob, hscan]
      exact runPhaseOperation_avoids_at (finalizeCoverage_avoids hinput h)

/-! ## The worker -/

/-- A phase after the batches. -/
theorem runs_phaseStep_late {target : Phase} {payload : Payload}
    {op : Db → Payload → Except Failure (Db × Payload)} (hjob : ctx.jobId = jobId)
    (hop : ∀ d d' p', op d payload = .ok (d', p') → d'.facts = d.facts ∧ d'.imports = d.imports)
    (herr : ∀ d, Avoids Failure.bookkeeping (op d payload))
    (hlow : 4 ≤ target.index) (hhigh : target.index ≤ 9) :
    Runs env config files jobId scanId (InProgress env config files jobId scanId)
      (phaseStep ctx target payload op) fun _ => InProgress env config files jobId scanId := by
  refine .bind (Q := fun _ => InProgress env config files jobId scanId)
    (runs_transact_any (fun log s s' r h hr => ?_) fun s => runPhaseOperation_avoids_at (herr s))
    fun r => .pure fun _ _ h => h
  obtain ⟨payload', committed⟩ := r
  rw [hjob] at hr
  exact (h.phase hr (fun db₁ hd => hop s db₁ payload' hd) hhigh (fun hle => by omega)
    fun he => by omega).1

theorem runs_checkpoint (hjob : ctx.jobId = jobId) {target : Phase} {payload : Payload}
    (hlow : 4 ≤ target.index) (hhigh : target.index ≤ 9) :
    Runs env config files jobId scanId (InProgress env config files jobId scanId)
      (phaseStep ctx target payload noOperation) fun _ =>
        InProgress env config files jobId scanId := by
  refine runs_phaseStep_late hjob (fun d d' p' hd => ?_) (fun _ => noOperation_avoids) hlow hhigh
  obtain ⟨rfl, _⟩ := Prod.mk.inj (pure_eq_ok.1 hd)
  exact ⟨rfl, rfl⟩

theorem runs_operation (hjob : ctx.jobId = jobId) {target : Phase} {payload : Payload}
    (op : PhaseOp)
    (herr : ∀ d, Avoids Failure.bookkeeping
      (op.operation env ⟨ctx.jobId, 0, 0⟩ ctx.scanId d payload))
    (hlow : 4 ≤ target.index) (hhigh : target.index ≤ 9) :
    Runs env config files jobId scanId (InProgress env config files jobId scanId)
      (phaseStep ctx target payload (op.operation env ⟨ctx.jobId, 0, 0⟩ ctx.scanId)) fun _ =>
        InProgress env config files jobId scanId :=
  runs_phaseStep_late hjob
    (fun _ _ _ hd => ⟨PhaseOp.operation_facts hd, (PhaseOp.operation_imports hd).1⟩) herr hlow hhigh

theorem runs_sealConstruction (hjob : ctx.jobId = jobId) {paths : List (String × String)}
    {payload : Payload} :
    Runs env config files jobId scanId (InProgress env config files jobId scanId)
      (sealConstruction env ctx paths payload) fun _ =>
        InProgress env config files jobId scanId := by
  refine .bind (runs_checkpoint hjob (by decide) (by decide)) fun _ => ?_
  refine .bind (runs_checkpoint hjob (by decide) (by decide)) fun _ => ?_
  refine .bind (runs_operation hjob (.computeInheritance paths)
    (fun _ => computeInheritance_avoids) (by decide) (by decide)) fun _ => ?_
  refine .bind (runs_checkpoint hjob (by decide) (by decide)) fun _ => ?_
  refine .bind (runs_operation hjob .verifyConsistency (fun _ => verifyConsistency_avoids)
    (by decide) (by decide)) fun _ => ?_
  refine runs_transact_any (fun log s s' a h hr => ?_) fun s => .map sealImport_avoids
  rw [hjob] at hr
  cases hseal : sealImport s jobId ctx.ownerToken ctx.fencingToken with
  | error e => simp [hseal, Except.map] at hr
  | ok d =>
    obtain rfl : d = s' := by simpa [hseal, Except.map] using hr
    exact h.sealed hseal

theorem runs_finishConstruction (hjob : ctx.jobId = jobId) {paths : List (String × String)}
    {payload : Payload} :
    Runs env config files jobId scanId (InProgress env config files jobId scanId)
      (finishConstruction env ctx paths payload) fun _ =>
        InProgress env config files jobId scanId := by
  refine .bind (Q := fun _ => InProgress env config files jobId scanId) ?_ fun phase => ?_
  · exact .observe (fun _ _ _ ho h => h.meanwhile ho) (fun _ _ _ h _ => h)
      (fun log s e h he => ⟨h, Avoids.map (.orFail rfl) e he⟩) fun _ _ h => h
  · split
    · refine .bind (Q := fun _ => InProgress env config files jobId scanId)
        (runs_ofExcept (fun _ _ _ _ h => h) (fun _ _ h => h)
          (.forM (fun _ => verifyGitSnapshot_avoids) _)) fun _ => ?_
      exact .bind (runs_checkpoint hjob (by decide) (by decide)) fun _ =>
        runs_sealConstruction hjob
    · exact runs_sealConstruction hjob

/-- A published import has gone through its history. -/
theorem Position.finished {c : Checkpoint} (h : Position env config files scanId c n log db)
    (hphase : c.phase = .published ∨ c.phase = .done) :
    log = history (batchesOf env config files) := by
  have hlast := h.last
  have hindex : c.phase.index = 11 := by
    rcases hphase with hphase | hphase <;> rw [hphase] at hlast ⊢
    · rfl
    · exact absurd hlast (by decide)
  have hlate := h.late (by omega)
  rw [h.events, h.seq, hindex, hlate, Nat.add_comm, ← length_history, List.take_length]

/-- A worker has read a checkpoint with `n` batches and found `k` events. -/
structure Entered (env : Env) (config : CoordinatorConfig) (files : List CoverageItem)
    (jobId scanId n : Nat) (ctx : ExecutionContext) : Prop where
  /-- Its job. -/
  job : ctx.jobId = jobId
  /-- The Candidate of the job. -/
  scan : ctx.scanId = scanId
  /-- There are no batches before the input is staged. -/
  early : ctx.checkpoint.phase.index < 2 → n = 0
  /-- There are no more than the input has. -/
  bound : n ≤ (batchesOf env config files).length
  /-- The counters, as long as they are needed. -/
  counts : ctx.checkpoint.phase.index ≤ 2 → CountsTo env config files n (startPayload ctx)

/-- The start of a worker. -/
theorem runs_load (owner fence : Option Nat) (verify : Bool)
    (observed : ImmutableArtifactStager.Observed) :
    Runs env config files jobId scanId (InProgress env config files jobId scanId)
      (Process.observe fun db => loadExecutionContext db jobId owner fence verify observed)
      fun ctx log s => ∃ n, Entered env config files jobId scanId n ctx ∧
        ((ctx.checkpoint.phase = .published ∨ ctx.checkpoint.phase = .done) →
          log = history (batchesOf env config files)) ∧
        Here env config files jobId scanId (ctx.checkpoint.phase.index + n) log s := by
  refine .observe (fun _ _ _ ho h => h.meanwhile ho) (fun log s ctx h hload => ?_)
    (fun _ _ e h he => ⟨h, loadExecutionContext_avoids e he⟩) fun _ _ h => h
  obtain ⟨n, hloaded⟩ := h.load hload
  obtain ⟨c, m, hc, hpos⟩ := h.position
  obtain ⟨job, hjob, _⟩ := h.job
  have hctx : ctx.checkpoint = c := (loadExecutionContext_reads hjob hc hload).2.1
  refine ⟨m, ⟨hloaded.job, hloaded.scan, ?_, hpos.bound, ?_⟩, ?_, h, ?_⟩
  · rw [hctx]
    exact hpos.early
  · intro hle
    rw [hctx] at hle
    exact (hctx ▸ hpos.payload hle : CountsTo env config files m ctx.checkpoint.payload).start
  · rw [hctx]
    exact hpos.finished
  · rw [hctx, hpos.length, hpos.seq]

theorem runs_construct (hinput : DistinctInput env files)
    (h : Entered env config files jobId scanId n ctx) {paths : List (String × String)} :
    Runs env config files jobId scanId
      (Here env config files jobId scanId (ctx.checkpoint.phase.index + n))
      (construct env config ctx files paths) fun _ =>
        InProgress env config files jobId scanId := by
  have hstart : ∀ k, ctx.checkpoint.phase.index + n ≤ k → k < 2 →
      CountsTo env config files 0 (startPayload ctx) := by
    intro k hle hk
    have hn := h.early (by omega)
    have hcounts := h.counts (by omega)
    rwa [hn] at hcounts
  rw [construct_eq]
  refine .bind (runs_phaseStep_early h.job (by decide) (hstart _ (Nat.le_refl _)))
    fun payload => runs_of_known (?_ : payload = startPayload ctx → _) fun _ _ h => h
  rintro rfl
  refine .bind (runs_phaseStep_early h.job (by decide) (hstart _ (Nat.le_max_left _ _)))
    fun payload => runs_of_known (?_ : payload = startPayload ctx → _) fun _ _ h => h
  rintro rfl
  split
  · rename_i hphase
    have hle : ctx.checkpoint.phase.index ≤ 2 := Nat.le_of_lt_succ hphase
    have hk : max (max (ctx.checkpoint.phase.index + n) Phase.scanCreated.index)
        Phase.infoStaged.index = 2 + n := by
      have hcreated : Phase.scanCreated.index = 1 := rfl
      have hstaged : Phase.infoStaged.index = 2 := rfl
      rcases Nat.lt_or_ge ctx.checkpoint.phase.index 2 with hlt | hge
      · have := h.early hlt
        omega
      · omega
    rw [hk]
    exact .bind (runs_ingestCoverageInBatches hinput h.job h.scan (h.counts hle) h.bound)
      fun _ => runs_finishConstruction h.job
  · exact (runs_finishConstruction h.job).conseq (fun _ _ h => h.1) (fun _ _ _ h => h)
      (fun _ _ _ h => h) fun _ _ h => h

/-- A publication that returns has ended the history. -/
theorem runs_publish {expected : Option Nat} {readSet : Option ReadSetArg} :
    Runs env config files jobId scanId (InProgress env config files jobId scanId)
      (publish env jobId expected readSet) fun _ log s =>
        InProgress env config files jobId scanId log s ∧
          log = history (batchesOf env config files) := by
  have hstable : ∀ log s s', Meanwhile env jobId scanId s s' →
      InProgress env config files jobId scanId log s →
      InProgress env config files jobId scanId log s' := fun _ _ _ ho h => h.meanwhile ho
  refine .bind (Q := fun _ => InProgress env config files jobId scanId)
    (.observe hstable (fun _ _ _ h _ => h) (fun _ _ _ _ he => nomatch he) fun _ _ h => h)
    fun owner => ?_
  refine .bind (Q := fun r log s => InProgress env config files jobId scanId log s ∧
    (∀ a, r = .ok a → log = history (batchesOf env config files)) ∧
      ∀ e, r = .error e → e.bookkeeping = false)
    (.attempt hstable (fun log s s' committed h hr => ?_) (fun log s e h he => ?_)
      fun _ _ h => h) fun r => ?_
  · have h' := h.published hr
    refine ⟨h', fun _ _ => ?_, fun _ herror => by cases herror⟩
    obtain ⟨c, m, hc, hpos⟩ := h'.position
    refine hpos.finished ?_
    obtain ⟨job, c', _, hc', ⟨_, rfl, hphase⟩ | ⟨_, _, db₁, ls, _, _, _, rfl⟩⟩ :=
      publishTransaction_ok hr
    · obtain rfl : c = c' := Option.some.inj (hc.symm.trans hc')
      exact hphase
    · simp only [ImportCheckpointRepository.get, Db.putJob, Db.putCheckpoint, Keyed.get?_put,
        if_pos, Option.some.injEq] at hc
      exact .inl (by rw [← hc])
  · refine ⟨h, fun _ hreturn => (by cases hreturn), fun e' herror => ?_⟩
    cases herror
    exact publishTransaction_avoids e he
  · cases r with
    | ok a => exact .pure fun _ _ h => ⟨h.1, h.2.1 a rfl⟩
    | error e =>
      refine runs_of_known (?_ : e.bookkeeping = false → _) fun _ _ h => ⟨h.2.2 e rfl, h.1⟩
      intro he
      refine .bind (Q := fun _ => InProgress env config files jobId scanId)
        (runs_transact_any (fun log s s' a h hr => ?_) fun s => .ok _) fun _ =>
          .raise fun _ _ h => ⟨h, he⟩
      obtain ⟨rfl, _⟩ := Prod.mk.inj (pure_eq_ok.1 hr)
      rw [List.append_nil]
      exact h.others (recordPublishFailure_others jobId scanId s owner e)

/-- **A worker alone** ends with the whole history, with a failure of another kind, or not at all. -/
theorem runs_execute (hinput : DistinctInput env files) (owner fence : Option Nat)
    (paths : List (String × String)) (verify : Bool)
    (observed : ImmutableArtifactStager.Observed) :
    Runs env config files jobId scanId (InProgress env config files jobId scanId)
      (execute env config jobId owner fence files paths verify observed) fun _ log s =>
        InProgress env config files jobId scanId log s ∧
          log = history (batchesOf env config files) := by
  refine .bind (runs_load owner fence verify observed) fun ctx => .exists_pre fun n => ?_
  refine runs_of_known (?_ : Entered env config files jobId scanId n ctx → _) fun _ _ h => h
  intro hentered
  split
  · rename_i hphase
    exact .pure fun log s h => ⟨h.2.1, h.1 hphase⟩
  · split
    · exact runs_publish.conseq (fun _ _ h => h.2.1) (fun _ _ _ h => h) (fun _ _ _ h => h)
        fun _ _ h => h
    · exact (Process.Triple.bind (runs_construct hinput hentered) fun _ => runs_publish).conseq
        (fun _ _ h => h.2) (fun _ _ _ h => h) (fun _ _ _ h => h) fun _ _ h => h

end Alone

/-! ## One attempt after the other -/

/-- One run of a worker. -/
structure Attempt : Type where
  /-- `owner_token` -/
  owner : Option Nat
  /-- `fencing_token` -/
  fence : Option Nat
  /-- `repository_paths` -/
  paths : List (String × String)
  /-- `verify_artifact` -/
  verify : Bool
  /-- What is found of the staged artifact. -/
  observed : ImmutableArtifactStager.Observed
  /-- What the others do before each of its transactions; it is gone when this ends. -/
  script : List (Db → Db)

/-- The reports of a sequence of attempts, each with everything committed up to its end. -/
def attempts (env : Env) (config : CoordinatorConfig) (jobId : Nat) (files : List CoverageItem) :
    List Attempt → List ImportEvent → Db → List (Process.Report Db Failure ImportEvent Unit)
  | [], _, _ => []
  | a :: rest, log, db =>
    let r := Process.run (execute env config jobId a.owner a.fence files a.paths a.verify a.observed)
      a.script db
    ⟨r.ending, r.state, log ++ r.log⟩ ::
      attempts env config jobId files rest (log ++ r.log) r.state

section Attempts

variable {env : Env} {config : CoordinatorConfig} {files : List CoverageItem}
  {jobId scanId : Nat} {log : List ImportEvent} {db db₀ : Db}

/-- What an attempt leaves. -/
structure Left (env : Env) (config : CoordinatorConfig) (files : List CoverageItem)
    (jobId scanId : Nat) (r : Process.Report Db Failure ImportEvent Unit) : Prop where
  /-- The import has been done once so far. -/
  once : ImportedOnce env config files jobId scanId r.log r.state
  /-- The counters of the worker have agreed with the checkpoint. -/
  raised : ∀ e, r.ending = .raised e → e.bookkeeping = false
  /-- A worker that returns has ended the history. -/
  returned : r.ending = .done () → r.log = history (batchesOf env config files)

theorem InProgress.attempts (hinput : DistinctInput env files) (as : List Attempt)
    (hmeanwhile : ∀ a ∈ as, ∀ act ∈ a.script, ∀ s, Meanwhile env jobId scanId s (act s))
    (h : InProgress env config files jobId scanId log db) :
    ∀ r ∈ ScanImportCoordinator.attempts env config jobId files as log db,
      Left env config files jobId scanId r := by
  induction as generalizing log db with
  | nil => exact fun r hr => absurd hr List.not_mem_nil
  | cons a rest ih =>
    have hrun := runs_execute hinput a.owner a.fence a.paths a.verify a.observed a.script db log
      (hmeanwhile a List.mem_cons_self) h
    rw [ScanImportCoordinator.attempts]
    dsimp only [Process.run]
    generalize Process.exec _ a.script db = report at hrun ⊢
    obtain ⟨⟨ending, db', log'⟩, script'⟩ := report
    have hleft : InProgress env config files jobId scanId (log ++ log') db' ∧
        Left env config files jobId scanId ⟨ending, db', log ++ log'⟩ := by
      cases ending with
      | done _ =>
        exact ⟨hrun.1, ⟨hrun.1.importedOnce hinput, fun e he => (nomatch he), fun _ => hrun.2⟩⟩
      | raised e =>
        refine ⟨hrun.1, ⟨hrun.1.importedOnce hinput, fun e' he => ?_, fun he => (nomatch he)⟩⟩
        cases he
        exact hrun.2
      | crashed =>
        exact ⟨hrun, ⟨hrun.importedOnce hinput, fun e he => (nomatch he), fun he => (nomatch he)⟩⟩
    intro r hr
    rcases List.mem_cons.1 hr with rfl | hr
    · exact hleft.2
    · exact ih (fun a' ha' => hmeanwhile a' (List.mem_cons_of_mem a ha')) hleft.1 r hr

/-- **Resuming never miscounts.** -/
theorem resume_never_miscounts {r : ImportRequest} {created : CreatedImport} {as : List Attempt}
    (hreach : Reachable env db) (hcreate : create env db r = .ok (db₀, created))
    (hnew : db.facts.scans.get? created.scanId = none) (hinput : DistinctInput env files)
    (hmeanwhile : ∀ a ∈ as, ∀ act ∈ a.script, ∀ s,
      Meanwhile env created.jobId created.scanId s (act s)) :
    ∀ report ∈ attempts env config created.jobId files as [] db₀,
      Left env config files created.jobId created.scanId report :=
  (InProgress.created hreach hcreate hnew).attempts hinput as hmeanwhile

end Attempts

end ScanImportCoordinator

open Sample in
/-- An import of two files: an attempt that is gone behind the first batch, one that is gone before
the second, and one that goes on to the end. -/
def resumedReports : List (Process.Report Db Failure ImportEvent Unit) :=
  ScanImportCoordinator.attempts Sample.env smallBatches 1 twoFiles
    ([4, 3, 20].map fun turns => ⟨some 2, some 1, [], false, some ("sha1", 10),
      List.replicate turns id⟩) [] createdDb

open Sample in
/-- None of the three miscounts. -/
theorem resume_never_miscounts_resumed : resumedReports.length = 3 ∧
    ∀ report ∈ resumedReports,
      ScanImportCoordinator.Left Sample.env smallBatches twoFiles 1 1 report := by
  have hinput : ProjectService.DistinctInput Sample.env twoFiles :=
    ⟨by decide +kernel, by decide +kernel, by decide +kernel⟩
  refine ⟨rfl, ScanImportCoordinator.resume_never_miscounts ⟨[.registerResource 7], rfl⟩
    create_createdDb (by decide +kernel) hinput fun a ha act hact s => ?_⟩
  obtain ⟨turns, _, rfl⟩ := List.mem_map.1 ha
  rw [List.eq_of_mem_replicate hact]
  exact .refl

end FosCoverage
