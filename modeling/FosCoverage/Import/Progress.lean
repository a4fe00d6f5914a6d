import FosCoverage.Import.Writes

/-!
# How far an import has come

Everything the workers of one job commit, from its creation to its publication, is one list of
events: two phases, the batches of the input, and the phases after them (`history`).  A database is
at a position of this list (`Position`):

* the checkpoint has the phase, the number of events as its sequence number, and, before the end of
  the batches, the counters of the batches so far;
* the Candidate has the files and lines of these batches and nothing else.

Each transaction of a worker moves the position by one event, or raises (`InProgress.phase`,
`InProgress.batch`, `InProgress.sealed`, `InProgress.published`); what everybody else does leaves it
where it is (`InProgress.aside`).
-/

set_option autoImplicit false

namespace FosCoverage

open Relational Outcome ProjectService

namespace ScanImportCoordinator

/-! ## The history of a job -/

/-- The batches of an input under the settings of a coordinator. -/
def batchesOf (env : Env) (config : CoordinatorConfig) (files : List CoverageItem) :
    List (List CoverageItem) :=
  iterCoverageBatches env files (max 1 config.fileBatchSize) config.limits

/-- The phases after the batches. -/
def laterPhases : List Phase :=
  [.coverageImported, .gitVerified, .sourcePrepared, .lineMapBuilt, .inheritanceComputed,
    .statsRebuilt, .consistencyVerified, .sealed, .published]

/-- Everything the workers of a job commit, in order. -/
def history (batches : List (List CoverageItem)) : List ImportEvent :=
  [.phase .scanCreated, .phase .infoStaged] ++
    (batches.mapIdx (fun i items => ImportEvent.batch (i + 1) items) ++
      laterPhases.map ImportEvent.phase)

/-- The phase a list of events ends in. -/
def lastPhase (log : List ImportEvent) : Phase :=
  log.foldl (fun phase event => match event with | .phase p => p | .batch _ _ => phase) .locked

/-- The parts of files a list of events has written. -/
def ingestedParts (log : List ImportEvent) : List CoverageItem :=
  log.flatMap fun event => match event with | .phase _ => [] | .batch _ items => items

section History

variable {batches : List (List CoverageItem)} {n : Nat}

theorem length_history : (history batches).length = batches.length + 11 := by
  simp only [history, laterPhases, List.length_append, List.length_mapIdx, List.length_map,
    List.length_cons, List.length_nil]
  omega

theorem lastPhase_append_phase (log : List ImportEvent) (p : Phase) :
    lastPhase (log ++ [.phase p]) = p := by
  simp [lastPhase]

theorem lastPhase_append_batch (log : List ImportEvent) (i : Nat) (items : List CoverageItem) :
    lastPhase (log ++ [.batch i items]) = lastPhase log := by
  simp [lastPhase]

/-- A phase before the batches. -/
theorem history_early {p : Phase} {k : Nat} (hp : p.index = k + 1) (hk : k < 2) :
    (history batches)[k]? = some (.phase p) := by
  cases p <;> simp_all [Phase.index, history]

theorem history_batch {items : List CoverageItem} (h : batches[n]? = some items) :
    (history batches)[2 + n]? = some (.batch (n + 1) items) := by
  have hn : n < batches.length := (List.getElem?_eq_some_iff.1 h).1
  rw [history, List.getElem?_append_right (by simp)]
  simp only [List.length_cons, List.length_nil, Nat.zero_add, Nat.add_sub_cancel_left]
  rw [List.getElem?_append_left (by simpa using hn), List.getElem?_mapIdx, h]
  rfl

/-- A phase after the batches. -/
theorem history_late {p : Phase} {k : Nat} (hp : p.index = k + 1) (hk : 2 ≤ k) (hk' : k < 11) :
    (history batches)[k + batches.length]? = some (.phase p) := by
  rw [history, List.getElem?_append_right (by simp; omega),
    List.getElem?_append_right (by simp; omega)]
  simp only [List.length_cons, List.length_nil, List.length_mapIdx, List.getElem?_map]
  have hsub : k + batches.length - (0 + 1 + 1) - batches.length = k - 2 := by omega
  rw [hsub]
  cases p <;> simp only [Phase.index] at hp <;> first
    | omega
    | (obtain rfl : k = _ := (Nat.succ.inj hp).symm; rfl)

/-- One more event. -/
theorem take_history_succ {k : Nat} {event : ImportEvent} (h : (history batches)[k]? = some event) :
    (history batches).take k ++ [event] = (history batches).take (k + 1) := by
  rw [List.take_add_one, h]
  rfl

theorem ingestedParts_append (log log' : List ImportEvent) :
    ingestedParts (log ++ log') = ingestedParts log ++ ingestedParts log' :=
  List.flatMap_append

end History

/-! ## Positions -/

/-- The files counted in some batches. -/
def filesIn (batches : List (List CoverageItem)) : Nat :=
  (batches.flatten.map CoverageItem.fileCountDelta).sum

/-- The lines of some batches. -/
def linesIn (batches : List (List CoverageItem)) : Nat :=
  (batches.flatten.map fun item => item.lines.length).sum

/-- The counters of a payload after the first `n` batches, and the settings they were made with. -/
structure CountsTo (env : Env) (config : CoordinatorConfig) (files : List CoverageItem) (n : Nat)
    (p : Payload) : Prop where
  /-- `batch_seq` -/
  batchSeq : p.batchSeq.getD 0 = n
  /-- `processed_file_count` -/
  fileCount : p.processedFileCount.getD 0 = filesIn ((batchesOf env config files).take n)
  /-- `processed_line_count` -/
  lineCount : p.processedLineCount.getD 0 = linesIn ((batchesOf env config files).take n)
  /-- `batch_size` -/
  batchSize : p.batchSize.getD 0 = 0 ∨ p.batchSize.getD 0 = max 1 config.fileBatchSize
  /-- `max_lines` and `max_est_bytes` -/
  limits : (p.maxLines = none ∧ p.maxEstBytes = none ∧ n = 0) ∨
    (p.maxLines = some config.limits.maxLines ∧ p.maxEstBytes = some config.limits.maxEstBytes)

/-- The checkpoint and the Candidate after the events `log`, of which `n` are batches. -/
structure Position (env : Env) (config : CoordinatorConfig) (files : List CoverageItem)
    (scanId : Nat) (c : Checkpoint) (n : Nat) (log : List ImportEvent) (db : Db) : Prop where
  /-- Every event has raised the sequence number by one. -/
  seq : c.checkpointSeq = c.phase.index + n
  /-- The events are the first ones of the history. -/
  events : log = (history (batchesOf env config files)).take c.checkpointSeq
  /-- The phase is that of the last phase event. -/
  phase : lastPhase log = c.phase
  /-- The parts of the batches so far have been written. -/
  parts : ingestedParts log = ((batchesOf env config files).take n).flatten
  /-- The checkpoint names the Candidate. -/
  candidate : c.scanId = scanId
  /-- There are no more batches than the input has. -/
  bound : n ≤ (batchesOf env config files).length
  /-- There are none before the input is staged. -/
  early : c.phase.index < 2 → n = 0
  /-- All have been written when the import goes on. -/
  late : 2 < c.phase.index → n = (batchesOf env config files).length
  /-- The last phase is the publication. -/
  last : c.phase.index ≤ 11
  /-- The counters, as long as they are needed. -/
  payload : c.phase.index ≤ 2 → CountsTo env config files n c.payload
  /-- The Candidate has nothing but the batches so far. -/
  within : Within env scanId ((batchesOf env config files).take n).flatten db
  /-- And it has all of them. -/
  stores : ∀ part ∈ ((batchesOf env config files).take n).flatten, Stores env scanId db part
  /-- A sealed Candidate is not sealed again. -/
  settled : 10 ≤ c.phase.index →
    ∀ scan, db.facts.scans.get? scanId = some scan → sealable scan.status = false

/-- The invariant of an import. -/
structure InProgress (env : Env) (config : CoordinatorConfig) (files : List CoverageItem)
    (jobId scanId : Nat) (log : List ImportEvent) (db : Db) : Prop where
  /-- The keys of the fact tables. -/
  ok : FactsOk db
  /-- The job describes the Candidate. -/
  job : ∃ job, JobRepository.get db jobId = some job ∧ job.inputPayload.scanId = scanId
  /-- The Candidate. -/
  scan : ∃ scan, db.facts.scans.get? scanId = some scan
  /-- The position. -/
  position : ∃ c n, ImportCheckpointRepository.get db jobId = some c ∧
    Position env config files scanId c n log db

section Positions

variable {env : Env} {config : CoordinatorConfig} {files : List CoverageItem}
  {jobId scanId n : Nat} {c : Checkpoint} {log : List ImportEvent} {db db' : Db}

theorem Position.length (h : Position env config files scanId c n log db) :
    log.length = c.checkpointSeq := by
  have hbound := h.bound
  have hlast := h.last
  rw [h.events, List.length_take, length_history, h.seq]
  omega

/-- A Candidate whose rows are the same has stored the same parts. -/
theorem Position.of_rows {token : Nat} (h : Position env config files scanId c n log db)
    (hfile : ∀ k f, f.scanId = scanId →
      (db'.facts.files.get? k = some f ↔ db.facts.files.get? k = some f))
    (hline : ∀ k l f, db.facts.files.get? l.fileId = some f → f.scanId = scanId →
      (db'.facts.lines.get? k = some l ↔ db.facts.lines.get? k = some l))
    (hscan : 10 ≤ c.phase.index →
      ∀ scan, db'.facts.scans.get? scanId = some scan → sealable scan.status = false) :
    Position env config files scanId { c with fencingToken := token } n log db' where
  seq := h.seq
  events := h.events
  phase := h.phase
  parts := h.parts
  candidate := h.candidate
  bound := h.bound
  early := h.early
  late := h.late
  last := h.last
  payload := h.payload
  within := by
    refine ⟨fun k f hk hs => h.within.file k f ((hfile k f hs).1 hk) hs, fun k l f hk hf hs => ?_⟩
    have hf' := (hfile _ f hs).1 hf
    exact h.within.line k l f ((hline k l f hf' hs).1 hk) hf' hs
  stores := by
    intro part hpart
    obtain ⟨k, hk, hlines⟩ := h.stores part hpart
    refine ⟨k, (hfile k _ rfl).2 hk, fun r hr => ?_⟩
    obtain ⟨q, hq⟩ := hlines r hr
    exact ⟨q, (hline q ⟨k, r.facts⟩ _ hk rfl).2 hq⟩
  settled := hscan

/-- What everybody else does leaves an import where it is. -/
theorem InProgress.aside {a : Action} (h : InProgress env config files jobId scanId log db)
    (he : a.Elsewhere jobId scanId db) (ha : a.apply env db = .ok db') :
    InProgress env config files jobId scanId log db' := by
  have haside := Aside.of_elsewhere he ha
  obtain ⟨job, hjob, hcandidate⟩ := h.job
  obtain ⟨job', hjob', hpayload⟩ := (Action.leases ha).job jobId job hjob
  obtain ⟨scan, hscan⟩ := h.scan
  obtain ⟨scan', hscan', hsettled⟩ := haside.scan scan hscan
  obtain ⟨c, n, hc, hpos⟩ := h.position
  obtain ⟨token, _, hc'⟩ := haside.checkpoint c hc
  refine ⟨h.ok.step ha, ⟨job', hjob', by rw [hpayload, hcandidate]⟩, ⟨scan', hscan'⟩,
    ⟨_, n, hc', hpos.of_rows haside.file haside.line fun hphase scan'' hscan'' => ?_⟩⟩
  obtain rfl : scan' = scan'' := Option.some.inj (hscan'.symm.trans hscan'')
  exact hsettled (hpos.settled hphase scan hscan)

/-! ## Transactions -/

/-- One more phase. -/
theorem Position.phase_step (h : Position env config files scanId c n log db) {target : Phase}
    {payload : Payload} (hnext : c.phase.index + 1 = target.index) (hlast : target.index ≤ 11)
    (hstart : target.index ≤ 2 → CountsTo env config files 0 payload)
    (hfull : target.index = 3 → (batchesOf env config files).length + 2 ≤ log.length)
    (hfiles : db'.facts.files = db.facts.files) (hlines : db'.facts.lines = db.facts.lines)
    (hsettled : 10 ≤ target.index →
      ∀ scan, db'.facts.scans.get? scanId = some scan → sealable scan.status = false) :
    Position env config files scanId
      { c with phase := target, checkpointSeq := c.checkpointSeq + 1, payload := payload }
      n (log ++ [.phase target]) db' := by
  have hlength := h.length
  have hbound := h.bound
  have hseq := h.seq
  have hn₀ : target.index ≤ 2 → n = 0 := fun hle => h.early (by omega)
  have hn : 3 ≤ target.index → n = (batchesOf env config files).length := by
    intro hle
    rcases Nat.lt_or_ge 3 target.index with hlt | hge
    · exact h.late (by omega)
    · have := hfull (by omega)
      omega
  have hevent : (history (batchesOf env config files))[c.checkpointSeq]? = some (.phase target) := by
    rw [hseq]
    rcases Nat.lt_or_ge target.index 3 with hlt | hge
    · rw [hn₀ (by omega)]
      exact history_early hnext.symm (by omega)
    · rw [hn hge]
      exact history_late hnext.symm (by omega) (by omega)
  constructor
  case seq =>
    show c.checkpointSeq + 1 = target.index + n
    omega
  case events => rw [h.events, take_history_succ hevent]
  case phase => exact lastPhase_append_phase log target
  case parts => rw [ingestedParts_append, h.parts]; exact List.append_nil _
  case candidate => exact h.candidate
  case bound => exact h.bound
  case early => exact fun hlt => hn₀ (Nat.le_of_lt hlt)
  case late => exact hn
  case last => exact hlast
  case payload =>
    intro hle
    rw [hn₀ hle]
    exact hstart hle
  case within => exact h.within.congr hfiles hlines
  case stores =>
    intro part hpart
    obtain ⟨k, hk, hrows⟩ := h.stores part hpart
    exact ⟨k, by rw [hfiles, hk], fun r hr => by rw [hlines]; exact hrows r hr⟩
  case settled => exact hsettled

/-- **A phase transaction moves an import by one phase**, or finds it done. -/
theorem InProgress.phase (h : InProgress env config files jobId scanId log db)
    {owner token : Nat} {target : Phase} {payload payload' : Payload}
    {op : Db → Payload → Except Failure (Db × Payload)} {committed : Bool}
    (hr : runPhaseOperation db jobId owner token target payload op = .ok (db', payload', committed))
    (hop : ∀ db₁, op db payload = .ok (db₁, payload') →
      db₁.facts = db.facts ∧ db₁.imports = db.imports)
    (hhigh : target.index ≤ 9)
    (hstart : target.index ≤ 2 → log.length < 2 → CountsTo env config files 0 payload')
    (hfull : target.index = 3 → (batchesOf env config files).length + 2 ≤ log.length) :
    InProgress env config files jobId scanId
      (log ++ if committed then [.phase target] else []) db' ∧
    target.index ≤ (log ++ if committed then [ImportEvent.phase target] else []).length := by
  obtain ⟨c, n, hc, hpos⟩ := h.position
  have hlength := hpos.length
  have hseq := hpos.seq
  obtain ⟨c', hc', ⟨rfl, rfl, rfl, hle⟩ | ⟨rfl, hnext, _, db₁, c₁, hdone, hc₁, _, _, rfl⟩⟩ :=
    runPhaseOperation_ok hr
  · obtain rfl : c = c' := Option.some.inj (hc.symm.trans hc')
    rw [if_neg (by simp), List.append_nil]
    exact ⟨h, by omega⟩
  · obtain rfl : c = c' := Option.some.inj (hc.symm.trans hc')
    obtain ⟨hfacts, himports⟩ := hop db₁ hdone
    obtain rfl : c = c₁ := by
      rw [ImportCheckpointRepository.get, himports] at hc₁
      exact Option.some.inj (hc.symm.trans hc₁)
    rw [if_pos rfl]
    refine ⟨⟨?_, ?_, ?_, ?_⟩, ?_⟩
    · exact h.ok.congr (congrArg Facts.files hfacts) (congrArg Facts.lines hfacts)
    · obtain ⟨job, hjob, hcandidate⟩ := h.job
      refine ⟨job, ?_, hcandidate⟩
      rw [← hjob, JobRepository.get, JobRepository.get, ← himports]
      rfl
    · obtain ⟨scan, hscan⟩ := h.scan
      exact ⟨scan, (congrArg (fun f => f.scans.get? scanId) hfacts).trans hscan⟩
    · refine ⟨_, n, ImportCheckpointRepository.get_putCheckpoint db₁ jobId _, ?_⟩
      refine hpos.phase_step hnext (by omega) (fun hle => hstart hle ?_) hfull
        (congrArg Facts.files hfacts) (congrArg Facts.lines hfacts) (fun hsealed => ?_)
      · have hn := hpos.early (by omega)
        omega
      · omega
    · rw [List.length_append, List.length_singleton]
      omega

theorem take_succ_batches {items : List CoverageItem} {batches : List (List CoverageItem)}
    (h : batches[n]? = some items) :
    (batches.take (n + 1)).flatten = (batches.take n).flatten ++ items := by
  rw [List.take_add_one, h, List.flatten_append]
  simp

theorem filesIn_succ {items : List CoverageItem} {batches : List (List CoverageItem)}
    (h : batches[n]? = some items) : filesIn (batches.take (n + 1)) =
      filesIn (batches.take n) + (items.map CoverageItem.fileCountDelta).sum := by
  rw [filesIn, filesIn, take_succ_batches h, List.map_append, List.sum_append]

theorem linesIn_succ {items : List CoverageItem} {batches : List (List CoverageItem)}
    (h : batches[n]? = some items) : linesIn (batches.take (n + 1)) =
      linesIn (batches.take n) + (items.map fun item => item.lines.length).sum := by
  rw [linesIn, linesIn, take_succ_batches h, List.map_append, List.sum_append]

/-- The settings a worker notes in its payload before the first batch. -/
structure Configured (config : CoordinatorConfig) (p : Payload) : Prop where
  /-- `batch_size` -/
  batchSize : p.batchSize = some (max 1 config.fileBatchSize)
  /-- `max_lines` -/
  maxLines : p.maxLines = some config.limits.maxLines
  /-- `max_est_bytes` -/
  maxEstBytes : p.maxEstBytes = some config.limits.maxEstBytes

/-- **A batch transaction moves an import by one batch.** -/
theorem InProgress.batch (h : InProgress env config files jobId scanId log db)
    {owner token : Nat} {items : List CoverageItem} {payload : Payload} {result : BatchResult}
    (hitems : (batchesOf env config files)[n]? = some items) (hconf : Configured config payload)
    (hr : ingestCoverageBatch env db jobId owner token scanId items (n + 1)
      (filesIn ((batchesOf env config files).take n)) (linesIn ((batchesOf env config files).take n))
      payload = .ok (db', result)) :
    InProgress env config files jobId scanId (log ++ [.batch (n + 1) items]) db' ∧
    result.fileCount = (items.map CoverageItem.fileCountDelta).sum ∧
    result.lineCount = (items.map fun item => item.lines.length).sum := by
  obtain ⟨c, m, hc, hpos⟩ := h.position
  obtain ⟨c', db₁, hc', hphase, _, hbatch, hing, _, rfl⟩ := ingestCoverageBatch_ok hr
  obtain rfl : c = c' := Option.some.inj (hc.symm.trans hc')
  have hindex : c.phase.index = 2 := by rw [hphase]; rfl
  have hcounts := hpos.payload (by omega)
  obtain rfl : n = m := by
    have := hcounts.batchSeq
    omega
  have hlt : n < (batchesOf env config files).length := (List.getElem?_eq_some_iff.1 hitems).1
  obtain ⟨hadds, hfileCount, hlineCount⟩ := ingestFileBatch_spec h.ok hing
  have hflat := take_succ_batches hitems
  have hevent : (history (batchesOf env config files))[c.checkpointSeq]? =
      some (.batch (n + 1) items) := by
    rw [hpos.seq, hindex]
    exact history_batch hitems
  refine ⟨⟨hadds.ok.congr rfl rfl, ?_, ?_, ?_⟩, hfileCount, hlineCount⟩
  · obtain ⟨job, hjob, hcandidate⟩ := h.job
    refine ⟨job, ?_, hcandidate⟩
    rw [← hjob, JobRepository.get, JobRepository.get, hadds.ingests.frame]
    rfl
  · obtain ⟨scan, hscan⟩ := h.scan
    refine ⟨scan, ?_⟩
    rw [← hscan, ← hadds.ingests.scans]
    rfl
  · refine ⟨_, n + 1, ImportCheckpointRepository.get_putCheckpoint db₁ jobId _, ?_⟩
    constructor
    case seq =>
      show c.checkpointSeq + 1 = c.phase.index + (n + 1)
      rw [hpos.seq, Nat.add_assoc]
    case events => rw [hpos.events, take_history_succ hevent]
    case phase => rw [lastPhase_append_batch, hpos.phase]
    case parts => rw [ingestedParts_append, hpos.parts, hflat]; simp [ingestedParts]
    case candidate => exact hpos.candidate
    case bound => exact hlt
    case early => exact fun hearly => by simp only [hindex] at hearly; omega
    case late => exact fun hlate => by simp only [hindex] at hlate; omega
    case last => exact hpos.last
    case payload =>
      refine fun _ => ⟨rfl, ?_, ?_, .inr ?_, .inr ⟨?_, ?_⟩⟩
      · rw [filesIn_succ hitems]
        exact congrArg (_ + ·) hfileCount
      · rw [linesIn_succ hitems]
        exact congrArg (_ + ·) hlineCount
      · simp [batchPayload, hconf.batchSize]
      · simp [batchPayload, hconf.maxLines]
      · simp [batchPayload, hconf.maxEstBytes]
    case within =>
      rw [hflat]
      have hwithin : Within env scanId
          (((batchesOf env config files).take n).flatten ++ items) db := by
        refine ⟨fun k f hk hs => ?_, fun k l f hk hf hs => ?_⟩
        · obtain ⟨part, hpart, he⟩ := hpos.within.file k f hk hs
          exact ⟨part, List.mem_append.2 (.inl hpart), he⟩
        · obtain ⟨part, hpart, he⟩ := hpos.within.line k l f hk hf hs
          exact ⟨part, List.mem_append.2 (.inl hpart), he⟩
      exact (hwithin.ingest h.ok hadds fun part hpart =>
        ⟨part, List.mem_append.2 (.inr hpart), rfl, fun _ hr => hr⟩).congr rfl rfl
    case stores =>
      intro part hpart
      rw [hflat] at hpart
      rcases List.mem_append.1 hpart with hpart | hpart
      · exact (hpos.stores part hpart).mono (fun _ _ => hadds.ingests.file)
          (fun _ _ => hadds.ingests.line)
      · exact hadds.stores part hpart
    case settled => exact fun hsealed => by simp only [hindex] at hsealed; omega

/-- **A seal moves an import by one phase.** -/
theorem InProgress.sealed (h : InProgress env config files jobId scanId log db)
    {owner token : Nat} (hr : sealImport db jobId owner token = .ok db') :
    InProgress env config files jobId scanId (log ++ [.phase .sealed]) db' := by
  obtain ⟨c, n, hc, hpos⟩ := h.position
  obtain ⟨c', scan, hc', _, hscan, hsealable, hle, hge, _, rfl⟩ := sealImport_ok hr
  obtain rfl : c = c' := Option.some.inj (hc.symm.trans hc')
  rw [hpos.candidate] at hscan
  have hindex : c.phase.index + 1 = Phase.sealed.index := by
    have hsealed : Phase.sealed.index = 10 := rfl
    rcases Nat.lt_or_ge c.phase.index 10 with hlt | hten
    · omega
    · rw [hpos.settled hten scan hscan] at hsealable
      cases hsealable
  have hstatus : (ProjectRepository.setStatus db scanId .sealed).facts.scans.get? scanId =
      some { scan with status := .sealed } := by
    rw [ProjectRepository.setStatus]
    simp [hscan]
  have hpos' : Position env config files scanId { c with
      phase := .sealed
      checkpointSeq := c.checkpointSeq + 1
      payload := { c.payload with scanId := some c.scanId } } n (log ++ [.phase .sealed])
      (ProjectRepository.setStatus db scanId .sealed) := by
    refine hpos.phase_step hindex (by decide) (fun hle => absurd hle (by decide))
      (fun he => absurd he (by decide)) rfl rfl fun _ scan' hscan' => ?_
    rw [hstatus, Option.some.injEq] at hscan'
    rw [← hscan']
    rfl
  rw [hpos.candidate] at hpos' ⊢
  refine ⟨h.ok.congr rfl rfl, h.job, ⟨_, hstatus⟩,
    ⟨_, n, ImportCheckpointRepository.get_putCheckpoint _ jobId _, ?_⟩⟩
  exact hpos'.of_rows (fun _ _ _ => Iff.rfl) (fun _ _ _ _ _ => Iff.rfl) hpos'.settled

/-- **A publication moves an import by one phase**, or finds it done. -/
theorem InProgress.published (h : InProgress env config files jobId scanId log db)
    {expected : Option Nat} {readSet : Option ReadSetArg} {committed : Bool}
    (hr : publishTransaction env db jobId expected readSet = .ok (db', committed)) :
    InProgress env config files jobId scanId
      (log ++ if committed then [.phase .published] else []) db' := by
  obtain ⟨c, n, hc, hpos⟩ := h.position
  obtain ⟨job, c', hjob, hc', ⟨rfl, rfl, _⟩ | ⟨rfl, hphase, db₁, ls, hmove, _, _, rfl⟩⟩ :=
    publishTransaction_ok hr
  · rwa [if_neg (by simp), List.append_nil]
  · obtain rfl : c = c' := Option.some.inj (hc.symm.trans hc')
    have hmove := (ScanPublicationService.published_of_ok hmove).1
    rw [if_pos rfl]
    obtain ⟨job', hjob', hcandidate⟩ := h.job
    obtain rfl : job = job' := Option.some.inj (hjob.symm.trans hjob')
    refine ⟨h.ok.congr (congrArg Facts.files hmove.facts) (congrArg Facts.lines hmove.facts),
      ⟨{ job with state := .completed }, by simp [JobRepository.get, Db.putJob], hcandidate⟩, ?_,
      ⟨{ c with
          phase := .published
          checkpointSeq := c.checkpointSeq + 1
          payload := { scanId := some job.inputPayload.scanId } }, n, ?_, ?_⟩⟩
    · obtain ⟨scan, hscan⟩ := h.scan
      exact ⟨scan, (congrArg (fun f => f.scans.get? scanId) hmove.facts).trans hscan⟩
    · simp only [ImportCheckpointRepository.get, Db.putJob, Db.putCheckpoint, Keyed.get?_put,
        if_pos]
    · refine hpos.phase_step (by rw [hphase]; rfl) (by decide) (fun hle => absurd hle (by decide))
        (fun he => absurd he (by decide)) (congrArg Facts.files hmove.facts)
        (congrArg Facts.lines hmove.facts) fun _ scan hscan => ?_
      refine hpos.settled (by rw [hphase]; decide) scan ?_
      rw [← hscan]
      exact (congrArg (fun f => f.scans.get? scanId) hmove.facts).symm

end Positions

end ScanImportCoordinator

end FosCoverage
