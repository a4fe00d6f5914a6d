import FosCoverage.Import.Effects

/-!
# From the coordinator to the job service

A durable import is created by one component and run by another: `ScanImportCoordinator.create`
commits the job row, then `VNextBackgroundJobService.submit` is called with the id of that row and is
to queue the callback, whose first step is the transition from queued to running.  A restart takes
the same way for every import row it finds.

* `submit`, `JobExecutor.submitJob` and `JobRepository.start` are the job service, the bounded queue
  and the first step of a runner.
* `enqueueCreated` and `resumeScanImport` are the two callers, with what they record when `submit`
  raises.
* `HandedOver` is what a hand-over is for.  `submit` creates the row it is handed, which is there
  already, so that no import is ever handed over (`import_never_handed_over`) and a created import is
  recorded as failed on the spot (`enqueueCreated_fails_job`).
-/

set_option autoImplicit false

namespace FosCoverage

open Relational Outcome

/-! ## The executor -/

/-- `BoundedJobExecutor` with the queue of the resource class `database`. -/
structure JobExecutor where
  /-- `_accepting`: no shutdown has begun. -/
  accepting : Bool
  /-- `max_queue_size` of the queue -/
  maxQueueSize : Nat
  /-- The jobs whose callbacks are queued. -/
  queue : List Nat
  deriving DecidableEq, Repr

/-- `submit_job` without reuse: the callback is put at the end of the queue, if there is room. -/
def JobExecutor.submitJob (ex : JobExecutor) (jobId : Nat) : Except Failure JobExecutor := do
  require (.technicalFailure "background job executor is shutting down") (ex.accepting = true)
  require (.technicalFailure "Background job queue is full for resource 'database'")
    (ex.queue.length < ex.maxQueueSize)
  pure { ex with queue := ex.queue ++ [jobId] }

/-! ## The job service -/

namespace JobRepository

/-- `find_active`: the oldest queued or running job with the given identity. -/
def findActive (db : Db) (projectId scanId : Nat) (isScanImport : Bool) (dataVersion : Nat) :
    Option Job :=
  let active := db.imports.jobs.select fun _ job =>
    job.projectId = projectId ∧ job.scanId = scanId ∧ job.isScanImport = isScanImport ∧
      job.dataVersion = dataVersion ∧ (job.state = .queued ∨ job.state = .running)
  ((active.insertionSort fun a b => a.1 ≤ b.1).head?).map Prod.snd

/-- `start`: from queued to running, for the stored lease owner only. -/
def start (db : Db) (jobId leaseOwner : Nat) : Option Db :=
  match get db jobId with
  | some job =>
    if leaseOwner ≠ 0 ∧ job.state = .queued ∧ job.leaseOwner = leaseOwner then
      some (db.putJob jobId { job with state := .running })
    else none
  | none => none

end JobRepository

/-- What a hand-over leaves: the database, the executor, and what it returns or raises. -/
structure Handover where
  /-- The database. -/
  db : Db
  /-- The executor. -/
  executor : JobExecutor
  /-- The row `submit` returns, or what was raised. -/
  result : Except Failure Job

namespace VNextBackgroundJobService

/-- `submit` by the service with the given lease owner.  Without a job id an active job with the same
identity is returned; with one the row is created, then its callback queued, and a row whose callback
cannot be queued is failed. -/
def submit (leaseOwner : Nat) (db : Db) (ex : JobExecutor) (job : Job) (jobId : Option Nat) :
    Handover :=
  match jobId, JobRepository.findActive db job.projectId job.scanId job.isScanImport
      job.dataVersion with
  | none, some active => ⟨db, ex, .ok active⟩
  | _, _ =>
    let id := jobId.getD db.uuid
    let db := if jobId.isSome then db else { db with uuid := db.uuid + 1 }
    let row : Job := { job with state := .queued, leaseOwner := leaseOwner }
    match JobRepository.create db id row with
    | .error e => ⟨db, ex, .error e⟩
    | .ok db =>
      match ex.submitJob id with
      | .ok ex => ⟨db, ex, .ok row⟩
      | .error e =>
        ⟨(JobRepository.transitionTerminal db id leaseOwner .failed).getD db, ex, .error e⟩

/-- `submit` refuses the id of a row that exists. -/
theorem submit_existing {leaseOwner jobId : Nat} {db : Db} {ex : JobExecutor} {job : Job}
    (h : (JobRepository.get db jobId).isSome = true) :
    submit leaseOwner db ex job (some jobId) = ⟨db, ex, .error .jobIdAlreadyExists⟩ := by
  have hcreate : ∀ row, JobRepository.create db jobId row = .error .jobIdAlreadyExists := by
    intro row
    have hsome : ¬ (JobRepository.get db jobId).isNone = true := by
      rw [Option.isNone_iff_eq_none, ← Option.not_isSome_iff_eq_none, not_not]
      exact h
    rw [JobRepository.create, require_of_not hsome]
    rfl
  simp [submit, hcreate]

end VNextBackgroundJobService

open VNextBackgroundJobService ScanImportRecoveryService

/-- The end of `create_scan` of the API: the created import is submitted, and recorded as failed when
`submit` raises. -/
def enqueueCreated (leaseOwner : Nat) (db : Db) (ex : JobExecutor) (created : CreatedImport)
    (job : Job) : Handover :=
  let out := submit leaseOwner db ex job (some created.jobId)
  match out.result with
  | .ok _ => out
  | .error e =>
    match recordFailure out.db created.jobId "ENQUEUE" e.message (some created.fencingToken)
        .aborted created.ownerToken with
    | .ok db => { out with db := db }
    | .error e' => { out with result := .error e' }

/-- `_resume_scan_import`: an import row found at a restart is submitted again. -/
def resumeScanImport (leaseOwner : Nat) (db : Db) (ex : JobExecutor) (jobId : Nat) (job : Job) :
    Handover :=
  let out := submit leaseOwner db ex job (some jobId)
  match out.result with
  | .ok _ => out
  | .error e =>
    match recordFailure out.db jobId "RESUME_ENQUEUE" e.message none .failed job.leaseOwner with
    | .ok db => { out with db := db }
    | .error e' => { out with result := .error e' }

/-- What a hand-over is for: `submit` returns, the callback is queued, its first transition succeeds
on the row as it was left, and the job has not failed. -/
def HandedOver (leaseOwner jobId : Nat) (ex : JobExecutor) (out : Handover) : Prop :=
  out.result.isOk = true ∧ out.executor.queue = ex.queue ++ [jobId] ∧
    (JobRepository.start out.db jobId leaseOwner).isSome = true ∧
    ∀ job ∈ JobRepository.get out.db jobId, job.state ≠ .failed

instance (leaseOwner jobId : Nat) (ex : JobExecutor) (out : Handover) :
    Decidable (HandedOver leaseOwner jobId ex out) :=
  inferInstanceAs (Decidable (_ ∧ _ ∧ _ ∧ ∀ job ∈ JobRepository.get out.db jobId, _))

/-! ## The row of a created import -/

section Created

variable {env : Env} {db db' : Db}

/-- The row `create` commits: queued, and owned by the token of the import. -/
theorem ScanImportCoordinator.create_row {r : ImportRequest} {created : CreatedImport}
    (h : create env db r = .ok (db', created)) :
    ∃ job, JobRepository.get db' created.jobId = some job ∧ job.isScanImport = true ∧
      job.state = .queued ∧ job.leaseOwner = created.ownerToken ∧ created.ownerToken ≠ 0 := by
  simp only [create, bind_eq_ok, pure_eq_ok, Prod.exists, Prod.mk.injEq] at h
  obtain ⟨_, _, db₁, acquired, _, _, _, db₂, projectId, _, db₃, scanId, _, db₄, _, db₅, hjob, rfl,
    rfl⟩ := h
  simp only [JobRepository.create, bind_eq_ok, pure_eq_ok] at hjob
  obtain ⟨_, _, rfl⟩ := hjob
  have hget : ∀ (d : Db) (s t : Nat) (sha : String) (p : Payload) (row : Job),
      JobRepository.get (ImportCheckpointRepository.create (d.putJob db.uuid row) db.uuid s sha t p)
        db.uuid = some row := by
    intro d s t sha p row
    unfold ImportCheckpointRepository.create
    split <;> simp [JobRepository.get, Db.putJob, Db.putCheckpoint]
  exact ⟨_, hget _ _ _ _ _ _, rfl, rfl, rfl, Nat.succ_ne_zero _⟩

/-- A failure recorded by the lease owner of a live job ends it. -/
theorem ScanImportRecoveryService.recordFailure_row {jobId : Nat} {phase message : String}
    {fencingToken : Option Nat} {status : ScanStatus} {job : Job}
    (hget : JobRepository.get db jobId = some job) (hlive : job.state.live = true)
    (howner : job.leaseOwner ≠ 0) :
    ∃ db', recordFailure db jobId phase message fencingToken status job.leaseOwner = .ok db' ∧
      JobRepository.get db' jobId = some { job with state := .failed } := by
  have hget' : JobRepository.get (recordRow db ⟨jobId, job.scanId, phase, message⟩) jobId =
      some job := by
    obtain ⟨failures, hrow⟩ := recordRow_eq db ⟨jobId, job.scanId, phase, message⟩
    rw [hrow]
    exact hget
  generalize hrow : recordRow db ⟨jobId, job.scanId, phase, message⟩ = d at hget'
  have hterm : JobRepository.transitionTerminal d jobId job.leaseOwner .failed =
      some (d.putJob jobId { job with state := .failed }) := by
    simp [JobRepository.transitionTerminal, hget', howner, hlive]
  refine ⟨RepositoryResourceLockService.release
    (failScan (d.putJob jobId { job with state := .failed }) job.scanId status) jobId
    job.leaseOwner none, ?_, ?_⟩
  · have howner' : require Failure.jobOwnerRequired (job.leaseOwner ≠ 0) = .ok () :=
      require_eq_ok.2 howner
    simp only [recordFailure, hget, orFail_some, ok_bind, if_pos howner, howner', hrow, hterm]
    rfl
  · simp [JobRepository.get, RepositoryResourceLockService.release, failScan_imports, Db.putJob]

end Created

/-! ## Nothing is handed over -/

section Refused

variable {env : Env} {leaseOwner : Nat} {db db' : Db} {ex : JobExecutor}

/-- Of a row that exists nothing is queued and nothing is returned. -/
theorem not_handedOver_of_error {jobId : Nat} {out : Handover} {e : Failure}
    (h : out.result = .error e) : ¬ HandedOver leaseOwner jobId ex out := by
  rintro ⟨hok, _⟩
  rw [h] at hok
  cases hok

/-- **The hand-over of a created import fails it.** -/
theorem enqueueCreated_fails_job {r : ImportRequest} {created : CreatedImport} {job : Job}
    (h : ScanImportCoordinator.create env db r = .ok (db', created))
    (hjob : JobRepository.get db' created.jobId = some job) :
    (enqueueCreated leaseOwner db' ex created job).result = .error .jobIdAlreadyExists ∧
      (enqueueCreated leaseOwner db' ex created job).executor = ex ∧
      JobRepository.get (enqueueCreated leaseOwner db' ex created job).db created.jobId =
        some { job with state := .failed } := by
  obtain ⟨job', hget, _, hstate, howner, hne⟩ := ScanImportCoordinator.create_row h
  obtain rfl : job = job' := Option.some.inj (hjob.symm.trans hget)
  have hlive : job.state.live = true := by rw [hstate]; rfl
  have hrecorded : ∃ db'', recordFailure db' created.jobId "ENQUEUE"
      Failure.jobIdAlreadyExists.message (some created.fencingToken) .aborted job.leaseOwner =
        .ok db'' ∧ JobRepository.get db'' created.jobId = some { job with state := .failed } :=
    recordFailure_row hjob hlive (by rw [howner]; exact hne)
  obtain ⟨db'', hrecord, hrow⟩ := hrecorded
  rw [howner] at hrecord
  have hsubmit : submit leaseOwner db' ex job (some created.jobId) =
      ⟨db', ex, .error .jobIdAlreadyExists⟩ := submit_existing (by rw [hjob]; rfl)
  simp only [enqueueCreated, hsubmit, hrecord, hrow, and_self]

/-- A restart does not get an import row into the queue either. -/
theorem resumeScanImport_raises {jobId : Nat} {job : Job}
    (hjob : (JobRepository.get db jobId).isSome = true) :
    ∃ e, (resumeScanImport leaseOwner db ex jobId job).result = .error e := by
  simp only [resumeScanImport, submit_existing hjob]
  split
  · exact ⟨_, rfl⟩
  · exact ⟨_, rfl⟩

/-- **No import is ever handed over**: not the one `create` has just committed, and none of the live
rows a restart finds. -/
theorem import_never_handed_over (env : Env) (leaseOwner : Nat) (db : Db) (ex : JobExecutor) :
    (∀ (r : ImportRequest) (db' : Db) (created : CreatedImport) (job : Job),
      ScanImportCoordinator.create env db r = .ok (db', created) →
      JobRepository.get db' created.jobId = some job →
      ¬ HandedOver leaseOwner created.jobId ex (enqueueCreated leaseOwner db' ex created job)) ∧
    ∀ (jobId : Nat) (job : Job), JobRepository.get db jobId = some job →
      job.isScanImport = true → job.state.live = true →
      ¬ HandedOver leaseOwner jobId ex (resumeScanImport leaseOwner db ex jobId job) := by
  refine ⟨fun r db' created job h hjob => ?_, fun jobId job hjob _ _ => ?_⟩
  · exact not_handedOver_of_error (enqueueCreated_fails_job h hjob).1
  · have hraises : ∃ e, (resumeScanImport leaseOwner db ex jobId job).result = .error e :=
      resumeScanImport_raises (by rw [hjob]; rfl)
    obtain ⟨e, he⟩ := hraises
    exact not_handedOver_of_error he

end Refused

namespace Sample

/-- An executor with room. -/
def idle : JobExecutor := ⟨true, 25, []⟩

/-- One resource and nothing else. -/
def oneResource : Db := Action.exec env Db.empty (.registerResource 7)

/-- The import of the first scan. -/
def firstImport : ImportRequest := ⟨identity "sha1", [7], "sha1", 10⟩

/-- What its hand-over to the service `99` leaves, with the id of the job. -/
def firstHandover : Option (Nat × Handover) := do
  let (db, created) ← (ScanImportCoordinator.create env oneResource firstImport).toOption
  let job ← JobRepository.get db created.jobId
  pure (created.jobId, enqueueCreated 99 db idle created job)

end Sample

open Sample in
/-- The first import of an empty system, submitted to an idle executor. -/
theorem import_never_handed_over_sample :
    ∃ db' created job, ScanImportCoordinator.create Sample.env oneResource firstImport =
        .ok (db', created) ∧ JobRepository.get db' created.jobId = some job ∧
      ¬ HandedOver 99 created.jobId idle (enqueueCreated 99 db' idle created job) ∧
      ¬ HandedOver 99 created.jobId idle (resumeScanImport 99 db' idle created.jobId job) := by
  have hok : (ScanImportCoordinator.create Sample.env oneResource firstImport).isOk = true := by
    decide +kernel
  obtain ⟨⟨db', created⟩, hcreate⟩ := exists_of_isOk hok
  obtain ⟨job, hjob, himport, hstate, _⟩ := ScanImportCoordinator.create_row hcreate
  exact ⟨db', created, job, hcreate, hjob,
    (import_never_handed_over Sample.env 99 oneResource idle).1 _ _ _ _ hcreate hjob,
    (import_never_handed_over Sample.env 99 db' idle).2 _ _ hjob himport (by rw [hstate]; rfl)⟩

/-- With an idle executor the first import of an empty system ends failed. -/
theorem first_import_is_not_enqueued :
    ∃ h ∈ Sample.firstHandover, ¬ HandedOver 99 h.1 Sample.idle h.2 ∧
      (JobRepository.get h.2.db h.1).map Job.state = some .failed := by
  decide +kernel

end FosCoverage
