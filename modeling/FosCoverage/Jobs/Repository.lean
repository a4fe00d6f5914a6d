import FosCoverage.Lib.Outcome
import FosCoverage.Lib.Table
import FosCoverage.Lib.Trace
import FosCoverage.Failure

/-!
# Background jobs

`JobRepository` with all its columns, for jobs of every kind.  The row of a job is written by seven
operations besides `create`; six of them are an `UPDATE` of one row under a condition
(`updateJob`), `mark_stale` is one of all rows.

* The callers pass a dictionary (`JobFields`), in which a missing entry and an empty one are the same.
* `Expected` are the three expectations of a compare-and-set; one that is `None` is not compared.
* `Fence` is what a worker observes of a row, and `Fence.expected` what it then expects.
* `Event` is one call with the clock it reads, `Event.apply` its transaction.

Times are whole seconds, as they are stored; lease owners and job ids are strings, and the empty
string is no owner.
-/

set_option autoImplicit false

namespace FosCoverage

open Relational Outcome

/-! ## Rows -/

/-- `coverage_background_jobs.state`, a free text of which six values have a meaning. -/
inductive JobStatus
  | queued | running | interrupted | completed | failed | superseded
  /-- Any other text. -/
  | other (name : String)
  deriving DecidableEq, Repr

/-- The row of a job. -/
structure JobRow where
  /-- `project_id` -/
  projectId : Option Nat
  /-- `scan_id` -/
  scanId : Option Nat
  /-- `kind` -/
  kind : String
  /-- `state` -/
  state : JobStatus
  /-- `progress`, in ten-thousandths -/
  progress : Nat
  /-- `input_payload` -/
  inputPayload : String
  /-- `result_path` -/
  resultPath : String
  /-- `error_message` -/
  errorMessage : String
  /-- `data_version` -/
  dataVersion : Option Nat
  /-- `heartbeat_at` -/
  heartbeatAt : Option Nat
  /-- `created_at` -/
  createdAt : Nat
  /-- `started_at` -/
  startedAt : Option Nat
  /-- `finished_at` -/
  finishedAt : Option Nat
  /-- `updated_at` -/
  updatedAt : Nat
  /-- `lease_owner` -/
  leaseOwner : String
  /-- `handler_version` -/
  handlerVersion : String
  deriving DecidableEq, Repr

/-- `coverage_background_jobs` -/
abbrev JobTable := Keyed String JobRow

/-- The dictionary the operations receive. -/
structure JobFields where
  /-- `job_id` -/
  jobId : String
  /-- `project_id` -/
  projectId : Option Nat := none
  /-- `scan_id` -/
  scanId : Option Nat := none
  /-- `kind` -/
  kind : String := ""
  /-- `state` -/
  state : Option JobStatus := none
  /-- `progress` -/
  progress : Nat := 0
  /-- `input_payload` -/
  inputPayload : String := ""
  /-- `result_path` -/
  resultPath : String := ""
  /-- `error_message` -/
  errorMessage : String := ""
  /-- `data_version` -/
  dataVersion : Option Nat := none
  /-- `heartbeat_at` -/
  heartbeatAt : Option Nat := none
  /-- `created_at` -/
  createdAt : Option Nat := none
  /-- `started_at` -/
  startedAt : Option Nat := none
  /-- `finished_at` -/
  finishedAt : Option Nat := none
  /-- `updated_at` -/
  updatedAt : Option Nat := none
  /-- `lease_owner` -/
  leaseOwner : String := ""
  /-- `handler_version` -/
  handlerVersion : String := ""
  deriving DecidableEq, Repr

/-- What no operation but `create` writes. -/
structure JobIdentity where
  /-- `project_id` -/
  projectId : Option Nat
  /-- `scan_id` -/
  scanId : Option Nat
  /-- `kind` -/
  kind : String
  /-- `input_payload` -/
  inputPayload : String
  /-- `data_version` -/
  dataVersion : Option Nat
  /-- `handler_version` -/
  handlerVersion : String
  /-- `created_at` -/
  createdAt : Nat
  deriving DecidableEq, Repr

/-- The identity of a row. -/
def JobRow.identity (row : JobRow) : JobIdentity :=
  ⟨row.projectId, row.scanId, row.kind, row.inputPayload, row.dataVersion, row.handlerVersion,
    row.createdAt⟩

/-- The states a job does not leave. -/
def JobStatus.terminal : JobStatus → Bool
  | .completed | .failed | .superseded => true
  | _ => false

/-! ## Expectations -/

/-- `expected_state`, `expected_lease_owner` and `expected_heartbeat_at`. -/
structure Expected where
  /-- `expected_state` -/
  state : Option JobStatus := none
  /-- `expected_lease_owner` -/
  leaseOwner : Option String := none
  /-- `expected_heartbeat_at` -/
  heartbeatAt : Option Nat := none
  deriving DecidableEq, Repr

/-- The clauses of the compare-and-set: an expectation that is `None` drops its clause. -/
def Expected.holds (e : Expected) (row : JobRow) : Bool :=
  (∀ s ∈ e.state, row.state = s) ∧ (∀ o ∈ e.leaseOwner, row.leaseOwner = o) ∧
    ∀ h ∈ e.heartbeatAt, row.heartbeatAt = some h

/-- What a worker observes of a row before it claims it. -/
structure Fence where
  /-- The state. -/
  state : JobStatus
  /-- The lease owner. -/
  leaseOwner : String
  /-- The heartbeat. -/
  heartbeatAt : Option Nat
  deriving DecidableEq, Repr

/-- The fence of a row. -/
def JobRow.fence (row : JobRow) : Fence := ⟨row.state, row.leaseOwner, row.heartbeatAt⟩

/-- What a worker that observed a fence passes on. -/
def Fence.expected (f : Fence) : Expected := ⟨some f.state, some f.leaseOwner, f.heartbeatAt⟩

/-! ## Operations -/

namespace Jobs

/-- `_full_fields`; `now` is the clock. -/
def fullFields (now : Nat) (job : JobFields) : JobRow where
  projectId := job.projectId
  scanId := job.scanId
  kind := job.kind
  state := job.state.getD .queued
  progress := job.progress
  inputPayload := if job.inputPayload ≠ "" then job.inputPayload else "\x7b\x7d"
  resultPath := job.resultPath
  errorMessage := job.errorMessage
  dataVersion := job.dataVersion
  heartbeatAt := job.heartbeatAt
  createdAt := job.createdAt.getD now
  startedAt := job.startedAt
  finishedAt := job.finishedAt
  updatedAt := job.updatedAt.getD now
  leaseOwner := job.leaseOwner
  handlerVersion := job.handlerVersion

/-- `create` -/
def create (now : Nat) (t : JobTable) (job : JobFields) : Except Failure (JobTable × JobRow) := do
  require .jobIdAlreadyExists ((t.get? job.jobId).isNone = true)
  pure (t.put job.jobId (fullFields now job), fullFields now job)

/-- An `UPDATE` of one row under a condition; the result is the written row, if there is one. -/
def updateJob (t : JobTable) (jobId : String) (p : JobRow → Bool) (f : JobRow → JobRow) :
    JobTable × Option JobRow :=
  match t.get? jobId with
  | some row => if p row then (t.put jobId (f row), some (f row)) else (t, none)
  | none => (t, none)

/-- `start`: from queued to running, for the lease owner. -/
def start (now : Nat) (t : JobTable) (job : JobFields) : JobTable × Option JobRow :=
  if job.leaseOwner = "" then (t, none)
  else
    let stamp := job.heartbeatAt.getD now
    updateJob t job.jobId (fun row => row.state = .queued ∧ row.leaseOwner = job.leaseOwner)
      fun row => { row with
        state := .running
        startedAt := some (row.startedAt.getD (job.startedAt.getD stamp))
        heartbeatAt := some stamp
        updatedAt := now }

/-- `heartbeat`: the progress of a running job, for the lease owner. -/
def heartbeat (now : Nat) (t : JobTable) (job : JobFields) : JobTable × Option JobRow :=
  if job.leaseOwner = "" then (t, none)
  else
    updateJob t job.jobId (fun row => row.state = .running ∧ row.leaseOwner = job.leaseOwner)
      fun row => { row with
        progress := job.progress
        heartbeatAt := some (job.heartbeatAt.getD now)
        updatedAt := now }

/-- `transition_terminal`: to any state but queued and running, for the lease owner. -/
def transitionTerminal (now : Nat) (t : JobTable) (job : JobFields) : JobTable × Option JobRow :=
  match job.state with
  | none | some .queued | some .running | some (.other "") => (t, none)
  | some state =>
    if job.leaseOwner = "" then (t, none)
    else
      let stamp := job.heartbeatAt.getD (job.finishedAt.getD now)
      updateJob t job.jobId
        (fun row => (row.state = .queued ∨ row.state = .running ∨ row.state = .interrupted) ∧
          row.leaseOwner = job.leaseOwner)
        fun row => { row with
          state := state
          progress := job.progress
          resultPath := job.resultPath
          errorMessage := job.errorMessage
          heartbeatAt := some stamp
          finishedAt := some (job.finishedAt.getD stamp)
          updatedAt := now }

/-- `mark_stale`: queued jobs, and running ones whose heartbeat is missing, too old or that of
another owner, are interrupted. -/
def markStale (now : Nat) (t : JobTable) (timeoutSeconds : Nat) (leaseOwner : String)
    (excludeKinds : List String) : JobTable :=
  t.updateWhere
    (fun _ row =>
      (row.state = .queued ∨ (row.state = .running ∧
        ((∀ h ∈ row.heartbeatAt, h < now - timeoutSeconds) ∨
          (leaseOwner ≠ "" ∧ row.leaseOwner ≠ leaseOwner)))) ∧
      row.kind ∉ excludeKinds)
    fun row => { row with
      state := .interrupted
      errorMessage := "worker lease expired"
      updatedAt := now
      finishedAt := some now }

/-- A new lease: what `claim_for_recovery` and `reclaim` share. -/
def takeLease (now : Nat) (t : JobTable) (jobId leaseOwner : String) (stamp : Option Nat)
    (expected : Expected) (from_ : JobStatus → Bool) (state : JobStatus) :
    JobTable × Option JobRow :=
  let stamp := stamp.getD now
  updateJob t jobId (fun row => from_ row.state ∧ expected.holds row) fun row => { row with
    state := state
    leaseOwner := leaseOwner
    heartbeatAt := some stamp
    errorMessage := ""
    finishedAt := none
    updatedAt := stamp }

/-- `claim_for_recovery`: a queued or running job is queued again for a new owner. -/
def claimForRecovery (now : Nat) (t : JobTable) (jobId leaseOwner : String) (stamp : Option Nat)
    (expected : Expected) : JobTable × Option JobRow :=
  takeLease now t jobId leaseOwner stamp expected
    (fun s => s = .queued ∨ s = .running) .queued

/-- `reclaim`: a live job runs for a new owner. -/
def reclaim (now : Nat) (t : JobTable) (jobId leaseOwner : String) (stamp : Option Nat)
    (expected : Expected) : JobTable × Option JobRow :=
  takeLease now t jobId leaseOwner stamp expected
    (fun s => s = .queued ∨ s = .running ∨ s = .interrupted) .running

/-- `mark_interrupted` -/
def markInterrupted (now : Nat) (t : JobTable) (jobId message : String) (expected : Expected) :
    JobTable × Option JobRow :=
  updateJob t jobId (fun row => (row.state = .queued ∨ row.state = .running) ∧ expected.holds row)
    fun row => { row with
      state := .interrupted
      errorMessage := message
      updatedAt := now
      finishedAt := some now }

end Jobs

/-! ## Calls -/

/-- The calls of the workers. -/
inductive JobCall
  /-- `create` -/
  | create (job : JobFields)
  /-- `start` -/
  | start (job : JobFields)
  /-- `heartbeat` -/
  | heartbeat (job : JobFields)
  /-- `transition_terminal` -/
  | transitionTerminal (job : JobFields)
  /-- `claim_for_recovery` -/
  | claimForRecovery (jobId leaseOwner : String) (stamp : Option Nat) (expected : Expected)
  /-- `reclaim` -/
  | reclaim (jobId leaseOwner : String) (stamp : Option Nat) (expected : Expected)
  /-- `mark_interrupted` -/
  | markInterrupted (jobId message : String) (expected : Expected)
  /-- `mark_stale` -/
  | markStale (timeoutSeconds : Nat) (leaseOwner : String) (excludeKinds : List String)
  deriving DecidableEq, Repr

/-- A call at the time it reads from the clock. -/
structure JobEvent where
  /-- `utc_sql` -/
  now : Nat
  /-- The call. -/
  call : JobCall
  deriving DecidableEq, Repr

/-- The transaction of a call: the table it leaves and the row it returns. -/
def JobEvent.apply (t : JobTable) (e : JobEvent) : JobTable × Option JobRow :=
  match e.call with
  | .create job =>
    match Jobs.create e.now t job with
    | .ok (t', row) => (t', some row)
    | .error _ => (t, none)
  | .start job => Jobs.start e.now t job
  | .heartbeat job => Jobs.heartbeat e.now t job
  | .transitionTerminal job => Jobs.transitionTerminal e.now t job
  | .claimForRecovery jobId owner stamp expected =>
    Jobs.claimForRecovery e.now t jobId owner stamp expected
  | .reclaim jobId owner stamp expected => Jobs.reclaim e.now t jobId owner stamp expected
  | .markInterrupted jobId message expected =>
    Jobs.markInterrupted e.now t jobId message expected
  | .markStale timeout owner kinds => (Jobs.markStale e.now t timeout owner kinds, none)

end FosCoverage
