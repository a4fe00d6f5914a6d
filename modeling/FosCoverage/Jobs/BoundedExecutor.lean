import Mathlib.Data.List.Sort
import Mathlib.Logic.Function.Basic

/-!
# The bounded executor

`BoundedJobExecutor` with its threads: callers that submit and cancel jobs, the workers, and callers
of `shutdown`.  One step is a section under the lock, an operation of a queue, a test of the shutdown
event, or the end of a callback.

* A job is a descriptor that everybody shares; the table, the queues, the workers and the callers of
  `shutdown` have its id.  Ids are distinct, so a new id is a new descriptor.
* `exec` is one step of a thread, and does nothing where the thread is somewhere else.
* `finished_pruneJobsLocked` bounds the finished jobs of the table.
* `Transition` lists what a step can do, and `exec_transition` says that it does nothing else.

What is written to the database, the result of a job and its progress are not here, and a callback
raises nothing but an `Exception`.
-/

set_option autoImplicit false

namespace FosCoverage

namespace BoundedJobExecutor

open Function

/-! ## Jobs -/

abbrev JobId := String

/-- `status` -/
inductive JobStatus
  | queued
  | running
  | completed
  | failed
  | cancelled
  | interrupted
  deriving DecidableEq, Repr

/-- The states that `_prune_jobs_locked` looks for. -/
def JobStatus.isTerminal : JobStatus → Bool
  | queued | running => false
  | completed | failed | cancelled | interrupted => true

/-- `JobDescriptor`, without what only the callback and the caller read. -/
structure Job where
  jobType : String
  projectName : String
  resourceClass : String
  status : JobStatus
  createdAt : Nat
  finishedAt : Option Nat
  cancelRequested : Bool
  deriving DecidableEq, Repr

/-- `item.finished_at or item.created_at` -/
def Job.age (job : Job) : Nat :=
  match job.finishedAt with
  | some (t + 1) => t + 1
  | _ => job.createdAt

/-! ## The executor -/

/-- The arguments of the constructor; a resource limit is its workers and its queue size. -/
structure ExecutorConfig where
  maxWorkers : Nat
  maxQueueSize : Nat
  resourceLimits : List (String × Nat × Nat)
  maxRetainedJobs : Nat
  globalWorkerBudget : Option Nat

/-- A queue with its workers. -/
structure Bucket where
  name : String
  maxWorkers : Nat
  maxQueueSize : Nat
  deriving DecidableEq, Repr

/-- `_create_bucket` -/
def createBucket (buckets : List Bucket) (name : String) (workers queueSize : Nat) : List Bucket :=
  if name ∈ buckets.map Bucket.name then buckets
  else buckets ++ [⟨name, max 1 workers, max 1 queueSize⟩]

/-- `_KNOWN_RESOURCE_CLASSES` -/
def knownResourceClasses : List String := ["database", "cpu", "disk"]

namespace ExecutorConfig

/-- `_buckets` -/
def buckets (cfg : ExecutorConfig) : List Bucket :=
  let first := createBucket [] "default" cfg.maxWorkers cfg.maxQueueSize
  let configured := cfg.resourceLimits.foldl (fun buckets limit =>
    if limit.1 = "default" then buckets
    else createBucket buckets limit.1 limit.2.1 limit.2.2) first
  knownResourceClasses.foldl (fun buckets name => createBucket buckets name 1 25) configured

/-- The names of the queues. -/
def names (cfg : ExecutorConfig) : List String := cfg.buckets.map Bucket.name

/-- The queues of the workers, in the order in which `_start_workers` starts them. -/
def workers (cfg : ExecutorConfig) : List String :=
  cfg.buckets.flatMap fun bucket => List.replicate bucket.maxWorkers bucket.name

/-- The queue of a worker. -/
def resourceOf (cfg : ExecutorConfig) (i : Nat) : String := (cfg.workers[i]?).getD ""

/-- `max_retained_jobs` -/
def retained (cfg : ExecutorConfig) : Nat := max 16 cfg.maxRetainedJobs

/-- `global_worker_budget` -/
def budget (cfg : ExecutorConfig) : Option Nat := cfg.globalWorkerBudget.map (max 1)

end ExecutorConfig

/-- Where a worker is. -/
inductive WorkerPc
  /-- In front of the test of the shutdown event. -/
  | checking
  /-- At `queue.get`. -/
  | getting
  /-- With a job that is not started, in front of the lock or waiting for capacity. -/
  | holding (id : JobId)
  /-- In the callback of a job. -/
  | running (id : JobId)
  /-- Behind the callback, which has returned or raised. -/
  | returned (id : JobId) (ok : Bool)
  /-- At the end. -/
  | ended
  deriving DecidableEq, Repr

/-- Where a caller of `shutdown` is. -/
inductive ShutdownPc
  /-- In front of the call. -/
  | idle
  /-- Behind `_accepting = False`. -/
  | refusing
  /-- In front of `get_nowait` of the first of some queues; behind the loop when there is none. -/
  | draining (todo : List String)
  /-- With a job from a queue, in front of the lock. -/
  | cancelling (id : JobId) (todo : List String)
  deriving DecidableEq, Repr

/-- What the threads share, and where they are. -/
structure State where
  /-- The descriptors. -/
  job : JobId → Option Job
  /-- The keys of `_jobs`, in order. -/
  jobs : List JobId
  /-- `_accepting` -/
  accepting : Bool
  /-- `_shutdown_event` -/
  shutdownEvent : Bool
  /-- `_active_jobs` -/
  activeJobs : List JobId
  /-- The queues. -/
  queue : String → List JobId
  /-- The workers. -/
  worker : Nat → WorkerPc
  /-- The callers of `shutdown`. -/
  call : Nat → ShutdownPc

/-- The executor that the constructor leaves. -/
def init (cfg : ExecutorConfig) : State where
  job _ := none
  jobs := []
  accepting := true
  shutdownEvent := false
  activeJobs := []
  queue _ := []
  worker i := if i < cfg.workers.length then .checking else .ended
  call _ := .idle

namespace State

/-- Write a descriptor. -/
def setJob (s : State) (id : JobId) (f : Job → Job) : State :=
  { s with job := update s.job id ((s.job id).map f) }

/-- A worker goes on. -/
def setWorker (s : State) (i : Nat) (pc : WorkerPc) : State :=
  { s with worker := update s.worker i pc }

/-- A caller of `shutdown` goes on. -/
def setCall (s : State) (t : Nat) (pc : ShutdownPc) : State :=
  { s with call := update s.call t pc }

/-- Write a queue. -/
def setQueue (s : State) (name : String) (ids : List JobId) : State :=
  { s with queue := update s.queue name ids }

/-- A job is not started. -/
def giveUpJob (s : State) (id : JobId) (now : Nat) : State :=
  s.setJob id fun job => { job with status := .cancelled, finishedAt := some now }

/-- A job starts to run. -/
def startJob (s : State) (id : JobId) : State :=
  let s := s.setJob id fun job => { job with status := .running }
  { s with activeJobs := if id ∈ s.activeJobs then s.activeJobs else s.activeJobs ++ [id] }

/-- A job ends. -/
def finishJob (s : State) (id : JobId) (ok : Bool) (now : Nat) : State :=
  let s := s.setJob id fun job =>
    { job with
      status := if ok then if job.cancelRequested then .cancelled else .completed else .failed
      finishedAt := some now }
  { s with activeJobs := s.activeJobs.filter fun x => decide (x ≠ id) }

/-- A job is cancelled before it starts. -/
def drainJob (s : State) (id : JobId) (now : Nat) : State :=
  s.setJob id fun job =>
    { job with cancelRequested := true, status := .cancelled, finishedAt := some now }

/-- The job is in a terminal state. -/
def isFinished (s : State) (id : JobId) : Bool := (s.job id).any fun job => job.status.isTerminal

/-- The key of the sort. -/
def age (s : State) (id : JobId) : Nat := ((s.job id).map Job.age).getD 0

end State

/-! ## The sections -/

/-- `_prune_jobs_locked` -/
def pruneJobsLocked (cfg : ExecutorConfig) (s : State) : State :=
  let terminal := s.jobs.filter fun id => s.isFinished id && decide (id ∉ s.activeJobs)
  if terminal.length ≤ cfg.retained then s
  else
    let sorted := terminal.insertionSort fun a b => s.age a ≤ s.age b
    let removed := sorted.take (sorted.length - cfg.retained)
    { s with jobs := s.jobs.filter fun id => decide (id ∉ removed) }

/-- Why a job is not submitted. -/
inductive SubmitError
  /-- `RuntimeError` -/
  | runtime (message : String)
  /-- `ValueError` -/
  | value (message : String)
  deriving DecidableEq, Repr

/-- The arguments of `submit_job`. -/
structure Request where
  jobId : JobId
  jobType : String
  projectName : String
  resourceClass : String
  reuseExisting : Bool
  deriving DecidableEq, Repr

/-- The job does the same and is not done. -/
def Request.reuses (req : Request) (s : State) (id : JobId) : Bool :=
  (s.job id).any fun existing => existing.jobType = req.jobType ∧
    existing.projectName = req.projectName ∧
    (existing.status = .queued ∨ existing.status = .running)

/-- `str(resource_class or "default")` -/
def Request.resource (req : Request) : String :=
  if req.resourceClass = "" then "default" else req.resourceClass

/-- A job as it is submitted. -/
def Request.toJob (req : Request) (now : Nat) : Job where
  jobType := req.jobType
  projectName := req.projectName
  resourceClass := req.resource
  status := .queued
  createdAt := now
  finishedAt := none
  cancelRequested := false

/-- The executor with a job more. -/
def acceptJob (s : State) (req : Request) (now : Nat) : State :=
  { s with
    job := update s.job req.jobId (some (req.toJob now))
    jobs := if req.jobId ∈ s.jobs then s.jobs else s.jobs ++ [req.jobId]
    queue := update s.queue req.resource (s.queue req.resource ++ [req.jobId]) }

/-- `submit_job` -/
def submitJob (cfg : ExecutorConfig) (s : State) (req : Request) (now : Nat) :
    Except SubmitError (State × JobId) :=
  if s.accepting = false then .error (.runtime "background job executor is shutting down")
  else match if req.reuseExisting then s.jobs.find? (req.reuses s) else none with
    | some existing => .ok (s, existing)
    | none =>
      match cfg.buckets.find? fun bucket => bucket.name = req.resource with
      | none => .error (.value ("unknown background resource class: " ++ req.resource))
      | some bucket =>
        if bucket.maxQueueSize ≤ (s.queue req.resource).length then
          .error (.runtime ("Background job queue is full for resource '" ++ req.resource ++
            "' (" ++ toString bucket.maxQueueSize ++ " pending jobs)."))
        else .ok (acceptJob s req now, req.jobId)

/-- What `cancel_job` writes into a descriptor. -/
def requestCancel (now : Nat) (job : Job) : Job :=
  if job.status = .queued then
    { job with cancelRequested := true, status := .cancelled, finishedAt := some now }
  else { job with cancelRequested := true }

/-- `cancel_job` -/
def cancelJob (s : State) (id : JobId) (now : Nat) : State × Bool :=
  if id ∉ s.jobs then (s, false)
  else match s.job id with
    | none => (s, false)
    | some job =>
      if job.status = .completed ∨ job.status = .failed ∨ job.status = .cancelled then (s, false)
      else (s.setJob id (requestCancel now), true)

/-- The test at the head of the loop. -/
def checkShutdown (s : State) (i : Nat) : State :=
  match s.worker i with
  | .checking => s.setWorker i (if s.shutdownEvent then .ended else .getting)
  | _ => s

/-- `queue.get` of a worker; after a timeout it goes on with the loop. -/
def getJob (cfg : ExecutorConfig) (s : State) (i : Nat) : State :=
  match s.worker i with
  | .getting =>
    match s.queue (cfg.resourceOf i) with
    | [] => s.setWorker i .checking
    | id :: rest => (s.setQueue (cfg.resourceOf i) rest).setWorker i (.holding id)
  | _ => s

/-- The condition of the wait for capacity. -/
def mustWait (cfg : ExecutorConfig) (s : State) (job : Job) : Bool :=
  cfg.budget.any (fun budget => budget ≤ s.activeJobs.length) && !s.shutdownEvent &&
    !job.cancelRequested

/-- The section in front of the callback. -/
def claim (cfg : ExecutorConfig) (s : State) (i : Nat) (now : Nat) : State :=
  match s.worker i with
  | .holding id =>
    match s.job id with
    | none => s
    | some job =>
      if mustWait cfg s job then s
      else if job.cancelRequested ∨ s.shutdownEvent then
        (s.giveUpJob id now).setWorker i .checking
      else (s.startJob id).setWorker i (.running id)
  | _ => s

/-- The callback returns or raises. -/
def callbackEnds (s : State) (i : Nat) (ok : Bool) : State :=
  match s.worker i with
  | .running id => s.setWorker i (.returned id ok)
  | _ => s

/-- The section behind the callback. -/
def finish (cfg : ExecutorConfig) (s : State) (i : Nat) (now : Nat) : State :=
  match s.worker i with
  | .returned id ok =>
    (pruneJobsLocked cfg (s.finishJob id ok now)).setWorker i .checking
  | _ => s

/-- `_accepting = False` -/
def refuse (s : State) (t : Nat) : State :=
  match s.call t with
  | .idle => { s with accepting := false }.setCall t .refusing
  | _ => s

/-- `_shutdown_event.set()` -/
def signal (cfg : ExecutorConfig) (s : State) (t : Nat) : State :=
  match s.call t with
  | .refusing => { s with shutdownEvent := true }.setCall t (.draining cfg.names)
  | _ => s

/-- `get_nowait` of a caller of `shutdown`. -/
def drainGet (s : State) (t : Nat) : State :=
  match s.call t with
  | .draining (name :: todo) =>
    match s.queue name with
    | [] => s.setCall t (.draining todo)
    | id :: rest => (s.setQueue name rest).setCall t (.cancelling id (name :: todo))
  | _ => s

/-- The section of a caller of `shutdown`. -/
def drainLock (cfg : ExecutorConfig) (s : State) (t : Nat) (now : Nat) : State :=
  match s.call t with
  | .cancelling id todo => (pruneJobsLocked cfg (s.drainJob id now)).setCall t (.draining todo)
  | _ => s

/-! ## Steps -/

/-- What a thread does next. -/
inductive Step
  /-- `submit_job` -/
  | submit (req : Request) (now : Nat)
  /-- `cancel_job` -/
  | cancel (id : JobId) (now : Nat)
  /-- A worker tests the event. -/
  | check (i : Nat)
  /-- A worker gets a job. -/
  | get (i : Nat)
  /-- A worker looks whether it may start its job. -/
  | claim (i : Nat) (now : Nat)
  /-- A callback ends. -/
  | callback (i : Nat) (ok : Bool)
  /-- A worker is done with a job. -/
  | finish (i : Nat) (now : Nat)
  /-- A shutdown begins. -/
  | refuse (t : Nat)
  /-- It sets the event. -/
  | signal (t : Nat)
  /-- It takes a job from a queue. -/
  | drainGet (t : Nat)
  /-- It cancels the job. -/
  | drainLock (t : Nat) (now : Nat)
  deriving DecidableEq, Repr

/-- One step. -/
def exec (cfg : ExecutorConfig) (s : State) : Step → State
  | .submit req now => match submitJob cfg s req now with
    | .ok (s', _) => s'
    | .error _ => s
  | .cancel id now => (cancelJob s id now).1
  | .check i => checkShutdown s i
  | .get i => getJob cfg s i
  | .claim i now => claim cfg s i now
  | .callback i ok => callbackEnds s i ok
  | .finish i now => finish cfg s i now
  | .refuse t => refuse s t
  | .signal t => signal cfg s t
  | .drainGet t => drainGet s t
  | .drainLock t now => drainLock cfg s t now

/-- The id that a step submits. -/
def Step.submitted? : Step → Option JobId
  | .submit req _ => some req.jobId
  | _ => none

/-! ## What a step can do -/

section Pruning

variable (cfg : ExecutorConfig) (s : State)

/-- Pruning writes the table and nothing else, and keeps what is not finished. -/
theorem pruneJobsLocked_eq :
    ∃ jobs, pruneJobsLocked cfg s = { s with jobs } ∧
      ∀ x ∈ s.jobs, s.isFinished x = false → x ∈ jobs := by
  unfold pruneJobsLocked
  dsimp only
  split
  · exact ⟨s.jobs, rfl, fun x hx _ => hx⟩
  · refine ⟨_, rfl, fun x hx hfinished => List.mem_filter.2 ⟨hx, ?_⟩⟩
    refine decide_eq_true fun hremoved => ?_
    have hterminal := List.mem_of_mem_take hremoved
    rw [List.mem_insertionSort, List.mem_filter, hfinished] at hterminal
    exact absurd hterminal.2 (by simp)

@[simp] theorem pruneJobsLocked_job : (pruneJobsLocked cfg s).job = s.job := by
  obtain ⟨jobs, heq, -⟩ := pruneJobsLocked_eq cfg s
  rw [heq]

@[simp] theorem pruneJobsLocked_accepting : (pruneJobsLocked cfg s).accepting = s.accepting := by
  obtain ⟨jobs, heq, -⟩ := pruneJobsLocked_eq cfg s
  rw [heq]

@[simp] theorem pruneJobsLocked_activeJobs :
    (pruneJobsLocked cfg s).activeJobs = s.activeJobs := by
  obtain ⟨jobs, heq, -⟩ := pruneJobsLocked_eq cfg s
  rw [heq]

@[simp] theorem pruneJobsLocked_queue : (pruneJobsLocked cfg s).queue = s.queue := by
  obtain ⟨jobs, heq, -⟩ := pruneJobsLocked_eq cfg s
  rw [heq]

@[simp] theorem pruneJobsLocked_worker : (pruneJobsLocked cfg s).worker = s.worker := by
  obtain ⟨jobs, heq, -⟩ := pruneJobsLocked_eq cfg s
  rw [heq]

@[simp] theorem pruneJobsLocked_call : (pruneJobsLocked cfg s).call = s.call := by
  obtain ⟨jobs, heq, -⟩ := pruneJobsLocked_eq cfg s
  rw [heq]

/-- A job that is not finished stays in the table. -/
theorem mem_pruneJobsLocked {x : JobId} (hx : x ∈ s.jobs) (h : s.isFinished x = false) :
    x ∈ (pruneJobsLocked cfg s).jobs := by
  obtain ⟨jobs, heq, hkept⟩ := pruneJobsLocked_eq cfg s
  rw [heq]
  exact hkept x hx h

/-- **No more finished jobs are kept than the bound**, when no active job is finished: the oldest ones
over the bound are removed. -/
theorem finished_pruneJobsLocked (hactive : ∀ x ∈ s.activeJobs, s.isFinished x = false) :
    ((pruneJobsLocked cfg s).jobs.filter s.isFinished).length ≤ cfg.retained := by
  have hterminal : (s.jobs.filter fun id => s.isFinished id && decide (id ∉ s.activeJobs)) =
      s.jobs.filter s.isFinished := by
    refine List.filter_congr fun x _ => ?_
    by_cases hx : x ∈ s.activeJobs
    · rw [hactive x hx, Bool.false_and]
    · rw [decide_eq_true hx, Bool.and_true]
  unfold pruneJobsLocked
  dsimp only
  rw [hterminal]
  split
  · assumption
  next hlong =>
  generalize hsorted : (s.jobs.filter s.isFinished).insertionSort
    (fun a b => s.age a ≤ s.age b) = sorted
  have hperm : sorted.Perm (s.jobs.filter s.isFinished) := by
    rw [← hsorted]
    exact List.perm_insertionSort ..
  generalize hn : sorted.length - cfg.retained = n
  have hkept : ((s.jobs.filter fun id => decide (id ∉ sorted.take n)).filter s.isFinished).Perm
      (sorted.filter fun id => decide (id ∉ sorted.take n)) := by
    rw [List.filter_comm]
    exact (hperm.filter _).symm
  calc ((s.jobs.filter fun id => decide (id ∉ sorted.take n)).filter s.isFinished).length
      = ((sorted.take n ++ sorted.drop n).filter
          fun id => decide (id ∉ sorted.take n)).length := by
        rw [hkept.length_eq, List.take_append_drop]
    _ = ((sorted.drop n).filter fun id => decide (id ∉ sorted.take n)).length := by
        rw [List.filter_append, List.length_append,
          List.filter_eq_nil_iff.2 fun x hx => by simp [hx]]
        exact Nat.zero_add _
    _ ≤ (sorted.drop n).length := List.length_filter_le ..
    _ ≤ cfg.retained := by
        rw [List.length_drop]
        omega

end Pruning

/-- **The transitions of the executor**: every one with the state of its thread. -/
inductive Transition (cfg : ExecutorConfig) (s : State) : Step → State → Prop
  | stay (step : Step) : Transition cfg s step s
  | acceptJob (req : Request) (now : Nat) (hopen : s.accepting = true)
      (hname : req.resource ∈ cfg.names) : Transition cfg s (.submit req now) (acceptJob s req now)
  | cancel {job : Job} (id : JobId) (now : Nat) (hget : s.job id = some job) :
      Transition cfg s (.cancel id now) (s.setJob id (requestCancel now))
  | leave (i : Nat) (hpc : s.worker i = .checking) :
      Transition cfg s (.check i) (s.setWorker i .ended)
  | goOn (i : Nat) (hpc : s.worker i = .checking) :
      Transition cfg s (.check i) (s.setWorker i .getting)
  | timeout (i : Nat) (hpc : s.worker i = .getting) :
      Transition cfg s (.get i) (s.setWorker i .checking)
  | take {name : String} {id : JobId} {rest : List JobId} (i : Nat) (hpc : s.worker i = .getting)
      (hqueue : s.queue name = id :: rest) :
      Transition cfg s (.get i) ((s.setQueue name rest).setWorker i (.holding id))
  | giveUp {id : JobId} (i now : Nat) (hpc : s.worker i = .holding id) :
      Transition cfg s (.claim i now) ((s.giveUpJob id now).setWorker i .checking)
  | start {id : JobId} {job : Job} (i now : Nat) (hpc : s.worker i = .holding id)
      (hget : s.job id = some job) (hcancel : job.cancelRequested = false)
      (hroom : ∀ budget, cfg.budget = some budget → s.activeJobs.length < budget) :
      Transition cfg s (.claim i now) ((s.startJob id).setWorker i (.running id))
  | callback {id : JobId} (i : Nat) (ok : Bool) (hpc : s.worker i = .running id) :
      Transition cfg s (.callback i ok) (s.setWorker i (.returned id ok))
  | finish {id : JobId} {ok : Bool} (i now : Nat) (hpc : s.worker i = .returned id ok) :
      Transition cfg s (.finish i now)
        ((pruneJobsLocked cfg (s.finishJob id ok now)).setWorker i .checking)
  | refuse (t : Nat) (hpc : s.call t = .idle) :
      Transition cfg s (.refuse t) ({ s with accepting := false }.setCall t .refusing)
  | signal (t : Nat) (hpc : s.call t = .refusing) :
      Transition cfg s (.signal t)
        ({ s with shutdownEvent := true }.setCall t (.draining cfg.names))
  | emptied {name : String} {todo : List String} (t : Nat)
      (hpc : s.call t = .draining (name :: todo)) (hqueue : s.queue name = []) :
      Transition cfg s (.drainGet t) (s.setCall t (.draining todo))
  | drainGet {name : String} {todo : List String} {id : JobId} {rest : List JobId} (t : Nat)
      (hpc : s.call t = .draining (name :: todo)) (hqueue : s.queue name = id :: rest) :
      Transition cfg s (.drainGet t)
        ((s.setQueue name rest).setCall t (.cancelling id (name :: todo)))
  | drainLock {id : JobId} {todo : List String} (t now : Nat)
      (hpc : s.call t = .cancelling id todo) :
      Transition cfg s (.drainLock t now)
        ((pruneJobsLocked cfg (s.drainJob id now)).setCall t (.draining todo))

section Exec

variable (cfg : ExecutorConfig) (s : State)

theorem submit_transition (req : Request) (now : Nat) :
    Transition cfg s (.submit req now) (exec cfg s (.submit req now)) := by
  show Transition cfg s _ (match submitJob cfg s req now with
    | .ok (s', _) => s'
    | .error _ => s)
  split
  · next s' id hsubmit =>
    unfold submitJob at hsubmit
    split at hsubmit
    · cases hsubmit
    next hopen =>
    split at hsubmit
    · cases hsubmit
      exact .stay _
    split at hsubmit
    · cases hsubmit
    next bucket hbucket =>
    split at hsubmit
    · cases hsubmit
    · cases hsubmit
      have hname := List.find?_some hbucket
      exact .acceptJob req now (eq_true_of_ne_false hopen)
        (List.mem_map.2 ⟨bucket, List.mem_of_find?_eq_some hbucket, of_decide_eq_true hname⟩)
  · exact .stay _

theorem cancel_transition (id : JobId) (now : Nat) :
    Transition cfg s (.cancel id now) (exec cfg s (.cancel id now)) := by
  show Transition cfg s _ (cancelJob s id now).1
  rw [cancelJob]
  split
  · exact .stay _
  split
  · exact .stay _
  next job hget =>
  split
  · exact .stay _
  · exact .cancel id now hget

theorem claim_transition (i now : Nat) :
    Transition cfg s (.claim i now) (exec cfg s (.claim i now)) := by
  show Transition cfg s _ (claim cfg s i now)
  rw [claim]
  split
  · next id hpc =>
    split
    · exact .stay _
    next job hget =>
    split
    · exact .stay _
    next hwait =>
    split
    · exact .giveUp i now hpc
    next hgo =>
    obtain ⟨hcancel, hevent⟩ := not_or.1 hgo
    refine .start i now hpc hget (eq_false_of_ne_true hcancel) fun budget hb => ?_
    rw [mustWait, hb, eq_false_of_ne_true hcancel, eq_false_of_ne_true hevent] at hwait
    simpa using hwait
  · exact .stay _

/-- **Every step is a transition.** -/
theorem exec_transition (step : Step) : Transition cfg s step (exec cfg s step) := by
  cases step with
  | submit req now => exact submit_transition cfg s req now
  | cancel id now => exact cancel_transition cfg s id now
  | claim i now => exact claim_transition cfg s i now
  | check i =>
    rw [exec, checkShutdown]
    split
    · split
      · exact .leave i ‹_›
      · exact .goOn i ‹_›
    · exact .stay _
  | get i =>
    rw [exec, getJob]
    split
    · split
      · exact .timeout i ‹_›
      · next hpc _ id rest hqueue => exact .take i hpc hqueue
    · exact .stay _
  | callback i ok =>
    rw [exec, callbackEnds]
    split
    · exact .callback i ok ‹_›
    · exact .stay _
  | finish i now =>
    rw [exec, finish]
    split
    · exact .finish i now ‹_›
    · exact .stay _
  | refuse t =>
    rw [exec, refuse]
    split
    · exact .refuse t ‹_›
    · exact .stay _
  | signal t =>
    rw [exec, signal]
    split
    · exact .signal t ‹_›
    · exact .stay _
  | drainGet t =>
    rw [exec, drainGet]
    split
    · split
      · exact .emptied t ‹_› ‹_›
      · exact .drainGet t ‹_› ‹_›
    · exact .stay _
  | drainLock t now =>
    rw [exec, drainLock]
    split
    · exact .drainLock t now ‹_›
    · exact .stay _

end Exec

end BoundedJobExecutor

end FosCoverage
