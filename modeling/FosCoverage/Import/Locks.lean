import Mathlib.Data.List.Sort
import Mathlib.Data.List.Dedup
import FosCoverage.Lib.Outcome
import FosCoverage.Schema

/-!
# Repository locks, checkpoints and jobs

The three tables a durable import is fenced with:

* `RepositoryResourceLockService`: one row for a physical resource.  A lease that has not expired
  keeps other jobs out; an expired one, and every one of the same job, is rewritten with a new
  fencing token.
* `ImportCheckpointRepository`: the phase of a job.  Every write compares the sequence number and
  the fencing token.
* `JobRepository`: the life cycle of a job, fenced by its lease owner.
-/

set_option autoImplicit false

namespace FosCoverage

open Relational Outcome

/-- The checkpoint row of a job is written. -/
def Db.putCheckpoint (db : Db) (jobId : Nat) (c : Checkpoint) : Db :=
  { db with imports.checkpoints := db.imports.checkpoints.put jobId c }

/-- The row of a job is written. -/
def Db.putJob (db : Db) (jobId : Nat) (job : Job) : Db :=
  { db with imports.jobs := db.imports.jobs.put jobId job }

/-! ## Locks -/

namespace RepositoryResourceLockService

/-- `_expired`: the end of the lease is a whole second, the clock is not. -/
def expired (now : Nat) (lock : Lock) : Bool := lock.expiresAt * 1000000 < now

/-- The end of a lease of `leaseSeconds`, cut to whole seconds. -/
def expiry (now leaseSeconds : Nat) : Nat := (now + leaseSeconds * 1000000) / 1000000

/-- `sorted(set(resource_ids))` -/
def normalize (resourceIds : List Nat) : List Nat := resourceIds.dedup.insertionSort (· ≤ ·)

/-- `_next_token` -/
def nextToken (db : Db) (resourceId : Nat) : Except Failure (Db × Nat) := do
  let token ← orFail .resourceNotFound (db.imports.resources.get? resourceId)
  pure ({ db with imports.resources := db.imports.resources.put resourceId (token + 1) }, token + 1)

/-- One turn of the loop of `acquire`. -/
def acquireOne (jobId ownerToken leaseSeconds : Nat) (acc : Db × List (Nat × Nat))
    (resourceId : Nat) : Except Failure (Db × List (Nat × Nat)) := do
  let db := acc.1
  require (.repositoryBusy resourceId) (∀ lock ∈ db.imports.locks.get? resourceId,
    expired db.now lock = true ∨ lock.jobId = jobId)
  let (db, token) ← nextToken db resourceId
  let lock : Lock := ⟨jobId, ownerToken, token, expiry db.now leaseSeconds⟩
  pure ({ db with imports.locks := db.imports.locks.put resourceId lock },
    acc.2 ++ [(resourceId, token)])

/-- `acquire`: all resources or none; the result lists the new fencing tokens. -/
def acquire (db : Db) (resourceIds : List Nat) (jobId ownerToken leaseSeconds : Nat) :
    Except Failure (Db × List (Nat × Nat)) :=
  (normalize resourceIds).foldlM (acquireOne jobId ownerToken leaseSeconds) (db, [])

/-- `assert_fence` -/
def assertFence (db : Db) (resourceId jobId ownerToken fencingToken : Nat) :
    Except Failure Unit := do
  let lock ← orFail .lockFencingFailed (db.imports.locks.get? resourceId)
  require .lockFencingFailed (lock.jobId = jobId ∧ lock.ownerToken = ownerToken ∧
    lock.fencingToken = fencingToken ∧ expired db.now lock = false)

/-- `release` -/
def release (db : Db) (jobId ownerToken : Nat) (fencingToken : Option Nat) : Db :=
  let locks := db.imports.locks.deleteWhere fun _ lock =>
    lock.jobId = jobId ∧ lock.ownerToken = ownerToken ∧ ∀ f ∈ fencingToken, lock.fencingToken = f
  { db with imports.locks := locks }

/-- `_locks_for_job`: the rows that name the job, by resource. -/
def locksForJob (db : Db) (jobId : Nat) : List (Nat × Lock) :=
  (db.imports.locks.select fun _ lock => lock.jobId = jobId).insertionSort fun a b => a.1 ≤ b.1

theorem mem_locksForJob {db : Db} {jobId resourceId : Nat} {lock : Lock} :
    (resourceId, lock) ∈ locksForJob db jobId ↔
      db.imports.locks.get? resourceId = some lock ∧ lock.jobId = jobId := by
  rw [locksForJob, List.mem_insertionSort, Keyed.mem_select, ← Keyed.get?_eq_some_iff]
  simp

theorem mem_normalize {resourceIds : List Nat} {r : Nat} :
    r ∈ normalize resourceIds ↔ r ∈ resourceIds := by
  rw [normalize, List.mem_insertionSort, List.mem_dedup]

theorem assertFence_eq_ok {db : Db} {resourceId jobId ownerToken fencingToken : Nat} {u : Unit} :
    assertFence db resourceId jobId ownerToken fencingToken = .ok u ↔
      ∃ lock, db.imports.locks.get? resourceId = some lock ∧ lock.jobId = jobId ∧
        lock.ownerToken = ownerToken ∧ lock.fencingToken = fencingToken ∧
        expired db.now lock = false := by
  simp only [assertFence, bind_eq_ok, orFail_eq_ok, require_eq_ok]

end RepositoryResourceLockService

/-! ## Checkpoints -/

namespace ImportCheckpointRepository

/-- `get` -/
def get (db : Db) (jobId : Nat) : Option Checkpoint := db.imports.checkpoints.get? jobId

/-- `create` -/
def create (db : Db) (jobId scanId : Nat) (inputSha256 : String) (fencingToken : Nat)
    (payload : Payload) : Db :=
  if (get db jobId).isSome then db
  else
    let row : Checkpoint := ⟨scanId, .locked, 0, payload, inputSha256, fencingToken⟩
    db.putCheckpoint jobId row

/-- The compare-and-set all checkpoint writes share. -/
def compareAndSet (db : Db) (jobId expectedSeq expectedFencingToken : Nat)
    (f : Checkpoint → Checkpoint) : Except Failure Db := do
  let current ← orFail .checkpointNotFound (get db jobId)
  require .staleCheckpoint
    (current.checkpointSeq = expectedSeq ∧ current.fencingToken = expectedFencingToken)
  pure (db.putCheckpoint jobId (f current))

/-- `advance`: to the same or the next phase. -/
def advance (db : Db) (jobId expectedSeq expectedFencingToken : Nat) (phase : Phase)
    (payload : Payload) : Except Failure Db := do
  let current ← orFail .checkpointNotFound (get db jobId)
  require .phaseRegression (current.phase.index ≤ phase.index)
  require .phaseSkip (phase.index ≤ current.phase.index + 1)
  compareAndSet db jobId expectedSeq expectedFencingToken fun c =>
    { c with phase := phase, checkpointSeq := expectedSeq + 1, payload := payload }

/-- `save_batch`: a committed batch, in the phase INFO_STAGED only. -/
def saveBatch (db : Db) (jobId expectedSeq expectedFencingToken : Nat) (payload : Payload) :
    Except Failure Db := do
  let current ← orFail .checkpointNotFound (get db jobId)
  require .staleCheckpoint (current.phase = .infoStaged)
  compareAndSet db jobId expectedSeq expectedFencingToken fun c =>
    { c with checkpointSeq := expectedSeq + 1, payload := payload }

/-- `claim_fencing`: a new worker takes the checkpoint over with a larger token. -/
def claimFencing (db : Db) (jobId fencingToken : Nat) : Except Failure Db := do
  let current ← orFail .staleFencing (get db jobId)
  require .staleFencing (current.fencingToken < fencingToken)
  pure (db.putCheckpoint jobId { current with fencingToken := fencingToken })

theorem compareAndSet_eq_ok {db db' : Db} {jobId seq fence : Nat} {f : Checkpoint → Checkpoint} :
    compareAndSet db jobId seq fence f = .ok db' ↔
      ∃ c, get db jobId = some c ∧ c.checkpointSeq = seq ∧ c.fencingToken = fence ∧
        db' = db.putCheckpoint jobId (f c) := by
  simp only [compareAndSet, bind_eq_ok, orFail_eq_ok, require_eq_ok, pure_eq_ok]
  constructor
  · rintro ⟨c, hc, _, ⟨h₁, h₂⟩, rfl⟩
    exact ⟨c, hc, h₁, h₂, rfl⟩
  · rintro ⟨c, hc, h₁, h₂, rfl⟩
    exact ⟨c, hc, ⟨⟩, ⟨h₁, h₂⟩, rfl⟩

/-- What an accepted phase checkpoint writes. -/
theorem advance_eq_ok {db db' : Db} {jobId seq fence : Nat} {phase : Phase} {payload : Payload} :
    advance db jobId seq fence phase payload = .ok db' ↔
      ∃ c, get db jobId = some c ∧ c.phase.index ≤ phase.index ∧
        phase.index ≤ c.phase.index + 1 ∧ c.checkpointSeq = seq ∧ c.fencingToken = fence ∧
        db' = db.putCheckpoint jobId
          { c with phase := phase, checkpointSeq := seq + 1, payload := payload } := by
  simp only [advance, bind_eq_ok, orFail_eq_ok, require_eq_ok, compareAndSet_eq_ok]
  constructor
  · rintro ⟨c, hc, _, h₁, _, h₂, c', hc', h₃, h₄, rfl⟩
    obtain rfl : c = c' := Option.some.inj (hc.symm.trans hc')
    exact ⟨c, hc, h₁, h₂, h₃, h₄, rfl⟩
  · rintro ⟨c, hc, h₁, h₂, h₃, h₄, rfl⟩
    exact ⟨c, hc, ⟨⟩, h₁, ⟨⟩, h₂, c, hc, h₃, h₄, rfl⟩

/-- What an accepted batch checkpoint writes. -/
theorem saveBatch_eq_ok {db db' : Db} {jobId seq fence : Nat} {payload : Payload} :
    saveBatch db jobId seq fence payload = .ok db' ↔
      ∃ c, get db jobId = some c ∧ c.phase = .infoStaged ∧ c.checkpointSeq = seq ∧
        c.fencingToken = fence ∧
        db' = db.putCheckpoint jobId { c with checkpointSeq := seq + 1, payload := payload } := by
  simp only [saveBatch, bind_eq_ok, orFail_eq_ok, require_eq_ok, compareAndSet_eq_ok]
  constructor
  · rintro ⟨c, hc, _, h₁, c', hc', h₂, h₃, rfl⟩
    obtain rfl : c = c' := Option.some.inj (hc.symm.trans hc')
    exact ⟨c, hc, h₁, h₂, h₃, rfl⟩
  · rintro ⟨c, hc, h₁, h₂, h₃, rfl⟩
    exact ⟨c, hc, ⟨⟩, h₁, c, hc, h₂, h₃, rfl⟩

end ImportCheckpointRepository

/-! ## Jobs -/

namespace JobRepository

/-- `get` -/
def get (db : Db) (jobId : Nat) : Option Job := db.imports.jobs.get? jobId

/-- `create` -/
def create (db : Db) (jobId : Nat) (job : Job) : Except Failure Db := do
  require .jobIdAlreadyExists ((get db jobId).isNone = true)
  pure (db.putJob jobId job)

/-- `transition_terminal`: nothing happens unless the job is live and the lease owner is the
stored one. -/
def transitionTerminal (db : Db) (jobId leaseOwner : Nat) (state : JobState) : Option Db :=
  match get db jobId with
  | some job =>
    if leaseOwner ≠ 0 ∧ job.state.live = true ∧ job.leaseOwner = leaseOwner then
      some (db.putJob jobId { job with state := state })
    else none
  | none => none

/-- `reclaim`: a live job gets a new lease owner.  The observed row was read in the same
transaction, so the comparison with it always holds. -/
def reclaim (db : Db) (jobId leaseOwner : Nat) : Option Db :=
  match get db jobId with
  | some job =>
    if job.state.live = true then
      some (db.putJob jobId { job with state := .running, leaseOwner := leaseOwner })
    else none
  | none => none

end JobRepository

end FosCoverage
