import FosCoverage.Jobs.BoundedExecutor
import FosCoverage.Lib.Ownership
import FosCoverage.Lib.Trace

/-!
# Safety of the bounded executor

`exec_transition` says what a step can do, and everything here is proved from it.

* `State.holds` says where a job is: in a queue, with a thread that has not started it, or with a worker
  that has.  `Fits` is what a job is at its place, and `Safe` the invariant over all of them.
* `Barred` is a job that is cancelled before it starts, and `Closing` what holds of a shutdown.
* `executor_safe`: **the budget is kept, a job that was cancelled in time never runs, a running job is
  never pruned, finished jobs are pruned when another one finishes, and a shutdown leaves no job
  queued.**
-/

set_option autoImplicit false

namespace FosCoverage

namespace BoundedJobExecutor

open Ownership Function

/-! ## Where a job is -/

/-- A queue, or a thread; a worker that has started the job and one that has not are two places. -/
inductive Place
  | queue (name : String)
  | holding (i : Nat)
  | started (i : Nat)
  | call (t : Nat)
  deriving DecidableEq

/-- The job that a worker has started. -/
def WorkerPc.started? : WorkerPc → Option JobId
  | running id => some id
  | returned id _ => some id
  | _ => none

/-- The job that a caller of `shutdown` has. -/
def ShutdownPc.job? : ShutdownPc → Option JobId
  | cancelling id _ => some id
  | _ => none

/-- The job is at the place. -/
def State.holds (s : State) : Place → JobId → Prop
  | .queue name, id => id ∈ s.queue name
  | .holding i, id => s.worker i = .holding id
  | .started i, id => (s.worker i).started? = some id
  | .call t, id => (s.call t).job? = some id

/-- What a job is at a place: **where a worker has started it, it is running, active and in the
table**; where it waits, it is queued and in the table, or it will not be started; and elsewhere it is
in a terminal state. -/
def Fits (s : State) (id : JobId) : Option Place → Prop
  | some (.started _) => id ∈ s.activeJobs ∧ id ∈ s.jobs ∧
      ∃ job, s.job id = some job ∧ job.status = .running
  | some _ => id ∉ s.activeJobs ∧ ∃ job, s.job id = some job ∧
      (job.status = .queued ∧ id ∈ s.jobs ∨
        job.status.isTerminal = true ∧ job.cancelRequested = true)
  | none => id ∉ s.activeJobs ∧ ∀ job, s.job id = some job → job.status.isTerminal = true

/-- **What holds of the jobs.** -/
structure Safe (cfg : ExecutorConfig) (s : State) : Prop where
  /-- Every job is at one place at most, and is what it should be there. -/
  owned : Owned s.holds (Fits s)
  /-- A job is in a queue once. -/
  queueNodup : ∀ name, (s.queue name).Nodup
  /-- A job is active once. -/
  activeNodup : s.activeJobs.Nodup
  /-- No more jobs are active than the budget allows. -/
  budget : ∀ budget, cfg.budget = some budget → s.activeJobs.length ≤ budget

section Frames

variable {s s' : State} {id x : JobId} {p : Place}

theorem holds_setWorker (s : State) (i : Nat) (pc : WorkerPc) (p : Place) (x : JobId) :
    (s.setWorker i pc).holds p x ↔
      (p = .holding i ∧ pc = .holding x) ∨ (p = .started i ∧ pc.started? = some x) ∨
        (p ≠ .holding i ∧ p ≠ .started i ∧ s.holds p x) := by
  cases p with
  | queue name => simp [State.holds, State.setWorker]
  | call t => simp [State.holds, State.setWorker]
  | holding j => by_cases hj : j = i <;> simp [State.holds, State.setWorker, hj]
  | started j => by_cases hj : j = i <;> simp [State.holds, State.setWorker, hj]

theorem holds_setCall (s : State) (t : Nat) (pc : ShutdownPc) (p : Place) (x : JobId) :
    (s.setCall t pc).holds p x ↔
      (p = .call t ∧ pc.job? = some x) ∨ (p ≠ .call t ∧ s.holds p x) := by
  cases p with
  | queue name => simp [State.holds, State.setCall]
  | holding j => simp [State.holds, State.setCall]
  | started j => simp [State.holds, State.setCall]
  | call u => by_cases hu : u = t <;> simp [State.holds, State.setCall, hu]

theorem holds_setQueue (s : State) (name : String) (ids : List JobId) (p : Place) (x : JobId) :
    (s.setQueue name ids).holds p x ↔
      (p = .queue name ∧ x ∈ ids) ∨ (p ≠ .queue name ∧ s.holds p x) := by
  cases p with
  | holding j => simp [State.holds, State.setQueue]
  | started j => simp [State.holds, State.setQueue]
  | call u => simp [State.holds, State.setQueue]
  | queue other =>
    by_cases ho : other = name <;> simp [State.holds, State.setQueue, ho]

/-- The job that a worker has. -/
def WorkerPc.job? : WorkerPc → Option JobId
  | holding id => some id
  | running id => some id
  | returned id _ => some id
  | _ => none

theorem WorkerPc.started?_eq {pc : WorkerPc} (h : pc.started? = some x) : pc.job? = some x := by
  cases pc <;> first | exact h | cases h

/-- A worker that has one job and then another leaves the places of the rest alone. -/
theorem holds_setWorker_of_ne {i : Nat} {pc : WorkerPc}
    (hbefore : ∀ y, (s.worker i).job? = some y → y = id) (hafter : ∀ y, pc.job? = some y → y = id)
    (hx : x ≠ id) (p : Place) : (s.setWorker i pc).holds p x ↔ s.holds p x := by
  have hnot : ∀ {pc' : WorkerPc}, (∀ y, pc'.job? = some y → y = id) →
      pc' ≠ .holding x ∧ pc'.started? ≠ some x := by
    intro pc' hpc
    refine ⟨fun h => hx (hpc x ?_), fun h => hx (hpc x (WorkerPc.started?_eq h))⟩
    rw [h]
    rfl
  rw [holds_setWorker]
  simp only [hnot hafter, and_false, false_or, ne_eq]
  refine ⟨fun h => h.2.2, fun h => ⟨?_, ?_, h⟩⟩
  · rintro rfl
    exact (hnot hbefore).1 h
  · rintro rfl
    exact (hnot hbefore).2 h

/-- So does a caller of `shutdown`. -/
theorem holds_setCall_of_ne {t : Nat} {pc : ShutdownPc}
    (hbefore : ∀ y, (s.call t).job? = some y → y = id) (hafter : ∀ y, pc.job? = some y → y = id)
    (hx : x ≠ id) (p : Place) : (s.setCall t pc).holds p x ↔ s.holds p x := by
  rw [holds_setCall]
  constructor
  · rintro (⟨-, h⟩ | ⟨-, h⟩)
    · exact absurd (hafter x h) hx
    · exact h
  · refine fun h => .inr ⟨?_, h⟩
    rintro rfl
    exact hx (hbefore x h)

/-- And a queue that one job enters or leaves. -/
theorem holds_setQueue_of_ne {name : String} {ids : List JobId}
    (hids : x ∈ ids ↔ x ∈ s.queue name) (p : Place) :
    (s.setQueue name ids).holds p x ↔ s.holds p x := by
  rw [holds_setQueue]
  constructor
  · rintro (⟨rfl, h⟩ | ⟨-, h⟩)
    · exact hids.1 h
    · exact h
  · intro h
    by_cases hp : p = .queue name
    · subst hp
      exact .inl ⟨rfl, hids.2 h⟩
    · exact .inr ⟨hp, h⟩

theorem setJob_self {job : Job} (h : s.job id = some job) (f : Job → Job) :
    (s.setJob id f).job id = some (f job) := by
  rw [State.setJob, h]
  exact update_self ..

theorem setJob_of_ne (hx : x ≠ id) (f : Job → Job) : (s.setJob id f).job x = s.job x :=
  update_of_ne hx _ _

/-- The places are the queues and the threads. -/
theorem holds_congr (hqueue : s'.queue = s.queue) (hworker : s'.worker = s.worker)
    (hcall : s'.call = s.call) (p : Place) (x : JobId) : s'.holds p x ↔ s.holds p x := by
  cases p <;> simp only [State.holds, hqueue, hworker, hcall]

/-- A job keeps what it is at its place when its descriptor is not written, and it stays active and
in the table. -/
theorem Fits.frame {o : Option Place} (h : Fits s x o) (hjob : s'.job x = s.job x)
    (hactive : x ∈ s'.activeJobs ↔ x ∈ s.activeJobs)
    (hjobs : s.isFinished x = false → x ∈ s.jobs → x ∈ s'.jobs) : Fits s' x o := by
  have hkept : ∀ job, s.job x = some job → job.status.isTerminal = false → x ∈ s.jobs →
      x ∈ s'.jobs := by
    intro job hget hstatus hin
    refine hjobs ?_ hin
    rw [State.isFinished, hget]
    exact hstatus
  unfold Fits at h ⊢
  split at h
  · obtain ⟨hin, htable, job, hget, hstatus⟩ := h
    exact ⟨hactive.2 hin, hkept job hget (by rw [hstatus]; rfl) htable, job, hjob.trans hget,
      hstatus⟩
  · obtain ⟨hout, job, hget, hstatus⟩ := h
    refine ⟨fun hin => hout (hactive.1 hin), job, hjob.trans hget, ?_⟩
    rcases hstatus with ⟨hqueued, htable⟩ | hdone
    · exact .inl ⟨hqueued, hkept job hget (by rw [hqueued]; rfl) htable⟩
    · exact .inr hdone
  · exact ⟨fun hin => h.1 (hactive.1 hin), fun job hget => h.2 job (hjob.symm.trans hget)⟩

theorem filter_ne_eq {ids : List JobId} (h : id ∉ ids) :
    (ids.filter fun x => decide (x ≠ id)) = ids :=
  List.filter_eq_self.2 fun x hx => decide_eq_true fun heq => h (by rwa [heq] at hx)

end Frames

section Steps

variable {cfg : ExecutorConfig} {s s' : State}

/-- A step after which every job is where it was, and as it was. -/
theorem Safe.stay (h : Safe cfg s) (hholds : ∀ x p, s'.holds p x ↔ s.holds p x)
    (hjob : s'.job = s.job) (hjobs : s'.jobs = s.jobs) (hactive : s'.activeJobs = s.activeJobs)
    (hqueue : s'.queue = s.queue) : Safe cfg s' := by
  refine ⟨h.owned.stay hholds fun x o hfits => hfits.frame (by rw [hjob]) (by rw [hactive])
    (fun _ hx => by rwa [hjobs]), fun name => ?_, ?_, fun budget hb => ?_⟩
  · rw [hqueue]
    exact h.queueNodup name
  · rw [hactive]
    exact h.activeNodup
  · rw [hactive]
    exact h.budget budget hb

/-- A worker that has the same job as before, at the same place. -/
theorem Safe.setWorker (h : Safe cfg s) {i : Nat} {pc : WorkerPc}
    (hholding : ∀ x, pc = .holding x ↔ s.worker i = .holding x)
    (hstarted : pc.started? = (s.worker i).started?) : Safe cfg (s.setWorker i pc) := by
  refine h.stay (fun x p => ?_) rfl rfl rfl rfl
  rw [holds_setWorker, hholding, hstarted]
  constructor
  · rintro (⟨rfl, h⟩ | ⟨rfl, h⟩ | ⟨-, -, h⟩) <;> exact h
  · intro h
    by_cases hp : p = .holding i
    · subst hp
      exact .inl ⟨rfl, h⟩
    · by_cases hp' : p = .started i
      · subst hp'
        exact .inr (.inl ⟨rfl, h⟩)
      · exact .inr (.inr ⟨hp, hp', h⟩)

/-- A caller of `shutdown` that has no job, before and after. -/
theorem Safe.setCall (h : Safe cfg s) {t : Nat} {pc : ShutdownPc}
    (hjob : pc.job? = (s.call t).job?) : Safe cfg (s.setCall t pc) := by
  refine h.stay (fun x p => ?_) rfl rfl rfl rfl
  rw [holds_setCall, hjob]
  constructor
  · rintro (⟨rfl, h⟩ | ⟨-, h⟩) <;> exact h
  · intro h
    by_cases hp : p = .call t
    · subst hp
      exact .inl ⟨rfl, h⟩
    · exact .inr ⟨hp, h⟩

/-- **A job leaves its queue for a thread that has not started it.** -/
theorem Safe.leaveQueue (h : Safe cfg s) {name : String} {id : JobId} {rest : List JobId}
    (hqueue : s.queue name = id :: rest) {p : Place} (hp : ∀ i, p ≠ .started i)
    (hjob : s'.job = s.job) (hjobs : s'.jobs = s.jobs) (hactive : s'.activeJobs = s.activeJobs)
    (hqueue' : s'.queue = update s.queue name rest)
    (hothers : ∀ x, x ≠ id → ∀ q, s'.holds q x ↔ s.holds q x)
    (hid : ∀ q, s'.holds q id ↔ q = p ∨ (q ≠ .queue name ∧ s.holds q id)) : Safe cfg s' := by
  have hheld : s.holds (.queue name) id := by
    change id ∈ s.queue name
    rw [hqueue]
    exact List.mem_cons_self
  obtain ⟨hlocated, hfits⟩ := h.owned.at_place hheld
  have hframe : ∀ x o, Fits s x o → Fits s' x o := fun x o hfits =>
    hfits.frame (by rw [hjob]) (by rw [hactive]) (fun _ hx => by rwa [hjobs])
  refine ⟨h.owned.move id (some p) hothers (fun x _ o => hframe x o) (fun q => ?_) ?_,
    fun other => ?_, ?_, fun budget hb => ?_⟩
  · rw [hid, hlocated q]
    exact or_iff_left fun hq => hq.1 hq.2
  · refine hframe id (some p) ?_
    cases p with
    | started i => exact absurd rfl (hp i)
    | queue => exact hfits
    | holding => exact hfits
    | call => exact hfits
  · rw [hqueue', update_apply]
    split
    · have := h.queueNodup name
      rw [hqueue] at this
      exact (List.nodup_cons.1 this).2
    · exact h.queueNodup other
  · rw [hactive]
    exact h.activeNodup
  · rw [hactive]
    exact h.budget budget hb

/-- **A job that is nowhere any more** is in a terminal state, and not active. -/
theorem Safe.drop (h : Safe cfg s) {id : JobId} {p : Place} (hp : s.holds p id)
    (hjob : ∀ x, x ≠ id → s'.job x = s.job x)
    (hdone : ∀ job, s'.job id = some job → job.status.isTerminal = true)
    (hjobs : ∀ x ∈ s.jobs, x ≠ id → s.isFinished x = false → x ∈ s'.jobs)
    (hactive : s'.activeJobs = s.activeJobs.filter fun x => decide (x ≠ id))
    (hqueue : s'.queue = s.queue)
    (hothers : ∀ x, x ≠ id → ∀ q, s'.holds q x ↔ s.holds q x)
    (hid : ∀ q, s'.holds q id → q ≠ p ∧ s.holds q id) : Safe cfg s' := by
  obtain ⟨hlocated, -⟩ := h.owned.at_place hp
  have hsublist : s'.activeJobs.Sublist s.activeJobs := by
    rw [hactive]
    exact List.filter_sublist
  refine ⟨h.owned.move id none hothers (fun x hx o hfits => ?_) (fun q hq => ?_) ⟨?_, hdone⟩,
    fun name => ?_, hsublist.nodup h.activeNodup, fun budget hb => ?_⟩
  · refine hfits.frame (hjob x hx) ?_ fun hfinished hin => hjobs x hin hx hfinished
    rw [hactive, List.mem_filter]
    exact and_iff_left (decide_eq_true hx)
  · obtain ⟨hne, hq⟩ := hid q hq
    exact hne ((hlocated q).1 hq)
  · rw [hactive, List.mem_filter]
    exact fun hin => absurd hin.2 (by simp)
  · rw [hqueue]
    exact h.queueNodup name
  · exact hsublist.length_le.trans (h.budget budget hb)

/-- A job is in a queue once. -/
theorem Safe.head_notMem (h : Safe cfg s) {name : String} {id : JobId} {rest : List JobId}
    (hqueue : s.queue name = id :: rest) : id ∉ rest := by
  have hnodup := h.queueNodup name
  rw [hqueue] at hnodup
  exact (List.nodup_cons.1 hnodup).1

/-- **A worker takes a job from a queue.** -/
theorem Safe.take (h : Safe cfg s) {i : Nat} {name : String} {id : JobId} {rest : List JobId}
    (hpc : s.worker i = .getting) (hqueue : s.queue name = id :: rest) :
    Safe cfg ((s.setQueue name rest).setWorker i (.holding id)) := by
  have hnot : id ∉ rest := h.head_notMem hqueue
  have hbefore : ∀ y, ((s.setQueue name rest).worker i).job? = some y → y = id := by
    intro y hy
    change (s.worker i).job? = some y at hy
    rw [hpc] at hy
    cases hy
  have hafter : ∀ y, (WorkerPc.holding id).job? = some y → y = id :=
    fun y hy => (Option.some.inj hy).symm
  refine h.leaveQueue (p := .holding i) hqueue (by intro j hj; cases hj) rfl rfl rfl rfl
    (fun x hx q => ?_) (fun q => ?_)
  · rw [holds_setWorker_of_ne hbefore hafter hx,
      holds_setQueue_of_ne (by rw [hqueue, List.mem_cons]; simp [hx])]
  · rw [holds_setWorker, holds_setQueue]
    constructor
    · rintro (⟨rfl, -⟩ | ⟨-, hstarted⟩ | ⟨-, -, ⟨-, hin⟩ | hq⟩)
      · exact .inl rfl
      · cases hstarted
      · exact absurd hin hnot
      · exact .inr hq
    · rintro (rfl | ⟨hne, hq⟩)
      · exact .inl ⟨rfl, rfl⟩
      · refine .inr (.inr ⟨?_, ?_, .inr ⟨hne, hq⟩⟩)
        · rintro rfl
          rw [State.holds, hpc] at hq
          cases hq
        · rintro rfl
          rw [State.holds, hpc] at hq
          cases hq

/-- **A caller of `shutdown` takes a job from a queue.** -/
theorem Safe.drainGet (h : Safe cfg s) {t : Nat} {name : String} {todo : List String} {id : JobId}
    {rest : List JobId} (hpc : s.call t = .draining (name :: todo))
    (hqueue : s.queue name = id :: rest) :
    Safe cfg ((s.setQueue name rest).setCall t (.cancelling id (name :: todo))) := by
  have hnot : id ∉ rest := h.head_notMem hqueue
  have hbefore : ∀ y, ((s.setQueue name rest).call t).job? = some y → y = id := by
    intro y hy
    change (s.call t).job? = some y at hy
    rw [hpc] at hy
    cases hy
  have hafter : ∀ y, (ShutdownPc.cancelling id (name :: todo)).job? = some y → y = id :=
    fun y hy => (Option.some.inj hy).symm
  refine h.leaveQueue (p := .call t) hqueue (by intro j hj; cases hj) rfl rfl rfl rfl
    (fun x hx q => ?_) (fun q => ?_)
  · rw [holds_setCall_of_ne hbefore hafter hx,
      holds_setQueue_of_ne (by rw [hqueue, List.mem_cons]; simp [hx])]
  · rw [holds_setCall, holds_setQueue]
    constructor
    · rintro (⟨rfl, -⟩ | ⟨-, ⟨-, hin⟩ | hq⟩)
      · exact .inl rfl
      · exact absurd hin hnot
      · exact .inr hq
    · rintro (rfl | ⟨hne, hq⟩)
      · exact .inl ⟨rfl, rfl⟩
      · refine .inr ⟨?_, .inr ⟨hne, hq⟩⟩
        rintro rfl
        rw [State.holds, hpc] at hq
        cases hq

/-- **A request to cancel** takes a job that waits out of the states in which it is started. -/
theorem Safe.requestCancel (h : Safe cfg s) {id : JobId} {job : Job} (hget : s.job id = some job)
    (now : Nat) : Safe cfg (s.setJob id (requestCancel now)) := by
  refine ⟨h.owned.stay (fun x p => holds_congr rfl rfl rfl p x) fun x o hfits => ?_,
    h.queueNodup, h.activeNodup, h.budget⟩
  by_cases hx : x = id
  · subst hx
    have hset := setJob_self hget (BoundedJobExecutor.requestCancel now)
    unfold Fits at hfits ⊢
    split at hfits
    · obtain ⟨hin, htable, job', hget', hstatus⟩ := hfits
      obtain rfl := Option.some.inj (hget.symm.trans hget')
      refine ⟨hin, htable, _, hset, ?_⟩
      rw [BoundedJobExecutor.requestCancel, if_neg (by rw [hstatus]; decide)]
      exact hstatus
    · obtain ⟨hout, job', hget', hstatus⟩ := hfits
      obtain rfl := Option.some.inj (hget.symm.trans hget')
      refine ⟨hout, _, hset, .inr ?_⟩
      rcases hstatus with ⟨hqueued, -⟩ | ⟨hterminal, -⟩
      · rw [BoundedJobExecutor.requestCancel, if_pos hqueued]
        exact ⟨rfl, rfl⟩
      · rw [BoundedJobExecutor.requestCancel, if_neg fun hqueued => by rw [hqueued] at hterminal; cases hterminal]
        exact ⟨hterminal, rfl⟩
    · refine ⟨hfits.1, fun job' hjob' => ?_⟩
      have hterminal := hfits.2 job hget
      obtain rfl := Option.some.inj (hset.symm.trans hjob')
      rw [BoundedJobExecutor.requestCancel, if_neg fun hqueued => by rw [hqueued] at hterminal; cases hterminal]
      exact hterminal
  · exact hfits.frame (setJob_of_ne hx _) Iff.rfl fun _ hin => hin

/-- **A job that a worker is done with.** -/
theorem Safe.dropWorker (h : Safe cfg s) {s₁ : State} {i : Nat} {id : JobId} {p : Place}
    (hp : p = .holding i ∨ p = .started i) (hheld : s.holds p id)
    (hqueue : s₁.queue = s.queue) (hworker : s₁.worker = s.worker) (hcall : s₁.call = s.call)
    (hjob : ∀ x, x ≠ id → s₁.job x = s.job x)
    (hdone : ∀ job, s₁.job id = some job → job.status.isTerminal = true)
    (hjobs : ∀ x ∈ s.jobs, x ≠ id → s.isFinished x = false → x ∈ s₁.jobs)
    (hactive : s₁.activeJobs = s.activeJobs.filter fun x => decide (x ≠ id)) :
    Safe cfg (s₁.setWorker i .checking) := by
  have hbefore : ∀ y, (s₁.worker i).job? = some y → y = id := by
    have hjob : (s.worker i).job? = some id := by
      rcases hp with rfl | rfl
      · rw [State.holds] at hheld
        rw [hheld]
        rfl
      · exact WorkerPc.started?_eq hheld
    intro y hy
    rw [hworker, hjob] at hy
    exact (Option.some.inj hy).symm
  refine h.drop hheld hjob hdone hjobs hactive hqueue (fun x hx q => ?_) (fun q hq => ?_)
  · rw [holds_setWorker_of_ne hbefore (fun y hy => by cases hy) hx,
      holds_congr hqueue hworker hcall]
  · rw [holds_setWorker, holds_congr hqueue hworker hcall] at hq
    rcases hq with ⟨-, hq⟩ | ⟨-, hq⟩ | ⟨hne, hne', hq⟩
    · cases hq
    · cases hq
    · exact ⟨by rcases hp with rfl | rfl <;> assumption, hq⟩

/-- **A worker gives a job up.** -/
theorem Safe.giveUp (h : Safe cfg s) {i : Nat} {id : JobId} (hpc : s.worker i = .holding id)
    (now : Nat) : Safe cfg ((s.giveUpJob id now).setWorker i .checking) := by
  have hheld : s.holds (.holding i) id := hpc
  obtain ⟨-, hout, job, hget, -⟩ := h.owned.at_place hheld
  refine h.dropWorker (.inl rfl) hheld rfl rfl rfl (fun x hx => setJob_of_ne hx _)
    (fun job' hjob' => ?_) (fun x hx _ _ => hx) (filter_ne_eq hout).symm
  obtain rfl := Option.some.inj ((setJob_self hget _).symm.trans hjob')
  rfl

/-- **A worker is done with a job**, which nobody has any more. -/
theorem Safe.finish (h : Safe cfg s) {i : Nat} {id : JobId} {ok : Bool}
    (hpc : s.worker i = .returned id ok) (now : Nat) :
    Safe cfg ((pruneJobsLocked cfg (s.finishJob id ok now)).setWorker i .checking) := by
  have hheld : s.holds (.started i) id := by
    rw [State.holds, hpc]
    rfl
  obtain ⟨-, hin, htable, job, hget, hstatus⟩ := h.owned.at_place hheld
  refine h.dropWorker (.inr rfl) hheld (pruneJobsLocked_queue ..) (pruneJobsLocked_worker ..)
    (pruneJobsLocked_call ..) (fun x hx => ?_) (fun job' hjob' => ?_)
    (fun x hx hne hfinished => mem_pruneJobsLocked _ _ hx ?_) (pruneJobsLocked_activeJobs ..)
  · rw [pruneJobsLocked_job]
    exact setJob_of_ne hx _
  · rw [pruneJobsLocked_job] at hjob'
    obtain rfl := Option.some.inj ((setJob_self hget _).symm.trans hjob')
    dsimp only
    split
    · split <;> rfl
    · rfl
  · rw [State.isFinished, State.finishJob, setJob_of_ne hne]
    exact hfinished

/-- **A caller of `shutdown` cancels a job**, which nobody has any more. -/
theorem Safe.drainLock (h : Safe cfg s) {t : Nat} {id : JobId} {todo : List String}
    (hpc : s.call t = .cancelling id todo) (now : Nat) :
    Safe cfg ((pruneJobsLocked cfg (s.drainJob id now)).setCall t (.draining todo)) := by
  have hheld : s.holds (.call t) id := by
    rw [State.holds, hpc]
    rfl
  obtain ⟨-, hout, job, hget, -⟩ := h.owned.at_place hheld
  have hholds : ∀ q x, (pruneJobsLocked cfg (s.drainJob id now)).holds q x ↔ s.holds q x :=
    holds_congr (pruneJobsLocked_queue ..) (pruneJobsLocked_worker ..) (pruneJobsLocked_call ..)
  refine h.drop hheld (fun x hx => ?_) (fun job' hjob' => ?_)
    (fun x hx hne hfinished => mem_pruneJobsLocked _ _ hx ?_) ?_ (pruneJobsLocked_queue ..)
    (fun x hx q => ?_) (fun q hq => ?_)
  · change (pruneJobsLocked cfg (s.drainJob id now)).job x = s.job x
    rw [pruneJobsLocked_job]
    exact setJob_of_ne hx _
  · change (pruneJobsLocked cfg (s.drainJob id now)).job id = some job' at hjob'
    rw [pruneJobsLocked_job] at hjob'
    obtain rfl := Option.some.inj ((setJob_self hget _).symm.trans hjob')
    rfl
  · rw [State.isFinished, State.drainJob, setJob_of_ne hne]
    exact hfinished
  · exact (pruneJobsLocked_activeJobs ..).trans (filter_ne_eq hout).symm
  · rw [holds_setCall_of_ne (fun y hy => ?_) (fun y hy => by cases hy) hx]
    · exact hholds q x
    · rw [pruneJobsLocked_call] at hy
      change (s.call t).job? = some y at hy
      rw [hpc] at hy
      exact (Option.some.inj hy).symm
  · rw [holds_setCall] at hq
    rcases hq with ⟨-, hq⟩ | ⟨hne, hq⟩
    · cases hq
    · exact ⟨hne, (hholds q id).1 hq⟩

/-- **A worker starts a job**, when the budget leaves room for one more. -/
theorem Safe.start (h : Safe cfg s) {i : Nat} {id : JobId} {job : Job}
    (hpc : s.worker i = .holding id) (hget : s.job id = some job)
    (hcancel : job.cancelRequested = false)
    (hroom : ∀ budget, cfg.budget = some budget → s.activeJobs.length < budget) :
    Safe cfg ((s.startJob id).setWorker i (.running id)) := by
  have hheld : s.holds (.holding i) id := hpc
  obtain ⟨hlocated, hout, job', hget', hfits⟩ := h.owned.at_place hheld
  obtain rfl := Option.some.inj (hget.symm.trans hget')
  have htable : id ∈ s.jobs := by
    rcases hfits with ⟨-, htable⟩ | ⟨-, hcancelled⟩
    · exact htable
    · rw [hcancel] at hcancelled
      cases hcancelled
  have hactive : (s.startJob id).activeJobs = s.activeJobs ++ [id] := if_neg hout
  have hbefore : ∀ y, ((s.startJob id).worker i).job? = some y → y = id := by
    intro y hy
    change (s.worker i).job? = some y at hy
    rw [hpc] at hy
    exact (Option.some.inj hy).symm
  have hafter : ∀ y, (WorkerPc.running id).job? = some y → y = id :=
    fun y hy => (Option.some.inj hy).symm
  refine ⟨h.owned.move id (some (.started i)) (fun x hx q => ?_) (fun x hx o hfits => ?_)
    (fun q => ?_) ?_, h.queueNodup, ?_, fun budget hb => ?_⟩
  · rw [holds_setWorker_of_ne hbefore hafter hx]
    exact holds_congr rfl rfl rfl q x
  · refine hfits.frame (setJob_of_ne hx _) ?_ fun _ hin => hin
    change x ∈ (s.startJob id).activeJobs ↔ _
    rw [hactive, List.mem_append, List.mem_singleton]
    exact or_iff_left hx
  · rw [holds_setWorker, holds_congr (rfl : (s.startJob id).queue = s.queue) rfl rfl]
    constructor
    · rintro (⟨-, hq⟩ | ⟨rfl, -⟩ | ⟨hne, -, hq⟩)
      · cases hq
      · rfl
      · exact absurd ((hlocated q).1 hq) hne
    · rintro rfl
      exact .inr (.inl ⟨rfl, rfl⟩)
  · refine ⟨?_, htable, _, setJob_self hget _, rfl⟩
    change id ∈ (s.startJob id).activeJobs
    rw [hactive]
    exact List.mem_append_right _ List.mem_cons_self
  · change (s.startJob id).activeJobs.Nodup
    rw [hactive, ← List.concat_eq_append]
    exact h.activeNodup.concat hout
  · change (s.startJob id).activeJobs.length ≤ budget
    rw [hactive, List.length_append]
    exact hroom budget hb

/-- **A new job enters its queue.** -/
theorem Safe.acceptJob (h : Safe cfg s) {req : Request} (hfresh : s.job req.jobId = none) (now : Nat) :
    Safe cfg (acceptJob s req now) := by
  obtain ⟨o, hlocated, hfits⟩ := h.owned req.jobId
  obtain rfl : o = none := by
    cases o with
    | none => rfl
    | some p =>
      have hnone : ∀ job, s.job req.jobId ≠ some job := fun job => by simp [hfresh]
      cases p <;> exact absurd hfits.2 (by simp [hnone])
  have hholds : ∀ q x, (BoundedJobExecutor.acceptJob s req now).holds q x ↔
      (s.setQueue req.resource (s.queue req.resource ++ [req.jobId])).holds q x :=
    fun q x => holds_congr rfl rfl rfl q x
  have htable : ∀ x, x ∈ (BoundedJobExecutor.acceptJob s req now).jobs ↔ x ∈ s.jobs ∨ x = req.jobId := by
    intro x
    change x ∈ (if req.jobId ∈ s.jobs then s.jobs else s.jobs ++ [req.jobId]) ↔ _
    split
    · next hin => exact ⟨.inl, fun hx => hx.elim id fun heq => by rwa [heq]⟩
    · rw [List.mem_append, List.mem_singleton]
  refine ⟨h.owned.move req.jobId (some (.queue req.resource)) (fun x hx q => ?_)
    (fun x hx o hfits => ?_) (fun q => ?_) ?_, fun name => ?_, h.activeNodup, h.budget⟩
  · rw [hholds, holds_setQueue_of_ne (by rw [List.mem_append, List.mem_singleton]; simp [hx])]
  · exact hfits.frame (update_of_ne hx _ _) Iff.rfl fun _ hin => (htable x).2 (.inl hin)
  · rw [hholds, holds_setQueue]
    constructor
    · rintro (⟨rfl, -⟩ | ⟨-, hq⟩)
      · rfl
      · exact absurd hq (hlocated q)
    · rintro rfl
      exact .inl ⟨rfl, List.mem_append_right _ List.mem_cons_self⟩
  · exact ⟨hfits.1, _, update_self .., .inl ⟨rfl, (htable _).2 (.inr rfl)⟩⟩
  · change (update s.queue req.resource (s.queue req.resource ++ [req.jobId]) name).Nodup
    rw [update_apply]
    split
    · rw [← List.concat_eq_append]
      exact (h.queueNodup _).concat (hlocated (.queue req.resource))
    · exact h.queueNodup name

theorem safe_init (cfg : ExecutorConfig) : Safe cfg (init cfg) := by
  have hnowhere : ∀ x p, ¬ (init cfg).holds p x := by
    intro x p hp
    cases p with
    | queue name => cases hp
    | call t => cases hp
    | holding i =>
      simp only [State.holds, init] at hp
      split at hp <;> cases hp
    | started i =>
      simp only [State.holds, init] at hp
      split at hp <;> cases hp
  exact ⟨fun x => ⟨none, hnowhere x, List.not_mem_nil, fun job hjob => by cases hjob⟩,
    fun name => List.nodup_nil, List.nodup_nil, fun budget _ => Nat.zero_le _⟩

/-- The id of a submission is new. -/
def Fresh (s : State) (step : Step) : Prop :=
  ∀ id, step.submitted? = some id → s.job id = none

/-- **Every step keeps it.** -/
theorem Safe.transition (h : Safe cfg s) {step : Step} (hstep : Transition cfg s step s')
    (hfresh : Fresh s step) : Safe cfg s' := by
  cases hstep with
  | stay => exact h
  | acceptJob req now => exact h.acceptJob (hfresh _ rfl) now
  | cancel id now hget => exact h.requestCancel hget now
  | leave i hpc => exact h.setWorker (fun x => by simp [hpc]) (by rw [hpc]; rfl)
  | goOn i hpc => exact h.setWorker (fun x => by simp [hpc]) (by rw [hpc]; rfl)
  | timeout i hpc => exact h.setWorker (fun x => by simp [hpc]) (by rw [hpc]; rfl)
  | take i hpc hqueue => exact h.take hpc hqueue
  | giveUp i now hpc => exact h.giveUp hpc now
  | start i now hpc hget hcancel hroom => exact h.start hpc hget hcancel hroom
  | callback i ok hpc => exact h.setWorker (fun x => by simp [hpc]) (by rw [hpc]; rfl)
  | finish i now hpc => exact h.finish hpc now
  | refuse t hpc =>
    have hflag : Safe cfg { s with accepting := false } :=
      h.stay (fun x p => holds_congr rfl rfl rfl p x) rfl rfl rfl rfl
    exact hflag.setCall (by change _ = (s.call t).job?; rw [hpc]; rfl)
  | signal t hpc =>
    have hflag : Safe cfg { s with shutdownEvent := true } :=
      h.stay (fun x p => holds_congr rfl rfl rfl p x) rfl rfl rfl rfl
    exact hflag.setCall (by change _ = (s.call t).job?; rw [hpc]; rfl)
  | emptied t hpc => exact h.setCall (by rw [hpc]; rfl)
  | drainGet t hpc hqueue => exact h.drainGet hpc hqueue
  | drainLock t now hpc => exact h.drainLock hpc now

end Steps

/-! ## Cancelled jobs -/

section Cancelled

variable {cfg : ExecutorConfig} {s s' : State} {step : Step} {id x : JobId} {job : Job}

/-- **What a step does to the descriptors**: a submission writes a new one, and the other steps update
one; a request to cancel is not taken back. -/
theorem Transition.descriptors (h : Transition cfg s step s') :
    s'.job = s.job ∨
      (∃ req now, step = .submit req now ∧
        s'.job = update s.job req.jobId (some (req.toJob now))) ∨
      ∃ id f, (∀ job : Job, job.cancelRequested = true → (f job).cancelRequested = true) ∧
        s'.job = (s.setJob id f).job := by
  cases h with
  | stay => exact .inl rfl
  | acceptJob req now => exact .inr (.inl ⟨req, now, rfl, rfl⟩)
  | cancel id now =>
    refine .inr (.inr ⟨id, requestCancel now, fun job _ => ?_, rfl⟩)
    rw [requestCancel]
    split <;> rfl
  | leave | goOn | timeout | take | callback => exact .inl rfl
  | giveUp i now =>
    refine .inr (.inr ⟨_, _, fun job hcancel => ?_, rfl⟩)
    exact hcancel
  | start i now =>
    refine .inr (.inr ⟨_, _, fun job hcancel => ?_, rfl⟩)
    exact hcancel
  | finish i now =>
    refine .inr (.inr ⟨_, _, fun job hcancel => ?_, pruneJobsLocked_job ..⟩)
    exact hcancel
  | refuse | signal | emptied | drainGet => exact .inl rfl
  | drainLock t now =>
    exact .inr (.inr ⟨_, _, fun job _ => rfl, pruneJobsLocked_job ..⟩)

theorem setJob_job (s : State) (id : JobId) (f : Job → Job) (x : JobId) :
    (s.setJob id f).job x = if x = id then (s.job x).map f else s.job x := by
  change update s.job id ((s.job id).map f) x = _
  rw [update_apply]
  split
  · next heq => rw [heq]
  · rfl

/-- A step makes no descriptor but the one it submits. -/
theorem Transition.job_none (h : Transition cfg s step s') (hnone : s.job x = none)
    (hx : step.submitted? ≠ some x) : s'.job x = none := by
  rcases h.descriptors with heq | ⟨req, now, rfl, heq⟩ | ⟨id, f, -, heq⟩
  · rw [heq, hnone]
  · rw [heq, update_of_ne (fun hid => hx (by rw [hid]; rfl)), hnone]
  · rw [heq, setJob_job, hnone]
    exact ite_self _

/-- **A request to cancel stays.** -/
theorem Transition.cancelRequested (h : Transition cfg s step s') (hfresh : Fresh s step)
    (hget : s.job x = some job) (hcancel : job.cancelRequested = true) :
    ∃ job', s'.job x = some job' ∧ job'.cancelRequested = true := by
  rcases h.descriptors with heq | ⟨req, now, rfl, heq⟩ | ⟨id, f, hf, heq⟩
  · exact ⟨job, by rw [heq, hget], hcancel⟩
  · have hne : x ≠ req.jobId := by
      rintro rfl
      rw [hfresh _ rfl] at hget
      cases hget
    exact ⟨job, by rw [heq, update_of_ne hne, hget], hcancel⟩
  · rw [heq, setJob_job, hget]
    split
    · exact ⟨f job, rfl, hf job hcancel⟩
    · exact ⟨job, rfl, hcancel⟩

theorem setWorker_running {i j : Nat} {pc : WorkerPc}
    (h : (s.setWorker j pc).worker i = .running id) :
    s.worker i = .running id ∨ pc = .running id := by
  change update s.worker j pc i = .running id at h
  rw [update_apply] at h
  split at h
  · exact .inr h
  · exact .inl h

/-- **A worker starts no job that is to be cancelled.** -/
theorem Transition.running (h : Transition cfg s step s') {i : Nat}
    (hrunning : s'.worker i = .running id) :
    s.worker i = .running id ∨ ∃ job, s.job id = some job ∧ job.cancelRequested = false := by
  cases h with
  | stay | acceptJob | cancel => exact .inl hrunning
  | leave | goOn | timeout | take | callback | giveUp =>
    exact (setWorker_running hrunning).imp_right nofun
  | start j now hpc hget hcancel =>
    refine (setWorker_running hrunning).imp_right fun hpc' => ?_
    cases hpc'
    exact ⟨_, hget, hcancel⟩
  | finish =>
    refine (setWorker_running hrunning).imp (fun hbefore => ?_) nofun
    rwa [pruneJobsLocked_worker] at hbefore
  | refuse | signal | emptied | drainGet => exact .inl hrunning
  | drainLock t now =>
    refine .inl ?_
    change (pruneJobsLocked cfg _).worker i = .running id at hrunning
    rwa [pruneJobsLocked_worker] at hrunning

/-- A job that is to be cancelled, and that no worker runs. -/
def Barred (id : JobId) (s : State) : Prop :=
  (∃ job, s.job id = some job ∧ job.cancelRequested = true) ∧ ∀ i, s.worker i ≠ .running id

/-- **It stays so.** -/
theorem Barred.transition (h : Barred id s) (hstep : Transition cfg s step s') (hfresh : Fresh s step) :
    Barred id s' := by
  obtain ⟨⟨job, hget, hcancel⟩, hidle⟩ := h
  refine ⟨hstep.cancelRequested hfresh hget hcancel, fun i hi => ?_⟩
  rcases hstep.running hi with hbefore | ⟨job', hget', hnot⟩
  · exact hidle i hbefore
  · obtain rfl := Option.some.inj (hget.symm.trans hget')
    rw [hcancel] at hnot
    cases hnot

/-- A running job is not queued. -/
theorem Safe.status_running (h : Safe cfg s) {i : Nat} (hi : s.worker i = .running id) :
    id ∈ s.activeJobs ∧ id ∈ s.jobs ∧ ∃ job, s.job id = some job ∧ job.status = .running := by
  have hheld : s.holds (.started i) id := by
    rw [State.holds, hi]
    rfl
  exact (h.owned.at_place hheld).2

/-- A queued job is in the table. -/
theorem Safe.queued_mem (h : Safe cfg s) (hget : s.job id = some job)
    (hqueued : job.status = .queued) : id ∈ s.jobs := by
  obtain ⟨o, -, hfits⟩ := h.owned id
  unfold Fits at hfits
  split at hfits
  · exact hfits.2.1
  · obtain ⟨-, job', hget', hstatus⟩ := hfits
    obtain rfl := Option.some.inj (hget.symm.trans hget')
    rcases hstatus with ⟨-, hin⟩ | ⟨hterminal, -⟩
    · exact hin
    · rw [hqueued] at hterminal
      cases hterminal
  · have hterminal := hfits.2 job hget
    rw [hqueued] at hterminal
    cases hterminal

/-- **A job that is cancelled before it starts.** -/
theorem Safe.barred (h : Safe cfg s) (hget : s.job id = some job)
    (hqueued : job.status = .queued) (now : Nat) : Barred id (exec cfg s (.cancel id now)) := by
  have hin := h.queued_mem hget hqueued
  have hcancel : exec cfg s (.cancel id now) =
      s.setJob id (BoundedJobExecutor.requestCancel now) := by
    rw [exec, cancelJob, if_neg (not_not_intro hin), hget]
    dsimp only
    rw [if_neg (by rw [hqueued]; decide)]
  rw [hcancel]
  refine ⟨⟨_, setJob_self hget _, ?_⟩, fun i hi => ?_⟩
  · rw [BoundedJobExecutor.requestCancel, if_pos hqueued]
  · obtain ⟨-, -, job', hget', hrunning⟩ := h.status_running (i := i) hi
    obtain rfl := Option.some.inj (hget.symm.trans hget')
    rw [hqueued] at hrunning
    cases hrunning

end Cancelled

/-! ## Shutdown -/

section Shutdown

variable {cfg : ExecutorConfig} {s s' : State} {step : Step} {name : String}

/-- The queues that a caller of `shutdown` has not emptied yet. -/
def ShutdownPc.todo? : ShutdownPc → Option (List String)
  | draining todo => some todo
  | cancelling _ todo => some todo
  | _ => none

/-- **What holds of a shutdown**: once a caller has begun nobody submits any more, and a queue that is
done is empty. -/
structure Closing (cfg : ExecutorConfig) (s : State) : Prop where
  outside : ∀ name, name ∉ cfg.names → s.queue name = []
  refused : ∀ t, s.call t ≠ .idle → s.accepting = false
  drained : ∀ t todo, (s.call t).todo? = some todo → ∀ name, name ∉ todo → s.queue name = []

/-- A job leaves a queue. -/
theorem setQueue_nil {other : String} {id : JobId} {rest : List JobId}
    (hqueue : s.queue other = id :: rest) (h : s.queue name = []) :
    (s.setQueue other rest).queue name = [] := by
  have hne : name ≠ other := by
    rintro rfl
    rw [h] at hqueue
    cases hqueue
  exact (update_of_ne hne ..).trans h

/-- **Only a submission fills a queue.** -/
theorem Transition.queue_nil (hstep : Transition cfg s step s') (h : s.queue name = [])
    (hclosed : s.accepting = false ∨ name ∉ cfg.names) : s'.queue name = [] := by
  cases hstep with
  | acceptJob req now hopen hname =>
    have hne : name ≠ req.resource := by
      rintro rfl
      rcases hclosed with hclosed | hout
      · rw [hopen] at hclosed
        cases hclosed
      · exact hout hname
    exact (update_of_ne hne ..).trans h
  | take i hpc hqueue => exact setQueue_nil hqueue h
  | drainGet t hpc hqueue => exact setQueue_nil hqueue h
  | finish => exact (congrFun (pruneJobsLocked_queue ..) name).trans h
  | drainLock => exact (congrFun (pruneJobsLocked_queue ..) name).trans h
  | stay | cancel | leave | goOn | timeout | giveUp | start | callback => exact h
  | refuse | signal | emptied => exact h

/-- Nobody lets the executor accept jobs again. -/
theorem Transition.accepting (hstep : Transition cfg s step s') (h : s.accepting = false) :
    s'.accepting = false := by
  cases hstep with
  | finish => exact (pruneJobsLocked_accepting ..).trans h
  | drainLock => exact (pruneJobsLocked_accepting ..).trans h
  | refuse => rfl
  | stay | acceptJob | cancel | leave | goOn | timeout | take | giveUp | start | callback => exact h
  | signal | emptied | drainGet => exact h

/-- **A caller of `shutdown` goes on**: it has begun, and its queues but the first are as they were. -/
theorem Transition.call (hstep : Transition cfg s step s') (h : Closing cfg s) (t : Nat) :
    s'.call t = s.call t ∨ s'.accepting = false ∧
      ∀ todo, (s'.call t).todo? = some todo →
        s.accepting = false ∧ ∀ name, name ∉ todo → s.queue name = [] := by
  have hset : ∀ {s₁ : State} {u : Nat} {pc : ShutdownPc}, s₁.call = s.call →
      s₁.accepting = false → (∀ todo, pc.todo? = some todo →
        s.accepting = false ∧ ∀ name, name ∉ todo → s.queue name = []) →
      (s₁.setCall u pc).call t = s.call t ∨ (s₁.setCall u pc).accepting = false ∧
        ∀ todo, ((s₁.setCall u pc).call t).todo? = some todo →
          s.accepting = false ∧ ∀ name, name ∉ todo → s.queue name = [] := by
    intro s₁ u pc hcall hclosed hpc
    by_cases ht : t = u
    · subst ht
      refine .inr ⟨hclosed, ?_⟩
      rw [show (s₁.setCall t pc).call t = pc from update_self ..]
      exact hpc
    · exact .inl ((update_of_ne ht ..).trans (congrFun hcall t))
  have hbegun : ∀ {u : Nat} {pc : ShutdownPc}, s.call u = pc → pc ≠ .idle →
      s.accepting = false := fun {u} {pc} hpc hne => h.refused u (by rwa [hpc])
  cases hstep with
  | stay | acceptJob | cancel | leave | goOn | timeout | take | giveUp | start | callback =>
    exact .inl rfl
  | finish => exact .inl (congrFun (pruneJobsLocked_call ..) t)
  | refuse u hpc => exact hset rfl rfl fun todo htodo => by cases htodo
  | signal u hpc =>
    have hclosed := hbegun hpc nofun
    refine hset rfl hclosed fun todo htodo => ⟨hclosed, ?_⟩
    obtain rfl := Option.some.inj htodo
    exact h.outside
  | @emptied first rest u hpc hqueue =>
    have hclosed := hbegun hpc nofun
    refine hset rfl hclosed fun todo htodo => ⟨hclosed, fun name hname => ?_⟩
    obtain rfl := Option.some.inj htodo
    by_cases hfirst : name = first
    · rw [hfirst, hqueue]
    · exact h.drained u (first :: rest) (by rw [hpc]; rfl) name
        (List.not_mem_cons_of_ne_of_not_mem hfirst hname)
  | drainGet u hpc hqueue =>
    have hclosed := hbegun hpc nofun
    refine hset rfl hclosed fun todo htodo => ⟨hclosed, ?_⟩
    obtain rfl := Option.some.inj htodo
    exact h.drained u _ (by rw [hpc]; rfl)
  | drainLock u now hpc =>
    have hclosed := hbegun hpc nofun
    refine hset (pruneJobsLocked_call ..) ((pruneJobsLocked_accepting ..).trans hclosed)
      fun todo htodo => ⟨hclosed, ?_⟩
    obtain rfl := Option.some.inj htodo
    exact h.drained u _ (by rw [hpc]; rfl)

/-- **Every step keeps it.** -/
theorem Closing.transition (h : Closing cfg s) (hstep : Transition cfg s step s') :
    Closing cfg s' where
  outside name hout := hstep.queue_nil (h.outside name hout) (.inr hout)
  refused t ht := by
    rcases hstep.call h t with hsame | ⟨hclosed, -⟩
    · exact hstep.accepting (h.refused t (by rwa [← hsame]))
    · exact hclosed
  drained t todo htodo name hname := by
    rcases hstep.call h t with hsame | ⟨-, hnew⟩
    · rw [hsame] at htodo
      refine hstep.queue_nil (h.drained t todo htodo name hname) (.inl (h.refused t fun hidle => ?_))
      rw [hidle] at htodo
      cases htodo
    · obtain ⟨hclosed, hempty⟩ := hnew todo htodo
      exact hstep.queue_nil (hempty name hname) (.inl hclosed)

theorem closing_init (cfg : ExecutorConfig) : Closing cfg (init cfg) where
  outside _ _ := rfl
  refused _ ht := absurd rfl ht
  drained _ _ htodo := by cases htodo

/-- **What is left when the queues are drained and the workers have ended.** -/
theorem Safe.no_queued (h : Safe cfg s) (hclosing : Closing cfg s) {t : Nat}
    (hdrained : s.call t = .draining []) (hcalls : ∀ u, (s.call u).job? = none)
    (hended : ∀ i, s.worker i = .ended) {id : JobId} {job : Job} (hget : s.job id = some job) :
    job.status ≠ .queued := by
  intro hqueued
  obtain ⟨o, hlocated, hfits⟩ := h.owned id
  cases o with
  | none =>
    have hterminal := hfits.2 job hget
    rw [hqueued] at hterminal
    cases hterminal
  | some p =>
    have hheld : s.holds p id := (hlocated p).2 rfl
    cases p with
    | queue name =>
      change id ∈ s.queue name at hheld
      rw [hclosing.drained t [] (by rw [hdrained]; rfl) name List.not_mem_nil] at hheld
      cases hheld
    | holding i =>
      rw [State.holds, hended] at hheld
      cases hheld
    | started i =>
      rw [State.holds, hended] at hheld
      cases hheld
    | call u =>
      rw [State.holds, hcalls] at hheld
      cases hheld

end Shutdown

/-! ## Runs -/

section Runs

variable {cfg : ExecutorConfig} {s : State}

/-- A step makes no other id old, so distinct new ids are new when they are submitted. -/
theorem along_fresh {events : List Step} (hdistinct : (events.filterMap Step.submitted?).Nodup)
    (hnew : ∀ id ∈ events.filterMap Step.submitted?, s.job id = none) :
    Trace.Along (exec cfg) Fresh s events := by
  induction events generalizing s with
  | nil => trivial
  | cons step events ih =>
    have hstep := exec_transition cfg s step
    cases hid : step.submitted? with
    | none =>
      rw [List.filterMap_cons_none hid] at hdistinct hnew
      refine ⟨fun id hsubmitted => ?_, ih hdistinct fun id hin => hstep.job_none (hnew id hin) ?_⟩
      · rw [hid] at hsubmitted
        cases hsubmitted
      · rw [hid]
        exact nofun
    | some x =>
      rw [List.filterMap_cons_some hid] at hdistinct hnew
      obtain ⟨hx, hdistinct⟩ := List.nodup_cons.1 hdistinct
      refine ⟨fun id hsubmitted => ?_, ih hdistinct fun id hin =>
        hstep.job_none (hnew id (List.mem_cons_of_mem x hin)) fun heq => hx ?_⟩
      · rw [hid] at hsubmitted
        obtain rfl := Option.some.inj hsubmitted
        exact hnew _ List.mem_cons_self
      · rw [hid] at heq
        rwa [Option.some.inj heq]

/-- **The jobs are safe in every run** in which the submitted ids are distinct. -/
theorem safe_run {events : List Step} (hdistinct : (events.filterMap Step.submitted?).Nodup) :
    Safe cfg (Trace.run (exec cfg) (init cfg) events) :=
  Trace.run_inv_along (P := Fresh)
    (fun s step h hfresh => h.transition (exec_transition cfg s step) hfresh) (safe_init cfg)
    (along_fresh hdistinct fun _ _ => rfl)

theorem closing_run (events : List Step) :
    Closing cfg (Trace.run (exec cfg) (init cfg) events) :=
  Trace.run_inv (fun s step h => h.transition (exec_transition cfg s step)) (closing_init cfg)
    events

/-- **Workers that run a callback have different jobs**, all of them active. -/
theorem Safe.running_le (h : Safe cfg s) {budget : Nat} (hbudget : cfg.budget = some budget)
    {is : List Nat} (his : is.Nodup) (hrunning : ∀ i ∈ is, ∃ id, s.worker i = .running id) :
    is.length ≤ budget := by
  have hsome : ∀ i ∈ is, (s.worker i).started?.isSome = true := by
    intro i hi
    obtain ⟨id, hpc⟩ := hrunning i hi
    rw [hpc]
    rfl
  have hinj : Function.Injective Place.started := fun i j hij => Place.started.inj hij
  have hnodup : (is.filterMap fun i => (s.worker i).started?).Nodup :=
    h.owned.nodup_filterMap hinj (fun i id hid => hid) his
  have hsubset : (is.filterMap fun i => (s.worker i).started?) ⊆ s.activeJobs := by
    intro id hid
    obtain ⟨i, -, hstarted⟩ := List.mem_filterMap.1 hid
    exact (h.owned.at_place (p := Place.started i) hstarted).2.1
  calc is.length
      = (is.filterMap fun i => (s.worker i).started?).length :=
        ((List.length_filterMap_eq_countP ..).trans (List.countP_eq_length.2 hsome)).symm
    _ ≤ s.activeJobs.length := (List.subperm_of_subset hnodup hsubset).length_le
    _ ≤ budget := h.budget budget hbudget

/-- An active job is not finished. -/
theorem Safe.active_unfinished (h : Safe cfg s) {id : JobId} (hin : id ∈ s.activeJobs) :
    s.isFinished id = false := by
  obtain ⟨o, hlocated, hfits⟩ := h.owned id
  unfold Fits at hfits
  split at hfits
  · obtain ⟨-, -, job, hget, hrunning⟩ := hfits
    rw [State.isFinished, hget, Option.any_some, hrunning]
    rfl
  · exact absurd hin hfits.1
  · exact absurd hin hfits.1

/-- **Finished jobs are pruned** when a job is finished. -/
theorem Safe.retained (h : Safe cfg s) (hprune : ∃ s₁ : State, s.job = s₁.job ∧
    s.activeJobs = s₁.activeJobs ∧ s.jobs = (pruneJobsLocked cfg s₁).jobs) :
    (s.jobs.filter s.isFinished).length ≤ cfg.retained := by
  obtain ⟨s₁, hjob, hactive, hjobs⟩ := hprune
  have hfinished : s.isFinished = s₁.isFinished := by
    funext x
    rw [State.isFinished, State.isFinished, hjob]
  rw [hjobs, hfinished]
  refine finished_pruneJobsLocked cfg s₁ fun x hx => ?_
  rw [← hfinished]
  exact h.active_unfinished (by rwa [hactive])

/-- **A job that is cancelled while it is queued never runs.** -/
theorem never_runs {before after : List Step} {id : JobId} {now : Nat} {job : Job}
    (hdistinct : ((before ++ .cancel id now :: after).filterMap Step.submitted?).Nodup)
    (hget : (Trace.run (exec cfg) (init cfg) before).job id = some job)
    (hqueued : job.status = .queued) (i : Nat) :
    (Trace.run (exec cfg) (init cfg) (before ++ .cancel id now :: after)).worker i ≠
      .running id := by
  have hbefore : (before.filterMap Step.submitted?).Nodup := by
    rw [List.filterMap_append] at hdistinct
    exact hdistinct.of_append_left
  have hfresh : Trace.Along (exec cfg) Fresh (init cfg) _ := along_fresh hdistinct fun _ _ => rfl
  rw [Trace.run_append, Trace.run_cons]
  rw [Trace.along_append] at hfresh
  have hbarred : Barred id (exec cfg (Trace.run (exec cfg) (init cfg) before) (.cancel id now)) :=
    (safe_run hbefore).barred hget hqueued now
  exact (Trace.run_inv_along (P := Fresh)
    (fun s step h hnew => h.transition (exec_transition cfg s step) hnew) hbarred
    hfresh.2.2).2 i

/-- **The executor is safe in every run** of submissions with distinct ids, cancellations, workers,
callbacks that end and shutdowns: no more callbacks run than the budget allows; a job that was cancelled
while it was queued does not run; a running job is in the table; when a worker or a shutdown is done
with a job, no more finished jobs are kept than the bound; and when a shutdown has drained the queues
and the workers have ended, no job is queued. -/
theorem executor_safe (cfg : ExecutorConfig) (events : List Step)
    (hdistinct : (events.filterMap Step.submitted?).Nodup) :
    let s := Trace.run (exec cfg) (init cfg) events
    (∀ budget, cfg.budget = some budget → ∀ is : List Nat, is.Nodup →
      (∀ i ∈ is, ∃ id, s.worker i = .running id) → is.length ≤ budget) ∧
    (∀ before id now after job, events = before ++ .cancel id now :: after →
      (Trace.run (exec cfg) (init cfg) before).job id = some job → job.status = .queued →
      ∀ i, s.worker i ≠ .running id) ∧
    (∀ i id, s.worker i = .running id → id ∈ s.jobs) ∧
    (∀ i now id ok, s.worker i = .returned id ok →
      ((exec cfg s (.finish i now)).jobs.filter (exec cfg s (.finish i now)).isFinished).length ≤
        cfg.retained) ∧
    (∀ t now id todo, s.call t = .cancelling id todo →
      ((exec cfg s (.drainLock t now)).jobs.filter
        (exec cfg s (.drainLock t now)).isFinished).length ≤ cfg.retained) ∧
    (∀ t, s.call t = .draining [] → (∀ u, (s.call u).job? = none) →
      (∀ i, s.worker i = .ended) → ∀ id job, s.job id = some job → job.status ≠ .queued) := by
  intro s
  have hsafe : Safe cfg s := safe_run hdistinct
  refine ⟨fun budget hbudget is his hrunning => hsafe.running_le hbudget his hrunning, ?_,
    fun i id hi => (hsafe.status_running hi).2.1, ?_, ?_,
    fun t hdrained hcalls hended id job hget =>
      hsafe.no_queued (closing_run events) hdrained hcalls hended hget⟩
  · rintro before id now after job rfl hget hqueued i
    exact never_runs hdistinct hget hqueued i
  · intro i now id ok hpc
    have hexec : exec cfg s (.finish i now) =
        (pruneJobsLocked cfg (s.finishJob id ok now)).setWorker i .checking := by
      rw [exec, finish, hpc]
    rw [hexec]
    exact (hsafe.finish hpc now).retained
      ⟨s.finishJob id ok now, pruneJobsLocked_job .., pruneJobsLocked_activeJobs .., rfl⟩
  · intro t now id todo hpc
    have hexec : exec cfg s (.drainLock t now) =
        (pruneJobsLocked cfg (s.drainJob id now)).setCall t (.draining todo) := by
      rw [exec, drainLock, hpc]
    rw [hexec]
    exact (hsafe.drainLock hpc now).retained
      ⟨s.drainJob id now, pruneJobsLocked_job .., pruneJobsLocked_activeJobs .., rfl⟩

/-- Two workers, and one callback at a time. -/
def oneAtATime : ExecutorConfig := ⟨2, 25, [], 256, some 1⟩

/-- Both workers take a job, and the second one waits. -/
def waitingRun : List Step :=
  [.submit ⟨"a", "t", "p", "default", false⟩ 1, .submit ⟨"b", "t", "p", "default", false⟩ 1,
    .check 0, .get 0, .check 1, .get 1, .claim 0 2, .claim 1 2]

/-- The job of the worker that waits is cancelled, and does not run. -/
theorem executor_safe_cancelled :
    (Trace.run (exec oneAtATime) (init oneAtATime)
      (waitingRun ++ .cancel "b" 3 :: [.claim 1 3])).worker 0 = .running "a" ∧
    (∀ i, (Trace.run (exec oneAtATime) (init oneAtATime)
      (waitingRun ++ .cancel "b" 3 :: [.claim 1 3])).worker i ≠ .running "b") := by
  obtain ⟨-, hcancelled, -⟩ := executor_safe oneAtATime
    (waitingRun ++ .cancel "b" 3 :: [.claim 1 3]) (by decide +kernel)
  have hqueued : (Trace.run (exec oneAtATime) (init oneAtATime) waitingRun).job "b" =
      some ⟨"t", "p", "default", .queued, 1, none, false⟩ := by decide +kernel
  exact ⟨by decide +kernel, hcancelled waitingRun "b" 3 [.claim 1 3] _ rfl hqueued rfl⟩

end Runs

end BoundedJobExecutor

end FosCoverage
