import FosCoverage.Jobs.Repository

/-!
# The lease of a job

What holds over every sequence of calls of the job repository, by any number of workers.

* `JobEvent.change` is what one call may do to a row that exists: rows in a terminal state are not
  written, the identity never is, and a call either keeps the lease and stamps the heartbeat (`beat`)
  or gives the row a new lease and a new stamp (`take`).
* `LeaseProtocol` is what the protocol is for.  Three of its parts hold in every run; that of several
  workers which have observed the same fence only one takes the lease needs more, since an observed
  heartbeat of `NULL` is not compared, and a stamp is a whole second.
* `job_lease_protocol`: the protocol holds in every run whose calls are `Sound`.  Without it two
  workers take the lease of a job that was just created (`lease_taken_twice`): its owner takes it back
  from the first one, and the second one compares the state and the owner alone.
-/

set_option autoImplicit false

namespace FosCoverage

open Relational Outcome

/-! ## What one call does to a row -/

namespace JobEvent

/-- A call that stamps a row for its lease owner. -/
structure Beat where
  /-- The job. -/
  jobId : String
  /-- The owner. -/
  leaseOwner : String
  /-- The heartbeat that is written. -/
  stamp : Nat
  deriving DecidableEq, Repr

/-- The stamp a call asks for. -/
def beat (e : JobEvent) : Option Beat :=
  match e.call with
  | .start job | .heartbeat job =>
    some ⟨job.jobId, job.leaseOwner, job.heartbeatAt.getD e.now⟩
  | .transitionTerminal job =>
    some ⟨job.jobId, job.leaseOwner, job.heartbeatAt.getD (job.finishedAt.getD e.now)⟩
  | _ => none

/-- A call for a new lease. -/
structure Take where
  /-- The job. -/
  jobId : String
  /-- The new owner. -/
  leaseOwner : String
  /-- The heartbeat that is written. -/
  stamp : Nat
  /-- What the worker expects of the row. -/
  expected : Expected
  deriving DecidableEq, Repr

/-- The lease a call asks for. -/
def take (e : JobEvent) : Option Take :=
  match e.call with
  | .claimForRecovery jobId owner stamp expected | .reclaim jobId owner stamp expected =>
    some ⟨jobId, owner, stamp.getD e.now, expected⟩
  | _ => none

/-- A call that writes the row of `j` from `row` to `row'`. -/
structure Change (e : JobEvent) (j : String) (row row' : JobRow) : Prop where
  /-- A row in a terminal state is not written. -/
  live : row.state.terminal = false
  /-- The identity is not written. -/
  identity : row'.identity = row.identity
  /-- The lease is kept and the heartbeat stays or is stamped, or the lease is a new one. -/
  lease : (row'.leaseOwner = row.leaseOwner ∧ (row'.heartbeatAt = row.heartbeatAt ∨
      ∃ b, e.beat = some b ∧ b.jobId = j ∧ b.leaseOwner = row.leaseOwner ∧
        row'.heartbeatAt = some b.stamp)) ∨
    ∃ k, e.take = some k ∧ k.jobId = j ∧ k.expected.holds row = true ∧
      row'.leaseOwner = k.leaseOwner ∧ row'.heartbeatAt = some k.stamp

end JobEvent

namespace Jobs

/-- An update of one row either writes a row that meets the condition, or does nothing. -/
theorem updateJob_cases (t : JobTable) (jobId : String) (p : JobRow → Bool) (f : JobRow → JobRow) :
    updateJob t jobId p f = (t, none) ∨
      ∃ row, t.get? jobId = some row ∧ p row = true ∧
        updateJob t jobId p f = (t.put jobId (f row), some (f row)) := by
  unfold updateJob
  split
  · rename_i row hrow
    split
    · rename_i hp
      exact .inr ⟨row, hrow, hp, rfl⟩
    · exact .inl rfl
  · exact .inl rfl

/-- What an update of one row leaves of any row. -/
theorem get?_updateJob {t : JobTable} {jobId j : String} {p : JobRow → Bool} {f : JobRow → JobRow}
    {row : JobRow} (h : t.get? j = some row) :
    (updateJob t jobId p f).1.get? j = some row ∨
      (jobId = j ∧ p row = true ∧ (updateJob t jobId p f).1.get? j = some (f row)) := by
  rcases updateJob_cases t jobId p f with hnone | ⟨row', hrow', hp, hsome⟩
  · rw [hnone]
    exact .inl h
  · rw [hsome]
    by_cases hj : j = jobId
    · subst hj
      obtain rfl : row' = row := Option.some.inj (hrow'.symm.trans h)
      exact .inr ⟨rfl, hp, by simp⟩
    · exact .inl (by simp [hj, h])

/-- A row that is returned is the written one. -/
theorem updateJob_some {t : JobTable} {jobId : String} {p : JobRow → Bool} {f : JobRow → JobRow}
    (h : (updateJob t jobId p f).2.isSome = true) :
    ∃ row, t.get? jobId = some row ∧ p row = true ∧
      updateJob t jobId p f = (t.put jobId (f row), some (f row)) := by
  rcases updateJob_cases t jobId p f with hnone | hsome
  · rw [hnone] at h
    cases h
  · exact hsome

end Jobs

namespace JobEvent

variable {t : JobTable} {e : JobEvent} {j : String} {row : JobRow}

/-- A row is left alone by a call, or changed by it. -/
def Leaves (e : JobEvent) (t' : JobTable) (j : String) (row : JobRow) : Prop :=
  ∃ row', t'.get? j = some row' ∧ (row' = row ∨ e.Change j row row')

/-- An update of one row leaves what its condition and its assignments allow. -/
theorem leaves_updateJob {jobId : String} {p : JobRow → Bool} {f : JobRow → JobRow}
    (h : t.get? j = some row) (hc : jobId = j → p row = true → e.Change j row (f row)) :
    e.Leaves (Jobs.updateJob t jobId p f).1 j row := by
  have hcases : (Jobs.updateJob t jobId p f).1.get? j = some row ∨
      (jobId = j ∧ p row = true ∧ (Jobs.updateJob t jobId p f).1.get? j = some (f row)) :=
    Jobs.get?_updateJob h
  rcases hcases with hrow | ⟨hj, hp, hrow⟩
  · exact ⟨row, hrow, .inl rfl⟩
  · exact ⟨f row, hrow, .inr (hc hj hp)⟩

/-- The states a lease can be taken from are not terminal. -/
theorem not_terminal_of_live {s : JobStatus}
    (h : s = .queued ∨ s = .running ∨ s = .interrupted) : s.terminal = false := by
  rcases h with rfl | rfl | rfl <;> rfl

/-- A new lease. -/
theorem leaves_takeLease {jobId owner : String} {stamp : Option Nat} {expected : Expected}
    {from_ : JobStatus → Bool} {state : JobStatus} (h : t.get? j = some row)
    (hfrom : ∀ s, from_ s = true → s.terminal = false)
    (htake : e.take = some ⟨jobId, owner, stamp.getD e.now, expected⟩) :
    e.Leaves (Jobs.takeLease e.now t jobId owner stamp expected from_ state).1 j row := by
  refine leaves_updateJob h fun hj hp => ?_
  simp only [Bool.decide_and, Bool.decide_eq_true, Bool.and_eq_true] at hp
  exact ⟨hfrom _ hp.1, rfl, .inr ⟨_, htake, hj, hp.2, rfl, rfl⟩⟩

/-- **What one call does to a row that exists.** -/
theorem change (h : t.get? j = some row) : e.Leaves (e.apply t).1 j row := by
  obtain ⟨now, call⟩ := e
  cases call with
  | create job =>
    simp only [apply]
    split
    · rename_i hok
      simp only [Jobs.create, bind_eq_ok, require_eq_ok, pure_eq_ok, Prod.mk.injEq] at hok
      obtain ⟨_, hnew, rfl, _⟩ := hok
      have hj : j ≠ job.jobId := by
        rintro rfl
        rw [h] at hnew
        cases hnew
      exact ⟨row, by simp [hj, h], .inl rfl⟩
    · exact ⟨row, h, .inl rfl⟩
  | start job =>
    simp only [apply, Jobs.start]
    split
    · exact ⟨row, h, .inl rfl⟩
    · refine leaves_updateJob h fun hj hp => ?_
      simp only [decide_eq_true_eq] at hp
      exact ⟨not_terminal_of_live (.inl hp.1), rfl, .inl ⟨rfl, .inr ⟨_, rfl, hj, hp.2.symm, rfl⟩⟩⟩
  | heartbeat job =>
    simp only [apply, Jobs.heartbeat]
    split
    · exact ⟨row, h, .inl rfl⟩
    · refine leaves_updateJob h fun hj hp => ?_
      simp only [decide_eq_true_eq] at hp
      exact ⟨not_terminal_of_live (.inr (.inl hp.1)), rfl,
        .inl ⟨rfl, .inr ⟨_, rfl, hj, hp.2.symm, rfl⟩⟩⟩
  | transitionTerminal job =>
    simp only [apply, Jobs.transitionTerminal]
    split
    case h_5 =>
      split
      · exact ⟨row, h, .inl rfl⟩
      · refine leaves_updateJob h fun hj hp => ?_
        simp only [decide_eq_true_eq] at hp
        exact ⟨not_terminal_of_live hp.1, rfl, .inl ⟨rfl, .inr ⟨_, rfl, hj, hp.2.symm, rfl⟩⟩⟩
    all_goals exact ⟨row, h, .inl rfl⟩
  | claimForRecovery jobId owner stamp expected =>
    refine leaves_takeLease h (fun s hs => ?_) rfl
    rcases of_decide_eq_true hs with rfl | rfl <;> rfl
  | reclaim jobId owner stamp expected =>
    refine leaves_takeLease h (fun s hs => ?_) rfl
    exact not_terminal_of_live (of_decide_eq_true hs)
  | markInterrupted jobId message expected =>
    refine leaves_updateJob h fun hj hp => ?_
    simp only [decide_eq_true_eq] at hp
    refine ⟨?_, rfl, .inl ⟨rfl, .inl rfl⟩⟩
    rcases hp.1 with hs | hs <;> rw [hs] <;> rfl
  | markStale timeout owner kinds =>
    simp only [apply, Jobs.markStale, Leaves, Keyed.get?_updateWhere, h, Option.map_some,
      Option.some.injEq, exists_eq_left']
    split
    · rename_i hp
      simp only [decide_eq_true_eq] at hp
      refine .inr ⟨?_, rfl, .inl ⟨rfl, .inl rfl⟩⟩
      rcases hp.1 with hs | ⟨hs, _⟩ <;> rw [hs] <;> rfl
    · exact .inl rfl

/-- A call for a lease that succeeds found the row as the worker expects it. -/
theorem take_row {k : Take} (hk : e.take = some k) (h : (e.apply t).2.isSome = true) :
    ∃ row row', t.get? k.jobId = some row ∧ k.expected.holds row = true ∧
      (e.apply t).1.get? k.jobId = some row' ∧ row'.leaseOwner = k.leaseOwner ∧
      row'.heartbeatAt = some k.stamp := by
  obtain ⟨now, call⟩ := e
  have htake : ∀ {jobId owner : String} {stamp : Option Nat} {expected : Expected}
      {from_ : JobStatus → Bool} {state : JobStatus},
      (Jobs.takeLease now t jobId owner stamp expected from_ state).2.isSome = true →
      ∃ row row', t.get? jobId = some row ∧ expected.holds row = true ∧
        (Jobs.takeLease now t jobId owner stamp expected from_ state).1.get? jobId = some row' ∧
        row'.leaseOwner = owner ∧ row'.heartbeatAt = some (stamp.getD now) := by
    intro jobId owner stamp expected from_ state h
    obtain ⟨row, hrow, hp, hsome⟩ := Jobs.updateJob_some h
    simp only [Bool.decide_and, Bool.decide_eq_true, Bool.and_eq_true] at hp
    have hwritten := congrArg (fun r => Keyed.get? r.1 jobId) hsome
    simp only [Keyed.get?_put, if_pos] at hwritten
    exact ⟨row, _, hrow, hp.2, hwritten, by simp⟩
  cases call with
  | claimForRecovery jobId owner stamp expected =>
    obtain rfl := Option.some.inj hk
    exact htake h
  | reclaim jobId owner stamp expected =>
    obtain rfl := Option.some.inj hk
    exact htake h
  | _ => cases hk

end JobEvent

/-! ## Runs -/

/-- The job table with the lease owners its rows have had. -/
structure JobHistory where
  /-- The table. -/
  rows : JobTable
  /-- The owners, each with its job. -/
  held : List (String × String)

namespace JobHistory

/-- No job has been created. -/
def empty : JobHistory := ⟨Keyed.empty, []⟩

/-- One call after the other. -/
def exec (s : JobHistory) (e : JobEvent) : JobHistory :=
  let t := (e.apply s.rows).1
  ⟨t, t.rows.map (fun r => (r.1, r.2.leaseOwner)) ++ s.held⟩

/-- The state a list of calls leads to. -/
def after (es : List JobEvent) : JobHistory := Trace.run exec empty es

/-- The call succeeds in this state: it returns a row. -/
def Succeeds (s : JobHistory) (e : JobEvent) : Prop := (e.apply s.rows).2.isSome = true

instance (s : JobHistory) (e : JobEvent) : Decidable (s.Succeeds e) :=
  inferInstanceAs (Decidable ((e.apply s.rows).2.isSome = true))

/-- What the lease relies on besides the compare-and-set.  A worker that observed no heartbeat finds
the row without one; no stamp is older than the heartbeat it replaces; and a worker that takes a
lease it has had before writes a newer one. -/
def Sound (s : JobHistory) (e : JobEvent) : Prop :=
  (∀ b ∈ e.beat, ∀ row ∈ s.rows.get? b.jobId, row.leaseOwner = b.leaseOwner →
    ∀ h ∈ row.heartbeatAt, h ≤ b.stamp) ∧
  ∀ k ∈ e.take, ∀ row ∈ s.rows.get? k.jobId, k.expected.holds row = true →
    (k.expected.heartbeatAt = none → row.heartbeatAt = none) ∧
    ∀ h ∈ row.heartbeatAt, h ≤ k.stamp ∧ ((k.jobId, k.leaseOwner) ∈ s.held → h < k.stamp)

instance (s : JobHistory) (e : JobEvent) : Decidable (s.Sound e) :=
  inferInstanceAs (Decidable ((∀ b ∈ e.beat, ∀ row ∈ s.rows.get? b.jobId, _ → ∀ h ∈ row.heartbeatAt,
    _) ∧ ∀ k ∈ e.take, ∀ row ∈ s.rows.get? k.jobId, _ → (_ → _) ∧ ∀ h ∈ row.heartbeatAt, _))

/-- A row had this fence at some point of the run. -/
def Observed (es : List JobEvent) (j : String) (f : Fence) : Prop :=
  ∃ pre post row, es = pre ++ post ∧ (after pre).rows.get? j = some row ∧ row.fence = f

/-- The call is a claim of a lease by a worker that observed this fence. -/
def Claims (e : JobEvent) (j owner : String) (f : Fence) : Prop :=
  ∃ stamp, e.take = some ⟨j, owner, stamp, f.expected⟩

end JobHistory

open JobHistory

/-- The job lease protocol, over one run. -/
structure LeaseProtocol (es : List JobEvent) : Prop where
  /-- A job that has ended never changes again. -/
  ended : ∀ pre post, es = pre ++ post → ∀ j row, (after pre).rows.get? j = some row →
    row.state.terminal = true → (after es).rows.get? j = some row
  /-- Only the lease owner starts a job or ends it. -/
  fenced : ∀ pre e post, es = pre ++ e :: post → ∀ job,
    e.call = .start job ∨ e.call = .transitionTerminal job → (after pre).Succeeds e →
    ∃ row, (after pre).rows.get? job.jobId = some row ∧ row.leaseOwner = job.leaseOwner
  /-- Of several workers that observed the same fence one takes the lease. -/
  exclusive : ∀ pre e mid e' post, es = pre ++ e :: (mid ++ e' :: post) → ∀ j f owner owner',
    owner ≠ owner' → Observed pre j f → Observed (pre ++ e :: mid) j f →
    Claims e j owner f → Claims e' j owner' f → (after pre).Succeeds e →
    ¬ (after (pre ++ e :: mid)).Succeeds e'
  /-- The identity of a job never changes. -/
  identity : ∀ pre post, es = pre ++ post → ∀ j row, (after pre).rows.get? j = some row →
    ∃ row', (after es).rows.get? j = some row' ∧ row'.identity = row.identity

section Protocol

variable {s : JobHistory} {e : JobEvent} {j : String} {row : JobRow}

theorem after_append (pre post : List JobEvent) :
    after (pre ++ post) = Trace.run JobHistory.exec (after pre) post :=
  Trace.run_append JobHistory.exec _ pre post

/-! ### What every run keeps -/

/-- A row in a terminal state outlives every call. -/
theorem terminal_run (hrow : s.rows.get? j = some row) (hterm : row.state.terminal = true)
    (es : List JobEvent) : (Trace.run JobHistory.exec s es).rows.get? j = some row := by
  refine Trace.run_inv (I := fun s : JobHistory => s.rows.get? j = some row) (fun s e hs => ?_) hrow es
  obtain ⟨row', hrow', rfl | hchange⟩ := JobEvent.change (e := e) hs
  · exact hrow'
  · rw [hchange.live] at hterm
    cases hterm

/-- So does the identity of every row. -/
theorem identity_run (hrow : s.rows.get? j = some row) (es : List JobEvent) :
    ∃ row', (Trace.run JobHistory.exec s es).rows.get? j = some row' ∧
      row'.identity = row.identity := by
  refine Trace.run_inv
    (I := fun s : JobHistory => ∃ row', s.rows.get? j = some row' ∧ row'.identity = row.identity)
    (fun s e => ?_) ⟨row, hrow, rfl⟩ es
  rintro ⟨row₁, hrow₁, hid⟩
  obtain ⟨row₂, hrow₂, rfl | hchange⟩ := JobEvent.change (e := e) hrow₁
  · exact ⟨row₂, hrow₂, hid⟩
  · exact ⟨row₂, hrow₂, hchange.identity.trans hid⟩

/-- A job is started and ended by its lease owner. -/
theorem fenced_step {job : JobFields} (hcall : e.call = .start job ∨ e.call = .transitionTerminal job)
    (h : s.Succeeds e) :
    ∃ row, s.rows.get? job.jobId = some row ∧ row.leaseOwner = job.leaseOwner := by
  obtain ⟨now, call⟩ := e
  rcases hcall with rfl | rfl
  · simp only [Succeeds, JobEvent.apply, Jobs.start] at h
    split at h
    · cases h
    · obtain ⟨row, hrow, hp, _⟩ := Jobs.updateJob_some h
      exact ⟨row, hrow, (of_decide_eq_true hp).2⟩
  · simp only [Succeeds, JobEvent.apply, Jobs.transitionTerminal] at h
    split at h
    case h_5 =>
      split at h
      · cases h
      · obtain ⟨row, hrow, hp, _⟩ := Jobs.updateJob_some h
        exact ⟨row, hrow, (of_decide_eq_true hp).2⟩
    all_goals cases h

/-! ### One lease for one fence -/

/-- The owner of every row is one of the owners it has had. -/
def HeldOk (s : JobHistory) : Prop :=
  ∀ j row, s.rows.get? j = some row → (j, row.leaseOwner) ∈ s.held

theorem heldOk_after (es : List JobEvent) : HeldOk (after es) := by
  refine Trace.run_inv (I := HeldOk) (fun s e _ j row hrow => ?_) (fun j row hrow => ?_) es
  · have hmem := Keyed.get?_eq_some_iff.1 hrow
    exact List.mem_append_left _ (List.mem_map_of_mem (f := fun r => (r.1, r.2.leaseOwner)) hmem)
  · simp [JobHistory.empty] at hrow

/-- The lease has been taken by a worker that observed this fence, and the fence cannot recur: the
heartbeat has moved on, or the owner is another one, and an owner that comes back writes a newer
heartbeat. -/
structure Taken (j : String) (f : Fence) (s : JobHistory) : Prop where
  /-- The row has a heartbeat, and does not have this fence. -/
  row : ∃ row h, s.rows.get? j = some row ∧ row.heartbeatAt = some h ∧
    ∀ h₀ ∈ f.heartbeatAt, h₀ ≤ h ∧ (h₀ < h ∨ row.leaseOwner ≠ f.leaseOwner)
  /-- The observed owner has had the row. -/
  held : (j, f.leaseOwner) ∈ s.held

theorem mem_held_exec {p : String × String} (h : p ∈ s.held) : p ∈ (s.exec e).held :=
  List.mem_append_right _ h

/-- The clauses of an expectation that was observed. -/
theorem fence_holds {f : Fence} (h : f.expected.holds row = true) :
    row.state = f.state ∧ row.leaseOwner = f.leaseOwner ∧
      ∀ h₀ ∈ f.heartbeatAt, row.heartbeatAt = some h₀ := by
  simpa [Fence.expected, Expected.holds] using h

/-- **The first claim.** -/
theorem taken_of_claim {f : Fence} {owner : String} (hheld : HeldOk s) (hsound : s.Sound e)
    (hclaim : Claims e j owner f) (h : s.Succeeds e) : Taken j f (s.exec e) := by
  obtain ⟨stamp, htake⟩ := hclaim
  obtain ⟨row, row', hrow, hexp, hrow', howner', hbeat'⟩ := JobEvent.take_row htake h
  obtain ⟨_, howner, hbeat⟩ := fence_holds hexp
  have hmem : (j, f.leaseOwner) ∈ s.held := howner ▸ hheld j row hrow
  refine ⟨⟨row', stamp, hrow', hbeat', fun h₀ hh₀ => ?_⟩, mem_held_exec hmem⟩
  obtain ⟨hle, hlt⟩ := (hsound.2 _ htake row hrow hexp).2 h₀ (hbeat h₀ hh₀)
  refine ⟨hle, ?_⟩
  by_cases ho : owner = f.leaseOwner
  · exact .inl (hlt (by rw [ho]; exact hmem))
  · exact .inr (by rw [howner']; exact ho)

/-- **What every sound call keeps.** -/
theorem Taken.step {f : Fence} (h : Taken j f s) (hsound : s.Sound e) : Taken j f (s.exec e) := by
  obtain ⟨row, h₁, hrow, hbeat, hfence⟩ := h.row
  refine ⟨?_, mem_held_exec h.held⟩
  obtain ⟨row', hrow', rfl | hchange⟩ := JobEvent.change (e := e) hrow
  · exact ⟨row', h₁, hrow', hbeat, hfence⟩
  rcases hchange.lease with ⟨howner, hkept | ⟨b, hb, rfl, hbowner, hstamp⟩⟩ |
      ⟨k, hk, rfl, hexp, howner, hstamp⟩
  · refine ⟨row', h₁, hrow', hkept.trans hbeat, ?_⟩
    rw [howner]
    exact hfence
  · have hle : h₁ ≤ b.stamp := hsound.1 b hb row hrow hbowner.symm h₁ hbeat
    refine ⟨row', b.stamp, hrow', hstamp, fun h₀ hh₀ => ?_⟩
    obtain ⟨hle₀, hor⟩ := hfence h₀ hh₀
    rw [howner]
    refine ⟨by omega, ?_⟩
    rcases hor with hlt | hne
    · exact .inl (by omega)
    · exact .inr hne
  · obtain ⟨hle, hlt⟩ := (hsound.2 k hk row hrow hexp).2 h₁ hbeat
    refine ⟨row', k.stamp, hrow', hstamp, fun h₀ hh₀ => ?_⟩
    have hle₀ := (hfence h₀ hh₀).1
    refine ⟨by omega, ?_⟩
    -- only the observed owner could bring the fence back, and it has had the row before
    by_cases ho : k.leaseOwner = f.leaseOwner
    · have hlt := hlt (by rw [ho]; exact h.held)
      exact .inl (by omega)
    · exact .inr (by rw [howner]; exact ho)

/-- **The second claim.** -/
theorem Taken.refuses {f : Fence} {owner : String} (h : Taken j f s) (hsound : s.Sound e)
    (hclaim : Claims e j owner f) : ¬ s.Succeeds e := by
  intro hs
  obtain ⟨stamp, htake⟩ := hclaim
  obtain ⟨row, _, hrow, hexp, _⟩ := JobEvent.take_row htake hs
  obtain ⟨row', h₁, hrow', hbeat, hfence⟩ := h.row
  obtain rfl : row = row' := Option.some.inj (hrow.symm.trans hrow')
  obtain ⟨_, howner, hheart⟩ := fence_holds hexp
  cases hf : f.heartbeatAt with
  | none =>
    have hnone := (hsound.2 _ htake row hrow hexp).1 hf
    rw [hbeat] at hnone
    cases hnone
  | some h₀ =>
    obtain rfl : h₁ = h₀ := Option.some.inj (hbeat.symm.trans (hheart h₀ hf))
    rcases (hfence h₁ hf).2 with hlt | hne
    · omega
    · exact hne howner

/-- **The job lease protocol** holds in every run of sound calls. -/
theorem job_lease_protocol (es : List JobEvent)
    (hsound : Trace.Along JobHistory.exec Sound JobHistory.empty es) : LeaseProtocol es where
  ended := by
    rintro pre post rfl j row hrow hterm
    rw [after_append]
    exact terminal_run hrow hterm post
  fenced := by
    intro pre e post _ job hcall h
    exact fenced_step hcall h
  exclusive := by
    rintro pre e mid e' post rfl j f owner owner' _ _ _ hclaim hclaim' h
    rw [Trace.along_append] at hsound
    obtain ⟨_, hfirst, hrest⟩ := hsound
    rw [Trace.along_append] at hrest
    have htaken : Taken j f ((after pre).exec e) :=
      taken_of_claim (heldOk_after pre) hfirst hclaim h
    have hmid := Trace.run_inv_along (fun s e hs ht => hs.step ht) htaken hrest.1
    rw [after_append]
    exact hmid.refuses hrest.2.1 hclaim'
  identity := by
    rintro pre post rfl j row hrow
    rw [after_append]
    exact identity_run hrow post

end Protocol

namespace Sample

/-- A job as `submit` creates it: queued, without a heartbeat. -/
def submitted : JobEvent :=
  ⟨10, .create { jobId := "job", kind := "export", leaseOwner := "a", dataVersion := some 3 }⟩

/-- A claim of the job by a worker that observed the given fence. -/
def claimedBy (owner : String) (now : Nat) (f : Fence) : JobEvent :=
  ⟨now, .claimForRecovery "job" owner none f.expected⟩

/-- Two workers observe a running job and claim it. -/
def contended : List JobEvent :=
  [submitted, ⟨11, .start { jobId := "job", leaseOwner := "a" }⟩,
    claimedBy "b" 400 ⟨.running, "a", some 11⟩, claimedBy "c" 400 ⟨.running, "a", some 11⟩]

/-- Two workers observe a queued job; between their claims its owner claims it back. -/
def claimedBack : List JobEvent :=
  [submitted, claimedBy "b" 20 ⟨.queued, "a", none⟩, claimedBy "a" 30 ⟨.queued, "b", some 20⟩,
    claimedBy "c" 40 ⟨.queued, "a", none⟩]

end Sample

theorem job_lease_protocol_sample : LeaseProtocol Sample.contended :=
  job_lease_protocol Sample.contended (by decide +kernel)

/-- Two workers that observed a queued job without a heartbeat both take its lease. -/
theorem lease_taken_twice : ¬ LeaseProtocol Sample.claimedBack := by
  intro h
  have hseen : Observed [Sample.submitted] "job" ⟨.queued, "a", none⟩ :=
    ⟨[Sample.submitted], [], _, rfl, rfl, rfl⟩
  have hseen' : Observed [Sample.submitted, Sample.claimedBy "b" 20 ⟨.queued, "a", none⟩,
      Sample.claimedBy "a" 30 ⟨.queued, "b", some 20⟩] "job" ⟨.queued, "a", none⟩ :=
    ⟨[Sample.submitted], _, _, rfl, rfl, rfl⟩
  refine h.exclusive [Sample.submitted] (Sample.claimedBy "b" 20 ⟨.queued, "a", none⟩)
    [Sample.claimedBy "a" 30 ⟨.queued, "b", some 20⟩]
    (Sample.claimedBy "c" 40 ⟨.queued, "a", none⟩) [] rfl "job" ⟨.queued, "a", none⟩ "b" "c"
    (by decide) hseen hseen' ⟨20, rfl⟩ ⟨40, rfl⟩ ?_ ?_
  · decide +kernel
  · decide +kernel

end FosCoverage
