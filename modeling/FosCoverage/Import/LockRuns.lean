import FosCoverage.Import.Fencing

/-!
# Lock rows and fencing tokens along a run

The lock row of a resource comes and goes: it is written by an acquisition, taken over when its
lease has expired, written again by a recovery, and deleted by a release.  The counter that the
tokens are drawn from is a column of the resource and stays.

* `acquireOrRelease` is `acquire` with what it leaves in the tables when it raises: the rows that it
  has written so far are deleted, the counters keep their values.
* `LockEvent` is a transaction of the system or a call of the lock service on its own, which nothing
  rolls back.  `grants` are the tokens that an event hands out.
* `Drawn` is what an event does to the counters: they do not fall, and a token that is handed out
  lies above the old value of its counter and not above the new one.
* `lock_runs` is the statement about a run: one row for a resource, growing tokens for each
  resource, and no trace of an import that is refused because a resource is busy.
-/

set_option autoImplicit false

namespace FosCoverage

open Relational Outcome

namespace RepositoryResourceLockService

/-! ## An acquisition that raises -/

/-- The loop of `acquire`, with the database as it is when it ends or raises. -/
def acquireLoop (jobId ownerToken leaseSeconds : Nat) :
    Db × List (Nat × Nat) → List Nat → Db × Except Failure (List (Nat × Nat))
  | acc, [] => (acc.1, .ok acc.2)
  | acc, resourceId :: rest =>
    match acquireOne jobId ownerToken leaseSeconds acc resourceId with
    | .ok acc' => acquireLoop jobId ownerToken leaseSeconds acc' rest
    | .error e => (acc.1, .error e)

/-- `acquire` with its `except` branch. -/
def acquireOrRelease (db : Db) (resourceIds : List Nat) (jobId ownerToken leaseSeconds : Nat) :
    Db × Except Failure (List (Nat × Nat)) :=
  match acquireLoop jobId ownerToken leaseSeconds (db, []) (normalize resourceIds) with
  | (db', .ok acquired) => (db', .ok acquired)
  | (db', .error e) => (release db' jobId ownerToken none, .error e)

section Loop

variable {jobId ownerToken leaseSeconds : Nat}

theorem acquireLoop_ok_iff {acc : Db × List (Nat × Nat)} {l : List Nat} {db' : Db}
    {acquired : List (Nat × Nat)} :
    acquireLoop jobId ownerToken leaseSeconds acc l = (db', .ok acquired) ↔
      l.foldlM (acquireOne jobId ownerToken leaseSeconds) acc = .ok (db', acquired) := by
  induction l generalizing acc with
  | nil =>
    rw [acquireLoop, List.foldlM_nil, pure_eq_ok, Prod.mk.injEq, Except.ok.injEq, Prod.ext_iff]
  | cons r l ih =>
    rw [acquireLoop, List.foldlM_cons, bind_eq_ok]
    cases hone : acquireOne jobId ownerToken leaseSeconds acc r with
    | ok acc' => simp [ih]
    | error e => simp

/-- The transaction of `acquire` commits what the loop leaves, or nothing. -/
theorem acquireOrRelease_ok_iff {db db' : Db} {resourceIds : List Nat}
    {acquired : List (Nat × Nat)} :
    acquireOrRelease db resourceIds jobId ownerToken leaseSeconds = (db', .ok acquired) ↔
      acquire db resourceIds jobId ownerToken leaseSeconds = .ok (db', acquired) := by
  rw [acquire, ← acquireLoop_ok_iff, acquireOrRelease]
  rcases acquireLoop jobId ownerToken leaseSeconds (db, []) (normalize resourceIds) with
    ⟨db₁, e | acq⟩
  · simp
  · exact Iff.rfl

/-- An acquisition that raises has no row left. -/
theorem acquireOrRelease_error {db db' : Db} {resourceIds : List Nat} {e : Failure}
    (h : acquireOrRelease db resourceIds jobId ownerToken leaseSeconds = (db', .error e)) :
    ∀ r lock, db'.imports.locks.get? r = some lock →
      ¬ (lock.jobId = jobId ∧ lock.ownerToken = ownerToken) := by
  unfold acquireOrRelease at h
  split at h
  · cases (Prod.mk.inj h).2
  · obtain ⟨rfl, -⟩ := Prod.mk.inj h
    intro r lock hr hown
    simp only [release, Keyed.get?_deleteWhere, Option.filter_eq_some_iff] at hr
    simp [hown] at hr

end Loop

end RepositoryResourceLockService

open RepositoryResourceLockService

/-! ## Counters -/

/-- The counter of a resource does not go away and does not fall. -/
def CountersGrow (db db' : Db) : Prop :=
  ∀ r n, db.imports.resources.get? r = some n →
    ∃ n', db'.imports.resources.get? r = some n' ∧ n ≤ n'

namespace CountersGrow

variable {db db' db'' : Db}

theorem refl (db : Db) : CountersGrow db db := fun _ n h => ⟨n, h, Nat.le_refl n⟩

theorem trans (h : CountersGrow db db') (h' : CountersGrow db' db'') : CountersGrow db db'' := by
  intro r n hn
  obtain ⟨n', hn', hle⟩ := h r n hn
  obtain ⟨n'', hn'', hle'⟩ := h' r n' hn'
  exact ⟨n'', hn'', Nat.le_trans hle hle'⟩

theorem of_eq (h : db'.imports.resources = db.imports.resources) : CountersGrow db db' := by
  intro r n hn
  exact ⟨n, by rw [h]; exact hn, Nat.le_refl n⟩

end CountersGrow

/-- What handing out tokens does to the counters. -/
structure Drawn (db db' : Db) (granted : List (Nat × Nat)) : Prop where
  grow : CountersGrow db db'
  /-- A token lies above the counter it was drawn from. -/
  above : ∀ g ∈ granted, ∀ n, db.imports.resources.get? g.1 = some n → n < g.2
  /-- The counter has reached it. -/
  reached : ∀ g ∈ granted, ∃ n, db'.imports.resources.get? g.1 = some n ∧ g.2 ≤ n
  /-- One token for each resource. -/
  nodup : (granted.map Prod.fst).Nodup

theorem Drawn.of_grow {db db' : Db} (h : CountersGrow db db') : Drawn db db' [] :=
  ⟨h, by simp, by simp, by simp⟩

section Acquire

variable {jobId ownerToken leaseSeconds : Nat} {db db' : Db}

/-- One turn of the loop draws one token. -/
theorem acquireOne_counters {acc acc' : Db × List (Nat × Nat)} {r : Nat}
    (h : acquireOne jobId ownerToken leaseSeconds acc r = .ok acc') :
    ∃ n, acc.1.imports.resources.get? r = some n ∧ acc'.2 = acc.2 ++ [(r, n + 1)] ∧
      acc'.1.imports.resources = acc.1.imports.resources.put r (n + 1) := by
  simp only [acquireOne, nextToken, bind_eq_ok, require_eq_ok, orFail_eq_ok, pure_eq_ok,
    Prod.exists, Prod.mk.injEq] at h
  obtain ⟨_, _, db₁, token, ⟨n, hn, rfl, rfl⟩, rfl⟩ := h
  exact ⟨n, hn, rfl, rfl⟩

theorem growth_of_put {r n : Nat} (hn : db.imports.resources.get? r = some n)
    (h : db'.imports.resources = db.imports.resources.put r (n + 1)) : CountersGrow db db' := by
  intro r' n' hn'
  rw [h, Keyed.get?_put]
  split
  · next heq =>
    subst heq
    obtain rfl : n = n' := Option.some.inj (hn.symm.trans hn')
    exact ⟨n + 1, rfl, Nat.le_succ n⟩
  · exact ⟨n', hn', Nat.le_refl n'⟩

/-- A new resource takes no counter of another. -/
theorem growth_of_register {r n : Nat} (hnew : db.imports.resources.get? r = none)
    (h : db'.imports.resources = db.imports.resources.put r n) : CountersGrow db db' := by
  intro r' n' hn'
  refine ⟨n', ?_, Nat.le_refl n'⟩
  rw [h, Keyed.get?_put, if_neg]
  · exact hn'
  · rintro rfl
    rw [hn'] at hnew
    cases hnew

/-- The loop only raises counters, whether it ends or raises. -/
theorem acquireLoop_grow (acc : Db × List (Nat × Nat)) (l : List Nat) :
    CountersGrow acc.1 (acquireLoop jobId ownerToken leaseSeconds acc l).1 := by
  induction l generalizing acc with
  | nil => exact .refl _
  | cons r l ih =>
    rw [acquireLoop]
    split
    · next acc' hone =>
      obtain ⟨n, hn, -, hput⟩ := acquireOne_counters hone
      exact (growth_of_put hn hput).trans (ih acc')
    · exact .refl _

/-- The tokens of a loop that ends. -/
theorem drawn_of_foldlM {l : List Nat} {acc acc' : Db × List (Nat × Nat)}
    (hd : Drawn db acc.1 acc.2) (hn : (acc.2.map Prod.fst ++ l).Nodup)
    (h : l.foldlM (acquireOne jobId ownerToken leaseSeconds) acc = .ok acc') :
    Drawn db acc'.1 acc'.2 := by
  induction l generalizing acc with
  | nil =>
    obtain rfl := pure_eq_ok.1 h
    exact hd
  | cons r l ih =>
    rw [List.foldlM_cons, bind_eq_ok] at h
    obtain ⟨acc₁, hone, h⟩ := h
    obtain ⟨n, hget, hacq, hput⟩ := acquireOne_counters hone
    have hgrow := growth_of_put hget hput
    refine ih ?_ (by rw [hacq]; simpa using hn) h
    refine ⟨hd.grow.trans hgrow, ?_, ?_, ?_⟩
    · rw [hacq]
      intro g hg m hm
      rcases List.mem_append.1 hg with hg | hg
      · exact hd.above g hg m hm
      · obtain rfl := List.mem_singleton.1 hg
        obtain ⟨n', hn', hle⟩ := hd.grow r m hm
        obtain rfl : n = n' := Option.some.inj (hget.symm.trans hn')
        exact Nat.lt_succ_of_le hle
    · rw [hacq]
      intro g hg
      rcases List.mem_append.1 hg with hg | hg
      · obtain ⟨m, hm, hle⟩ := hd.reached g hg
        obtain ⟨m', hm', hle'⟩ := hgrow g.1 m hm
        exact ⟨m', hm', Nat.le_trans hle hle'⟩
      · obtain rfl := List.mem_singleton.1 hg
        exact ⟨n + 1, by rw [hput, Keyed.get?_put, if_pos rfl], Nat.le_refl _⟩
    · rw [hacq]
      refine hn.sublist ?_
      simp

/-- **An accepted acquisition draws its tokens.** -/
theorem drawn_of_acquire {resourceIds : List Nat} {acquired : List (Nat × Nat)}
    (h : acquire db resourceIds jobId ownerToken leaseSeconds = .ok (db', acquired)) :
    Drawn db db' acquired :=
  drawn_of_foldlM (.of_grow (.refl db)) (nodup_normalize resourceIds) h

end Acquire

/-! ## What actions hand out -/

/-- The tokens of an acquisition, if it is accepted. -/
def grantsOf (x : Except Failure (Db × List (Nat × Nat))) : List (Nat × Nat) :=
  match x with
  | .ok (_, acquired) => acquired
  | .error _ => []

/-- The resources and the tokens that an action acquires: those of the import that it creates, or of
the one that it recovers. -/
def Action.acquires (db : Db) : Action → List (Nat × Nat)
  | .create request =>
    grantsOf (acquire { db with uuid := db.uuid + 2 } (normalize request.repositoryResourceIds)
      db.uuid (db.uuid + 1) ScanImportCoordinator.leaseSeconds)
  | .reclaim jobId _ =>
    grantsOf (acquire { db with uuid := db.uuid + 1 } (db.resourcesOf jobId) jobId db.uuid
      ScanImportCoordinator.leaseSeconds)
  | _ => []

/-- What an action hands out: what it acquires, if it is accepted. -/
def Action.grants (env : Env) (db : Db) (a : Action) : List (Nat × Nat) :=
  if (a.apply env db).isOk then a.acquires db else []

section Actions

variable {env : Env} {db db' : Db}

/-- Behind the acquisition a creation does not touch the counters. -/
theorem create_acquires {r : ImportRequest} {created : CreatedImport}
    (h : ScanImportCoordinator.create env db r = .ok (db', created)) :
    ∃ db₁ acquired, acquire { db with uuid := db.uuid + 2 } (normalize r.repositoryResourceIds)
        db.uuid (db.uuid + 1) ScanImportCoordinator.leaseSeconds = .ok (db₁, acquired) ∧
      db'.imports.resources = db₁.imports.resources := by
  simp only [ScanImportCoordinator.create, bind_eq_ok, pure_eq_ok, Prod.exists,
    Prod.mk.injEq] at h
  obtain ⟨_, _, db₁, acquired, hacq, _, _, db₂, projectId, hproj, db₃, scanId, hscan, db₄, hreg,
    db₅, hjob, rfl, _⟩ := h
  obtain ⟨projects, rfl⟩ := ProjectService.ensureProject_ok hproj
  obtain ⟨repositories, snapshots, rfl⟩ := ProjectService.registerRepositories_ok hreg
  simp only [JobRepository.create, bind_eq_ok, require_eq_ok, pure_eq_ok] at hjob
  obtain ⟨_, -, rfl⟩ := hjob
  refine ⟨db₁, acquired, hacq, ?_⟩
  have h₃ : db₃.imports.resources = db₁.imports.resources := by
    obtain ⟨_, ⟨rfl, _⟩ | ⟨_, rfl⟩⟩ := ProjectService.createScan_ok hscan
    · simp [ImmutableArtifactStager.stage]
    · simp [ImmutableArtifactStager.stage]
  unfold ImportCheckpointRepository.create
  split <;> simp [Db.putCheckpoint, Db.putJob, ProjectStateRepository.advance, h₃]

theorem reclaim_acquires {jobId : Nat} {lease : Nat} {observed : ImmutableArtifactStager.Observed}
    {result : Nat × Nat}
    (h : ScanImportRecoveryService.reclaim db jobId none none lease observed =
      .ok (db', result)) :
    ∃ db₁ acquired, acquire { db with uuid := db.uuid + 1 } (db.resourcesOf jobId) jobId db.uuid
        lease = .ok (db₁, acquired) ∧ db'.imports.resources = db₁.imports.resources := by
  simp only [ScanImportRecoveryService.reclaim, bind_eq_ok, orFail_eq_ok, Prod.exists,
    Option.getD_none, Option.isSome_none, Bool.false_eq_true, if_false] at h
  obtain ⟨job, hval, db₁, acquired, hacq, db₂, hjob, h⟩ := h
  simp only [ScanImportRecoveryService.validate, bind_eq_ok, orFail_eq_ok, pure_eq_ok] at hval
  obtain ⟨job', hjob', _, _, _, _, _, _, _, _, _, _, _, _, _, _, _, _, rfl⟩ := hval
  have hres : db.resourcesOf jobId = job'.inputPayload.repositoryResourceIds := by
    rw [Db.resourcesOf, show JobRepository.get db jobId = some job' from hjob']
    rfl
  rw [hres]
  refine ⟨db₁, acquired, hacq, ?_⟩
  have h₂ : db₂.imports.resources = db₁.imports.resources := by
    unfold JobRepository.reclaim at hjob
    split at hjob
    · split at hjob
      · obtain rfl := Option.some.inj hjob
        rfl
      · cases hjob
    · cases hjob
  split at h
  · simp only [bind_eq_ok, pure_eq_ok, Prod.mk.injEq] at h
    obtain ⟨_, rfl, rfl, -⟩ := h
    exact h₂
  · simp only [ImportCheckpointRepository.claimFencing, bind_eq_ok, orFail_eq_ok,
      require_eq_ok, pure_eq_ok, Prod.mk.injEq] at h
    obtain ⟨_, ⟨_, _, _, _, rfl⟩, rfl, -⟩ := h
    exact h₂

theorem drawn_of_eq_resources {d d' : Db} {granted : List (Nat × Nat)} (h : Drawn d d' granted)
    (hd : db.imports.resources = d.imports.resources)
    (hd' : db'.imports.resources = d'.imports.resources) : Drawn db db' granted := by
  obtain ⟨hgrow, habove, hreached, hnodup⟩ := h
  refine ⟨fun r n hn => ?_, fun g hg n hn => habove g hg n (hd ▸ hn), fun g hg => ?_, hnodup⟩
  · obtain ⟨n', hn', hle⟩ := hgrow r n (hd ▸ hn)
    exact ⟨n', by rw [hd']; exact hn', hle⟩
  · obtain ⟨n', hn', hle⟩ := hreached g hg
    exact ⟨n', by rw [hd']; exact hn', hle⟩

/-- What neither creates nor recovers an import leaves the counters as they are, or adds one. -/
theorem Action.counters_grow {a : Action} (h : a.apply env db = .ok db') :
    CountersGrow db db' := by
  have same : ∀ {d d' : Db}, d'.imports = d.imports → CountersGrow d d' :=
    fun hi => .of_eq (by rw [hi])
  cases a with
  | tick d =>
    obtain rfl := pure_eq_ok.1 h
    exact same rfl
  | registerResource r =>
    simp only [Action.apply] at h
    split at h
    · obtain rfl := pure_eq_ok.1 h
      exact .refl db
    · next hnew =>
      obtain rfl := pure_eq_ok.1 h
      exact growth_of_register (by simpa using hnew) rfl
  | mutate m => exact same (Mutation.reviewed (m := m) h).imports
  | backfill scanId =>
    rw [AnalysisDomainRepository.backfillLegacy_frame h]
    exact same rfl
  | runEngine scanId paths =>
    obtain ⟨_, hrun⟩ := map_fst_eq_ok h
    rw [InheritanceEngine.run_frame hrun]
    exact same rfl
  | createScan identity status => exact same (Leases.createScan h).1
  | createScanAndIngest identity status files => exact same (Leases.createScanAndIngest h).1
  | ingestFiles scanId files => exact same (Leases.ingestFiles h).1
  | sealScan scanId =>
    simp only [Action.apply, ProjectRepository.sealScan, bind_eq_ok, pure_eq_ok] at h
    obtain ⟨_, _, _, _, rfl⟩ := h
    exact same rfl
  | create request =>
    obtain ⟨_, hcreate⟩ := map_fst_eq_ok h
    obtain ⟨db₁, acquired, hacq, hres⟩ := create_acquires hcreate
    exact (drawn_of_eq_resources (drawn_of_acquire hacq) rfl hres).grow
  | phase w target payload op =>
    obtain ⟨⟨payload', committed⟩, hphase⟩ := map_fst_eq_ok h
    obtain ⟨c, _, ⟨_, rfl, _⟩ | ⟨_, _, _, db₁, c₁, hop, _, _, _, rfl⟩⟩ :=
      ScanImportCoordinator.runPhaseOperation_ok hphase
    · exact .refl db'
    · exact (same (PhaseOp.operation_imports hop).1).trans (.of_eq rfl)
  | batch w items batchSeq files lines payload =>
    obtain ⟨_, hbatch⟩ := map_fst_eq_ok h
    obtain ⟨c, db₁, _, _, _, _, hing, _, rfl⟩ := ScanImportCoordinator.ingestCoverageBatch_ok hbatch
    have hframe := (ProjectService.ingestFileBatch_ok hing).1.frame
    have hing : CountersGrow db db₁ := same (by rw [hframe])
    exact hing.trans (.of_eq rfl)
  | sealImport w =>
    obtain ⟨c, scan, _, _, _, _, _, _, _, rfl⟩ := ScanImportCoordinator.sealImport_ok h
    exact .of_eq rfl
  | publish w expected readSet =>
    obtain ⟨committed, hpub⟩ := map_fst_eq_ok h
    obtain ⟨job, c, hjob, _, ⟨_, rfl, _⟩ | ⟨_, _, db₁, ls, hmove, _, hls, rfl⟩⟩ :=
      ScanImportCoordinator.publishTransaction_ok hpub
    · exact .refl db'
    · exact (same (ScanPublicationService.published_of_ok hmove).1.imports).trans (.of_eq rfl)
  | reclaim jobId observed =>
    obtain ⟨_, hreclaim⟩ := map_fst_eq_ok h
    obtain ⟨db₁, acquired, hacq, hres⟩ := reclaim_acquires hreclaim
    exact (drawn_of_eq_resources (drawn_of_acquire hacq) rfl hres).grow
  | recordFailure jobId phase message fencingToken aborted ownerToken =>
    obtain ⟨job, failures, hjob, rfl | ⟨owner', _, rfl⟩⟩ :=
      ScanImportRecoveryService.recordFailure_ok h
    · exact .of_eq rfl
    · generalize hdb₁ : Db.putJob _ jobId _ = db₁
      obtain ⟨hfail, _⟩ := ScanImportRecoveryService.failScan_imports db₁ job.scanId
        (if aborted then .aborted else .failed)
      have hres : db₁.imports.resources = db.imports.resources := by rw [← hdb₁]; rfl
      exact .of_eq (by simp only [release, hfail, hres])

/-- **Every action draws the tokens that it hands out.** -/
theorem Action.drawn (env : Env) (db : Db) (a : Action) :
    Drawn db (a.exec env db) (a.grants env db) := by
  cases hok : a.apply env db with
  | error e =>
    rw [Action.exec_of_error hok, Action.grants, hok, if_neg (by simp [Except.isOk, Except.toBool])]
    exact .of_grow (.refl db)
  | ok db' =>
    rw [Action.exec_of_ok hok, Action.grants, hok, if_pos (by rfl)]
    have hgrow := Action.counters_grow hok
    cases a with
    | create request =>
      obtain ⟨_, hcreate⟩ := map_fst_eq_ok hok
      obtain ⟨db₁, acquired, hacq, hres⟩ := create_acquires hcreate
      simp only [Action.acquires, hacq, grantsOf]
      exact drawn_of_eq_resources (drawn_of_acquire hacq) rfl hres
    | reclaim jobId observed =>
      obtain ⟨_, hreclaim⟩ := map_fst_eq_ok hok
      obtain ⟨db₁, acquired, hacq, hres⟩ := reclaim_acquires hreclaim
      simp only [Action.acquires, hacq, grantsOf]
      exact drawn_of_eq_resources (drawn_of_acquire hacq) rfl hres
    | _ => exact .of_grow hgrow

end Actions

/-! ## Runs -/

/-- A transaction of the system, or a call of the lock service that nothing rolls back. -/
inductive LockEvent where
  | action (a : Action)
  | acquire (resourceIds : List Nat) (jobId ownerToken leaseSeconds : Nat)
  | release (jobId ownerToken : Nat) (fencingToken : Option Nat)

namespace LockEvent

/-- The database after an event. -/
def exec (env : Env) (db : Db) : LockEvent → Db
  | action a => a.exec env db
  | acquire resourceIds jobId ownerToken leaseSeconds =>
    (acquireOrRelease db resourceIds jobId ownerToken leaseSeconds).1
  | release jobId ownerToken fencingToken =>
    RepositoryResourceLockService.release db jobId ownerToken fencingToken

/-- The resources and the tokens that an event hands out. -/
def grants (env : Env) (db : Db) : LockEvent → List (Nat × Nat)
  | action a => a.grants env db
  | acquire resourceIds jobId ownerToken leaseSeconds =>
    match (acquireOrRelease db resourceIds jobId ownerToken leaseSeconds).2 with
    | .ok acquired => acquired
    | .error _ => []
  | release _ _ _ => []

/-- What is handed out along a run, in order. -/
def grantsAlong (env : Env) : Db → List LockEvent → List (Nat × Nat)
  | _, [] => []
  | db, e :: events => e.grants env db ++ grantsAlong env (e.exec env db) events

/-- **Every event draws the tokens that it hands out.** -/
theorem drawn (env : Env) (db : Db) (e : LockEvent) :
    Drawn db (e.exec env db) (e.grants env db) := by
  cases e with
  | action a => exact Action.drawn env db a
  | release jobId ownerToken fencingToken => exact .of_grow (.of_eq rfl)
  | acquire resourceIds jobId ownerToken leaseSeconds =>
    rw [exec, grants]
    cases hres : acquireOrRelease db resourceIds jobId ownerToken leaseSeconds with
    | mk db' result =>
      cases result with
      | ok acquired => exact drawn_of_acquire (acquireOrRelease_ok_iff.1 hres)
      | error e =>
        refine .of_grow ?_
        have hgrow : CountersGrow db (acquireLoop jobId ownerToken leaseSeconds (db, [])
          (normalize resourceIds)).1 := acquireLoop_grow (db, []) _
        unfold acquireOrRelease at hres
        split at hres
        · cases (Prod.mk.inj hres).2
        · next heq =>
          obtain ⟨rfl, -⟩ := Prod.mk.inj hres
          rw [heq] at hgrow
          exact hgrow.trans (.of_eq rfl)

/-- The tokens that a run hands out lie above the counters it starts with. -/
theorem above_of_mem_grantsAlong {env : Env} {db : Db} {events : List LockEvent} {g : Nat × Nat}
    (hg : g ∈ grantsAlong env db events) {n : Nat}
    (hn : db.imports.resources.get? g.1 = some n) : n < g.2 := by
  induction events generalizing db n with
  | nil => exact absurd hg List.not_mem_nil
  | cons e events ih =>
    rcases List.mem_append.1 hg with hg | hg
    · exact (drawn env db e).above g hg n hn
    · obtain ⟨n', hn', hle⟩ := (drawn env db e).grow g.1 n hn
      exact Nat.lt_of_le_of_lt hle (ih hg hn')

/-- **The tokens of a resource grow along every run.** -/
theorem grantsAlong_increasing (env : Env) (db : Db) (events : List LockEvent) :
    (grantsAlong env db events).Pairwise fun g g' => g.1 = g'.1 → g.2 < g'.2 := by
  induction events generalizing db with
  | nil => exact List.Pairwise.nil
  | cons e events ih =>
    refine List.pairwise_append.2 ⟨?_, ih _, fun g hg g' hg' heq => ?_⟩
    · have hnodup := (drawn env db e).nodup
      rw [List.Nodup, List.pairwise_map] at hnodup
      exact hnodup.imp fun hne heq => absurd heq hne
    · obtain ⟨n, hn, hle⟩ := (drawn env db e).reached g hg
      rw [heq] at hn
      exact Nat.lt_of_le_of_lt hle (above_of_mem_grantsAlong hg' hn)

end LockEvent

/-- A resource of the request is held by another job, under a lease that runs. -/
def Busy (db : Db) (request : ImportRequest) : Prop :=
  ∃ r ∈ request.repositoryResourceIds, ∃ lock ∈ db.imports.locks.get? r,
    expired db.now lock = false ∧ lock.jobId ≠ db.uuid

/-- An import of a busy resource is refused. -/
theorem create_of_busy (env : Env) {db : Db} {request : ImportRequest} (h : Busy db request) :
    ∃ e, (Action.create request).apply env db = .error e := by
  obtain ⟨r, hr, lock, hlock, hlease, hother⟩ := h
  cases happly : (Action.create request).apply env db with
  | error e => exact ⟨e, rfl⟩
  | ok db' =>
    exfalso
    obtain ⟨_, hcreate⟩ := map_fst_eq_ok happly
    obtain ⟨db₁, acquired, hacq, -⟩ := create_acquires hcreate
    have hmem : r ∈ normalize (normalize request.repositoryResourceIds) :=
      mem_normalize.2 (mem_normalize.2 hr)
    rcases (acquire_ok hacq).replaced r hmem lock hlock with hexp | hjob
    · exact absurd (hlease.symm.trans hexp) (by decide)
    · exact hother hjob

/-- **Locks along a run.**  Whatever acquisitions, releases, take-overs and recoveries have come
before: no resource has two lock rows; the tokens handed out for a resource have grown from one to
the next; and an import of a resource that another job holds is refused and leaves the database as
it is, while an acquisition that raises on its own leaves no row of its owner. -/
theorem lock_runs (env : Env) (db : Db) (events : List LockEvent) :
    (((Trace.run (LockEvent.exec env) db events).imports.locks.rows.map Prod.fst).Nodup) ∧
      (∀ r, (((LockEvent.grantsAlong env db events).filter fun g => g.1 = r).map
        Prod.snd).Pairwise (· < ·)) ∧
      (∀ request, Busy (Trace.run (LockEvent.exec env) db events) request →
        (∃ e, (Action.create request).apply env (Trace.run (LockEvent.exec env) db events) =
          .error e) ∧
        Trace.run (LockEvent.exec env) db (events ++ [.action (.create request)]) =
          Trace.run (LockEvent.exec env) db events) ∧
      ∀ resourceIds jobId ownerToken leaseSeconds db' e,
        acquireOrRelease (Trace.run (LockEvent.exec env) db events) resourceIds jobId ownerToken
            leaseSeconds = (db', .error e) →
          ∀ r lock, db'.imports.locks.get? r = some lock →
            ¬ (lock.jobId = jobId ∧ lock.ownerToken = ownerToken) := by
  refine ⟨Keyed.nodup _, fun r => ?_, fun request hbusy => ?_, ?_⟩
  · rw [List.pairwise_map, List.pairwise_filter]
    refine (LockEvent.grantsAlong_increasing env db events).imp fun {g g'} h hg hg' => ?_
    exact h ((of_decide_eq_true hg).trans (of_decide_eq_true hg').symm)
  · obtain ⟨e, he⟩ := create_of_busy env hbusy
    refine ⟨⟨e, he⟩, ?_⟩
    rw [Trace.run_append, Trace.run_cons, Trace.run_nil, LockEvent.exec, Action.exec_of_error he]
  · exact fun resourceIds jobId ownerToken leaseSeconds db' e h => acquireOrRelease_error h

/-- A second import of a resource is refused while the first one holds it. -/
theorem lock_runs_busy :
    let events := [LockEvent.action (.registerResource 7),
      .action (.create ⟨Sample.identity "sha1", [7], "sha1", 10⟩)]
    let request : ImportRequest := ⟨Sample.identity "sha2", [7], "sha2", 10⟩
    ((Trace.run (LockEvent.exec Sample.env) Db.empty events).imports.locks.get? 7).isSome = true ∧
      Trace.run (LockEvent.exec Sample.env) Db.empty (events ++ [.action (.create request)]) =
        Trace.run (LockEvent.exec Sample.env) Db.empty events := by
  intro events request
  have hbusy : Busy (Trace.run (LockEvent.exec Sample.env) Db.empty events) request := by
    unfold Busy
    decide +kernel
  exact ⟨by decide +kernel, ((lock_runs Sample.env Db.empty events).2.2.1 request hbusy).2⟩

end FosCoverage
