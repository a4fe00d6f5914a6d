import FosCoverage.Import.Effects

/-!
# CURRENT is a linear history

Every transaction of the system is quiet or a publication (`Action.effect`), and which of the two
can be read off the action and the state (`Action.published`).  From that

* `HistoryOk` holds in every reachable state: CURRENT of a project is a sealed scan of it, and the
  predecessor of a scan is older than the scan;
* the pointer of a project only moves to a newer scan (`current_mono`), so no scan becomes CURRENT a
  second time;
* the scan that is CURRENT keeps its row, its files and its lines.
-/

set_option autoImplicit false

namespace FosCoverage

open Relational Outcome

/-! ## What an action does to the pointers -/

/-- The action commits a publication. -/
def Action.published (env : Env) (db : Db) : Action → Bool
  | .publish w expected readSet =>
    match ScanImportCoordinator.publishTransaction env db w.jobId expected readSet with
    | .ok (_, committed) => committed
    | .error _ => false
  | .createScanAndIngest identity status files =>
    (ProjectRepository.getScanByKey db (env.projectScanKey identity)).isNone &&
      (ProjectService.createScanAndIngest env db identity status files).isOk
  | .ingestFiles scanId files => (ProjectService.ingestFiles env db scanId files).isOk
  | _ => false

/-- A publication that commits is accepted. -/
theorem Action.ok_of_published {env : Env} {db : Db} {a : Action}
    (h : a.published env db = true) : ∃ db', a.apply env db = .ok db' := by
  cases a with
  | publish w expected readSet =>
    simp only [Action.published] at h
    split at h
    · rename_i db' committed hok
      exact ⟨db', by simp [Action.apply, hok, Except.map]⟩
    · cases h
  | createScanAndIngest identity status files =>
    simp only [Action.published, Bool.and_eq_true] at h
    exact exists_of_isOk h.2
  | ingestFiles scanId files => exact exists_of_isOk h
  | _ => cases h

theorem map_fst_eq_ok {α β : Type} {x : Except Failure (α × β)} {a : α}
    (h : x.map Prod.fst = .ok a) : ∃ b, x = .ok (a, b) := by
  cases x with
  | error e => cases h
  | ok r =>
    obtain rfl := Except.ok.inj h
    exact ⟨r.2, rfl⟩

/-- The operation of a phase transaction is quiet. -/
theorem PhaseOp.operation_quiet {env : Env} {w : WorkerId} {scanId : Nat} {op : PhaseOp}
    {db db' : Db} {payload payload' : Payload}
    (h : op.operation env w scanId db payload = .ok (db', payload')) : Quiet db db' := by
  cases op with
  | checkpoint =>
    obtain ⟨rfl, _⟩ := Prod.mk.inj (pure_eq_ok.1 h)
    exact Quiet.refl _
  | finalizeCoverage =>
    rw [ScanImportCoordinator.finalizeCoverage_eq h]
    exact Quiet.refl _
  | computeInheritance =>
    simp only [PhaseOp.operation, ScanImportCoordinator.computeInheritance, bind_eq_ok, pure_eq_ok,
      Prod.exists, Prod.mk.injEq] at h
    obtain ⟨db₁, readSet, hrun, rfl, _⟩ := h
    rw [InheritanceEngine.run_frame hrun]
    exact Quiet.of_facts rfl fun _ => rfl
  | verifyConsistency =>
    obtain ⟨p, version, hr⟩ := ScanImportCoordinator.verifyConsistency_rebuilt h
    exact Quiet.rebuilt hr

/-- **Every accepted action is quiet or a publication.** -/
theorem Action.effect {env : Env} {db db' : Db} {a : Action} (hc : CurrentOk db)
    (h : a.apply env db = .ok db') :
    if a.published env db then ∃ p s, Publishes db p s db' else Quiet db db' := by
  cases a with
  | tick d =>
    obtain rfl := pure_eq_ok.1 h
    exact Quiet.of_facts rfl fun _ => rfl
  | registerResource r =>
    simp only [Action.apply] at h
    split at h
    · obtain rfl := pure_eq_ok.1 h
      exact Quiet.refl _
    · obtain rfl := pure_eq_ok.1 h
      exact Quiet.imports
  | mutate m =>
    have hr := Mutation.reviewed (m := m) h
    exact Quiet.of_facts hr.facts hr.current
  | backfill scanId =>
    rw [AnalysisDomainRepository.backfillLegacy_frame h]
    exact Quiet.of_facts rfl fun _ => rfl
  | runEngine scanId paths =>
    obtain ⟨_, hrun⟩ := map_fst_eq_ok h
    rw [InheritanceEngine.run_frame hrun]
    exact Quiet.of_facts rfl fun _ => rfl
  | createScan identity status => exact (ProjectService.createScan_quiet hc h).1
  | createScanAndIngest identity status files =>
    have hok : (ProjectService.createScanAndIngest env db identity status files).isOk = true := by
      rw [show ProjectService.createScanAndIngest env db identity status files = .ok db' from h]
      rfl
    have he := (ProjectService.createScanAndIngest_effect hc h).1
    simp only [Action.published, hok, Bool.and_true]
    split at he
    · rename_i hkey
      rw [if_neg (by simpa using Option.isSome_iff_ne_none.1 hkey)]
      exact he
    · rename_i hkey
      rw [if_pos (by simpa using hkey)]
      exact he
  | ingestFiles scanId files =>
    have hok : (ProjectService.ingestFiles env db scanId files).isOk = true := by
      rw [show ProjectService.ingestFiles env db scanId files = .ok db' from h]
      rfl
    simp only [Action.published, hok, if_pos]
    obtain ⟨⟨p, hp⟩, _⟩ := ProjectService.ingestFiles_effect hc h
    exact ⟨p, scanId, hp⟩
  | sealScan scanId => exact (sealScan_quiet hc h).1
  | create request =>
    obtain ⟨_, hcreate⟩ := map_fst_eq_ok h
    exact (ScanImportCoordinator.create_quiet hc hcreate).1
  | phase w target payload op =>
    obtain ⟨⟨payload', committed⟩, hphase⟩ := map_fst_eq_ok h
    exact ScanImportCoordinator.runPhaseOperation_quiet hphase
      fun _ _ hop => PhaseOp.operation_quiet hop
  | batch w items batchSeq files lines payload =>
    obtain ⟨_, hbatch⟩ := map_fst_eq_ok h
    exact (ScanImportCoordinator.ingestCoverageBatch_quiet hc hbatch).1
  | sealImport w => exact (ScanImportCoordinator.sealImport_quiet hc h).1
  | publish w expected readSet =>
    obtain ⟨committed, hpub⟩ := map_fst_eq_ok h
    simp only [Action.published, hpub]
    rcases (ScanImportCoordinator.publishTransaction_effect hpub).1 with
      ⟨rfl, rfl⟩ | ⟨rfl, job, _, hp⟩
    · exact Quiet.refl _
    · exact ⟨_, _, hp⟩
  | reclaim jobId observed =>
    obtain ⟨_, hreclaim⟩ := map_fst_eq_ok h
    obtain ⟨uuid, imports, rfl⟩ := ScanImportRecoveryService.reclaim_frame hreclaim
    exact Quiet.of_facts rfl fun _ => rfl
  | recordFailure jobId phase message fencingToken aborted ownerToken =>
    exact (ScanImportRecoveryService.recordFailure_quiet hc h).1

/-! ## The invariant -/

/-- CURRENT is a sealed scan of its project, and predecessors are older. -/
structure HistoryOk (db : Db) : Prop where
  /-- CURRENT of every project is a sealed scan of that project. -/
  current : CurrentOk db
  /-- The predecessor of a scan is older than the scan. -/
  older : ∀ k s, db.facts.scans.get? k = some s → ∀ c ∈ s.predecessorScanId, c < k

namespace HistoryOk

variable {db db' : Db}

theorem quiet (h : HistoryOk db) (hq : Quiet db db') : HistoryOk db' := by
  refine ⟨hq.currentOk h.current, fun k s hk => ?_⟩
  cases hold : db.facts.scans.get? k with
  | none => exact hq.newScan k s hk hold
  | some s₀ =>
    obtain ⟨s', hs', _, hpred, _⟩ := hq.scan k s₀ hold
    obtain rfl : s' = s := Option.some.inj (hs'.symm.trans hk)
    rw [hpred]
    exact h.older k s₀ hold

theorem publishes {p s : Nat} (h : HistoryOk db) (hp : Publishes db p s db') : HistoryOk db' := by
  obtain ⟨db₁, hq, hf, ⟨scan, hscan, hproj, hst, _⟩, hcur⟩ := hp.moves
  have h₁ := h.quiet hq
  constructor
  · intro q c hc
    rw [hf]
    rw [hcur q] at hc
    split at hc
    · rename_i hq'
      obtain rfl := Option.some.inj hc
      exact ⟨scan, hscan, hproj.trans hq'.symm, hst⟩
    · exact h₁.current q c ((hq.current q).trans hc)
  · rw [hf]
    exact h₁.older

theorem step {env : Env} {a : Action} (h : HistoryOk db) (ha : a.apply env db = .ok db') :
    HistoryOk db' := by
  have he := Action.effect h.current ha
  split at he
  · obtain ⟨p, s, hp⟩ := he
    exact h.publishes hp
  · exact h.quiet he

theorem empty : HistoryOk Db.empty :=
  ⟨fun _ _ h => by simp [Db.stateOf, Db.empty, ProjectState.initial] at h,
    fun _ _ h => by simp [Db.empty] at h⟩

end HistoryOk

theorem Reachable.historyOk {env : Env} {db : Db} (h : Reachable env db) : HistoryOk db :=
  h.inv HistoryOk.empty fun _ _ _ hd ha => hd.step ha

/-! ## Scans keep their project, pointers only move on -/

/-- A scan keeps its project, and CURRENT of a project is replaced by newer scans only. -/
structure Follows (db db' : Db) : Prop where
  /-- A scan keeps its project. -/
  project : ∀ k s, db.facts.scans.get? k = some s →
    ∃ s', db'.facts.scans.get? k = some s' ∧ s'.projectId = s.projectId
  /-- CURRENT does not go back. -/
  current : ∀ p c, (db.stateOf p).currentScanId = some c →
    ∃ c', (db'.stateOf p).currentScanId = some c' ∧ c ≤ c'

namespace Follows

variable {db db' db'' : Db}

theorem refl (db : Db) : Follows db db :=
  ⟨fun _ s h => ⟨s, h, rfl⟩, fun _ c h => ⟨c, h, Nat.le_refl c⟩⟩

theorem trans (h : Follows db db') (h' : Follows db' db'') : Follows db db'' := by
  constructor
  · intro k s hk
    obtain ⟨s', hs', hp⟩ := h.project k s hk
    obtain ⟨s'', hs'', hp'⟩ := h'.project k s' hs'
    exact ⟨s'', hs'', hp'.trans hp⟩
  · intro p c hc
    obtain ⟨c', hc', hle⟩ := h.current p c hc
    obtain ⟨c'', hc'', hle'⟩ := h'.current p c' hc'
    exact ⟨c'', hc'', Nat.le_trans hle hle'⟩

theorem of_quiet (hq : Quiet db db') : Follows db db' := by
  constructor
  · intro k s hk
    obtain ⟨s', hs', hp, _⟩ := hq.scan k s hk
    exact ⟨s', hs', hp⟩
  · intro p c hc
    exact ⟨c, (hq.current p).trans hc, Nat.le_refl c⟩

theorem of_publishes {p s : Nat} (h : HistoryOk db) (hp : Publishes db p s db') :
    Follows db db' := by
  obtain ⟨db₁, hq, hf, ⟨scan, hscan, _, _, hpred⟩, hcur⟩ := hp.moves
  constructor
  · rw [hf]
    exact (of_quiet hq).project
  · intro q c hc
    rw [hcur q]
    split
    · rename_i hqp
      refine ⟨s, rfl, Nat.le_of_lt ((h.quiet hq).older s scan hscan c ?_)⟩
      rw [hpred, ← hqp, hc]
      rfl
    · exact ⟨c, hc, Nat.le_refl c⟩

theorem of_exec {env : Env} {a : Action} (h : HistoryOk db) :
    Follows db (Action.exec env db a) := by
  refine Action.exec_inv (P := fun d => Follows db d) (refl db) (fun a db' ha => ?_) a
  have he := Action.effect h.current ha
  split at he
  · obtain ⟨p, s, hp⟩ := he
    exact of_publishes h hp
  · exact of_quiet he

end Follows

theorem HistoryOk.exec {env : Env} {db : Db} (h : HistoryOk db) (a : Action) :
    HistoryOk (Action.exec env db a) :=
  Action.exec_inv h (fun _ _ ha => h.step ha) a

/-- **Over a whole run no pointer goes back.** -/
theorem current_mono (env : Env) {db : Db} (h : HistoryOk db) (actions : List Action) :
    HistoryOk (Trace.run (Action.exec env) db actions) ∧
      Follows db (Trace.run (Action.exec env) db actions) :=
  Trace.run_inv (I := fun d => HistoryOk d ∧ Follows db d)
    (fun _ a hd => ⟨hd.1.exec a, hd.2.trans (Follows.of_exec hd.1)⟩) ⟨h, Follows.refl db⟩ actions

/-! ## The facts of CURRENT -/

/-- The scan `c` of `db'` is the one of `db`: row, files and lines. -/
structure SameScan (db : Db) (c : Nat) (db' : Db) : Prop where
  /-- The row, with its status. -/
  row : db'.facts.scans.get? c = db.facts.scans.get? c
  /-- The files. -/
  file : ∀ k f, f.scanId = c → (db'.facts.files.get? k = some f ↔ db.facts.files.get? k = some f)
  /-- The lines, with their facts. -/
  line : ∀ l, AnalysisDomainRepository.lineOfScan db' c l =
    AnalysisDomainRepository.lineOfScan db c l

theorem SameScan.of_quiet {db db' : Db} (hc : CurrentOk db) (hq : Quiet db db') {p c : Nat}
    (hcur : (db.stateOf p).currentScanId = some c) : SameScan db c db' := by
  have hfile : ∀ k f, f.scanId = c →
      (db'.facts.files.get? k = some f ↔ db.facts.files.get? k = some f) := by
    intro k f hf
    constructor
    · intro hk
      cases hold : db.facts.files.get? k with
      | none => exact absurd (hf ▸ hcur) (hq.newFile k f hk hold p)
      | some f₀ => rw [← hk, hq.file k f₀ hold]
    · exact hq.file k f
  constructor
  case row =>
    obtain ⟨scan, hs, _⟩ := hc p c hcur
    obtain ⟨scan', hs', _, _, heq⟩ := hq.scan c scan hs
    rw [hs', hs, heq p hcur]
  case file => exact hfile
  case line =>
    intro l
    apply Option.ext
    intro line
    rw [AnalysisService.lineOfScan_eq_some, AnalysisService.lineOfScan_eq_some]
    constructor
    · rintro ⟨hl, f, hf, hfc⟩
      refine ⟨?_, f, (hfile _ f hfc).1 hf, hfc⟩
      cases hold : db.facts.lines.get? l with
      | none =>
        obtain ⟨f', hf', hne⟩ := hq.newLine l line hl hold
        obtain rfl : f = f' := Option.some.inj (hf.symm.trans hf')
        exact absurd (hfc ▸ hcur) (hne p)
      | some line₀ => rw [← hl, hq.line l line₀ hold]
    · rintro ⟨hl, f, hf, hfc⟩
      exact ⟨hq.line l line hl, f, hq.file _ f hf, hfc⟩

theorem SameScan.of_facts (db : Db) {db' : Db} (c : Nat) (hf : db'.facts = db.facts) :
    SameScan db c db' := by
  refine ⟨by rw [hf], fun _ _ _ => by rw [hf], fun l => ?_⟩
  unfold AnalysisDomainRepository.lineOfScan
  rw [hf]

theorem SameScan.of_exec (env : Env) {db : Db} (a : Action) (h : HistoryOk db) {p c : Nat}
    (hcur : (db.stateOf p).currentScanId = some c) : SameScan db c (Action.exec env db a) := by
  refine Action.exec_inv (P := fun d => SameScan db c d) (of_facts db c rfl) (fun a db' ha => ?_) a
  have he := Action.effect h.current ha
  split at he
  · obtain ⟨_, _, hp⟩ := he
    obtain ⟨db₁, hq, hf, _⟩ := hp.moves
    have hs := of_quiet h.current hq hcur
    have hs' := of_facts db₁ c hf
    exact ⟨hs'.row.trans hs.row, fun k f hk => (hs'.file k f hk).trans (hs.file k f hk),
      fun l => (hs'.line l).trans (hs.line l)⟩
  · exact of_quiet h.current he hcur

/-! ## The linear history -/

/-- One step of a run from a state `db₀` passed earlier, seen from the pointers. -/
structure LinearStep (env : Env) (db₀ db : Db) (a : Action) : Prop where
  /-- A publication replaces CURRENT of one project by a sealed scan of the project whose
  predecessor is the scan it replaces, and which was CURRENT in no earlier state. -/
  published : a.published env db = true → ∃ p s scan,
    (∀ q, ((Action.exec env db a).stateOf q).currentScanId =
      if q = p then some s else (db.stateOf q).currentScanId) ∧
    (Action.exec env db a).facts.scans.get? s = some scan ∧ scan.projectId = p ∧
    scan.status.publishable = true ∧ scan.predecessorScanId = (db.stateOf p).currentScanId ∧
    ∀ q, (db₀.stateOf q).currentScanId ≠ some s
  /-- Any other action, and every publication that fails, leaves every pointer alone. -/
  unpublished : a.published env db = false →
    ∀ q, ((Action.exec env db a).stateOf q).currentScanId = (db.stateOf q).currentScanId
  /-- The scan that is CURRENT is sealed, and keeps its row, its files and its lines. -/
  immutable : ∀ p c, (db.stateOf p).currentScanId = some c →
    SameScan db c (Action.exec env db a) ∧
    ∃ scan, (Action.exec env db a).facts.scans.get? c = some scan ∧
      scan.status ≠ .failed ∧ scan.status ≠ .aborted

/-- **CURRENT is a linear history**: at every step of every interleaving, whatever state was passed
before. -/
theorem current_linear_history (env : Env) (before mid : List Action) (a : Action) :
    LinearStep env (Trace.run (Action.exec env) Db.empty before)
      (Trace.run (Action.exec env) Db.empty (before ++ mid)) a := by
  rw [Trace.run_append]
  have h₀ := (current_mono env HistoryOk.empty before).1
  generalize Trace.run (Action.exec env) Db.empty before = db₀ at h₀
  obtain ⟨h, hfollows⟩ := current_mono env h₀ mid
  generalize Trace.run (Action.exec env) db₀ mid = db at h hfollows
  constructor
  case published =>
    intro hpub
    obtain ⟨db', ha⟩ := Action.ok_of_published hpub
    rw [Action.exec_of_ok ha]
    have he := Action.effect h.current ha
    rw [if_pos hpub] at he
    obtain ⟨p, s, hp⟩ := he
    obtain ⟨db₁, hq, hf, ⟨scan, hscan, hproj, hst, hpred⟩, hcur⟩ := hp.moves
    refine ⟨p, s, scan, hcur, by rw [hf, hscan], hproj, hst, hpred, fun q hs₀ => ?_⟩
    -- an earlier CURRENT with this id would be of the same project, hence older than itself
    obtain ⟨scan₀, hscan₀, hproj₀, _⟩ := h₀.current q s hs₀
    obtain ⟨scan₁, hscan₁, hproj₁⟩ :=
      (hfollows.trans (Follows.of_quiet hq)).project s scan₀ hscan₀
    obtain rfl : scan = scan₁ := Option.some.inj (hscan.symm.trans hscan₁)
    obtain rfl : p = q := by rw [← hproj, hproj₁, hproj₀]
    obtain ⟨c, hc, hle⟩ := hfollows.current p s hs₀
    have := (h.quiet hq).older s scan hscan c (by rw [hpred, hc]; rfl)
    omega
  case unpublished =>
    intro hpub q
    cases ha : a.apply env db with
    | error e => rw [Action.exec_of_error ha]
    | ok db' =>
      have he := Action.effect h.current ha
      rw [hpub] at he
      rw [Action.exec_of_ok ha]
      exact he.current q
  case immutable =>
    intro p c hcur
    have hsame := SameScan.of_exec env a h hcur
    obtain ⟨scan, hs, _, hst⟩ := h.current p c hcur
    refine ⟨hsame, scan, by rw [hsame.row, hs], ?_, ?_⟩ <;>
    · intro hf
      rw [hf] at hst
      cases hst

end FosCoverage
