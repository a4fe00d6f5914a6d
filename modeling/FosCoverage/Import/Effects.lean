import FosCoverage.Service.ProjectSpec
import FosCoverage.Import.CoordinatorSpec
import FosCoverage.Inheritance.EngineSpec
import FosCoverage.System

/-!
# What the transactions leave alone

`Quiet db db'` is what every transaction but a publication guarantees: no project's CURRENT moves,
scans keep their project and predecessor, the scan that is CURRENT keeps its row, files and lines
are only added, and never to a scan that is CURRENT.  It is reflexive and transitive, so each
transaction of the import services is treated by going through its statements.

A publication is a quiet part, the move of one pointer (`ScanPublicationService.Published`), and
another quiet part; `Publishes` says this for a whole transaction.
-/

set_option autoImplicit false

namespace FosCoverage

open Relational Outcome

/-! ## Quiet transactions -/

/-- CURRENT of every project is a sealed scan of that project. -/
def CurrentOk (db : Db) : Prop :=
  ∀ p c, (db.stateOf p).currentScanId = some c →
    ∃ scan, db.facts.scans.get? c = some scan ∧ scan.projectId = p ∧
      scan.status.publishable = true

/-- What every transaction but a publication guarantees. -/
structure Quiet (db db' : Db) : Prop where
  /-- No pointer moves. -/
  current : ∀ p, (db'.stateOf p).currentScanId = (db.stateOf p).currentScanId
  /-- A scan keeps its identity, and its whole row while it is CURRENT. -/
  scan : ∀ k s, db.facts.scans.get? k = some s → ∃ s', db'.facts.scans.get? k = some s' ∧
    s'.projectId = s.projectId ∧ s'.predecessorScanId = s.predecessorScanId ∧
    ∀ p, (db.stateOf p).currentScanId = some k → s' = s
  /-- The predecessor of a new scan is an older one. -/
  newScan : ∀ k s, db'.facts.scans.get? k = some s → db.facts.scans.get? k = none →
    ∀ c ∈ s.predecessorScanId, c < k
  /-- Files stay. -/
  file : ∀ k f, db.facts.files.get? k = some f → db'.facts.files.get? k = some f
  /-- Lines stay. -/
  line : ∀ k l, db.facts.lines.get? k = some l → db'.facts.lines.get? k = some l
  /-- A new file is not a file of CURRENT. -/
  newFile : ∀ k f, db'.facts.files.get? k = some f → db.facts.files.get? k = none →
    ∀ p, (db.stateOf p).currentScanId ≠ some f.scanId
  /-- A new line is not a line of CURRENT. -/
  newLine : ∀ k l, db'.facts.lines.get? k = some l → db.facts.lines.get? k = none →
    ∃ f, db'.facts.files.get? l.fileId = some f ∧ ∀ p, (db.stateOf p).currentScanId ≠ some f.scanId

namespace Quiet

variable {db db' db'' : Db}

/-- A transaction that writes neither facts nor pointers is quiet. -/
theorem of_facts (hf : db'.facts = db.facts)
    (hc : ∀ p, (db'.stateOf p).currentScanId = (db.stateOf p).currentScanId) : Quiet db db' where
  current := hc
  scan := fun k s h => ⟨s, by rw [hf, h], rfl, rfl, fun _ _ => rfl⟩
  newScan := fun k s h h' => by rw [hf, h'] at h; cases h
  file := fun k f h => by rw [hf, h]
  line := fun k l h => by rw [hf, h]
  newFile := fun k f h h' => by rw [hf, h'] at h; cases h
  newLine := fun k l h h' => by rw [hf, h'] at h; cases h

theorem refl (db : Db) : Quiet db db := of_facts rfl fun _ => rfl

theorem trans (h : Quiet db db') (h' : Quiet db' db'') : Quiet db db'' where
  current := fun p => (h'.current p).trans (h.current p)
  scan := by
    intro k s hk
    obtain ⟨s', hs', h₁, h₂, h₃⟩ := h.scan k s hk
    obtain ⟨s'', hs'', h₁', h₂', h₃'⟩ := h'.scan k s' hs'
    refine ⟨s'', hs'', h₁'.trans h₁, h₂'.trans h₂, fun p hp => ?_⟩
    rw [h₃' p ((h.current p).trans hp), h₃ p hp]
  newScan := by
    intro k s'' hk hnone
    cases hmid : db'.facts.scans.get? k with
    | none => exact h'.newScan k s'' hk hmid
    | some s' =>
      obtain ⟨s, hs, _, hpred, _⟩ := h'.scan k s' hmid
      obtain rfl : s = s'' := Option.some.inj (hs.symm.trans hk)
      rw [hpred]
      exact h.newScan k s' hmid hnone
  file := fun k f hk => h'.file k f (h.file k f hk)
  line := fun k l hk => h'.line k l (h.line k l hk)
  newFile := by
    intro k f hk hnone p hp
    cases hmid : db'.facts.files.get? k with
    | none => exact h'.newFile k f hk hmid p ((h.current p).trans hp)
    | some f' =>
      obtain rfl : f' = f := Option.some.inj ((h'.file k f' hmid).symm.trans hk)
      exact h.newFile k f' hmid hnone p hp
  newLine := by
    intro k l hk hnone
    cases hmid : db'.facts.lines.get? k with
    | none =>
      obtain ⟨f, hf, hne⟩ := h'.newLine k l hk hmid
      exact ⟨f, hf, fun p hp => hne p ((h.current p).trans hp)⟩
    | some l' =>
      obtain rfl : l' = l := Option.some.inj ((h'.line k l' hmid).symm.trans hk)
      obtain ⟨f, hf, hne⟩ := h.newLine k l' hmid hnone
      exact ⟨f, h'.file _ f hf, hne⟩

/-- The CURRENT scans stay sealed scans of their projects. -/
theorem currentOk (h : Quiet db db') (hc : CurrentOk db) : CurrentOk db' := by
  intro p c hp
  rw [h.current p] at hp
  obtain ⟨scan, hs, hproj, hst⟩ := hc p c hp
  obtain ⟨scan', hs', _, _, heq⟩ := h.scan c scan hs
  obtain rfl := heq p hp
  exact ⟨scan', hs', hproj, hst⟩

end Quiet

/-- A scan under construction is not CURRENT. -/
theorem CurrentOk.ne_of_construction {db : Db} (hc : CurrentOk db) {scanId : Nat} {scan : Scan}
    (hs : db.facts.scans.get? scanId = some scan) (hst : scan.status.publishable = false) (p : Nat) :
    (db.stateOf p).currentScanId ≠ some scanId := by
  intro hp
  obtain ⟨scan', hs', _, hst'⟩ := hc p scanId hp
  obtain rfl : scan = scan' := Option.some.inj (hs.symm.trans hs')
  rw [hst] at hst'
  cases hst'

theorem ScanStatus.not_publishable_of_construction {s : ScanStatus}
    (h : s.underConstruction = true) : s.publishable = false := by
  cases s <;> simp_all [ScanStatus.underConstruction, ScanStatus.publishable]

/-! ## Statements -/

section Statements

variable {db db' : Db}

/-- Files and lines are added to a scan under construction. -/
theorem Ingests.quiet {scanId : Nat} {scan : Scan} (h : Ingests scanId db db') (hc : CurrentOk db)
    (hs : db.facts.scans.get? scanId = some scan) (hst : scan.status.underConstruction = true) :
    Quiet db db' := by
  have hne := hc.ne_of_construction hs (ScanStatus.not_publishable_of_construction hst)
  obtain ⟨files, lines, rfl, hf, hl⟩ := h.rows
  constructor
  case current => exact fun _ => rfl
  case scan => exact fun k s h => ⟨s, h, rfl, rfl, fun _ _ => rfl⟩
  case newScan => exact fun k s h h' => by rw [h'] at h; cases h
  case file => exact fun k f h => Table.get?_insertMany_of_some h
  case line => exact fun k l h => Table.get?_insertMany_of_some h
  case newFile =>
    intro k f hk hnone
    rcases Table.get?_insertMany_cases hk with hold | ⟨_, hmem⟩
    · rw [hnone] at hold
      cases hold
    · rw [hf f hmem]
      exact hne
  case newLine =>
    intro k l hk hnone
    rcases Table.get?_insertMany_cases hk with hold | ⟨_, hmem⟩
    · rw [hnone] at hold
      cases hold
    · obtain ⟨f, hget, hscan⟩ := hl l hmem
      refine ⟨f, hget, ?_⟩
      rw [hscan]
      exact hne

/-- A new scan has CURRENT as its predecessor. -/
theorem Quiet.insertScan {p projectId : Nat} {scanKey : String} {status : ScanStatus}
    (hc : CurrentOk db) :
    Quiet db { db with facts.scans := db.facts.scans.insert
                        ⟨projectId, scanKey, status, (db.stateOf p).currentScanId⟩ } where
  current := fun _ => rfl
  scan := by
    intro k s hk
    have := Table.get?_issued hk
    refine ⟨s, ?_, rfl, rfl, fun _ _ => rfl⟩
    rw [Table.get?_insert, if_neg (by omega), hk]
  newScan := by
    intro k s hk hnone c hpred
    rw [Table.get?_insert] at hk
    split at hk
    · rename_i hnext
      obtain rfl := Option.some.inj hk
      obtain ⟨scan, hs, _⟩ := hc p c hpred
      have := Table.get?_issued hs
      omega
    · rw [hnone] at hk
      cases hk
  file := fun _ _ h => h
  line := fun _ _ h => h
  newFile := fun k f h h' => by rw [h'] at h; cases h
  newLine := fun k l h h' => by rw [h'] at h; cases h

/-- The status of a scan that is not CURRENT changes. -/
theorem Quiet.setStatus {scanId : Nat} {status : ScanStatus}
    (hne : ∀ p, (db.stateOf p).currentScanId ≠ some scanId) :
    Quiet db (ProjectRepository.setStatus db scanId status) where
  current := fun _ => rfl
  scan := by
    intro k s hk
    refine ⟨if k = scanId then { s with status := status } else s, ?_, ?_, ?_, ?_⟩
    · simp [ProjectRepository.setStatus, hk]
    · split <;> rfl
    · split <;> rfl
    · intro p hp
      rw [if_neg]
      rintro rfl
      exact hne p hp
  newScan := by
    intro k s hk hnone
    simp [ProjectRepository.setStatus, hnone] at hk
  file := fun _ _ h => h
  line := fun _ _ h => h
  newFile := fun k f h h' => by rw [show (ProjectRepository.setStatus db scanId status).facts.files =
    db.facts.files from rfl, h'] at h; cases h
  newLine := fun k l h h' => by rw [show (ProjectRepository.setStatus db scanId status).facts.lines =
    db.facts.lines from rfl, h'] at h; cases h

/-- Repositories are registered. -/
theorem Quiet.registers (repositories : Table Repository) (snapshots : Table Snapshot) :
    Quiet db { db with facts.repositories := repositories, facts.snapshots := snapshots } where
  current := fun _ => rfl
  scan := fun k s h => ⟨s, h, rfl, rfl, fun _ _ => rfl⟩
  newScan := fun k s h h' => by rw [h'] at h; cases h
  file := fun _ _ h => h
  line := fun _ _ h => h
  newFile := fun k f h h' => by rw [h'] at h; cases h
  newLine := fun k l h h' => by rw [h'] at h; cases h

theorem Quiet.modify {p : Nat} {f : ProjectState → ProjectState}
    (hf : ∀ s, (f s).currentScanId = s.currentScanId) :
    Quiet db (ProjectStateRepository.modify db p f) := by
  refine of_facts (by simp) fun q => ?_
  rw [ProjectStateRepository.stateOf_modify]
  split
  · rename_i hq
    rw [hf, hq]
  · rfl

theorem Quiet.advance {p : Nat} : Quiet db (ProjectStateRepository.advance db p) :=
  Quiet.modify fun _ => rfl

theorem Quiet.ensure {p : Nat} : Quiet db (ProjectStateRepository.ensure db p) :=
  of_facts (by simp) fun q => by simp

theorem Quiet.rebuilt {p version : Nat} (h : FileStateService.Rebuilt db p version db') :
    Quiet db db' := by
  refine of_facts h.facts fun q => ?_
  rw [h.stateOf q]
  split
  · rename_i hq
    rw [hq]
  · rfl

end Statements

/-! ## Construction of scans -/

namespace ProjectService

variable {env : Env} {db db' : Db}

theorem ingestAll_quiet {scanId : Nat} {files : List CoverageItem} (hc : CurrentOk db)
    (h : ingestAll env db scanId files = .ok db') : Quiet db db' := by
  refine foldlM_inv (fun d => Quiet db d) ?_ (Quiet.refl db) h
  intro d batch d' _ hd hok
  cases hb : ingestFileBatch env d scanId batch with
  | error e => simp [hb, Except.map] at hok
  | ok r =>
    obtain ⟨d'', result⟩ := r
    obtain rfl : d'' = d' := by simpa [hb, Except.map] using hok
    obtain ⟨hi, scan, hs, hst⟩ := ingestFileBatch_ok hb
    exact hd.trans (hi.quiet (hd.currentOk hc) hs hst)

theorem openScan_quiet {identity : ScanIdentity} {status : ScanStatus} {projectId scanId : Nat}
    {existing : Bool} (hc : CurrentOk db)
    (h : openScan env db identity status = .ok (db', projectId, scanId, existing)) :
    Quiet db db' ∧ db'.domain = db.domain ∧
      existing = (ProjectRepository.getScanByKey db (env.projectScanKey identity)).isSome := by
  simp only [openScan, bind_eq_ok, Prod.exists] at h
  obtain ⟨db₁, p, hp, h⟩ := h
  obtain ⟨projects, rfl⟩ := ensureProject_ok hp
  have hq : Quiet db { db with projects := projects } := Quiet.of_facts rfl fun _ => rfl
  have hkey : ProjectRepository.getScanByKey { db with projects := projects }
      (env.projectScanKey identity) =
      ProjectRepository.getScanByKey db (env.projectScanKey identity) := rfl
  split at h
  · rename_i id hid
    simp only [bind_eq_ok, pure_eq_ok, Prod.mk.injEq] at h
    obtain ⟨_, _, rfl, _, _, rfl⟩ := h
    exact ⟨hq.trans Quiet.ensure, by simp, by rw [← hkey, hid]; rfl⟩
  · rename_i hid
    simp only [bind_eq_ok, pure_eq_ok, Prod.exists, Prod.mk.injEq] at h
    obtain ⟨db₂, id, hcreate, db₃, hreg, rfl, _, _, rfl⟩ := h
    obtain ⟨repositories, snapshots, rfl⟩ := registerRepositories_ok hreg
    obtain ⟨_, ⟨rfl, _⟩ | ⟨_, rfl⟩⟩ := createScan_ok hcreate
    · exact ⟨hq.trans (Quiet.registers _ _), rfl, by rw [← hkey, hid]; rfl⟩
    · exact ⟨(hq.trans (Quiet.insertScan (hq.currentOk hc))).trans (Quiet.registers _ _), rfl,
        by rw [← hkey, hid]; rfl⟩

theorem createScan_quiet {identity : ScanIdentity} {status : ScanStatus} (hc : CurrentOk db)
    (h : createScan env db identity status = .ok db') :
    Quiet db db' ∧ db'.domain = db.domain := by
  simp only [createScan, bind_eq_ok, Prod.exists] at h
  obtain ⟨db₁, p, scanId, existing, hopen, h⟩ := h
  obtain ⟨hq, hd, _⟩ := openScan_quiet hc hopen
  split at h
  · obtain rfl := pure_eq_ok.1 h
    exact ⟨hq, hd⟩
  · obtain rfl := pure_eq_ok.1 h
    exact ⟨hq.trans Quiet.advance, by simpa [ProjectStateRepository.advance] using hd⟩

end ProjectService

theorem sealScan_quiet {db db' : Db} {scanId : Nat} {status : ScanStatus} (hc : CurrentOk db)
    (h : ProjectRepository.sealScan db scanId status = .ok db') :
    Quiet db db' ∧ db'.domain = db.domain := by
  simp only [ProjectRepository.sealScan, bind_eq_ok, require_eq_ok, pure_eq_ok] at h
  obtain ⟨_, hb, _, _, rfl⟩ := h
  obtain ⟨scan, hs, hst⟩ := assertScanBuilding_ok hb
  exact ⟨Quiet.setStatus (hc.ne_of_construction hs
    (ScanStatus.not_publishable_of_construction hst)), rfl⟩

/-! ## Publications -/

/-- A publication moves the pointer of the project `p` to the scan `s`, whose predecessor is the
scan the pointer named. -/
structure Publishes (db : Db) (p s : Nat) (db' : Db) : Prop where
  /-- The pointer moves at the end of a quiet part. -/
  moves : ∃ db₁, Quiet db db₁ ∧ db'.facts = db₁.facts ∧
    (∃ scan, db₁.facts.scans.get? s = some scan ∧ scan.projectId = p ∧
      scan.status.publishable = true ∧ scan.predecessorScanId = (db.stateOf p).currentScanId) ∧
    ∀ q, (db'.stateOf q).currentScanId =
      if q = p then some s else (db.stateOf q).currentScanId

/-- A publication under the expectation that nothing has happened to CURRENT. -/
theorem publishes_of_published {env : Env} {db db₁ db₂ db' : Db} {projectId scanId : Nat}
    {expected : Option Nat} {readSet : ReadSetArg} {fence : Db → Except Failure Unit}
    (hq : Quiet db db₁)
    (h : ScanPublicationService.publishInTransaction env db₁ projectId scanId (some expected)
      readSet fence = .ok db₂)
    (hf : db'.facts = db₂.facts) (hs : ∀ q, db'.stateOf q = db₂.stateOf q) :
    Publishes db projectId scanId db' := by
  obtain ⟨hpub, hcur, hpred, _⟩ := ScanPublicationService.published_of_ok h
  obtain ⟨scan, hscan, hproj, hst⟩ := hpub.scan
  refine ⟨db₁, hq, hf.trans hpub.facts, ⟨scan, hscan, hproj, hst, ?_⟩, fun q => ?_⟩
  · rw [hpred expected rfl scan hscan, ← hcur expected rfl, hq.current]
  · rw [hs, hpub.stateOf]
    split
    · rfl
    · exact hq.current q

namespace ProjectService

variable {env : Env} {db db' : Db}

theorem sealAndPublish_publishes {db₀ : Db} {projectId scanId : Nat} (hq : Quiet db₀ db)
    (hc : CurrentOk db₀) (h : sealAndPublish env db projectId scanId = .ok db') :
    Publishes db₀ projectId scanId db' ∧ db'.domain = db.domain := by
  simp only [sealAndPublish, bind_eq_ok] at h
  obtain ⟨db₁, hrebuild, db₂, hseal, hpub⟩ := h
  have hq₁ := (hq.trans Quiet.advance).trans
    (Quiet.rebuilt (FileStateService.rebuilt_of_ok hrebuild))
  obtain ⟨hq₂, hd₂⟩ := sealScan_quiet (hq₁.currentOk hc) hseal
  refine ⟨publishes_of_published (hq₁.trans hq₂) hpub rfl fun _ => rfl, ?_⟩
  rw [(ScanPublicationService.published_of_ok hpub).1.domain, hd₂,
    (FileStateService.rebuilt_of_ok hrebuild).domain]
  simp [ProjectStateRepository.advance]

theorem ingestAll_domain {scanId : Nat} {files : List CoverageItem}
    (h : ingestAll env db scanId files = .ok db') : db'.domain = db.domain := by
  rw [(ingestAll_ok h).frame]

theorem createScanAndIngest_effect {identity : ScanIdentity} {status : ScanStatus}
    {files : List CoverageItem} (hc : CurrentOk db)
    (h : createScanAndIngest env db identity status files = .ok db') :
    (if (ProjectRepository.getScanByKey db (env.projectScanKey identity)).isSome then Quiet db db'
      else ∃ p s, Publishes db p s db') ∧ db'.domain = db.domain := by
  simp only [createScanAndIngest, bind_eq_ok, Prod.exists] at h
  obtain ⟨db₁, p, scanId, existing, hopen, h⟩ := h
  obtain ⟨hq, hd, rfl⟩ := openScan_quiet hc hopen
  split at h
  · rename_i hkey
    obtain rfl := pure_eq_ok.1 h
    rw [if_pos hkey]
    exact ⟨hq, hd⟩
  · rename_i hkey
    simp only [bind_eq_ok] at h
    obtain ⟨db₂, hing, h⟩ := h
    obtain ⟨hp, hd'⟩ := sealAndPublish_publishes
      (hq.trans (ingestAll_quiet (hq.currentOk hc) hing)) hc h
    rw [if_neg hkey]
    exact ⟨⟨_, _, hp⟩, by rw [hd', ingestAll_domain hing, hd]⟩

theorem ingestFiles_effect {scanId : Nat} {files : List CoverageItem} (hc : CurrentOk db)
    (h : ingestFiles env db scanId files = .ok db') :
    (∃ p, Publishes db p scanId db') ∧ db'.domain = db.domain := by
  simp only [ingestFiles, bind_eq_ok] at h
  obtain ⟨scan, _, db₁, hing, h⟩ := h
  obtain ⟨hp, hd⟩ := sealAndPublish_publishes (ingestAll_quiet hc hing) hc h
  exact ⟨⟨_, hp⟩, by rw [hd, ingestAll_domain hing]⟩

end ProjectService

/-! ## Imports and recovery -/

/-- Whatever happens to jobs, locks and checkpoints is quiet. -/
theorem Quiet.imports {db : Db} {imports : Imports} :
    Quiet db { db with imports := imports } :=
  of_facts rfl fun _ => rfl

namespace ScanImportCoordinator

variable {env : Env} {db db' : Db}

theorem create_quiet {r : ImportRequest} {created : CreatedImport} (hc : CurrentOk db)
    (h : create env db r = .ok (db', created)) : Quiet db db' ∧ db'.domain = db.domain := by
  simp only [create, bind_eq_ok, require_eq_ok, pure_eq_ok, Prod.exists, Prod.mk.injEq] at h
  obtain ⟨_, _, db₁, acquired, hacq, _, _, db₂, projectId, hproj, db₃, scanId, hscan, db₄, hreg,
    db₅, hjob, rfl, _⟩ := h
  obtain ⟨rs, ls, rfl⟩ := (RepositoryResourceLockService.acquire_ok hacq).frame
  obtain ⟨projects, rfl⟩ := ProjectService.ensureProject_ok hproj
  obtain ⟨repositories, snapshots, rfl⟩ := ProjectService.registerRepositories_ok hreg
  simp only [JobRepository.create, bind_eq_ok, pure_eq_ok] at hjob
  obtain ⟨_, _, rfl⟩ := hjob
  -- up to the new scan only projects, locks and the counter are written
  generalize hdb : ProjectStateRepository.ensure _ projectId = db₀ at hscan
  have hq₀ : Quiet db db₀ := by
    rw [← hdb]
    refine Quiet.trans ?_ Quiet.ensure
    exact Quiet.of_facts rfl fun _ => rfl
  have hd₀ : db₀.domain = db.domain := by
    rw [← hdb]
    simp [ImmutableArtifactStager.stage]
  have hq₁ : Quiet db db₃ ∧ db₃.domain = db.domain := by
    obtain ⟨_, ⟨rfl, _⟩ | ⟨_, rfl⟩⟩ := ProjectService.createScan_ok hscan
    · exact ⟨hq₀, hd₀⟩
    · exact ⟨hq₀.trans (Quiet.insertScan (hq₀.currentOk hc)), hd₀⟩
  have hq₂ := (hq₁.1.trans (Quiet.advance (p := projectId))).trans
    (Quiet.registers repositories snapshots)
  refine ⟨hq₂.trans ?_, ?_⟩
  · unfold ImportCheckpointRepository.create
    split
    · exact Quiet.imports
    · exact Quiet.imports
  · unfold ImportCheckpointRepository.create
    split <;> simp [Db.putJob, Db.putCheckpoint, ProjectStateRepository.advance, hq₁.2]

/-- A phase transaction is as quiet as its operation. -/
theorem runPhaseOperation_quiet {jobId ownerToken fencingToken : Nat} {target : Phase}
    {payload payload' : Payload} {op : Db → Payload → Except Failure (Db × Payload)}
    {committed : Bool}
    (h : runPhaseOperation db jobId ownerToken fencingToken target payload op =
      .ok (db', payload', committed))
    (hop : ∀ db₁ payload', op db payload = .ok (db₁, payload') → Quiet db db₁) : Quiet db db' := by
  obtain ⟨c, _, ⟨_, rfl, _⟩ | ⟨_, _, _, db₁, c₁, hok, _, _, _, rfl⟩⟩ := runPhaseOperation_ok h
  · exact Quiet.refl _
  · exact (hop _ _ hok).trans Quiet.imports

theorem finalizeCoverage_eq {jobId ownerToken fencingToken scanId fileCount lineCount : Nat}
    {payload payload' : Payload}
    (h : finalizeCoverage jobId ownerToken fencingToken scanId fileCount lineCount db payload =
      .ok (db', payload')) : db' = db := by
  simp only [finalizeCoverage, bind_eq_ok, pure_eq_ok, Prod.mk.injEq] at h
  obtain ⟨_, _, _, _, _, _, rfl, _⟩ := h
  rfl

theorem verifyConsistency_rebuilt {jobId scanId : Nat} {payload payload' : Payload}
    (h : verifyConsistency jobId scanId db payload = .ok (db', payload')) :
    ∃ p version, FileStateService.Rebuilt db p version db' := by
  simp only [verifyConsistency, bind_eq_ok, pure_eq_ok, Prod.mk.injEq] at h
  obtain ⟨_, _, scan, _, db₁, hrebuild, rfl, _⟩ := h
  exact ⟨_, _, FileStateService.rebuilt_of_ok hrebuild⟩

theorem ingestCoverageBatch_quiet {jobId ownerToken fencingToken scanId : Nat}
    {batch : List CoverageItem} {batchSeq files lines : Nat} {payload : Payload}
    {result : BatchResult} (hc : CurrentOk db)
    (h : ingestCoverageBatch env db jobId ownerToken fencingToken scanId batch batchSeq files lines
      payload = .ok (db', result)) : Quiet db db' ∧ db'.domain = db.domain := by
  obtain ⟨c, db₁, _, _, _, _, hing, _, rfl⟩ := ingestCoverageBatch_ok h
  obtain ⟨hi, scan, hs, hst⟩ := ProjectService.ingestFileBatch_ok hing
  exact ⟨(hi.quiet hc hs hst).trans Quiet.imports, by rw [hi.frame]; rfl⟩

theorem sealImport_quiet {jobId ownerToken fencingToken : Nat} (hc : CurrentOk db)
    (h : sealImport db jobId ownerToken fencingToken = .ok db') :
    Quiet db db' ∧ db'.domain = db.domain := by
  obtain ⟨c, scan, _, _, hs, hst, _, _, _, rfl⟩ := sealImport_ok h
  have hne : scan.status.publishable = false := by
    cases hstat : scan.status <;> simp_all [sealable, ScanStatus.publishable]
  exact ⟨(Quiet.setStatus (hc.ne_of_construction hs hne)).trans Quiet.imports, rfl⟩

theorem publishTransaction_effect {jobId : Nat} {expected : Option Nat}
    {readSet : Option ReadSetArg} {committed : Bool}
    (h : publishTransaction env db jobId expected readSet = .ok (db', committed)) :
    ((committed = false ∧ db' = db) ∨ (committed = true ∧ ∃ job,
      JobRepository.get db jobId = some job ∧
      Publishes db job.inputPayload.projectId job.inputPayload.scanId db')) ∧
    db'.domain = db.domain := by
  obtain ⟨job, c, hjob, _, ⟨hcom, rfl, _⟩ | ⟨hcom, _, db₁, ls, hpub, _, _, rfl⟩⟩ :=
    publishTransaction_ok h
  · exact ⟨.inl ⟨hcom, rfl⟩, rfl⟩
  · exact ⟨.inr ⟨hcom, job, hjob, publishes_of_published (Quiet.refl db) hpub rfl fun _ => rfl⟩,
      (ScanPublicationService.published_of_ok hpub).1.domain⟩

end ScanImportCoordinator

namespace ScanImportRecoveryService

variable {db db' : Db}

/-- A recovery writes jobs, locks and checkpoints only. -/
theorem reclaim_frame {jobId : Nat} {resources : Option (List Nat)} {owner : Option Nat}
    {lease : Nat} {observed : ImmutableArtifactStager.Observed} {result : Nat × Nat}
    (h : reclaim db jobId resources owner lease observed = .ok (db', result)) :
    ∃ uuid imports, db' = { db with uuid := uuid, imports := imports } := by
  obtain ⟨job, c, acquired, db₁, _, _, _, hacq, _, hdb⟩ := reclaim_ok h
  obtain ⟨rs, ls, rfl⟩ := hacq.frame
  rcases hdb with ⟨_, rfl⟩ | ⟨_, _, rfl⟩
  · exact ⟨_, _, rfl⟩
  · exact ⟨_, _, rfl⟩

theorem recordRow_eq (db : Db) (row : ImportFailure) :
    ∃ failures, recordRow db row = { db with imports.failures := failures } := by
  unfold recordRow
  split
  · exact ⟨_, rfl⟩
  · exact ⟨_, rfl⟩

/-- A scan that is CURRENT, or has ended already, keeps its status. -/
theorem failScan_eq (db : Db) (scanId : Nat) (status : ScanStatus) :
    failScan db scanId status = db ∨
      failScan db scanId status = ProjectRepository.setStatus db scanId status := by
  unfold failScan
  split
  · split
    · exact .inr rfl
    · exact .inl rfl
  · exact .inl rfl

/-- The imports are not among what it writes. -/
theorem failScan_imports (db : Db) (scanId : Nat) (status : ScanStatus) :
    (failScan db scanId status).imports = db.imports ∧
    (failScan db scanId status).uuid = db.uuid := by
  rcases failScan_eq db scanId status with he | he
  · rw [he]
    exact ⟨rfl, rfl⟩
  · rw [he]
    exact ⟨rfl, rfl⟩

/-- **What an accepted record of a failure does**: it leaves a row in the ledger, and it ends the job
and its scan when the owner is the lease owner of a live job. -/
theorem recordFailure_ok {jobId : Nat} {phase message : String} {fencingToken : Option Nat}
    {status : ScanStatus} {owner : Nat}
    (h : recordFailure db jobId phase message fencingToken status owner = .ok db') :
    ∃ job failures, JobRepository.get db jobId = some job ∧
      (db' = { db with imports.failures := failures } ∨
        ∃ owner', job.state.live = true ∧
          db' = RepositoryResourceLockService.release
            (failScan ({ db with imports.failures := failures }.putJob jobId
              { job with state := .failed }) job.scanId status) jobId owner' none) := by
  simp only [recordFailure, bind_eq_ok, orFail_eq_ok] at h
  obtain ⟨job, hjob, _, _, h⟩ := h
  obtain ⟨failures, hrow⟩ := recordRow_eq db ⟨jobId, job.scanId, phase, message⟩
  rw [hrow] at h
  refine ⟨job, failures, hjob, ?_⟩
  split at h
  · exact .inl (pure_eq_ok.1 h).symm
  · rename_i db₁ hterm
    obtain rfl := pure_eq_ok.1 h
    obtain ⟨job', hjob', _, hlive, _, rfl⟩ := ScanImportCoordinator.transitionTerminal_some hterm
    have hsame : JobRepository.get { db with imports.failures := failures } jobId = some job := hjob
    obtain rfl : job' = job := Option.some.inj (hjob'.symm.trans hsame)
    exact .inr ⟨_, hlive, rfl⟩

/-- A scan that is CURRENT keeps its status. -/
theorem failScan_quiet (hc : CurrentOk db) (scanId : Nat) (status : ScanStatus) :
    Quiet db (failScan db scanId status) ∧ (failScan db scanId status).domain = db.domain := by
  unfold failScan
  split
  · rename_i scan hs
    split
    · rename_i hguard
      refine ⟨Quiet.setStatus fun p hp => ?_, rfl⟩
      obtain ⟨scan', hs', hproj, _⟩ := hc p scanId hp
      obtain rfl : scan = scan' := Option.some.inj (hs.symm.trans hs')
      exact hguard.2 (by rw [hproj, hp])
    · exact ⟨Quiet.refl db, rfl⟩
  · exact ⟨Quiet.refl db, rfl⟩

theorem recordFailure_quiet {jobId : Nat} {phase message : String} {fencingToken : Option Nat}
    {status : ScanStatus} {owner : Nat} (hc : CurrentOk db)
    (h : recordFailure db jobId phase message fencingToken status owner = .ok db') :
    Quiet db db' ∧ db'.domain = db.domain := by
  obtain ⟨job, failures, _, rfl | ⟨owner', _, rfl⟩⟩ := recordFailure_ok h
  · exact ⟨Quiet.imports, rfl⟩
  · generalize hdb₁ : Db.putJob _ jobId _ = db₁
    have hq₁ : Quiet db db₁ ∧ db₁.domain = db.domain := by
      rw [← hdb₁]
      exact ⟨Quiet.imports, rfl⟩
    obtain ⟨hq, hd⟩ := failScan_quiet (hq₁.1.currentOk hc) job.scanId status
    exact ⟨(hq₁.1.trans hq).trans Quiet.imports, hd.trans hq₁.2⟩

end ScanImportRecoveryService

/-! ## The analysis domain -/

/-- An engine run writes the analysis domain only. -/
theorem InheritanceEngine.run_frame {env : Env} {db db' : Db} {scanId : Nat}
    {paths : List (String × String)} {readSet : Option ReadSet}
    (h : InheritanceEngine.run env db scanId paths = .ok (db', readSet)) :
    db' = { db with domain := db'.domain } := by
  refine (InheritanceEngine.run_inv (P := fun d => d = { db with domain := d.domain }) h ?_ ?_
    rfl).2
  · intro d rows _ hd
    rw [hd]
  · intro ctx _ _ _ d r lineId line i _ _ _ _ hd _
    rw [hd]
    rfl

/-- A migration writes the analysis domain only. -/
theorem AnalysisDomainRepository.backfillLegacy_frame {db db' : Db} {scanId : Nat}
    (h : AnalysisDomainRepository.backfillLegacy db scanId = .ok db') :
    db' = { db with domain := db'.domain } := by
  refine foldlM_inv (fun d => d = { db with domain := d.domain }) ?_ rfl h
  intro d row d' _ hd hok
  dsimp only at hok
  split at hok
  · obtain ⟨hok, _⟩ := AnalysisService.createLinksMany_ok hok
    rw [hok, hd]
    unfold AnalysisDomainRepository.legacyRecord
    split <;> rfl
  · obtain rfl := pure_eq_ok.1 hok
    exact hd

/-- What every analysis operation leaves alone. -/
structure Reviewed (db db' : Db) : Prop where
  /-- The physical side is untouched. -/
  facts : db'.facts = db.facts
  /-- Jobs, locks and checkpoints are untouched. -/
  imports : db'.imports = db.imports
  /-- The projects are untouched. -/
  projects : db'.projects = db.projects
  /-- No time passes. -/
  now : db'.now = db.now
  /-- No identifier is drawn. -/
  uuid : db'.uuid = db.uuid
  /-- No pointer moves. -/
  current : ∀ q, (db'.stateOf q).currentScanId = (db.stateOf q).currentScanId

theorem AnalysisService.Mutated.reviewed {db db' : Db} {p : Nat}
    (h : AnalysisService.Mutated db p db') : Reviewed db db' := by
  refine ⟨h.facts, h.imports, h.projects, h.now, h.uuid, fun q => ?_⟩
  rw [h.stateOf q]
  split
  · rename_i hq
    rw [hq]
  · rfl

/-- A save without operations only makes sure that the project has a state row. -/
theorem AnalysisService.save_nil {env : Env} {db db' : Db} {projectName reviewer : String}
    {scanId : Nat} {enforceCurrent : Bool}
    (h : AnalysisService.save env db projectName scanId [] reviewer enforceCurrent = .ok db') :
    ∃ p, db' = ProjectStateRepository.ensure db p := by
  simp only [AnalysisService.save, bind_eq_ok, if_pos, ProjectStateRepository.lockForUpdate,
    pure_eq_ok] at h
  obtain ⟨p, _, _, _, _, _, _, _, rfl⟩ := h
  exact ⟨p, rfl⟩

theorem AnalysisService.save_reviewed {env : Env} {db db' : Db} {projectName reviewer : String}
    {scanId : Nat} {records : List Item} {enforceCurrent : Bool}
    (h : AnalysisService.save env db projectName scanId records reviewer enforceCurrent = .ok db') :
    Reviewed db db' := by
  by_cases hne : records = []
  · subst hne
    obtain ⟨p, rfl⟩ := AnalysisService.save_nil h
    constructor <;> simp
  · obtain ⟨p, _, _, _, _, _, hmut⟩ := AnalysisService.saved_of_ok hne h
    exact hmut.reviewed

/-- **An analysis operation leaves everything but the analysis domain, the project's version and the
derived rows alone.** -/
theorem Mutation.reviewed {env : Env} {db db' : Db} {m : Mutation} (h : m.apply env db = .ok db') :
    Reviewed db db' := by
  cases m with
  | save => exact AnalysisService.save_reviewed h
  | editConfirm => exact AnalysisService.save_reviewed h
  | confirm =>
    exact (InheritanceReviewService.confirm_inv h (fun _ => True) (fun _ _ _ _ _ _ _ => trivial)
      trivial).2.1.reviewed
  | reject =>
    obtain ⟨_, _, _, _, _, hmut, _⟩ := InheritanceReviewService.reject_ok h
    exact hmut.reviewed
  | undo =>
    obtain ⟨_, _, _, _, _, _, _, _, _, hmut, _⟩ := InheritanceReviewService.undo_ok h
    exact hmut.reviewed

end FosCoverage
