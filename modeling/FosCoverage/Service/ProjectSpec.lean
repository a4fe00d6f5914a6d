import FosCoverage.Service.Project

/-!
# What ingestion does

Files and lines are only ever added, and only to a scan that is under construction.  `Ingests` says
so for one database and a later one; it is reflexive and transitive, every repository call of an
ingestion has it, and so has the whole ingestion (`ingestFileBatch_ok`, `ingestAll_ok`).
`openScan_ok` says what a new scan starts with.
-/

set_option autoImplicit false

namespace FosCoverage

open Relational Outcome

/-- `db'` is `db` with files of the scan and lines of such files added. -/
structure Ingests (scanId : Nat) (db db' : Db) : Prop where
  /-- The added rows. -/
  rows : ∃ files lines, db' = { db with
      facts.files := db.facts.files.insertMany files
      facts.lines := db.facts.lines.insertMany lines } ∧
    (∀ f ∈ files, f.scanId = scanId) ∧
    ∀ l ∈ lines, ∃ f, db'.facts.files.get? l.fileId = some f ∧ f.scanId = scanId

namespace Ingests

variable {scanId : Nat} {db db' db'' : Db}

theorem refl (db : Db) : Ingests scanId db db :=
  ⟨[], [], rfl, by simp, by simp⟩

theorem trans (h : Ingests scanId db db') (h' : Ingests scanId db' db'') :
    Ingests scanId db db'' := by
  obtain ⟨files, lines, rfl, hf, hl⟩ := h.rows
  obtain ⟨files', lines', rfl, hf', hl'⟩ := h'.rows
  refine ⟨files ++ files', lines ++ lines', ?_, ?_, ?_⟩
  · simp only [Table.insertMany_append]
  · intro f hmem
    rcases List.mem_append.1 hmem with hmem | hmem
    · exact hf f hmem
    · exact hf' f hmem
  · intro l hmem
    rcases List.mem_append.1 hmem with hmem | hmem
    · obtain ⟨f, hget, hs⟩ := hl l hmem
      exact ⟨f, Table.get?_insertMany_of_some hget, hs⟩
    · exact hl' l hmem

theorem file {k : Nat} {f : FileRow} (h : Ingests scanId db db')
    (hk : db.facts.files.get? k = some f) : db'.facts.files.get? k = some f := by
  obtain ⟨files, lines, rfl, _⟩ := h.rows
  exact Table.get?_insertMany_of_some hk

theorem line {k : Nat} {l : LineRow} (h : Ingests scanId db db')
    (hk : db.facts.lines.get? k = some l) : db'.facts.lines.get? k = some l := by
  obtain ⟨files, lines, rfl, _⟩ := h.rows
  exact Table.get?_insertMany_of_some hk

theorem scans (h : Ingests scanId db db') : db'.facts.scans = db.facts.scans := by
  obtain ⟨files, lines, rfl, _⟩ := h.rows
  rfl

theorem frame (h : Ingests scanId db db') :
    db' = { db with facts := db'.facts } := by
  obtain ⟨files, lines, rfl, _⟩ := h.rows
  rfl

end Ingests

/-! ## Repository calls -/

theorem assertScanBuilding_ok {db : Db} {scanId : Nat} {u : Unit}
    (h : ProjectRepository.assertScanBuilding db scanId = .ok u) :
    ∃ scan, db.facts.scans.get? scanId = some scan ∧ scan.status.underConstruction = true := by
  simp only [ProjectRepository.assertScanBuilding, bind_eq_ok, orFail_eq_ok, require_eq_ok] at h
  exact h

theorem ensureFiles_ok {db db' : Db} {scanId : Nat} {items : List ProjectRepository.FileItem}
    (h : ProjectRepository.ensureFiles db scanId items = .ok db') :
    Ingests scanId db db' ∧
    ∃ scan, db.facts.scans.get? scanId = some scan ∧ scan.status.underConstruction = true := by
  simp only [ProjectRepository.ensureFiles, bind_eq_ok, pure_eq_ok] at h
  obtain ⟨_, hb, normalized, _, _, _, rfl⟩ := h
  refine ⟨⟨_, [], rfl, ?_, by simp⟩, assertScanBuilding_ok hb⟩
  intro f hf
  obtain ⟨item, _, rfl⟩ := List.mem_map.1 hf
  rfl

theorem upsertLines_ok {db db' : Db} {fileId : Nat} {records : List LineRecord}
    (h : LineIndexRepository.upsertLines db fileId records = .ok db') :
    ∃ file scan, db.facts.files.get? fileId = some file ∧
      db.facts.scans.get? file.scanId = some scan ∧ scan.status.underConstruction = true ∧
      Ingests file.scanId db db' := by
  simp only [LineIndexRepository.upsertLines, LineIndexRepository.assertFileScanBuilding,
    bind_eq_ok, orFail_eq_ok, require_eq_ok, pure_eq_ok] at h
  obtain ⟨_, ⟨file, hf, scan, hs, hst⟩, _, _, _, _, _, _, rfl⟩ := h
  refine ⟨file, scan, hf, hs, hst, [], _, rfl, by simp, ?_⟩
  intro l hl
  obtain ⟨facts, _, rfl⟩ := List.mem_map.1 hl
  exact ⟨file, hf, rfl⟩

namespace ProjectService

theorem ingestLines_ok {db db' : Db} {fileId : Nat} {records : List LineRecord} {file : FileRow}
    (hf : db.facts.files.get? fileId = some file)
    (h : ingestLines db fileId records = .ok db') : Ingests file.scanId db db' := by
  refine foldlM_inv (fun d => Ingests file.scanId db d) ?_ (Ingests.refl db) h
  intro d lines d' _ hd hok
  obtain ⟨file', scan, hf', _, _, hi⟩ := upsertLines_ok hok
  obtain rfl : file = file' := Option.some.inj ((hd.file hf).symm.trans hf')
  exact hd.trans hi

theorem ingestItem_ok {env : Env} {db db' : Db} {scanId : Nat} {item : CoverageItem}
    (h : ingestItem env scanId db item = .ok db') : Ingests scanId db db' := by
  simp only [ingestItem, bind_eq_ok, orFail_eq_ok, Prod.exists] at h
  obtain ⟨fileId, file, hget, h⟩ := h
  have hmem := Keyed.get?_eq_some_iff.2 (List.mem_of_find?_eq_some hget)
  have hscan : file.scanId = scanId := by
    have := List.find?_some hget
    simp only [decide_eq_true_eq] at this
    exact this.1
  rw [← hscan]
  exact ingestLines_ok hmem h

/-- **A batch adds files and lines to a scan under construction, and nothing else.** -/
theorem ingestFileBatch_ok {env : Env} {db db' : Db} {scanId : Nat} {batch : List CoverageItem}
    {result : BatchResult} (h : ingestFileBatch env db scanId batch = .ok (db', result)) :
    Ingests scanId db db' ∧
    ∃ scan, db.facts.scans.get? scanId = some scan ∧ scan.status.underConstruction = true := by
  simp only [ingestFileBatch, bind_eq_ok] at h
  obtain ⟨_, hb, h⟩ := h
  refine ⟨?_, assertScanBuilding_ok hb⟩
  split at h
  · simp only [pure_eq_ok, Prod.mk.injEq] at h
    obtain ⟨rfl, _⟩ := h
    exact Ingests.refl db
  · simp only [bind_eq_ok, pure_eq_ok, Prod.mk.injEq] at h
    obtain ⟨db₁, hfiles, db₂, hlines, rfl, _⟩ := h
    refine (ensureFiles_ok hfiles).1.trans ?_
    exact foldlM_inv (fun d => Ingests scanId db₁ d)
      (fun _ _ _ _ hd hok => hd.trans (ingestItem_ok hok)) (Ingests.refl db₁) hlines

theorem ingestAll_ok {env : Env} {db db' : Db} {scanId : Nat} {files : List CoverageItem}
    (h : ingestAll env db scanId files = .ok db') : Ingests scanId db db' := by
  refine foldlM_inv (fun d => Ingests scanId db d) ?_ (Ingests.refl db) h
  intro d batch d' _ hd hok
  cases hb : ingestFileBatch env d scanId batch with
  | error e => simp [hb, Except.map] at hok
  | ok r =>
    obtain ⟨d'', result⟩ := r
    obtain rfl : d'' = d' := by simpa [hb, Except.map] using hok
    exact hd.trans (ingestFileBatch_ok hb).1

/-! ## New scans -/

/-- The repositories of a new scan touch master identities and snapshots only. -/
theorem registerRepository_ok {projectId scanId : Nat} {db db' : Db} {r : RepositoryInput}
    (h : registerRepository projectId scanId db r = .ok db') :
    ∃ repositories snapshots, db' = { db with
      facts.repositories := repositories
      facts.snapshots := snapshots } := by
  have upsert : ∀ {d d' : Db} {s : Snapshot},
      ProjectRepository.upsertRepositorySnapshot d s = .ok d' →
      ∃ snapshots, d' = { d with facts.snapshots := snapshots } := by
    intro d d' s h
    simp only [ProjectRepository.upsertRepositorySnapshot, bind_eq_ok] at h
    obtain ⟨_, _, _, _, _, _, h⟩ := h
    split at h
    · simp only [bind_eq_ok, pure_eq_ok] at h
      obtain ⟨_, _, rfl⟩ := h
      exact ⟨_, rfl⟩
    · exact ⟨_, (pure_eq_ok.1 h).symm⟩
  unfold registerRepository at h
  split at h
  · simp only [bind_eq_ok, pure_eq_ok, Prod.exists, Prod.mk.injEq] at h
    obtain ⟨d, _, ⟨rfl, _⟩, h⟩ := h
    obtain ⟨snapshots, rfl⟩ := upsert h
    exact ⟨_, _, rfl⟩
  · simp only [RepositoryRepository.ensure, bind_eq_ok, pure_eq_ok, Prod.exists,
      Prod.mk.injEq] at h
    obtain ⟨d₁, _, ⟨_, _, hd₁⟩, _, _, ⟨rfl, _⟩, h⟩ := h
    obtain ⟨snapshots, rfl⟩ := upsert h
    split at hd₁
    · simp only [bind_eq_ok, pure_eq_ok, Prod.mk.injEq] at hd₁
      obtain ⟨_, _, rfl, _⟩ := hd₁
      exact ⟨_, _, rfl⟩
    · simp only [pure_eq_ok, Prod.mk.injEq] at hd₁
      obtain ⟨rfl, _⟩ := hd₁
      exact ⟨_, _, rfl⟩

theorem registerRepositories_ok {projectId scanId : Nat} {db db' : Db}
    {repositories : List RepositoryInput}
    (h : repositories.foldlM (registerRepository projectId scanId) db = .ok db') :
    ∃ repositories snapshots, db' = { db with
      facts.repositories := repositories
      facts.snapshots := snapshots } := by
  refine foldlM_inv (fun d => ∃ repositories snapshots, d = { db with
      facts.repositories := repositories
      facts.snapshots := snapshots }) ?_ ⟨_, _, rfl⟩ h
  rintro d r d' _ ⟨repositories, snapshots, rfl⟩ hok
  obtain ⟨repositories', snapshots', rfl⟩ := registerRepository_ok hok
  exact ⟨_, _, rfl⟩

theorem ensureProject_ok {db db' : Db} {projectName : String} {projectId : Nat}
    (h : ProjectRepository.ensureProject db projectName = .ok (db', projectId)) :
    ∃ projects, db' = { db with projects := projects } := by
  simp only [ProjectRepository.ensureProject, bind_eq_ok] at h
  obtain ⟨_, _, h⟩ := h
  split at h
  · simp only [pure_eq_ok, Prod.mk.injEq] at h
    obtain ⟨rfl, _⟩ := h
    exact ⟨_, rfl⟩
  · simp only [pure_eq_ok, Prod.mk.injEq] at h
    obtain ⟨rfl, _⟩ := h
    exact ⟨_, rfl⟩

theorem createScan_ok {db db' : Db} {projectId scanId : Nat} {scanKey : String}
    {status : ScanStatus} {predecessor : Option Nat}
    (h : ProjectRepository.createScan db projectId scanKey status predecessor =
      .ok (db', scanId)) :
    status.underConstruction = true ∧
    ((db' = db ∧ ∃ scan, db.facts.scans.get? scanId = some scan ∧ scan.scanKey = scanKey) ∨
    (scanId = db.facts.scans.next ∧ db' = { db with
      facts.scans := db.facts.scans.insert ⟨projectId, scanKey, status, predecessor⟩ })) := by
  simp only [ProjectRepository.createScan, bind_eq_ok, require_eq_ok] at h
  obtain ⟨_, hst, h⟩ := h
  refine ⟨hst, ?_⟩
  split at h
  · rename_i id hkey
    simp only [pure_eq_ok, Prod.mk.injEq] at h
    obtain ⟨rfl, rfl⟩ := h
    obtain ⟨r, hr, rfl⟩ := Option.map_eq_some_iff.1 hkey
    exact .inl ⟨rfl, r.2, Keyed.get?_eq_some_iff.2 (List.mem_of_find?_eq_some hr),
      by simpa using List.find?_some hr⟩
  · simp only [pure_eq_ok, Prod.mk.injEq] at h
    obtain ⟨rfl, rfl⟩ := h
    exact .inr ⟨rfl, rfl⟩

/-- Opening a scan touches projects, pointers and the scan's own registration only. -/
theorem openScan_frame {env : Env} {db db' : Db} {identity : ScanIdentity} {status : ScanStatus}
    {projectId scanId : Nat} {existing : Bool}
    (h : openScan env db identity status = .ok (db', projectId, scanId, existing)) :
    ∃ projects states scans repositories snapshots, db' = { db with
      projects := projects
      states := states
      facts.scans := scans
      facts.repositories := repositories
      facts.snapshots := snapshots } := by
  simp only [openScan, bind_eq_ok, Prod.exists] at h
  obtain ⟨db₁, p, hp, h⟩ := h
  obtain ⟨projects, rfl⟩ := ensureProject_ok hp
  split at h
  · simp only [bind_eq_ok, pure_eq_ok, Prod.mk.injEq] at h
    obtain ⟨_, _, rfl, _⟩ := h
    obtain ⟨states, hstates⟩ := ProjectStateRepository.ensure_eq { db with projects := projects } p
    exact ⟨_, _, _, _, _, hstates⟩
  · simp only [bind_eq_ok, pure_eq_ok, Prod.exists, Prod.mk.injEq] at h
    obtain ⟨db₂, id, hcreate, db₃, hreg, rfl, _⟩ := h
    obtain ⟨repositories, snapshots, rfl⟩ := registerRepositories_ok hreg
    obtain ⟨_, ⟨rfl, _⟩ | ⟨_, rfl⟩⟩ := createScan_ok hcreate
    · exact ⟨_, _, _, _, _, rfl⟩
    · exact ⟨_, _, _, _, _, rfl⟩

end ProjectService

end FosCoverage
