import FosCoverage.Analysis.Pins
import FosCoverage.Service.ProgressPages

/-!
# A snapshot through pages

`pending_lines` gives a client the pending lines of a file, page by page.  The pages are read one
after the other, while others review lines, publish scans and rebuild projections.  A cursor is
bound to the data version it was made with, and as long as the version stays the view of the scan
stays (`Viewed.run`).  So a request is refused, or it is answered as in the database the first page
was read from: **a walk that ends has the pending lines of its beginning, each once**
(`pendingLines_snapshot`).
-/

set_option autoImplicit false

namespace FosCoverage

open Relational Outcome FileStateRepository Application JsonText

/-! ## The endpoint -/

/-- `pending_lines_for_file` -/
def ProgressService.pendingLinesForFile (t : UnicodeTables) (db : Db) (projectName : String)
    (scanId fileId : Nat) (pageSize : Int) (cursor : Option Cursor) :
    Except PageError PendingLinePage := do
  let projectId ← project db projectName
  let resolved ← resolveScanForProject db projectId (some scanId)
  require .invalidScanIdentity (resolved = some scanId)
  pendingLinePage t db scanId fileId pageSize cursor

namespace Application

/-- What the endpoint raises. -/
inductive RequestError
  /-- `KeyError("project not found")` -/
  | projectNotFound
  /-- What a page raises. -/
  | page (e : PageError)
  deriving DecidableEq, Repr

/-- What `pending_lines` answers. -/
structure PendingLines where
  /-- `project_name` -/
  projectName : String
  /-- `scan_id` -/
  scanId : Nat
  /-- `file_id` -/
  fileId : Nat
  /-- `data_version` -/
  dataVersion : Nat
  /-- `repository_name` -/
  repositoryName : String
  /-- `file_path` -/
  filePath : String
  /-- `page_size` -/
  pageSize : Int
  /-- `total` -/
  total : Nat
  /-- `pending_line_numbers` -/
  pendingLineNumbers : List Nat
  /-- `has_more` -/
  hasMore : Bool
  /-- `next_cursor` -/
  nextCursor : Option String
  deriving DecidableEq, Repr

/-- `"pending_lines:{}".format(file_id)` -/
def pendingLinesFilter (fileId : Nat) : String := "pending_lines:" ++ toString fileId

/-- `min(500, max(1, page_size))` -/
def pendingLinesSize (pageSize : Int) : Int := min 500 (max 1 pageSize)

section Endpoint

variable (t : UnicodeTables) (floats : List Char → PyFloat) (db : Db) (projectName : String)
  (scanId fileId : Nat) (repositoryName : Option String) (pageSize : Int)

/-- `pending_lines`, all of it on one connection and in one transaction; the size of a query without
one is 200. -/
def pendingLines (cursor : Option String) : Except RequestError PendingLines := do
  let projectId ← orFail .projectNotFound (ProjectRepository.getProjectByName db projectName)
  let dataVersion := (db.stateOf projectId).dataVersion
  let file ← orFail (.page .invalidScanIdentity)
    ((db.facts.files.get? fileId).filter fun f => f.scanId = scanId)
  require (.page .invalidScanIdentity)
    (∀ r ∈ repositoryName.filter (· ≠ ""), file.repositoryName = r)
  let filterKey := pendingLinesFilter fileId
  let decoded ← (decodeKeysetCursor t floats ((cursor.map Json.text).getD .null) scanId dataVersion
    filterKey).mapError .page
  let page ← (ProgressService.pendingLinesForFile t db projectName scanId fileId
    (pendingLinesSize pageSize) decoded).mapError .page
  pure
    { projectName := projectName
      scanId := scanId
      fileId := fileId
      dataVersion := dataVersion
      repositoryName := file.repositoryName
      filePath := file.filePath
      pageSize := pendingLinesSize pageSize
      total := page.total
      pendingLineNumbers := page.rows
      hasMore := page.hasMore
      nextCursor := encodeKeysetCursor page.nextCursor scanId dataVersion filterKey }

variable {t floats db projectName scanId fileId repositoryName pageSize}

theorem resolveScanForProject_ok {projectId : Nat}
    (h : ProgressService.resolveScanForProject db projectId (some scanId) = .ok (some scanId)) :
    ∃ scan, db.facts.scans.get? scanId = some scan ∧ scan.projectId = projectId := by
  simp only [ProgressService.resolveScanForProject] at h
  split at h
  · cases h
  · simp only [bind_eq_ok, orFail_eq_ok, require_eq_ok, pure_eq_ok] at h
    obtain ⟨scan, hscan, _, hp, hres⟩ := h
    rw [Option.some.inj hres] at hscan
    exact ⟨scan, hscan, hp⟩

/-- **An answer is a page of the scan, at the version of its project.** -/
theorem pendingLines_ok {cursor : Option String} {a : PendingLines}
    (h : pendingLines t floats db projectName scanId fileId repositoryName pageSize cursor = .ok a)
    (i : Nat) : ∃ scan, db.facts.scans.get? scanId = some scan ∧
      throughCursors t floats scanId (db.stateOf scan.projectId).dataVersion
        (pendingLinesFilter fileId) (fun _ cursor =>
          (pendingLinePage t db scanId fileId (pendingLinesSize pageSize) cursor).map
            fun p => (p.rows, p.nextCursor)) i cursor =
        .ok (a.pendingLineNumbers, a.nextCursor) := by
  simp only [pendingLines, bind_eq_ok, orFail_eq_ok, require_eq_ok, pure_eq_ok,
    mapError_eq_ok] at h
  obtain ⟨projectId, hproject, file, _, _, _, decoded, hdecoded, page, hpage, rfl⟩ := h
  simp only [ProgressService.pendingLinesForFile, ProgressService.project, bind_eq_ok,
    orFail_eq_ok, require_eq_ok] at hpage
  obtain ⟨projectId', hproject', resolved, hresolved, _, rfl, hpage⟩ := hpage
  obtain rfl := Option.some.inj (hproject.symm.trans hproject')
  obtain ⟨scan, hscan, rfl⟩ := resolveScanForProject_ok hresolved
  refine ⟨scan, hscan, ?_⟩
  rw [throughCursors, hdecoded, ok_bind, hpage]
  rfl

/-- The request names a project, a scan of it and a file of the scan. -/
structure Asks (db : Db) (projectName : String) (projectId scanId fileId : Nat)
    (repositoryName : Option String) : Prop where
  /-- The project. -/
  project : ProjectRepository.getProjectByName db projectName = some projectId
  /-- The scan. -/
  scan : ∃ scan, db.facts.scans.get? scanId = some scan ∧ scan.projectId = projectId
  /-- The file. -/
  file : ∃ file, db.facts.files.get? fileId = some file ∧ file.scanId = scanId ∧
    ∀ r ∈ repositoryName.filter (· ≠ ""), file.repositoryName = r

/-- Such a request gets what the page gives. -/
theorem Asks.pendingLines_eq {projectId : Nat}
    (h : Asks db projectName projectId scanId fileId repositoryName) (i : Nat)
    (cursor : Option String) :
    (pendingLines t floats db projectName scanId fileId repositoryName pageSize cursor).map
        (fun a => (a.pendingLineNumbers, a.nextCursor)) =
      (throughCursors t floats scanId (db.stateOf projectId).dataVersion
        (pendingLinesFilter fileId) (fun _ cursor =>
          (pendingLinePage t db scanId fileId (pendingLinesSize pageSize) cursor).map
            fun p => (p.rows, p.nextCursor)) i cursor).mapError .page := by
  obtain ⟨scan, hscan, hproject⟩ := h.scan
  obtain ⟨file, hfile, hs, hr⟩ := h.file
  have hz : scanId ≠ 0 := by
    have := (Table.get?_issued hscan).1
    omega
  have hresolved : ((some scanId).filter (· ≠ 0)).getD
      ((db.stateOf projectId).currentScanId.getD 0) = scanId := by
    simp [Option.filter, hz]
  have hpage : ∀ cursor, ProgressService.pendingLinesForFile t db projectName scanId fileId
      (pendingLinesSize pageSize) cursor =
        pendingLinePage t db scanId fileId (pendingLinesSize pageSize) cursor := by
    intro cursor
    simp only [ProgressService.pendingLinesForFile, ProgressService.project, h.project, orFail_some,
      ok_bind, ProgressService.resolveScanForProject, hresolved, if_neg hz,
      ProjectRepository.getScan, hscan, require, if_pos hproject]
    rw [pure_bind, if_pos rfl, ok_bind]
  have hfound : (db.facts.files.get? fileId).filter (fun f => f.scanId = scanId) = some file := by
    simp [hfile, hs]
  simp only [pendingLines, h.project, orFail_some, ok_bind, hfound, require, if_pos hr, hpage,
    throughCursors]
  cases decodeKeysetCursor t floats ((cursor.map Json.text).getD .null) scanId
      (db.stateOf projectId).dataVersion (pendingLinesFilter fileId) with
  | error e => rfl
  | ok decoded =>
    show Except.map _ ((pendingLinePage t db scanId fileId _ decoded).mapError _ >>= _) = _
    rw [ok_bind]
    cases pendingLinePage t db scanId fileId (pendingLinesSize pageSize) decoded with
    | error e => rfl
    | ok page => rfl

/-- A page is read off the pending lines. -/
theorem pendingLinePage_congr {db' : Db} (h : pendingRows db' scanId (some [fileId]) =
    pendingRows db scanId (some [fileId])) :
    pendingLinePage t db' scanId fileId = pendingLinePage t db scanId fileId := by
  funext limit cursor
  unfold pendingLinePage
  rw [h]

/-- A cursor made with another version is refused. -/
theorem throughCursors_stale {β : Type} {cursor : Cursor} (hc : cursor.IsKey) {v v' : Int}
    (hv : v ≠ v') (filterKey : String)
    (page : Nat → Option Cursor → Except PageError (List β × Option Cursor)) (i : Nat) :
    throughCursors t floats scanId v' filterKey page i (some (tokenOf scanId v filterKey cursor)) =
      .error .cursorStale := by
  obtain ⟨text, htext, hdecode⟩ :=
    decodeKeysetCursor_encode t floats hc scanId v scanId v' filterKey filterKey
  rw [if_neg fun h => hv h.2.1] at hdecode
  rw [throughCursors, tokenOf, htext, Option.getD_some, Option.map_some, Option.getD_some, hdecode]
  rfl

end Endpoint

end Application

/-! ## The walk of a client -/

/-- The databases a client meets, one for each request.  The first is a reachable one, and between
two requests others may do what they like, but for writes into the scan. -/
structure Meets (env : Env) (scanId : Nat) (moments : Nat → Db) : Prop where
  /-- The first request. -/
  start : Reachable env (moments 0)
  /-- From one request to the next. -/
  between : ∀ i, Relation.ReflTransGen (Undisturbed env scanId) (moments i) (moments (i + 1))

section Walks

variable {env : Env} {scanId : Nat} {moments : Nat → Db}

theorem Meets.pinned (h : Meets env scanId moments) {scan : Scan}
    (hs : (moments 0).facts.scans.get? scanId = some scan) (i : Nat) :
    Viewed (moments i) scan.projectId scanId ∧
      Pinned (fun d => (d.stateOf scan.projectId).dataVersion) (fun d => scanView d scanId)
        (moments 0) (moments i) := by
  induction i with
  | zero => exact ⟨⟨h.start.historyOk, h.start.integrity, scan, hs, rfl⟩, .refl _⟩
  | succ i ih =>
    obtain ⟨hviewed, hpinned⟩ := ih.1.run (h.between i)
    exact ⟨hviewed, ih.2.trans hpinned⟩

variable {t : UnicodeTables} {floats : List Char → PyFloat} {projectName : String} {fileId : Nat}
  {repositoryName : Option String} {sizes : Nat → Int}

/-- As long as the version stays, a page is one of the first database. -/
theorem Meets.page_eq (h : Meets env scanId moments) {scan : Scan}
    (hs : (moments 0).facts.scans.get? scanId = some scan) {i : Nat}
    (hversion : ((moments i).stateOf scan.projectId).dataVersion =
      ((moments 0).stateOf scan.projectId).dataVersion) :
    pendingLinePage t (moments i) scanId fileId = pendingLinePage t (moments 0) scanId fileId :=
  pendingLinePage_congr (pendingRows_congr ((h.pinned hs i).2.same hversion) (some [fileId]))

/-- The answers a client gets, each from the database it meets. -/
def served (t : UnicodeTables) (floats : List Char → PyFloat) (moments : Nat → Db)
    (projectName : String) (scanId fileId : Nat) (repositoryName : Option String)
    (sizes : Nat → Int) (i : Nat) (token : Option String) :
    Except RequestError (List Nat × Option String) :=
  (pendingLines t floats (moments i) projectName scanId fileId repositoryName (sizes i) token).map
    fun a => (a.pendingLineNumbers, a.nextCursor)

/-- The pending lines of a file, by line number. -/
def pendingSnapshot (db : Db) (scanId fileId : Nat) : List Nat :=
  ((pendingRows db scanId (some [fileId])).insertionSort fun a b => a.lineKey ≤ b.lineKey).map
    PendingReference.lineNumber

/-- A walk that ends has the lines of its beginning. -/
theorem Meets.flatten_eq {pages : List (List Nat)} (h : Meets env scanId moments)
    (hw : Keyset.Walk (served t floats moments projectName scanId fileId repositoryName sizes) 0
      none pages) : pages.flatten = pendingSnapshot (moments 0) scanId fileId := by
  -- the first answer says which scan and version the walk is bound to
  obtain ⟨first, hfirst⟩ := hw.answered
  obtain ⟨a, ha, _⟩ := map_eq_ok.1 hfirst
  obtain ⟨scan, hscan, _⟩ := pendingLines_ok ha 0
  have hserves := serves_pendingLinePage t floats (moments 0) scanId fileId
    (fun j => pendingLinesSize (sizes j)) ((moments 0).stateOf scan.projectId).dataVersion
    (pendingLinesFilter fileId)
  refine hserves.walk_of_answers nodup_lineKey_pendingRows (fun i => pageLimit_pos _)
    (fun a ha => ?_) (fun i k a ha => ?_) hw
  · obtain ⟨b, hb, rfl⟩ := map_eq_ok.1 ha
    obtain ⟨scan', hscan', hpage⟩ := pendingLines_ok hb 0
    obtain rfl := Option.some.inj (hscan.symm.trans hscan')
    exact hpage
  · obtain ⟨b, hb, rfl⟩ := map_eq_ok.1 ha
    obtain ⟨scan', hscan', hpage⟩ := pendingLines_ok hb i
    obtain ⟨scan'', hscan'', hproject⟩ := (h.pinned hscan i).1.scan
    obtain rfl := Option.some.inj (hscan'.symm.trans hscan'')
    rw [hproject] at hpage
    by_cases hversion : ((moments i).stateOf scan.projectId).dataVersion =
        ((moments 0).stateOf scan.projectId).dataVersion
    · rw [hversion, h.page_eq hscan hversion] at hpage
      exact hpage
    · rw [throughCursors_stale (isKey_lineCursorOf k)
        (fun he => hversion (Int.ofNat_inj.1 he).symm)] at hpage
      cases hpage

/-- Where the version stays, no request is refused. -/
theorem Meets.exists_walk {projectId : Nat} (h : Meets env scanId moments)
    (hasks : ∀ i, Asks (moments i) projectName projectId scanId fileId repositoryName)
    (hversion : ∀ i, ((moments i).stateOf projectId).dataVersion =
      ((moments 0).stateOf projectId).dataVersion) :
    ∃ pages, Keyset.Walk
      (served t floats moments projectName scanId fileId repositoryName sizes) 0 none pages := by
  obtain ⟨scan, hscan, rfl⟩ := (hasks 0).scan
  have hserves := (serves_pendingLinePage t floats (moments 0) scanId fileId
    (fun j => pendingLinesSize (sizes j)) ((moments 0).stateOf scan.projectId).dataVersion
    (pendingLinesFilter fileId)).mapError RequestError.page
  obtain ⟨pages, hw, _⟩ := hserves.exists_walk nodup_lineKey_pendingRows fun i => pageLimit_pos _
  refine ⟨pages, hw.congr fun i token => ?_⟩
  rw [served, (hasks i).pendingLines_eq i token, hversion i, h.page_eq hscan (hversion i)]
  rfl

/-- **Pages of `pending_lines` are pages of one snapshot**: a walk that ends has the pending lines
of its beginning, each once, and it ends where the version stays. -/
theorem pendingLines_snapshot (h : Meets env scanId moments) :
    (∀ pages, Keyset.Walk
      (served t floats moments projectName scanId fileId repositoryName sizes) 0 none pages →
        pages.flatten = pendingSnapshot (moments 0) scanId fileId) ∧
    ∀ projectId, (∀ i, Asks (moments i) projectName projectId scanId fileId repositoryName ∧
        ((moments i).stateOf projectId).dataVersion = ((moments 0).stateOf projectId).dataVersion) →
      ∃ pages, Keyset.Walk
        (served t floats moments projectName scanId fileId repositoryName sizes) 0 none pages :=
  ⟨fun _ hw => h.flatten_eq hw,
    fun _ hsteady => h.exists_walk (fun i => (hsteady i).1) fun i => (hsteady i).2⟩

end Walks

/-! ## Another scan is published between two requests -/

namespace Sample

/-- The first scan, with two pending lines. -/
def scannedDb : Db := Action.exec env Db.empty (firstScan [twoLines])

/-- A scan of another project. -/
def otherScan : Action :=
  .createScanAndIngest { identity "sha9" with projectName := "lib" } .building [twoLines]

/-- The first request is served before the other scan is published, the next ones at successive
times behind it. -/
def laterDb : Nat → Db
  | 0 => scannedDb
  | i + 1 => { Action.exec env scannedDb otherScan with
      now := (Action.exec env scannedDb otherScan).now + i }

/-- A client that asks for one line after the other. -/
def oneByOne : Nat → Option String → Except RequestError (List Nat × Option String) :=
  served .asciiOnly (fun text => ⟨String.ofList text, true, .ok 0⟩) laterDb "fos" 1 1 none
    fun _ => 1

theorem meets_laterDb : Meets env 1 laterDb := by
  refine ⟨⟨[firstScan [twoLines]], rfl⟩, fun i => .single ?_⟩
  cases i with
  | zero =>
    have hok : (otherScan.apply env scannedDb).isOk = true := by decide +kernel
    obtain ⟨db', happly⟩ := exists_of_isOk hok
    refine ⟨otherScan, happly.trans (congrArg _ (Action.exec_of_ok happly).symm), ?_⟩
    rintro (h | ⟨_, h⟩ | h)
    · have hscan : scannedDb.facts.scans.get? 1 ≠ none := by decide +kernel
      exact hscan h
    · cases h
    · cases h
  | succ i =>
    refine ⟨.tick 1, rfl, ?_⟩
    rintro (h | ⟨_, h⟩ | h)
    · exact h
    · cases h
    · cases h

theorem asks_laterDb (i : Nat) : Asks (laterDb i) "fos" 1 1 1 none := by
  have hasks : ∀ db : Db, ProjectRepository.getProjectByName db "fos" = some 1 ∧
      (db.facts.scans.get? 1).map Scan.projectId = some 1 ∧
      (db.facts.files.get? 1).map FileRow.scanId = some 1 → Asks db "fos" 1 1 1 none := by
    rintro db ⟨hproject, hscan, hfile⟩
    obtain ⟨file, hget, hs⟩ := Option.map_eq_some_iff.1 hfile
    exact ⟨hproject, Option.map_eq_some_iff.1 hscan, file, hget, hs, by simp⟩
  cases i with
  | zero => exact hasks scannedDb (by decide +kernel)
  | succ i =>
    have hother := hasks (Action.exec env scannedDb otherScan) (by decide +kernel)
    exact ⟨hother.project, hother.scan, hother.file⟩

end Sample

open Sample in
/-- The client has both lines. -/
theorem pendingLines_snapshot_oneByOne :
    ∃ pages, Keyset.Walk oneByOne 0 none pages ∧ pages.flatten = [1, 2] := by
  obtain ⟨hexact, hends⟩ := pendingLines_snapshot meets_laterDb
  obtain ⟨pages, hw⟩ := hends 1 fun i => ⟨asks_laterDb i, by
    cases i with
    | zero => rfl
    | succ i => exact (by decide +kernel : ((Action.exec env scannedDb otherScan).stateOf
        1).dataVersion = (scannedDb.stateOf 1).dataVersion)⟩
  have hsnapshot : pendingSnapshot (laterDb 0) 1 1 = [1, 2] := by decide +kernel
  exact ⟨pages, hw, (hexact pages hw).trans hsnapshot⟩

end FosCoverage
