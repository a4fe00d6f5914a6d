import FosCoverage.Analysis.AuditRuns
import FosCoverage.Repository.FilePages

/-!
# Keyset pagination

Walks through the paged reads of a scan: a client starts without a cursor and sends the cursor of
every page with its next request, until a page has none.  Cursors pass through the codec of the
application, and every request may ask for another page size.

* `pendingPage` is the read of `ProgressService`; the other three are those of the repository.
* `PagesExact` says of a scan and a file that all walks have every row once and in order, the two
  queries of `filePage` served in any mixture, and that foreign cursors are refused.
* The rows of `lineDetailPage` have the line number and the line id as their key, and a line with
  two active rejections is two rows.  Between the two no page can end without losing one
  (`not_enumeratesOnce_of_twice`).  **The pages are exact exactly when no line of the file has two
  active rejections** (`pagesExact_iff`).

Two imports of one report reach such a line: they share a Candidate, so that the engine run of the
slower one links a line again that was rejected after the other had published.
-/

set_option autoImplicit false

namespace FosCoverage

open Relational Outcome FileStateRepository Application

namespace ProgressService

/-! ## The read of the service -/

/-- `_project` -/
def project (db : Db) (projectName : String) : Except PageError Nat :=
  orFail (.projectNotFound projectName) (ProjectRepository.getProjectByName db projectName)

/-- `_resolve_scan_for_project` -/
def resolveScanForProject (db : Db) (projectId : Nat) (scanId : Option Nat) :
    Except PageError (Option Nat) :=
  let resolved := (scanId.filter (· ≠ 0)).getD ((db.stateOf projectId).currentScanId.getD 0)
  if resolved = 0 then .ok none
  else do
    let scan ← orFail .scanNotFound (ProjectRepository.getScan db resolved)
    require .invalidScanIdentity (scan.projectId = projectId)
    pure (some resolved)

/-- `_derived_gate`: nothing when the marker is stale, else whether the gate passes. -/
def derivedGate (db : Db) (projectId scanId : Nat) : Option Bool :=
  let state := db.stateOf projectId
  if state.fileStateVersion ≠ state.dataVersion then none
  else some (fileStateCompleteness db scanId state.dataVersion none true &&
    pendingConservation db scanId none &&
    scanAggregate db scanId none = scanSummaryFromFacts db scanId none)

/-- What `pending_page` returns. -/
structure PendingPage where
  /-- `scan_id` -/
  scanId : Option Nat
  /-- `page_size` -/
  pageSize : Nat
  /-- `total` -/
  total : Nat
  /-- `rows` -/
  rows : List PendingReference
  /-- `has_more` -/
  hasMore : Bool
  /-- `next_cursor` -/
  nextCursor : Option Cursor

/-- `min(500, max(1, int(page_size)))` -/
def clampedSize (pageSize : Int) : Nat := (min 500 (max 1 pageSize)).toNat

/-- `pending_page` -/
def pendingPage (t : UnicodeTables) (db : Db) (projectName : String) (scanId : Option Nat)
    (pageSize : Int) (cursor : Option Cursor) : Except PageError PendingPage := do
  let projectId ← project db projectName
  let resolved ← resolveScanForProject db projectId scanId
  let size := clampedSize pageSize
  match resolved with
  | none => pure ⟨none, size, 0, [], false, none⟩
  | some scanId => do
    let rows ← pendingLineReferences t db scanId (some (size + 1)) cursor
    let page := Keyset.cut PendingReference.key size rows
    let summary := if derivedGate db projectId scanId = some true then scanAggregate db scanId none
      else scanSummaryFromFacts db scanId none
    pure ⟨some scanId, size, summary.totals.pendingTotal, page.rows, page.hasMore,
      page.next.map referenceCursorOf⟩

/-- The request names the scan. -/
def Names (db : Db) (projectName : String) (scanArg : Option Nat) (scanId : Nat) : Prop :=
  ∃ projectId, project db projectName = .ok projectId ∧
    resolveScanForProject db projectId scanArg = .ok (some scanId)

/-- **`pending_page` is the page behind its cursor.** -/
theorem pendingPage_eq (t : UnicodeTables) {db : Db} {projectName : String} {scanArg : Option Nat}
    {scanId : Nat} (h : Names db projectName scanArg scanId) (pageSize : Int)
    {cursor : Option Cursor} {place : Option (Int × Int × Int)}
    (hc : referenceCursor t cursor = .ok place) :
    (pendingPage t db projectName scanArg pageSize cursor).map (fun p => (p.rows, p.nextCursor)) =
      let page := Keyset.pageAt PendingReference.key (clampedSize pageSize)
        (pendingRows db scanId none) (referencePlace place)
      .ok (page.rows, page.next.map referenceCursorOf) := by
  obtain ⟨projectId, hproject, hscan⟩ := h
  have hlimit : (max 1 ((clampedSize pageSize : Int) + 1)).toNat = clampedSize pageSize + 1 := by
    omega
  have hrows := pendingLineReferences_eq t db scanId ((clampedSize pageSize : Int) + 1) hc
  rw [hlimit] at hrows
  rw [pendingPage, hproject, ok_bind, hscan, ok_bind]
  simp only [hrows, ok_bind]
  rfl

end ProgressService

/-! ## Keys -/

section Keys

variable {db : Db} {scanId fileId : Nat}

/-- A line is listed once. -/
theorem nodup_pendingRows (fileIds : Option (List Nat)) :
    ((pendingRows db scanId fileIds).map PendingReference.lineId).Nodup := by
  rw [pendingRows, List.map_flatMap, List.nodup_flatMap]
  have hmem : ∀ (f : Nat × FileRow) (k : Nat), k ∈ (((db.facts.lines.select fun _ l =>
      l.fileId = f.1).filter fun l => (db.lineReview scanId l.1 l.2).countedPending).map
      fun l => (⟨f.1, l.1, f.2.repositoryName, f.2.filePath, l.2.facts.lineNumber⟩ :
        PendingReference)).map PendingReference.lineId →
      (db.facts.lines.get? k).map LineRow.fileId = some f.1 := by
    intro f k hk
    rw [List.map_map] at hk
    obtain ⟨l, hl, rfl⟩ := List.mem_map.1 hk
    obtain ⟨hrow, hfile⟩ := Keyed.mem_select.1 (List.mem_of_mem_filter hl)
    show (db.facts.lines.get? l.1).map LineRow.fileId = some f.1
    rw [Keyed.mem_rows_iff.1 hrow, Option.map_some, of_decide_eq_true hfile]
  constructor
  · intro f _
    rw [List.map_map]
    exact ((List.filter_sublist.trans List.filter_sublist).map Prod.fst).nodup db.facts.lines.nodup
  · refine (List.pairwise_map.1 (nodup_filesOf db scanId fileIds)).imp fun {f f'} hne => ?_
    refine List.disjoint_left.2 fun k hk hk' => hne ?_
    exact Option.some.inj ((hmem f k hk).symm.trans (hmem f' k hk'))

theorem nodup_key_pendingRows : ((pendingRows db scanId none).map PendingReference.key).Nodup := by
  refine List.Nodup.of_map (fun k => (ofLex (ofLex k).2).2) ?_
  rw [List.map_map]
  refine List.Nodup.of_map Int.toNat ?_
  rw [List.map_map]
  exact nodup_pendingRows none

theorem nodup_lineKey_pendingRows :
    ((pendingRows db scanId (some [fileId])).map PendingReference.lineKey).Nodup := by
  refine List.Nodup.of_map (fun k => (ofLex k).2) ?_
  rw [List.map_map]
  refine List.Nodup.of_map Int.toNat ?_
  rw [List.map_map]
  exact nodup_pendingRows (some [fileId])

/-- A file is listed once. -/
theorem nodup_key_groupedRows (env : Env) (pendingOnly : Bool) (repositoryName : Option String) :
    ((shownRows pendingOnly (groupedRows env db scanId repositoryName)).map FileTotals.key).Nodup := by
  refine (List.filter_sublist.map FileTotals.key).nodup ?_
  refine List.Nodup.of_map Int.toNat ?_
  rw [groupedRows, List.map_map, List.map_map]
  exact ((List.filter_sublist (l := filesOf db scanId none)).map Prod.fst).nodup
    (nodup_filesOf db scanId none)

/-- No file has a number below one. -/
theorem pos_of_mem_groupedRows {env : Env} {pendingOnly : Bool} {repositoryName : Option String}
    {r : FileTotals} (h : r ∈ shownRows pendingOnly (groupedRows env db scanId repositoryName)) :
    (0 : Int) < r.key := by
  obtain ⟨f, hf, rfl⟩ := List.mem_map.1 (List.mem_of_mem_filter h)
  have hfile := (mem_filesOf.1 (List.mem_of_mem_filter hf)).1
  exact Int.natCast_pos.2 (Table.get?_issued hfile).1

/-- No line of the file has two active rejections in the scan. -/
def OneRejection (db : Db) (scanId fileId : Nat) : Prop :=
  ∀ l ∈ db.facts.lines.rows, l.2.fileId = fileId →
    ∀ x ∈ activeRejections db scanId l.1, ∀ x' ∈ activeRejections db scanId l.1, x.1 = x'.1

instance : Decidable (OneRejection db scanId fileId) :=
  inferInstanceAs (Decidable (∀ l ∈ db.facts.lines.rows, l.2.fileId = fileId →
    ∀ x ∈ activeRejections db scanId l.1, ∀ x' ∈ activeRejections db scanId l.1, x.1 = x'.1))

/-- The key of every row of a line. -/
theorem key_of_mem_lineDetails {l : Nat × LineRow} {r : LineDetail}
    (h : r ∈ lineDetails db scanId l) :
    r.key = toLex ((l.2.facts.lineNumber : Int), (l.1 : Int)) := by
  obtain ⟨x, _, rfl⟩ := List.mem_map.1 h
  rfl

/-- A line without two active rejections is one row. -/
theorem length_lineDetails {l : Nat × LineRow} (h : ∀ x ∈ activeRejections db scanId l.1,
    ∀ x' ∈ activeRejections db scanId l.1, x.1 = x'.1) :
    (lineDetails db scanId l).length = 1 := by
  rw [lineDetails, List.length_map]
  have hnodup : ((activeRejections db scanId l.1).map Prod.fst).Nodup :=
    (List.filter_sublist.map Prod.fst).nodup db.domain.rejections.nodup
  cases hx : activeRejections db scanId l.1 with
  | nil => rfl
  | cons x xs =>
    cases xs with
    | nil => rfl
    | cons x' xs =>
      rw [hx] at h hnodup
      have he : x.1 = x'.1 := h x (by simp) x' (by simp)
      rw [List.map_cons, List.map_cons, List.nodup_cons, he] at hnodup
      exact absurd List.mem_cons_self hnodup.1

/-- **The keys of the rows of a file differ exactly when no line has two active rejections.** -/
theorem nodup_key_lineDetailRows_iff :
    ((lineDetailRows db scanId fileId).map LineDetail.key).Nodup ↔
      OneRejection db scanId fileId := by
  rw [lineDetailRows, List.map_flatMap, List.nodup_flatMap]
  constructor
  · rintro ⟨hnodup, _⟩ l hl hfile x hx x' hx'
    have hline := hnodup l (Keyed.mem_select.2 ⟨hl, decide_eq_true hfile⟩)
    rw [lineDetails, List.map_map] at hline
    have hsame := List.inj_on_of_nodup_map hline (CodeDetail.some_mem_leftJoin hx)
      (CodeDetail.some_mem_leftJoin hx') rfl
    rw [Option.some.inj hsame]
  · intro h
    constructor
    · intro l hl
      obtain ⟨hrow, hfile⟩ := Keyed.mem_select.1 hl
      obtain ⟨r, hr⟩ := List.length_eq_one_iff.1
        (length_lineDetails (h l hrow (of_decide_eq_true hfile)))
      rw [hr]
      exact List.nodup_singleton _
    · have hlines : ((db.facts.lines.select fun _ l => l.fileId = fileId).map Prod.fst).Nodup :=
        (List.filter_sublist.map Prod.fst).nodup db.facts.lines.nodup
      refine (List.pairwise_map.1 hlines).imp fun {l l'} hne => ?_
      refine List.disjoint_left.2 fun k hk hk' => hne ?_
      obtain ⟨r, hr, rfl⟩ := List.mem_map.1 hk
      obtain ⟨r', hr', hkey⟩ := List.mem_map.1 hk'
      rw [key_of_mem_lineDetails hr, key_of_mem_lineDetails hr'] at hkey
      have hid : (l'.1 : Int) = l.1 := congrArg (fun k => (ofLex k).2) hkey
      omega

end Keys

/-! ## Walks -/

/-- A walk has every row once, in order, and ends. -/
def EnumeratesOnce {β : Type} (serve : Nat → Option String → Except PageError (List β × Option String))
    (rows : List β) : Prop :=
  ∃ pages, Keyset.Walk serve 0 none pages ∧ pages.flatten = rows

section Walks

variable (env : Env) (t : UnicodeTables) (floats : List Char → PyFloat) (db : Db)

/-- **The walks through the pages of a scan and of a file of it are exact**, whatever the page sizes,
the data version and the filter their cursors are bound to. -/
structure PagesExact (scanId fileId : Nat) : Prop where
  /-- `pending_page`, by file, line number and line. -/
  pendingPage : ∀ (projectName : String) (scanArg : Option Nat),
    ProgressService.Names db projectName scanArg scanId →
    ∀ (sizes : Nat → Int) (dataVersion : Int) (filterKey : String),
      EnumeratesOnce (throughCursors t floats scanId dataVersion filterKey fun i cursor =>
          (ProgressService.pendingPage t db projectName scanArg (sizes i) cursor).map
            fun p => (p.rows, p.nextCursor))
        ((pendingRows db scanId none).insertionSort fun a b => a.key ≤ b.key)
  /-- `pending_line_page`, by line number and line. -/
  pendingLinePage : ∀ (sizes : Nat → Int) (dataVersion : Int) (filterKey : String),
    EnumeratesOnce (throughCursors t floats scanId dataVersion filterKey fun i cursor =>
        (FileStateRepository.pendingLinePage t db scanId fileId (sizes i) cursor).map
          fun p => (p.rows, p.nextCursor))
      (((pendingRows db scanId (some [fileId])).insertionSort fun a b =>
        a.lineKey ≤ b.lineKey).map PendingReference.lineNumber)
  /-- `file_page`, by file.  The rows of the projection are right, and which query serves a page is
  open. -/
  filePage : RowsOk db scanId → ∀ (pendingOnly : Bool) (repositoryName : Option String)
    (sizes : Nat → Int) (versions : Nat → Option Nat) (ready : Nat → Option Bool)
    (dataVersion : Int) (filterKey : String),
    EnumeratesOnce (throughCursors t floats scanId dataVersion filterKey fun i cursor =>
        (FileStateRepository.filePage env t db scanId (sizes i) cursor pendingOnly repositoryName
          (versions i) (ready i)).map fun p => (p.rows, p.nextCursor))
      (((shownRows pendingOnly (groupedRows env db scanId repositoryName)).insertionSort fun a b =>
        a.key ≤ b.key).map (fileItem db scanId pendingOnly))
  /-- `line_detail_page`, by line number and line. -/
  lineDetailPage : ∀ (sizes : Nat → Int) (dataVersion : Int) (filterKey : String),
    EnumeratesOnce (throughCursors t floats scanId dataVersion filterKey fun i cursor =>
        (FileStateRepository.lineDetailPage t db scanId fileId (sizes i) cursor).map
          fun p => (p.rows, p.nextCursor))
      ((lineDetailRows db scanId fileId).insertionSort fun a b => a.key ≤ b.key)
  /-- A cursor that was made for another scan, version or filter. -/
  foreign : ∀ (cursor : Cursor), cursor.IsKey → ∀ (scanId' dataVersion dataVersion' : Int)
    (filterKey filterKey' : String), ¬ ((scanId : Int) = scanId' ∧ dataVersion = dataVersion' ∧
      filterKey = filterKey') →
    decodeKeysetCursor t floats (.text (tokenOf scanId dataVersion filterKey cursor)) scanId'
      dataVersion' filterKey' = .error .cursorStale

variable {env t floats db} {scanId fileId : Nat}

section Serves

variable (env t floats db scanId fileId) (sizes : Nat → Int) (dataVersion : Int) (filterKey : String)

theorem serves_pendingPage {projectName : String} {scanArg : Option Nat}
    (h : ProgressService.Names db projectName scanArg scanId) :
    Keyset.Serves (throughCursors t floats scanId dataVersion filterKey fun i cursor =>
        (ProgressService.pendingPage t db projectName scanArg (sizes i) cursor).map
          fun p => (p.rows, p.nextCursor))
      PendingReference.key (pendingRows db scanId none) id
      (fun k => tokenOf scanId dataVersion filterKey (referenceCursorOf k))
      fun i => ProgressService.clampedSize (sizes i) := by
  refine serves_throughCursors isKey_referenceCursorOf (fun i => ?_) fun i k => ?_
  · rw [ProgressService.pendingPage_eq t h (sizes i)
      (show referenceCursor t none = .ok none from rfl), List.map_id]
    rfl
  · rw [ProgressService.pendingPage_eq t h (sizes i) (referenceCursor_sortKeys t k), List.map_id]
    rfl

theorem serves_pendingLinePage :
    Keyset.Serves (throughCursors t floats scanId dataVersion filterKey fun i cursor =>
        (FileStateRepository.pendingLinePage t db scanId fileId (sizes i) cursor).map
          fun p => (p.rows, p.nextCursor))
      PendingReference.lineKey (pendingRows db scanId (some [fileId])) PendingReference.lineNumber
      (fun k => tokenOf scanId dataVersion filterKey (lineCursorOf k))
      fun i => pageLimit (sizes i) := by
  refine serves_throughCursors isKey_lineCursorOf (fun i => ?_) fun i k => ?_
  · rw [pendingLinePage_eq t db scanId fileId (sizes i)
      (show lineCursor t none = .ok none from rfl)]
    rfl
  · rw [pendingLinePage_eq t db scanId fileId (sizes i) (lineCursor_sortKeys t k)]
    rfl

theorem serves_lineDetailPage :
    Keyset.Serves (throughCursors t floats scanId dataVersion filterKey fun i cursor =>
        (FileStateRepository.lineDetailPage t db scanId fileId (sizes i) cursor).map
          fun p => (p.rows, p.nextCursor))
      LineDetail.key (lineDetailRows db scanId fileId) id
      (fun k => tokenOf scanId dataVersion filterKey (lineCursorOf k))
      fun i => pageLimit (sizes i) := by
  refine serves_throughCursors isKey_lineCursorOf (fun i => ?_) fun i k => ?_
  · rw [lineDetailPage_eq t db scanId fileId (sizes i)
      (show lineCursor t none = .ok none from rfl), List.map_id]
    rfl
  · rw [lineDetailPage_eq t db scanId fileId (sizes i) (lineCursor_sortKeys t k), List.map_id]
    rfl

/-- In front of all files is behind the file with number zero. -/
theorem pageAt_zero (pendingOnly : Bool) (repositoryName : Option String) (limit : Nat) :
    Keyset.pageAt FileTotals.key limit
        (shownRows pendingOnly (groupedRows env db scanId repositoryName)) (0 : Int) =
      Keyset.pageAt FileTotals.key limit
        (shownRows pendingOnly (groupedRows env db scanId repositoryName)) ⊥ := by
  have hbehind : ∀ place : WithBot Int, place ≤ (0 : Int) →
      Paging.behind (Keyset.above FileTotals.key)
        (shownRows pendingOnly (groupedRows env db scanId repositoryName)) place =
        shownRows pendingOnly (groupedRows env db scanId repositoryName) := by
    intro place hplace
    refine List.filter_eq_self.2 fun r hr => decide_eq_true (lt_of_le_of_lt hplace ?_)
    exact WithBot.coe_lt_coe.2 (pos_of_mem_groupedRows hr)
  rw [Keyset.pageAt, Keyset.pageAt, Keyset.rest, Keyset.rest, hbehind _ le_rfl, hbehind _ bot_le]

theorem serves_filePage (hrows : RowsOk db scanId) (pendingOnly : Bool)
    (repositoryName : Option String) (versions : Nat → Option Nat) (ready : Nat → Option Bool) :
    Keyset.Serves (throughCursors t floats scanId dataVersion filterKey fun i cursor =>
        (FileStateRepository.filePage env t db scanId (sizes i) cursor pendingOnly repositoryName
          (versions i) (ready i)).map fun p => (p.rows, p.nextCursor))
      FileTotals.key (shownRows pendingOnly (groupedRows env db scanId repositoryName))
      (fileItem db scanId pendingOnly)
      (fun k => tokenOf scanId dataVersion filterKey (fileCursorOf k))
      fun i => pageLimit (sizes i) := by
  refine serves_throughCursors isKey_fileCursorOf (fun i => ?_) fun i k => ?_
  · rw [filePage_eq t db scanId (sizes i) env hrows (show fileCursor t none = .ok 0 from rfl)]
    rw [pageAt_zero]
    rfl
  · rw [filePage_eq t db scanId (sizes i) env hrows (fileCursor_sortKeys t k)]
    rfl

end Serves

/-- **A walk through keyset pages whose rows have different keys is exact.** -/
theorem enumeratesOnce_of_serves {α β κ : Type} [LinearOrder κ] {key : α → κ} {rows : List α}
    {shown : α → β} {token : κ → String} {limits : Nat → Nat}
    {serve : Nat → Option String → Except PageError (List β × Option String)}
    (h : Keyset.Serves serve key rows shown token limits) (hn : (rows.map key).Nodup)
    (hlimits : ∀ i, 0 < limits i) :
    EnumeratesOnce serve ((rows.insertionSort fun a b => key a ≤ key b).map shown) :=
  h.exists_walk hn hlimits

/-- A line with two active rejections is lost somewhere between pages of one row. -/
theorem not_enumeratesOnce_of_twice (h : ¬ OneRejection db scanId fileId) (dataVersion : Int)
    (filterKey : String) :
    ¬ EnumeratesOnce (throughCursors t floats scanId dataVersion filterKey fun _ cursor =>
        (FileStateRepository.lineDetailPage t db scanId fileId 1 cursor).map
          fun p => (p.rows, p.nextCursor))
      ((lineDetailRows db scanId fileId).insertionSort fun a b => a.key ≤ b.key) := by
  have hserves := serves_lineDetailPage t floats db scanId fileId (fun _ => 1) dataVersion filterKey
  have hwalk := hserves.not_exists_walk (fun _ => rfl) (mt nodup_key_lineDetailRows_iff.1 h)
  rwa [List.map_id] at hwalk

/-- **Keyset pagination enumerates exactly once** if and only if no line of the file has two active
rejections. -/
theorem pagesExact_iff : PagesExact env t floats db scanId fileId ↔ OneRejection db scanId fileId := by
  constructor
  · intro h
    by_contra hnot
    exact not_enumeratesOnce_of_twice hnot 0 "" (h.lineDetailPage (fun _ => 1) 0 "")
  · intro h
    have hpos : ∀ (sizes : Nat → Int) i, 0 < ProgressService.clampedSize (sizes i) := by
      intro sizes i
      unfold ProgressService.clampedSize
      omega
    constructor
    case pendingPage =>
      intro projectName scanArg hnames sizes dataVersion filterKey
      have hwalk := enumeratesOnce_of_serves
        (serves_pendingPage t floats db scanId sizes dataVersion filterKey hnames) nodup_key_pendingRows (hpos sizes)
      rwa [List.map_id] at hwalk
    case pendingLinePage =>
      intro sizes dataVersion filterKey
      exact enumeratesOnce_of_serves (serves_pendingLinePage t floats db scanId fileId sizes dataVersion filterKey)
        nodup_lineKey_pendingRows fun i => pageLimit_pos (sizes i)
    case filePage =>
      intro hrows pendingOnly repositoryName sizes versions ready dataVersion filterKey
      exact enumeratesOnce_of_serves (serves_filePage env t floats db scanId sizes dataVersion filterKey hrows pendingOnly
        repositoryName versions ready) (nodup_key_groupedRows env pendingOnly repositoryName)
        fun i => pageLimit_pos (sizes i)
    case lineDetailPage =>
      intro sizes dataVersion filterKey
      have hwalk := enumeratesOnce_of_serves (serves_lineDetailPage t floats db scanId fileId sizes dataVersion filterKey)
        (nodup_key_lineDetailRows_iff.2 h) fun i => pageLimit_pos (sizes i)
      rwa [List.map_id] at hwalk
    case foreign =>
      intro cursor hc scanId' dataVersion dataVersion' filterKey filterKey' hne
      obtain ⟨text, htext, hdecode⟩ := decodeKeysetCursor_encode t floats hc scanId dataVersion
        scanId' dataVersion' filterKey filterKey'
      rw [tokenOf, htext, Option.getD_some, hdecode, if_neg hne]

end Walks

/-! ### An imported scan -/

namespace Sample

/-- The projection of the imported scan. -/
theorem rowsOk_inheritedDb : RowsOk inheritedDb 2 := by
  have hrows : ∀ f ∈ inheritedDb.facts.files.rows, f.2.scanId = 2 →
      (inheritedDb.fileStates.get? (2, f.1)).map FileState.totals =
        some (Totals.count (fileReviews inheritedDb 2 f.1)) := by decide +kernel
  exact fun f file hf hs => hrows (f, file) (Keyed.get?_eq_some_iff.1 hf) hs

end Sample

open Sample in
/-- The pages of the files of an imported scan. -/
theorem pagesExact_iff_inheritedDb : RowsOk inheritedDb 2 ∧
    PagesExact env .asciiOnly (fun text => ⟨String.ofList text, true, .ok 0⟩) inheritedDb 2 2 :=
  ⟨rowsOk_inheritedDb, pagesExact_iff.2 (by decide +kernel)⟩

end FosCoverage
