import Mathlib.Data.Prod.Lex
import FosCoverage.Lib.Keyset
import FosCoverage.Analysis.Projection
import FosCoverage.CodeDetail.Overlay
import FosCoverage.Service.Cursor

/-!
# Paged reads of a scan

The reads of `FileStateRepository` that return a page and a cursor for the next one.

* `filePage` lists the files of a scan by id.  It has two queries: one over the projection, when
  every file has a row of it, and one that counts the lines again.
* `pendingLinePage` and `pendingLineReferences` list pending lines, of a file by line number and of
  a scan by file and line number; the id of the line comes last.
* `lineDetailPage` lists the lines of a file with everything a reviewer sees.  It joins the active
  rejections of a line, of which the schema lets a line have several, so that one line may be
  several rows.

Each of them fetches one row more than the page holds, with a condition that is written out column
by column.  The condition is the order of the keys (`pendingLineReferences_eq`, `linesBehind_eq`,
`filesBehind_eq`).  A cursor the function cannot read is `PAGINATION_CURSOR_STALE`.  Timestamps are
left out.
-/

set_option autoImplicit false

namespace FosCoverage

open Relational Outcome CodeDetail

namespace FileStateRepository

/-! ## Limits and cursors -/

/-- `min(500, max(1, int(limit or 200)))` -/
def pageLimit (limit : Int) : Nat := (min 500 (max 1 (if limit = 0 then 200 else limit))).toNat

theorem pageLimit_pos (limit : Int) : 0 < pageLimit limit := by
  unfold pageLimit
  split <;> omega

section Cursors

variable (t : UnicodeTables)

/-- `int(cursor[key])`, where a missing key and a value that is no number make the cursor stale. -/
def cursorInt (cursor : Cursor) (key : String) : Except PageError Int :=
  match cursor.lookup key with
  | none => .error .cursorStale
  | some v =>
    match v.toInt t with
    | .ok n => .ok n
    | .error .overflowError => .error (.number .overflowError)
    | .error _ => .error .cursorStale

/-- The place of a cursor `{"line_number", "line_id"}`; an empty one is none. -/
def lineCursor (cursor : Option Cursor) : Except PageError (Option (Int × Int)) :=
  match cursor with
  | none => .ok none
  | some [] => .ok none
  | some (e :: cursor) => do
    let lineNumber ← cursorInt t (e :: cursor) "line_number"
    let lineId ← cursorInt t (e :: cursor) "line_id"
    pure (some (lineNumber, lineId))

/-- The place of a cursor `{"file_id", "line_number", "line_id"}`. -/
def referenceCursor (cursor : Option Cursor) : Except PageError (Option (Int × Int × Int)) :=
  match cursor with
  | none => .ok none
  | some [] => .ok none
  | some (e :: cursor) => do
    let fileId ← cursorInt t (e :: cursor) "file_id"
    let lineNumber ← cursorInt t (e :: cursor) "line_number"
    let lineId ← cursorInt t (e :: cursor) "line_id"
    pure (some (fileId, lineNumber, lineId))

/-- `int((cursor or {}).get("file_id") or 0)` -/
def fileCursor (cursor : Option Cursor) : Except PageError Int :=
  match ((Json.get (cursor.getD []) "file_id").or (.int 0)).toInt t with
  | .ok n => .ok n
  | .error e => .error (.number e)

end Cursors

/-- `{"line_number": .., "line_id": ..}` -/
def lineCursorOf (k : Int ×ₗ Int) : Cursor :=
  [("line_number", .int (ofLex k).1), ("line_id", .int (ofLex k).2)]

/-- `{"file_id": .., "line_number": .., "line_id": ..}` -/
def referenceCursorOf (k : Int ×ₗ Int ×ₗ Int) : Cursor :=
  [("file_id", .int (ofLex k).1), ("line_number", .int (ofLex (ofLex k).2).1),
    ("line_id", .int (ofLex (ofLex k).2).2)]

/-- `{"file_id": ..}` -/
def fileCursorOf (k : Int) : Cursor := [("file_id", .int k)]

/-! ## Pending lines -/

/-- A row of `pending_line_references`. -/
structure PendingReference where
  /-- `file_id` -/
  fileId : Nat
  /-- `line_id` -/
  lineId : Nat
  /-- `repository_name` -/
  repositoryName : String
  /-- `file_path` -/
  filePath : String
  /-- `line_number` -/
  lineNumber : Nat
  deriving DecidableEq, Repr

namespace PendingReference

/-- `ORDER BY l.line_number, l.id` -/
def lineKey (r : PendingReference) : Int ×ₗ Int := toLex ((r.lineNumber : Int), (r.lineId : Int))

/-- `ORDER BY f.id, l.line_number, l.id` -/
def key (r : PendingReference) : Int ×ₗ Int ×ₗ Int := toLex ((r.fileId : Int), r.lineKey)

end PendingReference

/-- The pending lines of the selected files of a scan. -/
def pendingRows (db : Db) (scanId : Nat) (fileIds : Option (List Nat)) : List PendingReference :=
  (filesOf db scanId fileIds).flatMap fun f =>
    ((db.facts.lines.select fun _ l => l.fileId = f.1).filter fun l =>
      (db.lineReview scanId l.1 l.2).countedPending).map fun l =>
        ⟨f.1, l.1, f.2.repositoryName, f.2.filePath, l.2.facts.lineNumber⟩

/-- `l.line_number > ? OR (l.line_number = ? AND l.id > ?)` -/
def behindLine (place : Int × Int) (lineNumber lineId : Nat) : Bool :=
  place.1 < lineNumber ∨ ((lineNumber : Int) = place.1 ∧ place.2 < lineId)

/-- `f.id > ? OR (f.id = ? AND l.line_number > ?) OR (f.id = ? AND l.line_number = ? AND l.id > ?)`
-/
def behindReference (place : Int × Int × Int) (r : PendingReference) : Bool :=
  place.1 < r.fileId ∨ ((r.fileId : Int) = place.1 ∧ place.2.1 < r.lineNumber) ∨
    ((r.fileId : Int) = place.1 ∧ (r.lineNumber : Int) = place.2.1 ∧ place.2.2 < r.lineId)

/-- `pending_line_references` -/
def pendingLineReferences (t : UnicodeTables) (db : Db) (scanId : Nat) (limit : Option Int)
    (cursor : Option Cursor) : Except PageError (List PendingReference) := do
  let place ← referenceCursor t cursor
  let rows := ((pendingRows db scanId none).filter fun r =>
    place.all fun p => behindReference p r).insertionSort fun a b => a.key ≤ b.key
  match limit with
  | none => pure rows
  | some limit => pure (rows.take (max 1 limit).toNat)

/-- What `pending_line_page` returns. -/
structure PendingLinePage where
  /-- `total` -/
  total : Nat
  /-- `rows`: line numbers. -/
  rows : List Nat
  /-- `has_more` -/
  hasMore : Bool
  /-- `next_cursor` -/
  nextCursor : Option Cursor

/-- `pending_line_page` -/
def pendingLinePage (t : UnicodeTables) (db : Db) (scanId fileId : Nat) (limit : Int)
    (cursor : Option Cursor) : Except PageError PendingLinePage := do
  let rows := pendingRows db scanId (some [fileId])
  let place ← lineCursor t cursor
  let fetched := ((rows.filter fun r => place.all fun p =>
    behindLine p r.lineNumber r.lineId).insertionSort fun a b => a.lineKey ≤ b.lineKey).take
      (pageLimit limit + 1)
  let page := Keyset.cut PendingReference.lineKey (pageLimit limit) fetched
  pure ⟨rows.length, page.rows.map PendingReference.lineNumber, page.hasMore,
    page.next.map lineCursorOf⟩

/-! ## Lines with their reviews -/

/-- A row of `line_detail_page`. -/
structure LineDetail where
  /-- `line_id` -/
  lineId : Nat
  /-- `line_number` -/
  lineNumber : Nat
  /-- `line_text` -/
  lineText : String
  /-- `coverage_state` -/
  coverageState : String
  /-- `suggested_reviewer` -/
  suggestedReviewer : String
  /-- `status` -/
  status : Option String
  /-- `is_draft` -/
  isDraft : Option Bool
  /-- `reviewer` -/
  reviewer : Option String
  /-- `coverage_method` -/
  coverageMethod : Option String
  /-- `uncovered_reason` -/
  uncoveredReason : Option String
  /-- `review_state` -/
  reviewState : OverlayReview
  /-- `relation_origin` -/
  relationOrigin : Option RelationOrigin
  /-- `analysis_record_id` -/
  analysisRecordId : Option Nat
  /-- `relation_revision` -/
  relationRevision : Option Nat
  /-- `relation_is_active` -/
  relationIsActive : Option Bool
  /-- `rejection_id` -/
  rejectionId : Option Nat
  /-- `rejection_revision` -/
  rejectionRevision : Option Nat
  deriving DecidableEq, Repr

/-- `ORDER BY l.line_number, l.id` -/
def LineDetail.key (r : LineDetail) : Int ×ₗ Int := toLex ((r.lineNumber : Int), (r.lineId : Int))

/-- `CASE WHEN x.id IS NOT NULL .. WHEN q.id IS NOT NULL .. ELSE .. END` -/
def caseOf {α : Type} (x : Option (Nat × Rejection)) (q : Option Link) (rejected : α) (related : α)
    (legacy : α) : α :=
  if x.isSome then rejected else if q.isSome then related else legacy

/-- One row of the join of `line_detail_page`. -/
def lineDetail (lineId : Nat) (review : LineReview) (x : Option (Nat × Rejection)) : LineDetail :=
  let facts := review.line.facts
  let content := review.record.map Record.content
  let q := review.link
  let a := review.analysis
  { lineId := lineId
    lineNumber := facts.lineNumber
    lineText := facts.lineText
    coverageState := facts.coverageState
    suggestedReviewer := facts.suggestedReviewer
    status := caseOf x q (some "") (content.map Content.conclusionStatus) (a.map Analysis.status)
    isDraft := caseOf x q (some true)
      (q.map fun q => q.reviewState = .manualDraft ∨ q.reviewState = .inheritedPending)
      (a.map Analysis.isDraft)
    reviewer := caseOf x q (some "") (q.map Link.reviewedBy) (a.map Analysis.reviewer)
    coverageMethod := caseOf x q (some "") (content.map Content.coverageMethod)
      (a.map Analysis.coverageMethod)
    uncoveredReason := caseOf x q (some "") (content.map Content.uncoveredReason)
      (a.map Analysis.uncoveredReason)
    reviewState := if x.isSome then .inheritanceRejected
      else (q.map fun q => OverlayReview.relation q.reviewState).getD .absent
    relationOrigin := q.map Link.relationOrigin
    analysisRecordId := q.map Link.recordId
    relationRevision := q.map Link.relationRevision
    relationIsActive := q.map Link.isActive
    rejectionId := x.map Prod.fst
    rejectionRevision := x.map fun x => x.2.rejectionRevision }

/-- `coverage_inheritance_rejections x ON x.scan_id=? AND x.line_id=l.id AND x.is_active=1` -/
def activeRejections (db : Db) (scanId lineId : Nat) : List (Nat × Rejection) :=
  db.domain.rejections.select fun _ x =>
    x.scanId = scanId ∧ x.lineId = lineId ∧ x.isActive = true

/-- The rows of a line; a relation is unique in its scan and line, a rejection is not. -/
def lineDetails (db : Db) (scanId : Nat) (l : Nat × LineRow) : List LineDetail :=
  (leftJoin (activeRejections db scanId l.1)).map (lineDetail l.1 (db.lineReview scanId l.1 l.2))

/-- The rows of a file. -/
def lineDetailRows (db : Db) (scanId fileId : Nat) : List LineDetail :=
  (db.facts.lines.select fun _ l => l.fileId = fileId).flatMap (lineDetails db scanId)

/-- What `line_detail_page` returns. -/
structure LineDetailPage where
  /-- `rows` -/
  rows : List LineDetail
  /-- `has_more` -/
  hasMore : Bool
  /-- `next_cursor` -/
  nextCursor : Option Cursor

/-- `line_detail_page` -/
def lineDetailPage (t : UnicodeTables) (db : Db) (scanId fileId : Nat) (limit : Int)
    (cursor : Option Cursor) : Except PageError LineDetailPage := do
  let place ← lineCursor t cursor
  let fetched := (((lineDetailRows db scanId fileId).filter fun r => place.all fun p =>
    behindLine p r.lineNumber r.lineId).insertionSort fun a b => a.key ≤ b.key).take
      (pageLimit limit + 1)
  let page := Keyset.cut LineDetail.key (pageLimit limit) fetched
  pure ⟨page.rows, page.hasMore, page.next.map lineCursorOf⟩

/-! ## Files -/

/-- A row of the two queries of `file_page`. -/
structure FileTotals where
  /-- `file_id` -/
  fileId : Nat
  /-- `repository_name` -/
  repositoryName : String
  /-- `file_path` -/
  filePath : String
  /-- The nine totals. -/
  totals : Totals
  deriving DecidableEq, Repr

/-- `ORDER BY f.id` -/
def FileTotals.key (r : FileTotals) : Int := r.fileId

/-- A row `file_page` returns. -/
structure FileItem where
  /-- The columns of the query. -/
  row : FileTotals
  /-- `scan_id` -/
  scanId : Nat
  /-- `unanalyzed` -/
  unanalyzed : Nat
  /-- `pending_line_numbers_complete` -/
  pendingLineNumbersComplete : Bool
  /-- `pending_line_numbers` -/
  pendingLineNumbers : List Nat
  deriving DecidableEq, Repr

/-- `pending_line_numbers_for_file` -/
def pendingLineNumbersForFile (db : Db) (scanId fileId : Nat) (limit : Int) : List Nat :=
  ((((fileReviews db scanId fileId).filter LineReview.countedPending).map fun r =>
    r.line.facts.lineNumber).insertionSort (· ≤ ·)).take (min 200 (max 1
      (if limit = 0 then 200 else limit))).toNat

/-- The fields `file_page` adds to a row. -/
def fileItem (db : Db) (scanId : Nat) (pendingOnly : Bool) (row : FileTotals) : FileItem :=
  let complete := pendingOnly && row.totals.pendingTotal ≤ 200
  { row := row
    scanId := scanId
    unanalyzed := row.totals.pendingTotal
    pendingLineNumbersComplete := complete
    pendingLineNumbers :=
      if complete then pendingLineNumbersForFile db scanId row.fileId 200 else [] }

/-- The files of a scan, all or those of one repository. -/
def repositoryFiles (env : Env) (db : Db) (scanId : Nat) (repositoryName : Option String) :
    List (Nat × FileRow) :=
  (filesOf db scanId none).filter fun f =>
    ∀ r ∈ repositoryName, env.collates f.2.repositoryName r = true

/-- Every file has a row of the projection that is not newer than asked for, and there is one. -/
def useDerived (env : Env) (db : Db) (scanId : Nat) (repositoryName : Option String)
    (dataVersion : Option Nat) (derivedReady : Option Bool) : Bool :=
  let files := repositoryFiles env db scanId repositoryName
  let matching := files.countP fun f =>
    (db.fileStates.get? (scanId, f.1)).any fun s => dataVersion.all (s.dataVersion ≤ ·)
  derivedReady ≠ some false ∧ 0 < files.length ∧ files.length = matching

/-- The join of the files with the projection. -/
def derivedRows (env : Env) (db : Db) (scanId : Nat) (repositoryName : Option String) :
    List FileTotals :=
  (repositoryFiles env db scanId repositoryName).filterMap fun f =>
    (db.fileStates.get? (scanId, f.1)).map fun s =>
      ⟨f.1, f.2.repositoryName, f.2.filePath, s.totals⟩

/-- The grouped statement over the files and their lines. -/
def groupedRows (env : Env) (db : Db) (scanId : Nat) (repositoryName : Option String) :
    List FileTotals :=
  (repositoryFiles env db scanId repositoryName).map fun f =>
    ⟨f.1, f.2.repositoryName, f.2.filePath, Totals.count (fileReviews db scanId f.1)⟩

/-- The rows of either query that pass `pending_total > 0`, if that is asked for. -/
def shownRows (pendingOnly : Bool) (rows : List FileTotals) : List FileTotals :=
  rows.filter fun r => pendingOnly = false ∨ 0 < r.totals.pendingTotal

/-- What `file_page` returns. -/
structure FilePage where
  /-- `rows` -/
  rows : List FileItem
  /-- `has_more` -/
  hasMore : Bool
  /-- `next_cursor` -/
  nextCursor : Option Cursor

/-- `file_page` -/
def filePage (env : Env) (t : UnicodeTables) (db : Db) (scanId : Nat) (limit : Int)
    (cursor : Option Cursor) (pendingOnly : Bool) (repositoryName : Option String)
    (dataVersion : Option Nat) (derivedReady : Option Bool) : Except PageError FilePage := do
  let afterId ← fileCursor t cursor
  let rows := if useDerived env db scanId repositoryName dataVersion derivedReady then
      derivedRows env db scanId repositoryName
    else groupedRows env db scanId repositoryName
  let fetched := (((shownRows pendingOnly rows).filter fun r =>
    afterId < (r.fileId : Int)).insertionSort fun a b => a.key ≤ b.key).take (pageLimit limit + 1)
  let page := Keyset.cut FileTotals.key (pageLimit limit) fetched
  pure ⟨page.rows.map (fileItem db scanId pendingOnly), page.hasMore, page.next.map fileCursorOf⟩

/-! ## Cursors are places -/

section Places

variable (t : UnicodeTables)

theorem isKey_lineCursorOf (k : Int ×ₗ Int) : (lineCursorOf k).IsKey where
  ne_nil := List.cons_ne_nil _ _
  nodup := by
    show ["line_number", "line_id"].Nodup
    decide
  int := by simp [lineCursorOf]

theorem isKey_referenceCursorOf (k : Int ×ₗ Int ×ₗ Int) : (referenceCursorOf k).IsKey where
  ne_nil := List.cons_ne_nil _ _
  nodup := by
    show ["file_id", "line_number", "line_id"].Nodup
    decide
  int := by simp [referenceCursorOf]

theorem isKey_fileCursorOf (k : Int) : (fileCursorOf k).IsKey where
  ne_nil := List.cons_ne_nil _ _
  nodup := List.nodup_singleton _
  int := by simp [fileCursorOf]

/-- A number of a cursor, in whatever order its entries came back. -/
theorem cursorInt_sortKeys {cursor : Cursor} (hc : cursor.IsKey) {key : String} {n : Int}
    (h : cursor.lookup key = some (.int n)) :
    cursorInt t (JsonText.sortKeys cursor) key = .ok n := by
  rw [cursorInt, JsonText.lookup_sortKeys hc.nodup, h]
  rfl

theorem sortKeys_ne_nil {cursor : Cursor} (hc : cursor.IsKey) :
    JsonText.sortKeys cursor ≠ [] := fun h =>
  hc.ne_nil (JsonText.perm_sortKeys cursor |>.symm.trans (List.Perm.of_eq h)).eq_nil

theorem lineCursor_sortKeys (k : Int ×ₗ Int) :
    lineCursor t (some (JsonText.sortKeys (lineCursorOf k))) = .ok (some (ofLex k)) := by
  have hc := isKey_lineCursorOf k
  have hnumber : cursorInt t (JsonText.sortKeys (lineCursorOf k)) "line_number" =
      .ok (ofLex k).1 := cursorInt_sortKeys t hc rfl
  have hid : cursorInt t (JsonText.sortKeys (lineCursorOf k)) "line_id" = .ok (ofLex k).2 :=
    cursorInt_sortKeys t hc rfl
  obtain ⟨e, cursor, he⟩ := List.exists_cons_of_ne_nil (sortKeys_ne_nil hc)
  rw [he] at hnumber hid ⊢
  rw [lineCursor, hnumber, hid]
  rfl

theorem referenceCursor_sortKeys (k : Int ×ₗ Int ×ₗ Int) :
    referenceCursor t (some (JsonText.sortKeys (referenceCursorOf k))) =
      .ok (some ((ofLex k).1, ofLex (ofLex k).2)) := by
  have hc := isKey_referenceCursorOf k
  have hfile : cursorInt t (JsonText.sortKeys (referenceCursorOf k)) "file_id" = .ok (ofLex k).1 :=
    cursorInt_sortKeys t hc rfl
  have hnumber : cursorInt t (JsonText.sortKeys (referenceCursorOf k)) "line_number" =
      .ok (ofLex (ofLex k).2).1 := cursorInt_sortKeys t hc rfl
  have hid : cursorInt t (JsonText.sortKeys (referenceCursorOf k)) "line_id" =
      .ok (ofLex (ofLex k).2).2 := cursorInt_sortKeys t hc rfl
  obtain ⟨e, cursor, he⟩ := List.exists_cons_of_ne_nil (sortKeys_ne_nil hc)
  rw [he] at hfile hnumber hid ⊢
  rw [referenceCursor, hfile, hnumber, hid]
  rfl

theorem fileCursor_sortKeys (k : Int) :
    fileCursor t (some (JsonText.sortKeys (fileCursorOf k))) = .ok k := by
  have hget : Json.get (JsonText.sortKeys (fileCursorOf k)) "file_id" = .int k := by
    rw [Json.get, Json.getD, JsonText.lookup_sortKeys (isKey_fileCursorOf k).nodup]
    rfl
  have hor : (Json.int k).or (.int 0) = .int k := by
    by_cases hzero : k = 0
    · rw [hzero]
      rfl
    · rw [Json.or, if_pos (by simpa [Json.truthy] using hzero)]
  rw [fileCursor, Option.getD_some, hget, hor]
  rfl

/-- The condition on a line is the order of the keys. -/
theorem behindLine_eq (place : Int × Int) (lineNumber lineId : Nat) :
    behindLine place lineNumber lineId =
      decide (toLex place < toLex ((lineNumber : Int), (lineId : Int))) := by
  rw [behindLine, decide_eq_decide, Prod.Lex.toLex_lt_toLex]
  exact or_congr Iff.rfl (and_congr_left' eq_comm)

/-- The condition on a reference is the order of the keys. -/
theorem behindReference_eq (place : Int × Int × Int) (r : PendingReference) :
    behindReference place r = decide (toLex (place.1, toLex place.2) < r.key) := by
  rw [behindReference, decide_eq_decide, PendingReference.key, Prod.Lex.toLex_lt_toLex,
    PendingReference.lineKey, Prod.Lex.toLex_lt_toLex]
  simp only [@eq_comm Int place.1, @eq_comm Int place.2.1, ← and_or_left]

end Places

/-! ## Every read is a page behind a place -/

section Pages

variable (t : UnicodeTables) (db : Db) (scanId fileId : Nat) (limit : Int)

/-- The place of a cursor on lines. -/
def linePlace : Option (Int × Int) → WithBot (Int ×ₗ Int)
  | none => ⊥
  | some p => (toLex p : Int ×ₗ Int)

/-- The rows behind the cursor, whatever rows have line numbers and ids. -/
theorem linesBehind_eq {α : Type} (key : α → Int ×ₗ Int) (lineNumber lineId : α → Nat)
    (hkey : ∀ r, key r = toLex ((lineNumber r : Int), (lineId r : Int))) (rows : List α)
    (place : Option (Int × Int)) :
    (rows.filter fun r => place.all fun p => behindLine p (lineNumber r) (lineId r)).insertionSort
      (fun a b => key a ≤ key b) = Keyset.rest key rows (linePlace place) := by
  rw [Keyset.rest, Paging.behind]
  congr 1
  refine List.filter_congr fun r _ => ?_
  cases place with
  | none => exact (decide_eq_true (WithBot.bot_lt_coe (key r))).symm
  | some p =>
    rw [Option.all_some, behindLine_eq, ← hkey, decide_eq_decide]
    exact WithBot.coe_lt_coe.symm

/-- **`pending_line_page` is the page behind its cursor.** -/
theorem pendingLinePage_eq {cursor : Option Cursor} {place : Option (Int × Int)}
    (hc : lineCursor t cursor = .ok place) :
    pendingLinePage t db scanId fileId limit cursor =
      let rows := pendingRows db scanId (some [fileId])
      let page := Keyset.pageAt PendingReference.lineKey (pageLimit limit) rows (linePlace place)
      .ok ⟨rows.length, page.rows.map PendingReference.lineNumber, page.hasMore,
        page.next.map lineCursorOf⟩ := by
  rw [pendingLinePage, hc, Outcome.ok_bind]
  rw [linesBehind_eq PendingReference.lineKey PendingReference.lineNumber PendingReference.lineId
    (fun _ => rfl)]
  rfl

/-- **`line_detail_page` is the page behind its cursor.** -/
theorem lineDetailPage_eq {cursor : Option Cursor} {place : Option (Int × Int)}
    (hc : lineCursor t cursor = .ok place) :
    lineDetailPage t db scanId fileId limit cursor =
      let page := Keyset.pageAt LineDetail.key (pageLimit limit) (lineDetailRows db scanId fileId)
        (linePlace place)
      .ok ⟨page.rows, page.hasMore, page.next.map lineCursorOf⟩ := by
  rw [lineDetailPage, hc, Outcome.ok_bind]
  rw [linesBehind_eq LineDetail.key LineDetail.lineNumber LineDetail.lineId (fun _ => rfl)]
  rfl

/-- The place of a cursor on references. -/
def referencePlace : Option (Int × Int × Int) → WithBot (Int ×ₗ Int ×ₗ Int)
  | none => ⊥
  | some p => (toLex (p.1, toLex p.2) : Int ×ₗ Int ×ₗ Int)

/-- **`pending_line_references` has the rows behind its cursor.** -/
theorem pendingLineReferences_eq {cursor : Option Cursor} {place : Option (Int × Int × Int)}
    (hc : referenceCursor t cursor = .ok place) :
    pendingLineReferences t db scanId (some limit) cursor =
      .ok ((Keyset.rest PendingReference.key (pendingRows db scanId none)
        (referencePlace place)).take (max 1 limit).toNat) := by
  have hfilter : ((pendingRows db scanId none).filter fun r =>
      place.all fun p => behindReference p r) =
      Paging.behind (Keyset.above PendingReference.key) (pendingRows db scanId none)
        (referencePlace place) := by
    refine List.filter_congr fun r _ => ?_
    cases place with
    | none => exact (decide_eq_true (WithBot.bot_lt_coe r.key)).symm
    | some p =>
      rw [Option.all_some, behindReference_eq, decide_eq_decide]
      exact WithBot.coe_lt_coe.symm
  rw [pendingLineReferences, hc, Outcome.ok_bind, hfilter]
  rfl

variable {db scanId}

/-- The projection has a row for every file and the rows are right, so both queries agree. -/
theorem derivedRows_eq (env : Env) (hrows : RowsOk db scanId) (repositoryName : Option String) :
    derivedRows env db scanId repositoryName = groupedRows env db scanId repositoryName := by
  rw [derivedRows, groupedRows, ← List.filterMap_eq_map]
  refine List.filterMap_congr fun f hf => ?_
  obtain ⟨hfile, hscan, _⟩ := mem_filesOf.1 (List.mem_of_mem_filter hf)
  have hrow := hrows f.1 f.2 hfile hscan
  obtain ⟨s, hs, htotals⟩ := Option.map_eq_some_iff.1 hrow
  rw [hs, Option.map_some, htotals]
  rfl

variable (db scanId)

/-- The rows behind a file. -/
theorem filesBehind_eq (rows : List FileTotals) (afterId : Int) :
    (rows.filter fun r => afterId < (r.fileId : Int)).insertionSort
      (fun a b => a.key ≤ b.key) = Keyset.rest FileTotals.key rows afterId := by
  rw [Keyset.rest, Paging.behind]
  congr 1
  refine List.filter_congr fun r _ => ?_
  rw [decide_eq_decide]
  exact WithBot.coe_lt_coe.symm

/-- **`file_page` is the page behind its cursor**, whichever query serves it. -/
theorem filePage_eq (env : Env) (hrows : RowsOk db scanId) {cursor : Option Cursor} {afterId : Int}
    (hc : fileCursor t cursor = .ok afterId) (pendingOnly : Bool) (repositoryName : Option String)
    (dataVersion : Option Nat) (derivedReady : Option Bool) :
    filePage env t db scanId limit cursor pendingOnly repositoryName dataVersion derivedReady =
      let page := Keyset.pageAt FileTotals.key (pageLimit limit)
        (shownRows pendingOnly (groupedRows env db scanId repositoryName)) afterId
      .ok ⟨page.rows.map (fileItem db scanId pendingOnly), page.hasMore,
        page.next.map fileCursorOf⟩ := by
  rw [filePage, hc, Outcome.ok_bind, derivedRows_eq env hrows]
  simp only [ite_self, filesBehind_eq]
  rfl

end Pages

end FileStateRepository

end FosCoverage
