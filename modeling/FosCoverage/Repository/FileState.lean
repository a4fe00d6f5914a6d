import Mathlib.Algebra.GroupWithZero.Nat
import FosCoverage.Repository.Project

/-!
# Derived progress of files

`coverage_file_state` is a projection of the lines and the analysis domain.  This file has

* `LineReview`, one row of the join the totals are computed from (the line, its legacy analysis, its
  active relation, the record of that relation), with the predicates of
  `FileStateRepository` on it: `status`, `isDraft`, `confirmed` and the three kinds of pending;
* the grouped statement `rebuildScan` and the aggregates it is checked with;
* `FileStateService.rebuildValidateAndMarkReadyInTransaction`, the only writer of
  `file_state_version`, with its two gates: the incremental one for a mutation that names its
  files, the full one otherwise.

When the gate passes, nothing but `coverage_file_state` and the ready version of the one project
has changed (`rebuilt_of_ok`).
-/

set_option autoImplicit false

namespace FosCoverage

open Relational Outcome

/-! ## What a line counts as -/

/-- `CONFIRMED_STATUSES` -/
def confirmedStatuses : List String := ["可覆盖", "无法覆盖", "冗余代码"]

/-- `_UNCOVERED_SQL`, and the test of the inheritance engine. -/
def isUncovered (coverageState : String) : Bool :=
  ["uncovered", "uncovered_line", "uncovered-code", "0", "未覆盖"].contains (lower coverageState)

/-- The spellings under which the engine carries a conclusion over as covered. -/
def isCovered (coverageState : String) : Bool :=
  ["covered", "1"].contains (lower coverageState)

/-- One row of the join behind the totals. -/
structure LineReview where
  /-- `coverage_lines` -/
  line : LineRow
  /-- `coverage_analyses` -/
  analysis : Option Analysis
  /-- The active `coverage_analysis_line_links` row of the line in its scan. -/
  link : Option Link
  /-- `coverage_analysis_records` of that relation. -/
  record : Option Record

namespace LineReview

variable (r : LineReview)

/-- `_UNCOVERED_SQL` -/
def uncovered : Bool := isUncovered r.line.facts.coverageState

/-- `_STATUS_SQL`: an active relation is authoritative; without one the legacy row is read. -/
def status : String :=
  match r.link with
  | some _ => (r.record.map fun c => c.content.conclusionStatus).getD ""
  | none => (r.analysis.map Analysis.status).getD ""

/-- `_DRAFT_SQL` -/
def isDraft : Bool :=
  match r.link with
  | some q => q.reviewState = .manualDraft ∨ q.reviewState = .inheritedPending
  | none => (r.analysis.map Analysis.isDraft).getD false

/-- `_CONFIRMED_SQL` -/
def confirmed : Bool := confirmedStatuses.contains r.status && !r.isDraft

/-- `_ORDINARY_PENDING_SQL` -/
def ordinaryPending : Bool := r.uncovered && r.link.isNone && !r.confirmed

/-- `_INHERITED_PENDING_SQL` -/
def inheritedPending : Bool :=
  r.uncovered && (r.link.any fun q => q.reviewState = .inheritedPending)

/-- `_MANUAL_DRAFT_PENDING_SQL` -/
def manualDraftPending : Bool :=
  r.uncovered && (r.link.any fun q => q.reviewState ≠ .inheritedPending) && !r.confirmed

/-- Counted in `confirmed_total`. -/
def countedConfirmed : Bool := r.uncovered && r.confirmed

/-- Counted in `pending_total`. -/
def countedPending : Bool := r.uncovered && !r.confirmed

end LineReview

/-- The active relation of a line of a scan. -/
def Db.activeLink (db : Db) (scanId lineId : Nat) : Option (Nat × Link) :=
  db.domain.links.rows.find? fun q =>
    q.2.scanId = scanId ∧ q.2.lineId = lineId ∧ q.2.isActive = true

/-- The row of the join for one line of a scan. -/
def Db.lineReview (db : Db) (scanId lineId : Nat) (line : LineRow) : LineReview :=
  let link := (db.activeLink scanId lineId).map Prod.snd
  ⟨line, db.domain.analyses.get? lineId, link, link.bind fun q => db.domain.records.get? q.recordId⟩

/-! ## Totals -/

/-- The grouped counts over some rows of the join. -/
def Totals.count (rows : List LineReview) : Totals where
  totalLines := rows.length
  totalUncovered := rows.countP LineReview.uncovered
  filledTotal := rows.countP fun r => r.status ≠ ""
  draftTotal := rows.countP LineReview.isDraft
  confirmedTotal := rows.countP LineReview.countedConfirmed
  pendingTotal := rows.countP LineReview.countedPending
  ordinaryPendingTotal := rows.countP LineReview.ordinaryPending
  inheritedPendingTotal := rows.countP LineReview.inheritedPending
  manualDraftPendingTotal := rows.countP LineReview.manualDraftPending

/-- The sums of the totals of several files. -/
def Totals.sum (ts : List Totals) : Totals where
  totalLines := (ts.map Totals.totalLines).sum
  totalUncovered := (ts.map Totals.totalUncovered).sum
  filledTotal := (ts.map Totals.filledTotal).sum
  draftTotal := (ts.map Totals.draftTotal).sum
  confirmedTotal := (ts.map Totals.confirmedTotal).sum
  pendingTotal := (ts.map Totals.pendingTotal).sum
  ordinaryPendingTotal := (ts.map Totals.ordinaryPendingTotal).sum
  inheritedPendingTotal := (ts.map Totals.inheritedPendingTotal).sum
  manualDraftPendingTotal := (ts.map Totals.manualDraftPendingTotal).sum

/-- `SUMMARY_FIELDS`: the totals with the number of files. -/
structure Summary where
  /-- `file_count` -/
  fileCount : Nat
  /-- The nine totals. -/
  totals : Totals
  deriving DecidableEq, Repr

namespace FileStateRepository

/-- The files of a scan, all or only the selected ones. -/
def filesOf (db : Db) (scanId : Nat) (fileIds : Option (List Nat)) : List (Nat × FileRow) :=
  db.facts.files.select fun id f =>
    f.scanId = scanId ∧ ∀ ids ∈ fileIds, id ∈ ids

/-- The rows of the join for one file of a scan. -/
def fileReviews (db : Db) (scanId fileId : Nat) : List LineReview :=
  (db.facts.lines.select fun _ l => l.fileId = fileId).map fun l => db.lineReview scanId l.1 l.2

/-- `_normalized_file_ids` -/
def normalizedFileIds (fileIds : List Nat) : List Nat :=
  (fileIds.filter (0 < ·)).dedup

/-- `rebuild_scan`: one state row for every selected file; a full rebuild also drops the rows of
files the scan does not have. -/
def rebuildScan (db : Db) (scanId dataVersion : Nat) (fileIds : Option (List Nat)) : Db :=
  let states := (filesOf db scanId fileIds).foldl (fun states f =>
    states.put (scanId, f.1) ⟨Totals.count (fileReviews db scanId f.1), dataVersion⟩) db.fileStates
  let states := if fileIds.isSome then states
    else states.deleteWhere fun k _ => k.1 = scanId ∧ ∀ f ∈ filesOf db scanId none, f.1 ≠ k.2
  { db with fileStates := states }

/-- The state rows of a scan, all or only those of the selected files. -/
def statesOf (db : Db) (scanId : Nat) (fileIds : Option (List Nat)) :
    List ((Nat × Nat) × FileState) :=
  db.fileStates.select fun k _ => k.1 = scanId ∧ ∀ ids ∈ fileIds, k.2 ∈ ids

/-- `scan_aggregate` -/
def scanAggregate (db : Db) (scanId : Nat) (fileIds : Option (List Nat)) : Summary :=
  ⟨(statesOf db scanId fileIds).length,
    Totals.sum ((statesOf db scanId fileIds).map fun s => s.2.totals)⟩

/-- `scan_summary_from_facts` -/
def scanSummaryFromFacts (db : Db) (scanId : Nat) (fileIds : Option (List Nat)) : Summary :=
  ⟨(filesOf db scanId fileIds).length,
    Totals.count ((filesOf db scanId fileIds).flatMap fun f => fileReviews db scanId f.1)⟩

/-- The state rows of a scan that belong to no file of it. -/
def orphanStates (db : Db) (scanId : Nat) : List ((Nat × Nat) × FileState) :=
  (statesOf db scanId none).filter fun s => (filesOf db scanId none).all fun f => f.1 ≠ s.1.2

/-- The version of a state row is not the one asked for. -/
def stale (dataVersion : Nat) (selected : Option (List Nat)) (allowOlderVersions : Bool)
    (fileId : Nat) (s : FileState) : Bool :=
  match selected with
  | none => if allowOlderVersions then dataVersion < s.dataVersion else s.dataVersion ≠ dataVersion
  | some ids =>
    if ids = [] then false
    else if allowOlderVersions then
      dataVersion < s.dataVersion ∨ (fileId ∈ ids ∧ s.dataVersion ≠ dataVersion)
    else fileId ∈ ids ∧ s.dataVersion ≠ dataVersion

/-- `file_state_completeness`: every file has a state row of the right version, and no row is
left over. -/
def fileStateCompleteness (db : Db) (scanId dataVersion : Nat) (selected : Option (List Nat))
    (allowOlderVersions : Bool) : Bool :=
  (filesOf db scanId none).all (fun f =>
    match db.fileStates.get? (scanId, f.1) with
    | some s => !stale dataVersion selected allowOlderVersions f.1 s
    | none => false) &&
  (orphanStates db scanId).isEmpty &&
  (selected.all fun ids => (filesOf db scanId (some ids)).length = ids.length)

/-- `pending_conservation`: the three kinds of pending add up in every state row. -/
def pendingConservation (db : Db) (scanId : Nat) (fileIds : Option (List Nat)) : Bool :=
  (filesOf db scanId fileIds).all (fun f =>
    match db.fileStates.get? (scanId, f.1) with
    | some s => s.totals.pendingTotal = s.totals.ordinaryPendingTotal +
        s.totals.inheritedPendingTotal + s.totals.manualDraftPendingTotal
    | none => false) &&
  (orphanStates db scanId).isEmpty

/-- `file_ids_for_lines` -/
def fileIdsForLines (db : Db) (scanId : Nat) (lineIds : List Nat) : List Nat :=
  ((filesOf db scanId none).filter fun f =>
    db.facts.lines.rows.any fun l => l.2.fileId = f.1 ∧ l.1 ∈ lineIds).map Prod.fst

end FileStateRepository

/-! ## The ready gate -/

namespace FileStateService

open FileStateRepository

/-- `validate_rebuilt`: the reason the projection is not ready, or `"READY"`. -/
def validateRebuilt (db : Db) (projectId scanId dataVersion : Nat)
    (selected : Option (List Nat)) : String :=
  if (db.stateOf projectId).dataVersion ≠ dataVersion then "DATA_VERSION_CHANGED"
  else if !fileStateCompleteness db scanId dataVersion selected selected.isSome then
    "FILE_STATE_INCOMPLETE"
  else if !pendingConservation db scanId selected then "PENDING_CONSERVATION_FAILED"
  else if scanAggregate db scanId selected ≠ scanSummaryFromFacts db scanId selected then
    "FILE_STATE_RECONCILIATION_FAILED"
  else "READY"

/-- `rebuild_validate_and_mark_ready_in_transaction`.  A mutation names its files; when the
projection was not ready before, the whole scan is rebuilt instead. -/
def rebuildValidateAndMarkReadyInTransaction (db : Db) (projectId scanId dataVersion : Nat)
    (affectedFileIds : Option (List Nat)) (previousReady : Bool) : Except Failure Db := do
  let selected := affectedFileIds.map normalizedFileIds
  let incremental := selected.isSome && previousReady &&
    fileStateCompleteness db scanId (dataVersion - 1) none false
  let selected := if incremental then selected else none
  let db := ProjectStateRepository.invalidate db projectId
  let db := rebuildScan db scanId dataVersion selected
  let reason := validateRebuilt db projectId scanId dataVersion selected
  require (.readyGateFailed reason) (reason = "READY")
  let db := ProjectStateRepository.markReady db projectId dataVersion
  require (.readyGateFailed "DATA_VERSION_CHANGED")
    ((db.stateOf projectId).dataVersion = dataVersion ∧
      (db.stateOf projectId).fileStateVersion = dataVersion)
  pure db

/-- What a passed gate leaves: `db'` is `db` up to the derived rows and the ready version of the
project, whose data version is the one that was asked for. -/
structure Rebuilt (db : Db) (projectId dataVersion : Nat) (db' : Db) : Prop where
  /-- The physical side is untouched. -/
  facts : db'.facts = db.facts
  /-- The analysis domain is untouched. -/
  domain : db'.domain = db.domain
  /-- Jobs, locks and checkpoints are untouched. -/
  imports : db'.imports = db.imports
  /-- The projects are untouched. -/
  projects : db'.projects = db.projects
  /-- No time passes. -/
  now : db'.now = db.now
  /-- No identifier is drawn. -/
  uuid : db'.uuid = db.uuid
  /-- The version that was asked for is the project's. -/
  version : (db.stateOf projectId).dataVersion = dataVersion
  /-- The project is ready at that version; every other project is untouched. -/
  stateOf : ∀ q, db'.stateOf q = if q = projectId then
    { db.stateOf projectId with fileStateVersion := dataVersion } else db.stateOf q

@[simp] theorem stateOf_rebuildScan (db : Db) (scanId dataVersion : Nat)
    (fileIds : Option (List Nat)) (q : Nat) :
    (rebuildScan db scanId dataVersion fileIds).stateOf q = db.stateOf q := rfl

theorem version_of_ready {db : Db} {projectId scanId dataVersion : Nat}
    {selected : Option (List Nat)}
    (h : validateRebuilt db projectId scanId dataVersion selected = "READY") :
    (db.stateOf projectId).dataVersion = dataVersion := by
  by_contra hne
  simp [validateRebuilt, hne] at h

/-- The gate changes only the derived side. -/
theorem rebuilt_of_ok {db db' : Db} {projectId scanId dataVersion : Nat}
    {affectedFileIds : Option (List Nat)} {previousReady : Bool}
    (h : rebuildValidateAndMarkReadyInTransaction db projectId scanId dataVersion affectedFileIds
      previousReady = .ok db') : Rebuilt db projectId dataVersion db' := by
  simp only [rebuildValidateAndMarkReadyInTransaction, bind_eq_ok, require_eq_ok, pure_eq_ok] at h
  obtain ⟨_, hready, _, _, rfl⟩ := h
  have hv : (db.stateOf projectId).dataVersion = dataVersion := by
    have := version_of_ready hready
    simpa [ProjectStateRepository.invalidate] using this
  constructor
  case version => exact hv
  case stateOf =>
    intro q
    by_cases hq : q = projectId
    · subst hq
      simp [ProjectStateRepository.markReady, ProjectStateRepository.invalidate, hv]
    · simp [ProjectStateRepository.markReady, ProjectStateRepository.invalidate, hq]
  all_goals
    simp [ProjectStateRepository.markReady, ProjectStateRepository.invalidate, rebuildScan]

end FileStateService

/-! ## The pending partition -/

namespace LineReview

/-- A line is counted as confirmed or as pending exactly when it is uncovered, and never as both. -/
theorem countedPending_iff (r : LineReview) :
    r.countedPending = true ↔ r.uncovered = true ∧ r.countedConfirmed = false := by
  unfold countedPending countedConfirmed
  cases r.uncovered <;> simp

/-- An inherited relation that nobody has confirmed is not counted as confirmed. -/
theorem not_confirmed_of_inheritedPending {r : LineReview} (h : r.inheritedPending = true) :
    r.confirmed = false := by
  cases hl : r.link with
  | none => simp [inheritedPending, hl] at h
  | some q =>
    have hq : q.reviewState = .inheritedPending := by
      simp only [inheritedPending, hl, Bool.and_eq_true] at h
      simpa using h.2
    simp [confirmed, isDraft, hl, hq]

/-- **Every pending line is pending of exactly one kind.** -/
theorem pending_partition (r : LineReview) (h : r.countedPending = true) :
    (r.ordinaryPending = true ∧ r.inheritedPending = false ∧ r.manualDraftPending = false) ∨
    (r.ordinaryPending = false ∧ r.inheritedPending = true ∧ r.manualDraftPending = false) ∨
    (r.ordinaryPending = false ∧ r.inheritedPending = false ∧ r.manualDraftPending = true) := by
  have hu : r.uncovered = true := ((countedPending_iff r).1 h).1
  have hc : r.confirmed = false := by
    simpa [countedConfirmed, hu] using ((countedPending_iff r).1 h).2
  cases hl : r.link with
  | none => simp [ordinaryPending, inheritedPending, manualDraftPending, hu, hc, hl]
  | some q =>
    by_cases hq : q.reviewState = .inheritedPending
    · simp [ordinaryPending, inheritedPending, manualDraftPending, hu, hl, hq]
    · simp [ordinaryPending, inheritedPending, manualDraftPending, hu, hc, hl, hq]

end LineReview

end FosCoverage
