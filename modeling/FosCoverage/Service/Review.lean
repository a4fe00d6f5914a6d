import FosCoverage.Service.Analysis

/-!
# Reviewing inherited conclusions

`InheritanceReviewService` and `InheritanceRejectionService` as the code computes them: `confirm`
several inherited relations, `editConfirm` through the save of `AnalysisService`, `reject` one
relation and `undo` the rejection.  Every one of them requires the scan to be CURRENT, writes under
the revision the client has read, and ends in the ready gate.
-/

set_option autoImplicit false

namespace FosCoverage

open Relational Outcome

namespace InheritanceReviewService

open AnalysisDomainRepository

/-- `_assert_current` -/
def assertCurrent (db : Db) (projectId scanId : Nat) : Except Failure (Db × ProjectState) := do
  let (db, state) := ProjectStateRepository.lockForUpdate db projectId
  require .mutationRequiresCurrentScan (state.currentScanId.getD 0 = scanId)
  pure (db, state)

/-- The states a relation can be confirmed or rejected from. -/
def reviewable (q : Link) : Bool :=
  q.reviewState = .inheritedPending ∨ q.reviewState = .carriedCovered

/-- The end of every review mutation: a new project version and the ready gate. -/
def finish (db : Db) (projectId scanId : Nat) (state : ProjectState) (affectedFileIds : List Nat) :
    Except Failure Db :=
  let db := ProjectStateRepository.advance db projectId
  FileStateService.rebuildValidateAndMarkReadyInTransaction db projectId scanId
    (db.stateOf projectId).dataVersion (some affectedFileIds)
    (state.fileStateVersion = state.dataVersion)

/-! ## Confirm -/

/-- `expected_map.get(str(line_id), expected_map.get(line_id, default)) or 0` -/
def expectedRevision (expectedMap : List (Nat × Nat)) (default : Option Nat) (lineId : Nat) : Nat :=
  ((expectedMap.lookup lineId).or default).getD 0

/-- One turn of the loop of `confirm`. -/
def confirmLine (scanId : Nat) (reviewer : String) (expectedMap : List (Nat × Nat))
    (default : Option Nat) (db : Db) (lineId : Nat) : Except Failure Db := do
  let expected := expectedRevision expectedMap default lineId
  require .selectionRequired (expected ≠ 0)
  let (id, relation) ← orFail .staleRelationRevision (db.activeLink scanId lineId)
  require .staleRelationRevision (relation.relationRevision = expected)
  require .relationNotActive (reviewable relation = true)
  let links := db.domain.links.updateWhere (fun k _ => k = id) fun q =>
    { q with
      reviewState := .manualConfirmed
      reviewedBy := reviewer
      relationRevision := q.relationRevision + 1 }
  pure { db with domain.links := links }

/-- `confirm` -/
def confirm (db : Db) (projectId scanId : Nat) (selectedLineIds : List Nat)
    (expectedMap : List (Nat × Nat)) (default : Option Nat) (reviewer : String) :
    Except Failure Db := do
  let selected := selectedLineIds.filter (· ≠ 0)
  require .selectionRequired (selected ≠ [])
  require .selectionExceedsLimit (selected.length ≤ 500)
  let (db, state) ← assertCurrent db projectId scanId
  let affectedFileIds := FileStateRepository.fileIdsForLines db scanId selected
  let db ← selected.foldlM (confirmLine scanId reviewer expectedMap default) db
  finish db projectId scanId state affectedFileIds

/-- `edit_confirm`: a save that is only accepted on the CURRENT scan. -/
def editConfirm (env : Env) (db : Db) (projectName : String) (scanId : Nat)
    (records : List AnalysisService.Item) (reviewer : String) : Except Failure Db :=
  AnalysisService.save env db projectName scanId records reviewer true

/-! ## Reject and undo -/

/-- The row `reject` keeps of the relation it deactivates. -/
def rejectionOf (scanId lineId relationId : Nat) (rejectedBy : String) (q : Link) : Rejection :=
  ⟨scanId, lineId, relationId, q.relationRevision, q.recordId, q.source, 1, true, none, rejectedBy⟩

/-- `reject` -/
def reject (db : Db) (projectId scanId lineId : Nat) (rejectedBy : String)
    (expectedRelationRevision : Nat) : Except Failure Db := do
  let (db, state) ← assertCurrent db projectId scanId
  let (id, relation) ← orFail .relationNotActive (db.activeLink scanId lineId)
  require .relationNotActive (reviewable relation = true)
  require .staleRelationRevision (relation.relationRevision = expectedRelationRevision)
  let affectedFileIds := FileStateRepository.fileIdsForLines db scanId [lineId]
  let rejections := db.domain.rejections.insert (rejectionOf scanId lineId id rejectedBy relation)
  let links := db.domain.links.updateWhere (fun k _ => k = id) fun q =>
    { q with isActive := false, relationRevision := q.relationRevision + 1 }
  let db := { db with domain.rejections := rejections, domain.links := links }
  finish db projectId scanId state affectedFileIds

/-- `undo` -/
def undo (db : Db) (projectId scanId lineId rejectionId expectedRejectionRevision
    expectedRelationRevision : Nat) : Except Failure Db := do
  let (db, state) ← assertCurrent db projectId scanId
  let rejection ← orFail .rejectionNotActive (db.domain.rejections.get? rejectionId)
  require .rejectionNotActive
    (rejection.scanId = scanId ∧ rejection.lineId = lineId ∧ rejection.isActive = true)
  require .staleRejectionRevision (rejection.rejectionRevision = expectedRejectionRevision)
  let relation ← orFail .staleRelationRevision
    (db.domain.links.get? rejection.rejectedRelationId)
  require .staleRelationRevision (relation.relationRevision = expectedRelationRevision)
  let affectedFileIds := FileStateRepository.fileIdsForLines db scanId [lineId]
  require .staleRelationRevision (relation.isActive = false)
  let links := db.domain.links.updateWhere (fun k _ => k = rejection.rejectedRelationId) fun q =>
    { q with
      isActive := true
      reviewState := .inheritedPending
      relationRevision := q.relationRevision + 1 }
  let rejections := db.domain.rejections.updateWhere (fun k _ => k = rejectionId) fun x =>
    { x with
      isActive := false
      terminalReason := some .undone
      rejectionRevision := x.rejectionRevision + 1 }
  let db := { db with domain.links := links, domain.rejections := rejections }
  finish db projectId scanId state affectedFileIds

end InheritanceReviewService

/-! ## Migration of legacy rows -/

namespace AnalysisDomainRepository

/-- The relation `backfill_legacy` creates for one legacy row: it has no block. -/
def legacyLink (lineId recordId : Nat) (a : Analysis) : LinkItem :=
  ⟨lineId, recordId, none,
    if a.isDraft then .manualDraft
    else if confirmedStatuses.contains a.status then .manualConfirmed else .manualDraft,
    .legacyMigrated, none, a.reviewer, SourceTriple.none, none⟩

/-- The record of a legacy row, created on the first backfill. -/
def legacyRecord (db : Db) (lineId : Nat) (a : Analysis) : Db × Nat :=
  match db.domain.records.rows.find? fun r => r.2.legacySourceAnalysisId = some lineId with
  | some (recordId, _) => (db, recordId)
  | none =>
    let content : Content := ⟨a.status, a.coverageMethod, a.uncoveredReason, a.comment⟩
    let row : Record := ⟨content, 1, .legacyMigrated, some lineId⟩
    ({ db with domain.records := db.domain.records.insert row }, db.domain.records.next)

/-- `backfill_legacy` for the legacy rows of one scan that have no relation yet. -/
def backfillLegacy (db : Db) (scanId : Nat) : Except Failure Db :=
  db.domain.analyses.rows.foldlM (fun db row => do
    if (lineOfScan db scanId row.1).isSome ∧ (getLink db scanId row.1).isNone then
      let (db, recordId) := legacyRecord db row.1 row.2
      createLinksMany db scanId [legacyLink row.1 recordId row.2]
    else pure db) db

end AnalysisDomainRepository

end FosCoverage
