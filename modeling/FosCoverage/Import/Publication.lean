import FosCoverage.Inheritance.ReadSet

/-!
# Publication

`ScanPublicationService`, the only writer of `current_scan_id`.  A Candidate replaces CURRENT when
it is sealed, CURRENT is the scan the caller expects, that scan is the Candidate's predecessor, and
everything the engine has read of the predecessor is unchanged.

`published_of_ok` says what a publication checks and that it changes nothing but the pointer.
-/

set_option autoImplicit false

namespace FosCoverage

open Relational Outcome

/-- One item of the list form of a read set. -/
structure ReadSetItem where
  /-- `relation_id` with `relation_revision` -/
  relation : Option (Nat × Option Nat) := none
  /-- `record_id` with `content_revision` -/
  record : Option (Nat × Option Nat) := none
  /-- `rejection_id` with `rejection_revision` and `rejection_is_active` -/
  rejection : Option (Nat × Nat × Option Bool) := none
  deriving DecidableEq, Repr

/-- The read set a caller hands to the publication; an empty one is not checked. -/
inductive ReadSetArg
  | absent
  | compact (readSet : ReadSet)
  | items (items : List ReadSetItem)
  deriving DecidableEq, Repr

namespace ScanPublicationService

/-- One item of `_validate_read_set`. -/
def validateItem (db : Db) (item : ReadSetItem) : Except Failure Unit := do
  require .readSetChanged (∀ r ∈ item.relation, r.2.isSome = true ∧
    ((db.domain.links.get? r.1).map Link.relationRevision) = r.2)
  require .readSetChanged (∀ r ∈ item.record, r.2.isSome = true ∧
    ((db.domain.records.get? r.1).map Record.contentRevision) = r.2)
  require .readSetChanged (∀ x ∈ item.rejection, ∃ row ∈ db.domain.rejections.get? x.1,
    row.rejectionRevision = x.2.1 ∧ ∀ a ∈ x.2.2, row.isActive = a)

/-- The accumulator of the files a read set names, as they are now. -/
def replay (env : Env) (db : Db) (predecessorScanId : Nat) (sourceFiles : List SourceFile) :
    ReadSetAccumulator :=
  sourceFiles.foldl (fun acc source =>
    (acc.addSourceFile source).observeAll env (pathRelations env db predecessorScanId source))
    ReadSetAccumulator.empty

/-- `_validate_compact_read_set` -/
def validateCompactReadSet (env : Env) (db : Db) (readSet : ReadSet) (candidateScanId : Nat)
    (predecessorScanId : Option Nat) : Except Failure Unit := do
  require .readSetChanged
    (readSet.candidateScanId = none ∨ readSet.candidateScanId = some candidateScanId)
  require .readSetChanged (readSet.predecessorScanId = predecessorScanId)
  match predecessorScanId with
  | none => require .readSetChanged (ReadSetAccumulator.empty.isMatch readSet = true)
  | some predecessor => do
    require .readSetChanged
      (∀ source ∈ readSet.sourceFiles, source.repositoryName ≠ "" ∧ source.filePath ≠ "")
    require .readSetChanged ((replay env db predecessor readSet.sourceFiles).isMatch readSet = true)

/-- The read set is as the Candidate left it. -/
def validate (env : Env) (db : Db) (readSet : ReadSetArg) (candidateScanId : Nat)
    (predecessorScanId : Option Nat) : Except Failure Unit :=
  match readSet with
  | .absent => pure ()
  | .compact r => validateCompactReadSet env db r candidateScanId predecessorScanId
  | .items items => items.forM (validateItem db)

/-- `publish_in_transaction`.  `expectedCurrentScanId` is `none` when the caller does not say
(`_UNSET`); the lock on the state row makes the guarded update match whenever the comparison before
it did. -/
def publishInTransaction (env : Env) (db : Db) (projectId scanId : Nat)
    (expectedCurrentScanId : Option (Option Nat)) (readSet : ReadSetArg)
    (fence : Db → Except Failure Unit) : Except Failure Db := do
  let scan ← orFail .candidateNotBound (ProjectRepository.getScan db scanId)
  require .candidateNotBound (scan.projectId = projectId)
  require .candidateNotSealed (scan.status.publishable = true)
  let (db, state) := ProjectStateRepository.lockForUpdate db projectId
  require .currentPointerChanged (∀ expected ∈ expectedCurrentScanId, state.currentScanId = expected)
  require .predecessorMismatch (∀ expected ∈ expectedCurrentScanId, scan.predecessorScanId = expected)
  validate env db readSet scanId scan.predecessorScanId
  fence db
  pure (ProjectStateRepository.setCurrentScan db projectId scanId)

/-- What a publication leaves. -/
structure Published (db : Db) (projectId scanId : Nat) (db' : Db) : Prop where
  /-- The Candidate is a sealed scan of the project. -/
  scan : ∃ scan, db.facts.scans.get? scanId = some scan ∧ scan.projectId = projectId ∧
    scan.status.publishable = true
  /-- The pointer of the project names it; every other project is untouched. -/
  stateOf : ∀ q, db'.stateOf q = if q = projectId then
    { db.stateOf projectId with currentScanId := some scanId } else db.stateOf q
  /-- The physical side is untouched. -/
  facts : db'.facts = db.facts
  /-- The analysis domain is untouched. -/
  domain : db'.domain = db.domain
  /-- Jobs, locks and checkpoints are untouched. -/
  imports : db'.imports = db.imports
  /-- The projects are untouched. -/
  projects : db'.projects = db.projects
  /-- The file states are untouched. -/
  fileStates : db'.fileStates = db.fileStates
  /-- No time passes. -/
  now : db'.now = db.now
  /-- No identifier is drawn. -/
  uuid : db'.uuid = db.uuid

theorem published_of_ok {env : Env} {db db' : Db} {projectId scanId : Nat}
    {expected : Option (Option Nat)} {readSet : ReadSetArg} {fence : Db → Except Failure Unit}
    (h : publishInTransaction env db projectId scanId expected readSet fence = .ok db') :
    Published db projectId scanId db' ∧
    (∀ e ∈ expected, (db.stateOf projectId).currentScanId = e) ∧
    (∀ e ∈ expected, ∀ scan, db.facts.scans.get? scanId = some scan →
      scan.predecessorScanId = e) ∧
    (∃ scan, db.facts.scans.get? scanId = some scan ∧
      validate env (ProjectStateRepository.ensure db projectId) readSet scanId
        scan.predecessorScanId = .ok ()) ∧
    fence (ProjectStateRepository.ensure db projectId) = .ok () := by
  simp only [publishInTransaction, bind_eq_ok, orFail_eq_ok, require_eq_ok, pure_eq_ok,
    ProjectStateRepository.lockForUpdate] at h
  obtain ⟨scan, hs, _, hp, _, hst, _, hcur, _, hpred, _, hread, _, hfence, rfl⟩ := h
  refine ⟨?_, require_eq_ok.1 hcur, ?_, ⟨scan, hs, hread⟩, hfence⟩
  · constructor
    case scan => exact ⟨scan, hs, hp, hst⟩
    case stateOf =>
      intro q
      by_cases hq : q = projectId
      · subst hq
        simp [ProjectStateRepository.setCurrentScan]
      · simp [ProjectStateRepository.setCurrentScan, hq]
    all_goals simp [ProjectStateRepository.setCurrentScan]
  · intro e he scan' hs'
    obtain rfl : scan = scan' := Option.some.inj (hs.symm.trans hs')
    exact hpred e he

end ScanPublicationService

end FosCoverage
