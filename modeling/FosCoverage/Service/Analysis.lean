import Mathlib.Data.List.Sort
import FosCoverage.Environment
import FosCoverage.Repository.AnalysisDomain

/-!
# Saving an analysis

`AnalysisService.save` as the code computes it.  A request is a list of operations; each names
lines by ranges, by numbers or by id and carries one conclusion for all of them.

* `resolveRecords` expands the ranges, finds the physical lines and keeps the last operation for a
  line that several operations name.
* `validateConcurrency` checks the revisions the client has read.
* `saveDomainRecords` decides for each operation whether the record the client names may be edited
  in place (`Plan.inPlace`) or the selected lines get a new record, and writes records, blocks and
  relations.
* `save` adds the rejections, the legacy projection, the project version and the ready gate.
-/

set_option autoImplicit false

namespace FosCoverage

open Relational Outcome

namespace AnalysisService

open AnalysisDomainRepository

/-! ## Requests -/

/-- `VALID_STATUSES` -/
def validStatuses : List String := "" :: "未确认" :: confirmedStatuses

/-- `MAX_EXPANDED_ANALYSIS_LINES` -/
def maxExpandedAnalysisLines : Nat := 20000

/-- One operation of a save request; a key the client did not send is `none`. -/
structure Item where
  /-- `line_ranges` -/
  lineRanges : Option (List (Int × Int)) := none
  /-- `line_start` -/
  lineStart : Option Int := none
  /-- `line_end` -/
  lineEnd : Option Int := none
  /-- `line_numbers` -/
  lineNumbers : Option (List Int) := none
  /-- `line_id`; zero counts as missing. -/
  lineId : Nat := 0
  /-- `line_number` -/
  lineNumber : Option Int := none
  /-- `repository_name` -/
  repositoryName : String := ""
  /-- `file_path_hash` -/
  filePathHash : String := ""
  /-- `file_path` -/
  filePath : String := ""
  /-- `reviewer` -/
  reviewer : String := ""
  /-- `status` -/
  status : Option String := none
  /-- `conclusion_status` -/
  conclusionStatus : Option String := none
  /-- `coverage_method` -/
  coverageMethod : Option String := none
  /-- `method` -/
  method : Option String := none
  /-- `uncovered_reason` -/
  uncoveredReason : Option String := none
  /-- `reason` -/
  reason : Option String := none
  /-- `comment` -/
  comment : Option String := none
  /-- `is_draft` -/
  isDraft : Option Bool := none
  /-- `draft` -/
  draft : Option Bool := none
  /-- `record_id`; zero counts as missing. -/
  recordId : Nat := 0
  /-- `analysis_record_id`; zero counts as missing. -/
  analysisRecordId : Nat := 0
  /-- `expected_relation_revision` -/
  expectedRelationRevision : Option Nat := none
  /-- `expected_record_revision` -/
  expectedRecordRevision : Option Nat := none
  deriving DecidableEq, Repr

namespace Item

variable (i : Item)

/-- `record_id or analysis_record_id or 0` -/
def requestedRecordId : Nat := if i.recordId ≠ 0 then i.recordId else i.analysisRecordId

/-- `is_draft`, or `draft` when that key is missing. -/
def draftFlag : Bool := (i.isDraft.or i.draft).getD false

/-- The content of a new record: only the canonical keys are passed on. -/
def newContent : Content :=
  ⟨i.status.getD "", i.coverageMethod.getD "", i.uncoveredReason.getD "", i.comment.getD ""⟩

/-- The content of an edit in place: the whole request is passed on, so the alternative spellings
of the keys count here. -/
def editContent : Content :=
  ⟨(i.conclusionStatus.or i.status).getD "", (i.coverageMethod.or i.method).getD "",
    (i.uncoveredReason.or i.reason).getD "", i.comment.getD ""⟩

/-- The legacy row of the operation. -/
def analysis : Analysis :=
  ⟨i.status.getD "", i.draftFlag, i.reviewer, (i.coverageMethod.or i.method).getD "",
    (i.uncoveredReason.or i.reason).getD "", i.comment.getD ""⟩

/-- `_review_state` -/
def reviewState : ReviewState :=
  if i.draftFlag then .manualDraft
  else if confirmedStatuses.contains (i.status.getD "") then .manualConfirmed else .manualDraft

end Item

/-! ## Resolution -/

/-- A line an operation names, before the line is looked up. -/
structure Selected where
  /-- `_operation_key` -/
  operationKey : Nat
  /-- `_range_key` -/
  rangeKey : Nat
  /-- `_range_start`; zero until the line is known. -/
  rangeStart : Nat
  /-- `_range_end`; zero until the line is known. -/
  rangeEnd : Nat
  /-- The line number, when the operation names one. -/
  lineNumber : Option Nat
  /-- The operation. -/
  item : Item
  deriving DecidableEq, Repr

/-- A line an operation names, with its physical identity. -/
structure Resolved where
  /-- `_operation_key` -/
  operationKey : Nat
  /-- `_range_key` -/
  rangeKey : Nat
  /-- `_range_start` -/
  rangeStart : Nat
  /-- `_range_end` -/
  rangeEnd : Nat
  /-- The line. -/
  lineId : Nat
  /-- Its number. -/
  lineNumber : Nat
  /-- Its file. -/
  fileId : Nat
  /-- The operation. -/
  item : Item
  deriving DecidableEq, Repr

/-- The lines of one range, added to those of the batch so far. -/
def expandRange (operationKey rangeKey : Nat) (item : Item) (acc : List Selected)
    (range : Int × Int) : Except Failure (List Selected) := do
  require .invalidLineRange (1 ≤ range.1 ∧ range.1 ≤ range.2)
  require .lineRangeTooLarge (range.2 - range.1 + 1 ≤ maxExpandedAnalysisLines)
  let start := range.1.toNat
  let stop := range.2.toNat
  let acc := acc ++ (List.range' start (stop + 1 - start)).map fun lineNumber =>
    ⟨operationKey, rangeKey, start, stop, some lineNumber, item⟩
  require .tooManyLines (acc.length ≤ maxExpandedAnalysisLines)
  pure acc

/-- The ranges of an operation, in the order the keys are looked at. -/
def Item.ranges (item : Item) : Option (List (Int × Int)) :=
  item.lineRanges.or ((item.lineStart.map fun start => [(start, item.lineEnd.getD start)]).or
    (item.lineNumbers.map fun numbers => numbers.map fun n => (n, n)))

/-- The lines of the ranges of one operation, added to those of the batch so far. -/
def expandRanges (op : Nat × Item) (acc : List Selected) (ranges : List (Int × Int)) :
    Except Failure (List Selected) :=
  ranges.zipIdx.foldlM (fun acc r => expandRange op.1 r.2 op.2 acc r.1) acc

/-- The lines of one operation, added to those of the batch so far. -/
def expandItem (acc : List Selected) (op : Nat × Item) : Except Failure (List Selected) :=
  match op.2.ranges, op.2.lineNumber with
  | some ranges, _ => expandRanges op acc ranges
  | none, some n => expandRanges op acc [(n, n)]
  | none, none =>
    if op.2.lineId ≠ 0 then pure (acc ++ [⟨op.1, 0, 0, 0, none, op.2⟩])
    else .error (.technicalFailure "line_number is not an integer")

/-- The hash of the file an operation names. -/
def Item.fileHash (env : Env) (item : Item) : String :=
  if item.filePathHash = "" ∧ item.filePath ≠ "" then
    env.computeDbFilePathHash item.filePath item.repositoryName
  else item.filePathHash

/-- A line named by its number belongs to a file of the scan. -/
def assertFileKnown (env : Env) (db : Db) (scanId : Nat) (s : Selected) : Except Failure Unit :=
  if s.item.lineId ≠ 0 then pure ()
  else do
    let _ ← orFail .fileIdentityNotFound
      (ProjectRepository.getFile db scanId s.item.repositoryName (s.item.fileHash env))
    pure ()

/-- The physical line an operation names, by id or by file and number. -/
def findLine (env : Env) (db : Db) (scanId : Nat) (s : Selected) :
    Except Failure (Nat × LineRow) :=
  if s.item.lineId ≠ 0 then do
    let line ← orFail .lineNotInScan (lineOfScan db scanId s.item.lineId)
    require .lineNumberIdentityMismatch (∀ n ∈ s.lineNumber, n = line.facts.lineNumber)
    pure (s.item.lineId, line)
  else do
    let (fileId, _) ← orFail .fileIdentityNotFound
      (ProjectRepository.getFile db scanId s.item.repositoryName (s.item.fileHash env))
    orFail .lineNotFound (LineIndexRepository.getLine db fileId (s.lineNumber.getD 0))

/-- The resolved operation on one line. -/
def resolveLine (env : Env) (db : Db) (scanId : Nat) (reviewer : String) (s : Selected) :
    Except Failure Resolved := do
  let (lineId, line) ← findLine env db scanId s
  let number := line.facts.lineNumber
  let item := if reviewer ≠ "" ∧ s.item.reviewer = "" then { s.item with reviewer := reviewer }
    else s.item
  require (.invalidStatus (item.status.getD "")) (item.status.getD "" ∈ validStatuses)
  pure ⟨s.operationKey, s.rangeKey, if s.rangeStart = 0 then number else s.rangeStart,
    if s.rangeEnd = 0 then number else s.rangeEnd, lineId, number, line.fileId, item⟩

/-- `deduped[line_id] = item`: a Python dictionary keeps the place of the first key and the value
of the last. -/
def keepLast (acc : List Resolved) (r : Resolved) : List Resolved :=
  if acc.any fun a => a.lineId = r.lineId then acc.map fun a => if a.lineId = r.lineId then r else a
  else acc ++ [r]

/-- `_resolve_records` -/
def resolveRecords (env : Env) (db : Db) (scanId : Nat) (records : List Item)
    (reviewer : String) : Except Failure (List Resolved) := do
  let selected ← (records.zipIdx.map fun r => (r.2 + 1, r.1)).foldlM expandItem []
  selected.forM (assertFileKnown env db scanId)
  let resolved ← selected.mapM (resolveLine env db scanId reviewer)
  pure (resolved.foldl keepLast [])

/-! ## Revisions -/

/-- The revisions one resolved operation expects. -/
def assertRevisions (db : Db) (scanId : Nat) (r : Resolved) : Except Failure Unit := do
  let relation := getLink db scanId r.lineId
  require .staleRelationRevision (∀ expected ∈ r.item.expectedRelationRevision,
    (relation.map fun q => q.2.relationRevision).getD 0 = expected)
  let recordId := if r.item.requestedRecordId ≠ 0 then r.item.requestedRecordId
    else (relation.map fun q => q.2.recordId).getD 0
  require .staleContentRevision (∀ expected ∈ r.item.expectedRecordRevision,
    ((db.domain.records.get? recordId).map Record.contentRevision) = some expected)

/-- `_validate_concurrency` -/
def validateConcurrency (db : Db) (scanId : Nat) (resolved : List Resolved) :
    Except Failure Unit :=
  resolved.forM (assertRevisions db scanId)

/-! ## Writing the domain -/

/-- What one operation does to the records. -/
structure Plan where
  /-- `operation_key` -/
  operationKey : Nat
  /-- The first line the operation resolved to; it carries the operation's content. -/
  first : Resolved
  /-- All of its lines. -/
  items : List Resolved
  /-- The edit of an existing record, when the record is not shared with any other line. -/
  inPlace : Option RecordUpdate
  deriving DecidableEq, Repr

/-- The lines of the operation. -/
def Plan.lineIds (plan : Plan) : List Nat := plan.items.map Resolved.lineId

/-- The operations that still have a line, in the order of their keys. -/
def operationKeys (resolved : List Resolved) : List Nat :=
  (resolved.map Resolved.operationKey).dedup.insertionSort (· ≤ ·)

/-- The in-place decision.  A shared record is immutable for a partial edit: the record the client
names is edited only when the lines actively linked to it are exactly the lines of the operation. -/
def planOperation (db : Db) (resolved : List Resolved) (operationKey : Nat) :
    Except Failure (Option Plan) :=
  match resolved.filter fun r => r.operationKey = operationKey with
  | [] => pure none
  | first :: rest => do
    let items := first :: rest
    let requested := first.item.requestedRecordId
    let current := getActiveLineIdsByRecordId db requested
    if requested ≠ 0 ∧ current ⊆ items.map Resolved.lineId ∧ items.map Resolved.lineId ⊆ current then do
      let expected ← orFail .expectedRecordRevisionRequired first.item.expectedRecordRevision
      pure (some ⟨operationKey, first, items, some ⟨requested, expected, first.item.editContent⟩⟩)
    else pure (some ⟨operationKey, first, items, none⟩)

/-- The record of every plan: the edited one, or a new one for each of the other plans. -/
def assignRecords (db : Db) : List Plan → Db × List (Plan × Nat)
  | [] => (db, [])
  | plan :: plans =>
    match plan.inPlace with
    | some u =>
      let (db, rest) := assignRecords db plans
      (db, (plan, u.recordId) :: rest)
    | none =>
      let (db, recordId) := createRecord db plan.first.item.newContent .manual
      let (db, rest) := assignRecords db plans
      (db, (plan, recordId) :: rest)

/-- The identity of a block within a save: operation, range and file. -/
structure BlockKey where
  /-- `operation_key` -/
  operationKey : Nat
  /-- `_range_key` -/
  rangeKey : Nat
  /-- The file. -/
  fileId : Nat
  deriving DecidableEq, Repr

/-- The block key of a resolved line. -/
def Resolved.blockKey (r : Resolved) : BlockKey := ⟨r.operationKey, r.rangeKey, r.fileId⟩

/-- The order in which the blocks of one operation are created: by the printed range key, then by
the file. -/
def BlockKey.le (a b : BlockKey) : Bool :=
  let x := toString a.rangeKey
  let y := toString b.rangeKey
  x < y ∨ (x = y ∧ a.fileId ≤ b.fileId)

/-- The blocks of one operation: one for every range and file, so that no block spans lines nobody
selected. -/
def blocksOfPlan (scanId : Nat) (plan : Plan) (recordId : Nat) : List (BlockKey × Block) :=
  ((plan.items.map Resolved.blockKey).dedup.insertionSort (fun a b => a.le b = true)).filterMap
    fun key =>
      (plan.items.find? fun r => r.blockKey = key).map fun r =>
        (key, ⟨scanId, key.fileId, r.rangeStart, r.rangeEnd, .manual, true, some recordId,
          r.item.reviewer⟩)

/-- The relation one resolved line asks for. -/
def linkItem (recordId : Nat) (blockId : Option Nat) (r : Resolved) : LinkItem :=
  ⟨r.lineId, recordId, blockId, r.item.reviewState, .manual, none, r.item.reviewer,
    SourceTriple.none, r.item.expectedRelationRevision⟩

/-- `_save_domain_records`; the second component is the list of affected files. -/
def saveDomainRecords (db : Db) (scanId : Nat) (resolved : List Resolved) :
    Except Failure (Db × List Nat) := do
  let plans ← (operationKeys resolved).mapM (planOperation db resolved)
  let plans := plans.filterMap id
  let db ← updateRecordsMany db (plans.filterMap Plan.inPlace)
  let (db, assigned) := assignRecords db plans
  let blocks := assigned.flatMap fun a => blocksOfPlan scanId a.1 a.2
  let (db, blockIds) ← createBlocksMany db (blocks.map Prod.snd)
  let blockByKey := (blocks.map Prod.fst).zip blockIds
  let links := assigned.flatMap fun a => a.1.items.map fun r =>
    linkItem a.2 (blockByKey.lookup r.blockKey) r
  let db ← createLinksMany db scanId links
  pure (db, (plans.flatMap fun plan => plan.items.map Resolved.fileId).dedup)

/-! ## The service -/

/-- `save`.  `enforceCurrent` is what the HTTP layer passes; the default of the code is `false`. -/
def save (env : Env) (db : Db) (projectName : String) (scanId : Nat) (records : List Item)
    (reviewer : String) (enforceCurrent : Bool) : Except Failure Db := do
  let projectId ← orFail .projectNotFound (ProjectRepository.getProjectByName db projectName)
  let scan ← orFail .scanNotBound (ProjectRepository.getScan db scanId)
  require .scanNotBound (scan.projectId = projectId)
  let (db, state) := ProjectStateRepository.lockForUpdate db projectId
  let previousProjectionReady := state.fileStateVersion = state.dataVersion
  require .mutationRequiresCurrentScan
    (enforceCurrent = false ∨ state.currentScanId.getD 0 = scanId)
  if records = [] then pure db
  else do
    let resolved ← resolveRecords env db scanId records reviewer
    validateConcurrency db scanId resolved
    let (db, affectedFileIds) ← saveDomainRecords db scanId resolved
    let db := closeActiveRejectionsMany db scanId (resolved.map Resolved.lineId)
    let db := AnalysisRepository.upsertMany db
      (resolved.map fun r => (r.lineId, r.item.analysis))
    let db := ProjectStateRepository.advance db projectId
    FileStateService.rebuildValidateAndMarkReadyInTransaction db projectId scanId
      (db.stateOf projectId).dataVersion (some affectedFileIds) previousProjectionReady

end AnalysisService

end FosCoverage
