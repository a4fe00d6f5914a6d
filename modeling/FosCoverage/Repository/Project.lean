import FosCoverage.Lib.Outcome
import FosCoverage.Schema

/-!
# Projects, scans, files and lines

The repositories that own the physical facts and the project state, as the code computes them:

* `ProjectStateRepository` owns `coverage_project_state`.  Every access first ensures the row, so
  the state of a project is a total function `stateOf`, and the lemmas below say how `advance`,
  `invalidate` and `markReady` change it.
* `ProjectRepository` owns scans, repository snapshots and files, `LineIndexRepository` the lines.
  Every write of a fact first asserts that its scan is still under construction.

None of them commits; a service passes the database through and a failure discards it.
-/

set_option autoImplicit false

namespace FosCoverage

open Relational Outcome

/-! ## Text helpers -/

/-- `str.lower` on the spellings the code compares. -/
def lower (s : String) : String := String.ofList (s.toList.map Char.toLower)

/-- `str.strip`. -/
def strip (s : String) : String :=
  String.ofList ((s.toList.dropWhile Char.isWhitespace).reverse.dropWhile Char.isWhitespace).reverse

/-- `os.path.basename`. -/
def basename (path : String) : String :=
  String.ofList (path.toList.reverse.takeWhile (· ≠ '/')).reverse

/-! ## Project state -/

/-- The row `ensure` inserts. -/
def ProjectState.initial : ProjectState := ⟨none, 0, 0⟩

/-- The state of a project; a missing row reads as the one `ensure` would insert. -/
def Db.stateOf (db : Db) (projectId : Nat) : ProjectState :=
  (db.states.get? projectId).getD ProjectState.initial

namespace ProjectStateRepository

/-- `ensure` -/
def ensure (db : Db) (projectId : Nat) : Db :=
  if (db.states.get? projectId).isSome then db
  else { db with states := db.states.put projectId ProjectState.initial }

/-- `lock_for_update`: the shared point on which mutations and publication serialise. -/
def lockForUpdate (db : Db) (projectId : Nat) : Db × ProjectState :=
  (ensure db projectId, db.stateOf projectId)

/-- An `UPDATE` of the one row of a project. -/
def modify (db : Db) (projectId : Nat) (f : ProjectState → ProjectState) : Db :=
  let db := ensure db projectId
  { db with states := db.states.updateWhere (fun p _ => p = projectId) f }

/-- `advance`: a new data version, which the derived file states do not have yet. -/
def advance (db : Db) (projectId : Nat) : Db :=
  modify db projectId fun s =>
    { s with dataVersion := s.dataVersion + 1, fileStateVersion := 0 }

/-- `invalidate` -/
def invalidate (db : Db) (projectId : Nat) : Db :=
  modify db projectId fun s => { s with fileStateVersion := 0 }

/-- `mark_ready`: only for the version that is still current. -/
def markReady (db : Db) (projectId version : Nat) : Db :=
  modify db projectId fun s =>
    if s.dataVersion = version then { s with fileStateVersion := version } else s

/-- The guarded pointer update of the publication: `SET current_scan_id`. -/
def setCurrentScan (db : Db) (projectId scanId : Nat) : Db :=
  modify db projectId fun s => { s with currentScanId := some scanId }

@[simp] theorem stateOf_ensure (db : Db) (p q : Nat) : (ensure db p).stateOf q = db.stateOf q := by
  unfold ensure Db.stateOf
  split
  · rfl
  · rename_i h
    rw [Option.not_isSome_iff_eq_none] at h
    by_cases hq : q = p
    · subst hq
      simp [h]
    · simp [hq]

@[simp] theorem stateOf_modify (db : Db) (p q : Nat) (f : ProjectState → ProjectState) :
    (modify db p f).stateOf q = if q = p then f (db.stateOf p) else db.stateOf q := by
  have hsome : ((ensure db p).states.get? p).isSome := by
    unfold ensure
    split
    · assumption
    · simp
  obtain ⟨s, hs⟩ := Option.isSome_iff_exists.1 hsome
  by_cases hq : q = p
  · subst hq
    rw [if_pos rfl, ← stateOf_ensure db q q]
    simp [modify, Db.stateOf, hs]
  · rw [if_neg hq, ← stateOf_ensure db p q]
    simp [modify, Db.stateOf, hq]

/-- `ensure` changes nothing but the table of project states. -/
theorem ensure_eq (db : Db) (p : Nat) : ∃ states, ensure db p = { db with states := states } := by
  unfold ensure
  split
  · exact ⟨db.states, rfl⟩
  · exact ⟨_, rfl⟩

section Frame

variable (db : Db) (p : Nat) (f : ProjectState → ProjectState)

@[simp] theorem facts_ensure : (ensure db p).facts = db.facts := by
  unfold ensure; split <;> rfl

@[simp] theorem domain_ensure : (ensure db p).domain = db.domain := by
  unfold ensure; split <;> rfl

@[simp] theorem imports_ensure : (ensure db p).imports = db.imports := by
  unfold ensure; split <;> rfl

@[simp] theorem projects_ensure : (ensure db p).projects = db.projects := by
  unfold ensure; split <;> rfl

@[simp] theorem fileStates_ensure : (ensure db p).fileStates = db.fileStates := by
  unfold ensure; split <;> rfl

@[simp] theorem now_ensure : (ensure db p).now = db.now := by
  unfold ensure; split <;> rfl

@[simp] theorem uuid_ensure : (ensure db p).uuid = db.uuid := by
  unfold ensure; split <;> rfl

@[simp] theorem facts_modify : (modify db p f).facts = db.facts := by simp [modify]

@[simp] theorem domain_modify : (modify db p f).domain = db.domain := by simp [modify]

@[simp] theorem imports_modify : (modify db p f).imports = db.imports := by simp [modify]

@[simp] theorem projects_modify : (modify db p f).projects = db.projects := by simp [modify]

@[simp] theorem fileStates_modify : (modify db p f).fileStates = db.fileStates := by simp [modify]

@[simp] theorem now_modify : (modify db p f).now = db.now := by simp [modify]

@[simp] theorem uuid_modify : (modify db p f).uuid = db.uuid := by simp [modify]

end Frame

end ProjectStateRepository

/-! ## Projects and scans -/

namespace ProjectRepository

/-- `get_project_by_name` -/
def getProjectByName (db : Db) (projectName : String) : Option Nat :=
  (db.projects.rows.find? fun r => r.2 = projectName).map Prod.fst

/-- `ensure_project` -/
def ensureProject (db : Db) (projectName : String) : Except Failure (Db × Nat) := do
  require .projectNameRequired (strip projectName ≠ "")
  match getProjectByName db projectName with
  | some projectId => pure (db, projectId)
  | none => pure ({ db with projects := db.projects.insert projectName }, db.projects.next)

/-- `get_scan` -/
def getScan (db : Db) (scanId : Nat) : Option Scan := db.facts.scans.get? scanId

/-- `get_scan_by_key` -/
def getScanByKey (db : Db) (scanKey : String) : Option Nat :=
  (db.facts.scans.rows.find? fun r => r.2.scanKey = scanKey).map Prod.fst

/-- `_assert_scan_building` -/
def assertScanBuilding (db : Db) (scanId : Nat) : Except Failure Unit := do
  let scan ← orFail (.scanNotFound scanId) (getScan db scanId)
  require (.scanSealed scanId) (scan.status.underConstruction = true)

/-- `create_scan`: a scan key that exists already returns its row, whatever predecessor and status
that row has. -/
def createScan (db : Db) (projectId : Nat) (scanKey : String) (status : ScanStatus)
    (predecessorScanId : Option Nat) : Except Failure (Db × Nat) := do
  require .notConstruction (status.underConstruction = true)
  match getScanByKey db scanKey with
  | some scanId => pure (db, scanId)
  | none =>
    let row : Scan := ⟨projectId, scanKey, status, predecessorScanId⟩
    pure ({ db with facts.scans := db.facts.scans.insert row }, db.facts.scans.next)

/-- An `UPDATE` of the status of one scan. -/
def setStatus (db : Db) (scanId : Nat) (status : ScanStatus) : Db :=
  let scans := db.facts.scans.updateWhere (fun id _ => id = scanId) fun s =>
    { s with status := status }
  { db with facts.scans := scans }

/-- `seal_scan` -/
def sealScan (db : Db) (scanId : Nat) (status : ScanStatus) : Except Failure Db := do
  assertScanBuilding db scanId
  require .sealedStatusInvalid (status.publishable = true)
  pure (setStatus db scanId status)

/-- `list_repository_snapshots`, as the set of repository names it is compared by. -/
def listRepositorySnapshots (db : Db) (scanId : Nat) : List Snapshot :=
  (db.facts.snapshots.select fun _ s => s.scanId = scanId).map Prod.snd

/-- `upsert_repository_snapshot`: a snapshot is written once and never changed. -/
def upsertRepositorySnapshot (db : Db) (snapshot : Snapshot) : Except Failure Db := do
  assertScanBuilding db snapshot.scanId
  require .identityRequiresCommit
    (snapshot.identityVerified = false ∨ strip (snapshot.commitSha.getD "") ≠ "")
  require .identityRequiresProvenance
    (snapshot.identityVerified = false ∨ strip snapshot.identityProvenance ≠ "")
  match (listRepositorySnapshots db snapshot.scanId).find?
      fun s => s.repositoryName = snapshot.repositoryName with
  | some existing => do
    require .snapshotImmutable (existing = snapshot)
    pure db
  | none =>
    pure { db with facts.snapshots := db.facts.snapshots.insert snapshot }

/-! ## Files -/

/-- A file identity as `ensure_files` receives it. -/
structure FileItem where
  /-- The repository. -/
  repositoryName : String
  /-- Hash of repository and path. -/
  filePathHash : String
  /-- The path. -/
  filePath : String
  /-- Base name. -/
  sourceFileName : String
  deriving DecidableEq, Repr

/-- The row inserted for a file of `scanId`. -/
def FileItem.row (scanId : Nat) (item : FileItem) : FileRow :=
  ⟨scanId, item.repositoryName, item.filePathHash, item.filePath, item.sourceFileName⟩

/-- `get_file`: the file of a scan with the given identity. -/
def getFile (db : Db) (scanId : Nat) (repositoryName filePathHash : String) :
    Option (Nat × FileRow) :=
  db.facts.files.rows.find? fun r =>
    r.2.scanId = scanId ∧ r.2.repositoryName = repositoryName ∧ r.2.filePathHash = filePathHash

/-- One turn of the loop that builds `normalized`, a dictionary keyed by repository and hash. -/
def normalizeFile (seen : List FileItem) (item : FileItem) : Except Failure (List FileItem) := do
  require .fileIdentityRequired (item.filePathHash ≠ "" ∧ item.filePath ≠ "")
  match seen.find? fun s =>
      s.repositoryName = item.repositoryName ∧ s.filePathHash = item.filePathHash with
  | some known => do
    require .duplicateFileIdentity (known = item)
    pure seen
  | none => pure (seen ++ [item])

/-- A file that exists must have been registered with the same paths. -/
def assertFileIdentity (db : Db) (scanId : Nat) (item : FileItem) : Except Failure Unit :=
  match getFile db scanId item.repositoryName item.filePathHash with
  | some (_, row) => require .fileIdentityImmutable
      (row.filePath = item.filePath ∧ row.sourceFileName = item.sourceFileName)
  | none => pure ()

/-- `ensure_files` -/
def ensureFiles (db : Db) (scanId : Nat) (items : List FileItem) : Except Failure Db := do
  assertScanBuilding db scanId
  let normalized ← items.foldlM normalizeFile []
  normalized.forM (assertFileIdentity db scanId)
  let missing := normalized.filter fun item =>
    (getFile db scanId item.repositoryName item.filePathHash).isNone
  pure { db with facts.files := db.facts.files.insertMany (missing.map (FileItem.row scanId)) }

end ProjectRepository

/-! ## Repository identities -/

namespace RepositoryRepository

/-- `ensure` -/
def ensure (db : Db) (projectId : Nat) (repositoryName : String) : Except Failure (Db × Nat) := do
  let name := strip repositoryName
  require .repositoryNameRequired (name ≠ "")
  match db.facts.repositories.rows.find?
      fun r => r.2.projectId = projectId ∧ r.2.repositoryName = name with
  | some (repositoryId, row) => do
    require .repositoryRetired (row.retired = false)
    pure (db, repositoryId)
  | none =>
    let row : Repository := ⟨projectId, name, false⟩
    pure ({ db with facts.repositories := db.facts.repositories.insert row },
      db.facts.repositories.next)

end RepositoryRepository

/-! ## Lines -/

/-- One line of the coverage input; a key that is missing or `None` is `none`. -/
structure LineRecord where
  /-- `line_number`; zero when it is missing. -/
  lineNumber : Nat
  /-- `line_text` -/
  lineText : Option String := none
  /-- `coverage_state` -/
  coverageState : Option String := none
  /-- `block_start_line` -/
  blockStartLine : Option Nat := none
  /-- `block_end_line` -/
  blockEndLine : Option Nat := none
  /-- `block_type` -/
  blockType : Option String := none
  /-- `function_name` -/
  functionName : Option String := none
  /-- `function_hash` -/
  functionHash : Option String := none
  /-- `code_line_hash` -/
  codeLineHash : Option String := none
  /-- `code_occurrence` -/
  codeOccurrence : Option Nat := none
  /-- `suggested_reviewer` -/
  suggestedReviewer : Option String := none
  deriving DecidableEq, Repr

/-- The stored values of a line: the given ones, and the defaults of `upsert_lines` elsewhere. -/
def LineRecord.facts (r : LineRecord) : LineFacts where
  lineNumber := r.lineNumber
  lineText := r.lineText.getD ""
  coverageState := r.coverageState.getD "unknown"
  blockStartLine := r.blockStartLine.getD r.lineNumber
  blockEndLine := r.blockEndLine.getD r.lineNumber
  blockType := r.blockType.getD "single"
  functionName := r.functionName.getD ""
  functionHash := r.functionHash.getD ""
  codeLineHash := r.codeLineHash.getD ""
  codeOccurrence := r.codeOccurrence.getD 1
  suggestedReviewer := r.suggestedReviewer.getD ""

namespace LineIndexRepository

/-- `get_line` -/
def getLine (db : Db) (fileId lineNumber : Nat) : Option (Nat × LineRow) :=
  db.facts.lines.rows.find? fun r => r.2.fileId = fileId ∧ r.2.facts.lineNumber = lineNumber

/-- `_assert_file_scan_building` -/
def assertFileScanBuilding (db : Db) (fileId : Nat) : Except Failure Unit := do
  let file ← orFail (.fileNotFound fileId) (db.facts.files.get? fileId)
  let scan ← orFail (.fileNotFound fileId) (db.facts.scans.get? file.scanId)
  require .factsSealed (scan.status.underConstruction = true)

/-- A line that exists must carry the same facts. -/
def assertLineFact (db : Db) (fileId : Nat) (facts : LineFacts) : Except Failure Unit :=
  match getLine db fileId facts.lineNumber with
  | some (_, row) => require .lineFactImmutable (row.facts = facts)
  | none => pure ()

/-- `upsert_lines` -/
def upsertLines (db : Db) (fileId : Nat) (records : List LineRecord) : Except Failure Db := do
  assertFileScanBuilding db fileId
  records.forM fun r => require .lineNumberPositive (0 < r.lineNumber)
  let normalized := records.map LineRecord.facts
  require .duplicateLineIdentity ((normalized.map LineFacts.lineNumber).Nodup)
  normalized.forM (assertLineFact db fileId)
  let missing := normalized.filter fun facts => (getLine db fileId facts.lineNumber).isNone
  pure { db with facts.lines := db.facts.lines.insertMany (missing.map (LineRow.mk fileId)) }

end LineIndexRepository

end FosCoverage
