import Mathlib.Data.String.Basic
import FosCoverage.Lib.LastWrite
import FosCoverage.Lib.Paging
import FosCoverage.Repository.Project

/-!
# Reading a legacy database

The migration reads the tables `coverage_line_index` and `coverage_analysis` of a legacy database
and regroups their rows by physical file.  Everything it does afterwards (the semantic hash of the
source, the counts, the target rows) is computed from the groups.

* `legacyFileHashPages` and `iterLegacyRows` read by keyset pages: the hashes of a project in their
  order, then the rows of one hash in the order of their primary keys.
* `legacyFileContexts` regroups the rows of one hash by path.  A row without a path falls back to
  the hash, or for an analysis to the only path its line has; if the rows of one line disagree about
  the path, every path gets a repository name of its own.
* The maps of a context are keyed by line number, so a second row for a number replaces the first.

A legacy table that does not exist reads as an empty one, and so do the `None`s of the columns that
are text in every schema.  The guards against a cursor that does not advance cannot fire, since the
rows of a page are behind its cursor.
-/

set_option autoImplicit false

namespace FosCoverage

namespace LegacyMigration

/-! ## Rows -/

/-- A row of `coverage_line_index`. -/
structure LegacyLine where
  /-- `id`, the primary key -/
  id : Int
  /-- `project_name` -/
  projectName : String
  /-- `file_path`, possibly empty -/
  filePath : String
  /-- `file_path_hash`, possibly empty -/
  filePathHash : String
  /-- `line_number` -/
  lineNumber : Int
  /-- `line_text` -/
  lineText : Option String := none
  /-- `block_start_line` -/
  blockStartLine : Option Int := none
  /-- `block_end_line` -/
  blockEndLine : Option Int := none
  /-- `block_type` -/
  blockType : Option String := none
  /-- `function_name` -/
  functionName : Option String := none
  /-- `function_hash` -/
  functionHash : Option String := none
  /-- `code_line_hash` -/
  codeLineHash : Option String := none
  /-- `code_occurrence` -/
  codeOccurrence : Option Int := none
  /-- `created_at` -/
  createdAt : Option String := none
  /-- `updated_at` -/
  updatedAt : Option String := none
  deriving DecidableEq, Repr

/-- A row of `coverage_analysis`. -/
structure LegacyAnalysis where
  /-- `id`, the primary key -/
  id : Int
  /-- `project_name` -/
  projectName : String
  /-- `file_path`, possibly empty -/
  filePath : String
  /-- `file_path_hash`, possibly empty -/
  filePathHash : String
  /-- `line_number` -/
  lineNumber : Int
  /-- `status` -/
  status : Option String := none
  /-- `is_draft` -/
  isDraft : Option Int := none
  /-- `reviewer` -/
  reviewer : Option String := none
  /-- `coverage_method`, `method` -/
  coverageMethod : List (Option String) := []
  /-- `uncovered_reason`, `reason` -/
  uncoveredReason : List (Option String) := []
  /-- `comment`, `comments`, `remark` -/
  comment : List (Option String) := []
  /-- `created_at` -/
  createdAt : Option String := none
  /-- `updated_at` -/
  updatedAt : Option String := none
  deriving DecidableEq, Repr

/-- A legacy database.  Nothing is promised of its rows but the primary keys. -/
structure LegacyDb where
  /-- `coverage_line_index` -/
  lines : List LegacyLine
  /-- `coverage_analysis` -/
  analyses : List LegacyAnalysis
  /-- The project names of `coverage_project_state` and `coverage_background_jobs`. -/
  otherProjects : List String
  /-- `id` is a key. -/
  lineKey : (lines.map LegacyLine.id).Nodup
  /-- `id` is a key. -/
  analysisKey : (analyses.map LegacyAnalysis.id).Nodup

/-- The hash functions of the migration. -/
structure Digests where
  /-- `hashlib.md5(..).hexdigest()` -/
  md5 : String → String
  /-- `hashlib.sha256(..).hexdigest()` -/
  sha256 : String → String
  /-- `_legacy_payload_hash` of a line row -/
  linePayload : LegacyLine → String
  /-- `_legacy_payload_hash` of an analysis row -/
  analysisPayload : LegacyAnalysis → String

/-! ## Facts -/

/-- `_legacy_line_fact` -/
structure LineFact where
  /-- `source_pk` -/
  sourcePk : Int
  /-- `project_name` -/
  projectName : String
  /-- `file_path_hash` -/
  filePathHash : String
  /-- `file_path` -/
  filePath : String
  /-- `line_number` -/
  lineNumber : Int
  /-- `line_text` -/
  lineText : String
  /-- `block_start_line` -/
  blockStartLine : Int
  /-- `block_end_line` -/
  blockEndLine : Int
  /-- `block_type` -/
  blockType : String
  /-- `function_name` -/
  functionName : String
  /-- `function_hash` -/
  functionHash : String
  /-- `code_line_hash` -/
  codeLineHash : String
  /-- `code_occurrence` -/
  codeOccurrence : Int
  /-- `legacy_created_at` -/
  legacyCreatedAt : Option String
  /-- `legacy_updated_at` -/
  legacyUpdatedAt : Option String
  /-- `raw_payload_sha256` -/
  rawPayloadSha256 : String
  deriving DecidableEq, Repr

/-- `_legacy_analysis_fact` -/
structure AnalysisFact where
  /-- `source_pk` -/
  sourcePk : Int
  /-- `project_name` -/
  projectName : String
  /-- `file_path_hash` -/
  filePathHash : String
  /-- `file_path` -/
  filePath : String
  /-- `line_number` -/
  lineNumber : Int
  /-- `status` -/
  status : String
  /-- `is_draft` -/
  isDraft : Int
  /-- `reviewer` -/
  reviewer : String
  /-- `coverage_method` -/
  coverageMethod : String
  /-- `uncovered_reason` -/
  uncoveredReason : String
  /-- `comment` -/
  comment : String
  /-- `legacy_created_at` -/
  legacyCreatedAt : Option String
  /-- `legacy_updated_at` -/
  legacyUpdatedAt : Option String
  /-- `raw_payload_sha256` -/
  rawPayloadSha256 : String
  deriving DecidableEq, Repr

/-- `value or default`, for a number. -/
def orDefault (value : Option Int) (default : Int) : Int :=
  match value with
  | some n => if n = 0 then default else n
  | none => default

/-- `_legacy_text`: the first column that is not empty. -/
def legacyText (columns : List (Option String)) : String :=
  ((columns.filterMap id).find? fun s => s ≠ "").getD ""

/-- The hash of `_legacy_key`: an empty hash is computed from the path. -/
def legacyHash (d : Digests) (filePathHash filePath : String) : String :=
  if filePathHash = "" then d.md5 filePath else filePathHash

/-- `_legacy_line_fact` -/
def legacyLineFact (d : Digests) (row : LegacyLine) : LineFact where
  sourcePk := row.id
  projectName := row.projectName
  filePathHash := legacyHash d row.filePathHash row.filePath
  filePath := row.filePath
  lineNumber := row.lineNumber
  lineText := row.lineText.getD ""
  blockStartLine := orDefault row.blockStartLine row.lineNumber
  blockEndLine := orDefault row.blockEndLine row.lineNumber
  blockType := if row.blockType.getD "" = "" then "single" else row.blockType.getD ""
  functionName := row.functionName.getD ""
  functionHash := row.functionHash.getD ""
  codeLineHash := row.codeLineHash.getD ""
  codeOccurrence := orDefault row.codeOccurrence 1
  legacyCreatedAt := row.createdAt
  legacyUpdatedAt := row.updatedAt
  rawPayloadSha256 := d.linePayload row

/-- `_legacy_analysis_fact` -/
def legacyAnalysisFact (d : Digests) (row : LegacyAnalysis) : AnalysisFact where
  sourcePk := row.id
  projectName := row.projectName
  filePathHash := legacyHash d row.filePathHash row.filePath
  filePath := row.filePath
  lineNumber := row.lineNumber
  status := row.status.getD ""
  isDraft := row.isDraft.getD 0
  reviewer := row.reviewer.getD ""
  coverageMethod := legacyText row.coverageMethod
  uncoveredReason := legacyText row.uncoveredReason
  comment := legacyText row.comment
  legacyCreatedAt := row.createdAt
  legacyUpdatedAt := row.updatedAt
  rawPayloadSha256 := d.analysisPayload row

/-! ## Keyset pages -/

/-- `LEGACY_STREAM_BATCH_SIZE` -/
def legacyStreamBatchSize : Nat := 500

/-- `_project_names` -/
def projectNames (db : LegacyDb) : List String :=
  ((db.analyses.map LegacyAnalysis.projectName ++ db.lines.map LegacyLine.projectName ++
    db.otherProjects).filter fun name => name ≠ "").dedup.insertionSort (· ≤ ·)

/-- The hashes of a project, each once: the `UNION` of `_legacy_file_hash_page`. -/
def legacyFileKeys (db : LegacyDb) (projectName : String) : List String :=
  (((db.lines.filter fun r => r.projectName = projectName).map LegacyLine.filePathHash) ++
    (db.analyses.filter fun r => r.projectName = projectName).map
      LegacyAnalysis.filePathHash).dedup

/-- The pages `_legacy_file_hash_page` gives from the empty cursor on. -/
def legacyFileHashPages (db : LegacyDb) (projectName : String) (limit : Nat) :
    List (List String) :=
  Paging.scan id limit (legacyFileKeys db projectName) ""

/-- `_iter_legacy_rows` with the condition on project and hash. -/
def iterLegacyRows {α : Type} (id : α → Int) (rows : List α) (where_ : α → Bool) : List α :=
  (Paging.scan id legacyStreamBatchSize (rows.filter where_) 0).flatten

/-! ## Contexts -/

/-- A line of a context: what the target row is made of. -/
structure LineEntry where
  /-- `line_number` -/
  lineNumber : Int
  /-- `line_text` -/
  lineText : String
  /-- `coverage_state` -/
  coverageState : String
  /-- `block_start_line` -/
  blockStartLine : Int
  /-- `block_end_line` -/
  blockEndLine : Int
  /-- `block_type` -/
  blockType : String
  /-- `function_name` -/
  functionName : String
  /-- `function_hash` -/
  functionHash : String
  /-- `code_line_hash` -/
  codeLineHash : String
  /-- `code_occurrence` -/
  codeOccurrence : Int
  /-- `suggested_reviewer` -/
  suggestedReviewer : String
  deriving DecidableEq, Repr

/-- The line of a line fact. -/
def LineFact.entry (line : LineFact) : LineEntry :=
  ⟨line.lineNumber, line.lineText, "uncovered", line.blockStartLine, line.blockEndLine,
    line.blockType, line.functionName, line.functionHash, line.codeLineHash, line.codeOccurrence,
    ""⟩

/-- The line of an analysis that has no line row. -/
def AnalysisFact.entry (analysis : AnalysisFact) : LineEntry :=
  ⟨analysis.lineNumber, "", "uncovered", analysis.lineNumber, analysis.lineNumber, "unknown", "",
    "", "", 1, ""⟩

/-- The rows of one physical file.  The three maps are keyed by line number. -/
structure LegacyContext where
  /-- `repository_name` -/
  repositoryName : String
  /-- `file_path_hash` -/
  filePathHash : String
  /-- `file_path` -/
  filePath : String
  /-- `source_file_name` -/
  sourceFileName : String
  /-- `lines` -/
  lines : List LineEntry := []
  /-- `source_lines` -/
  sourceLines : List LineFact := []
  /-- `analyses` -/
  analyses : List AnalysisFact := []
  /-- `path_conflict` -/
  pathConflict : Bool
  /-- `path_candidates` -/
  pathCandidates : List (Int × List String)
  /-- `missing_file_path_lines` -/
  missingFilePathLines : List Int := []
  /-- `ambiguous_analysis_lines` -/
  ambiguousAnalysisLines : List Int := []
  /-- `missing_line_index_lines` -/
  missingLineIndexLines : List Int := []
  deriving DecidableEq, Repr

/-- `paths_by_line`: the paths the rows of a line give. -/
def pathsByLine (lines : List LineFact) (number : Int) : List String :=
  ((lines.filter fun l => l.lineNumber = number ∧ l.filePath ≠ "").map LineFact.filePath).dedup

/-- Two rows of one line disagree about the path. -/
def pathConflict (lines : List LineFact) : Bool :=
  lines.any fun l => 1 < (pathsByLine lines l.lineNumber).length

/-- The evidence kept with every context of the hash. -/
def pathCandidates (lines : List LineFact) : List (Int × List String) :=
  ((lines.filter fun l => l.filePath ≠ "").map LineFact.lineNumber).dedup.map fun number =>
    (number, (pathsByLine lines number).insertionSort (· ≤ ·))

/-- The first sixteen digits of the hash of a path. -/
def conflictDigits (d : Digests) (path : String) : String :=
  String.ofList ((d.sha256 path).toList.take 16)

/-- The repository name a path gets. -/
def repositoryFor (d : Digests) (conflict : Bool) (path : String) : String :=
  if conflict then "legacy-conflict-" ++ conflictDigits d path else ""

/-- The keys of `contexts`. -/
def LegacyContext.key (c : LegacyContext) : String × String × String :=
  (c.repositoryName, c.filePathHash, c.filePath)

/-- A line of the context, with a note when its row has no path. -/
def LegacyContext.putLine (line : LineFact) (c : LegacyContext) : LegacyContext :=
  { c with
    missingFilePathLines := if line.filePath = "" then c.missingFilePathLines ++ [line.lineNumber]
      else c.missingFilePathLines
    sourceLines := LastWrite.set LineFact.lineNumber c.sourceLines line
    lines := LastWrite.set LineEntry.lineNumber c.lines line.entry }

/-- The line has an entry in the context. -/
def LegacyContext.hasLine (c : LegacyContext) (number : Int) : Bool :=
  c.lines.any fun l => l.lineNumber = number

/-- An analysis of the context, with an entry for its line if there is none. -/
def LegacyContext.putAnalysis (analysis : AnalysisFact) (c : LegacyContext) : LegacyContext :=
  { c with
    analyses := LastWrite.set AnalysisFact.lineNumber c.analyses analysis
    missingLineIndexLines := if c.hasLine analysis.lineNumber then c.missingLineIndexLines
      else c.missingLineIndexLines ++ [analysis.lineNumber]
    lines := if c.hasLine analysis.lineNumber then c.lines
      else LastWrite.set LineEntry.lineNumber c.lines analysis.entry }

/-- The evidence of an analysis whose path is ambiguous. -/
def LegacyContext.markAmbiguous (number : Int) (c : LegacyContext) : LegacyContext :=
  { c with ambiguousAnalysisLines := c.ambiguousAnalysisLines ++ [number] }

/-- One hash with its lines. -/
structure Regrouping where
  /-- The hash functions. -/
  digests : Digests
  /-- `file_hash` -/
  fileHash : String
  /-- `lines` -/
  lines : List LineFact

namespace Regrouping

variable (g : Regrouping)

/-- A new context. -/
def blank (path : String) : LegacyContext where
  repositoryName := repositoryFor g.digests (LegacyMigration.pathConflict g.lines) path
  filePathHash := g.fileHash
  filePath := path
  sourceFileName := basename path
  pathConflict := LegacyMigration.pathConflict g.lines
  pathCandidates := LegacyMigration.pathCandidates g.lines

/-- `context_for` -/
def contextFor (contexts : List LegacyContext) (path : String) : LegacyContext :=
  let path := if path = "" then g.fileHash else path
  (contexts.find? fun c => c.key = (g.blank path).key).getD (g.blank path)

/-- What happens to the context of a path. -/
def modify (contexts : List LegacyContext) (path : String)
    (f : LegacyContext → LegacyContext) : List LegacyContext :=
  LastWrite.set LegacyContext.key contexts (f (g.contextFor contexts path))

/-- The path a line is filed under. -/
def linePath (line : LineFact) : String :=
  if line.filePath = "" then g.fileHash else line.filePath

/-- One turn of the loop over the lines. -/
def addLine (contexts : List LegacyContext) (line : LineFact) : List LegacyContext :=
  g.modify contexts (g.linePath line) (LegacyContext.putLine line)

/-- The path an analysis is filed under. -/
def analysisPath (analysis : AnalysisFact) : String :=
  if analysis.filePath ≠ "" then analysis.filePath
  else match pathsByLine g.lines analysis.lineNumber with
    | [path] => path
    | _ => g.fileHash

/-- The analysis gives no path and its line gives none or several. -/
def ambiguous (analysis : AnalysisFact) : Bool :=
  analysis.filePath = "" ∧ (pathsByLine g.lines analysis.lineNumber).length ≠ 1

/-- One turn of the loop over the analyses. -/
def addAnalysis (contexts : List LegacyContext) (analysis : AnalysisFact) : List LegacyContext :=
  let contexts := if g.ambiguous analysis then
      g.modify contexts g.fileHash (LegacyContext.markAmbiguous analysis.lineNumber)
    else contexts
  g.modify contexts (g.analysisPath analysis) (LegacyContext.putAnalysis analysis)

end Regrouping

/-- The order of the keys. -/
def LegacyContext.le (a b : LegacyContext) : Bool :=
  a.repositoryName < b.repositoryName ∨ (a.repositoryName = b.repositoryName ∧
    (a.filePathHash < b.filePathHash ∨ (a.filePathHash = b.filePathHash ∧
      a.filePath ≤ b.filePath)))

/-- The lines of a project and hash. -/
def groupLines (d : Digests) (db : LegacyDb) (projectName fileHash : String) : List LineFact :=
  (iterLegacyRows LegacyLine.id db.lines fun r =>
    r.projectName = projectName ∧ r.filePathHash = fileHash).map (legacyLineFact d)

/-- The analyses of a project and hash. -/
def groupAnalyses (d : Digests) (db : LegacyDb) (projectName fileHash : String) :
    List AnalysisFact :=
  (iterLegacyRows LegacyAnalysis.id db.analyses fun r =>
    r.projectName = projectName ∧ r.filePathHash = fileHash).map (legacyAnalysisFact d)

/-- `_legacy_file_contexts` -/
def legacyFileContexts (d : Digests) (db : LegacyDb) (projectName fileHash : String) :
    List LegacyContext :=
  let g : Regrouping := ⟨d, fileHash, groupLines d db projectName fileHash⟩
  let contexts := g.lines.foldl g.addLine []
  let contexts := (groupAnalyses d db projectName fileHash).foldl g.addAnalysis contexts
  contexts.insertionSort fun a b => a.le b = true

/-- `_iter_legacy_file_contexts` -/
def iterLegacyFileContexts (d : Digests) (db : LegacyDb) (projectName : String)
    (batchSize : Nat) : List LegacyContext :=
  (legacyFileHashPages db projectName batchSize).flatten.flatMap
    (legacyFileContexts d db projectName)

end LegacyMigration

end FosCoverage
