import Mathlib.Data.List.Sort
import FosCoverage.Environment
import FosCoverage.Repository.AnalysisDomain

/-!
# The read set of an engine run

The inheritance engine reads relations of the predecessor while reviewers go on changing them.  It
keeps a fingerprint of what it has read, `ReadSetAccumulator`, and the publication reads the same
files again and compares.

* `SourceRelation` is a relation joined with its line, its file, its block and its record; the
  engine enumerates those of one file (`fileRelations`), the publication those of one path
  (`pathRelations`).
* Every relation is observed with its revision, and once more with the revision of its record.
-/

set_option autoImplicit false

namespace FosCoverage

open Relational Fingerprint

/-! ## The relations of a scan -/

/-- One row of the query both the engine and the publication enumerate. -/
structure SourceRelation where
  /-- The relation's id. -/
  id : Nat
  /-- The relation. -/
  link : Link
  /-- Its line. -/
  line : LineRow
  /-- The file of the line. -/
  file : FileRow
  /-- `LEFT JOIN coverage_analysis_blocks` -/
  block : Option Block
  /-- `LEFT JOIN coverage_analysis_records` -/
  record : Option Record
  deriving DecidableEq, Repr

/-- The join of one relation. -/
def joinRelation (db : Db) (r : Nat × Link) : Option SourceRelation := do
  let line ← db.facts.lines.get? r.2.lineId
  let file ← db.facts.files.get? line.fileId
  pure ⟨r.1, r.2, line, file, r.2.blockId.bind db.domain.blocks.get?,
    db.domain.records.get? r.2.recordId⟩

/-- The active relations of a scan, in the order of their ids. -/
def activeRelations (db : Db) (scanId : Nat) : List SourceRelation :=
  (db.domain.links.select fun _ q => q.scanId = scanId ∧ q.isActive = true).filterMap
    (joinRelation db)

/-- `_iter_source_relation_pages`: the active relations of one file. -/
def fileRelations (db : Db) (scanId fileId : Nat) : List SourceRelation :=
  (activeRelations db scanId).filter fun r => r.line.fileId = fileId

/-- The source of a file. -/
def FileRow.source (f : FileRow) : SourceFile := ⟨f.repositoryName, f.filePath⟩

/-- The two names of a file are those of a source, as a query compares them. -/
def Env.sameSource (env : Env) (file : FileRow) (source : SourceFile) : Bool :=
  env.collates file.repositoryName source.repositoryName ∧
    env.collates file.filePath source.filePath

/-- The query of `_validate_compact_read_set`: the active relations of one path. -/
def pathRelations (env : Env) (db : Db) (scanId : Nat) (source : SourceFile) :
    List SourceRelation :=
  (activeRelations db scanId).filter fun r => env.sameSource r.file source

/-! ## The accumulator -/

/-- `ReadSetAccumulator` -/
structure ReadSetAccumulator where
  /-- `relation_count`, `relation_sum`, `relation_xor` -/
  relations : DigestSum
  /-- `record_count`, `record_sum`, `record_xor` -/
  records : DigestSum
  /-- `source_files`, a set. -/
  sourceFiles : List SourceFile
  deriving DecidableEq, Repr

namespace ReadSetAccumulator

/-- Nothing has been read. -/
def empty : ReadSetAccumulator := ⟨DigestSum.zero, DigestSum.zero, []⟩

/-- `add_source_file` -/
def addSourceFile (acc : ReadSetAccumulator) (source : SourceFile) : ReadSetAccumulator :=
  if source ∈ acc.sourceFiles then acc
  else { acc with sourceFiles := acc.sourceFiles ++ [source] }

/-- `add_relation` -/
def addRelation (env : Env) (acc : ReadSetAccumulator) (relationId relationRevision : Nat) :
    ReadSetAccumulator :=
  { acc with
    relations := acc.relations.add 256 (env.itemDigest "relation" relationId relationRevision) }

/-- `add_record` -/
def addRecord (env : Env) (acc : ReadSetAccumulator) (recordId contentRevision : Nat) :
    ReadSetAccumulator :=
  { acc with records := acc.records.add 256 (env.itemDigest "record" recordId contentRevision) }

/-- One relation of `_record_read_set_page`. -/
def observe (env : Env) (acc : ReadSetAccumulator) (r : SourceRelation) : ReadSetAccumulator :=
  let acc := acc.addRelation env r.id r.link.relationRevision
  match r.record with
  | some record => acc.addRecord env r.link.recordId record.contentRevision
  | none => acc

/-- `_record_read_set_page` -/
def observeAll (env : Env) (acc : ReadSetAccumulator) (rs : List SourceRelation) :
    ReadSetAccumulator :=
  rs.foldl (observe env) acc

/-- The order of `sorted(self.source_files)`: pairs of strings, by code point. -/
def sourceFileLe (a b : SourceFile) : Bool :=
  a.repositoryName < b.repositoryName ∨
    (a.repositoryName = b.repositoryName ∧ a.filePath ≤ b.filePath)

/-- `to_payload` -/
def toPayload (acc : ReadSetAccumulator) (candidateScanId predecessorScanId : Option Nat) :
    ReadSet :=
  ⟨candidateScanId, predecessorScanId, acc.relations, acc.records,
    acc.sourceFiles.insertionSort (sourceFileLe · ·)⟩

/-- `matches` -/
def isMatch (acc : ReadSetAccumulator) (payload : ReadSet) : Bool :=
  let expected := acc.toPayload payload.candidateScanId payload.predecessorScanId
  payload.relations = expected.relations ∧ payload.records = expected.records ∧
    payload.sourceFiles = expected.sourceFiles

end ReadSetAccumulator

end FosCoverage
