import FosCoverage.Lib.Grouping
import FosCoverage.Inheritance.ReadSet

/-!
# The inheritance engine

`InheritanceEngine.run` as the code computes it: for every file of the predecessor that has an
active relation, in a repository that is eligible and present in the Candidate, every relation is
mapped to a line of the Candidate, compared, and either inherited or refused with a reason.

* `PredecessorResolver.resolve` says which repositories are eligible.
* `runRelation` treats one relation, `runFile` the relations of one file, `run` all files and then
  the uncovered lines of the Candidate that no relation reached.
* A run shares one cloned record among all lines that inherit from the same source record, and one
  block among the relations with the same `BlockCacheKey`.

Relations and files are read in pages in the code; the engine writes rows of the Candidate only, so
the pages are those of one enumeration of the predecessor.  Metrics and the accounting of the
parser caches are left out.
-/

set_option autoImplicit false

namespace FosCoverage

open Relational Outcome

/-! ## Predecessor resolution -/

/-- What `resolve` returns: the predecessor, and the reason code of every repository. -/
structure Resolution where
  /-- `predecessor_scan_id` -/
  predecessorScanId : Option Nat
  /-- `repositories`, by name. -/
  repositories : List (String × String)
  deriving DecidableEq, Repr

namespace PredecessorResolver

/-- The reason code of one repository of the Candidate. -/
def reasonCode (candidate : Snapshot) : Option Snapshot → String
  | none => "NO_PREDECESSOR"
  | some predecessor =>
    if predecessor.repositoryId.getD 0 = 0 then "NO_PREDECESSOR"
    else if strip candidate.branchName = "" ∨ strip predecessor.branchName = "" ∨
        strip candidate.branchName ≠ strip predecessor.branchName then "BRANCH_MISMATCH"
    else "READY"

/-- The snapshot of one repository of a scan. -/
def repositorySnapshot (env : Env) (db : Db) (scanId : Nat) (repositoryName : String) :
    Option Snapshot :=
  (ProjectRepository.listRepositorySnapshots db scanId).find? fun s =>
    env.collates s.repositoryName repositoryName

/-- `resolve`: the predecessor is fixed by the Candidate and must be of the same project. -/
def resolve (env : Env) (db : Db) (candidateScanId : Nat) : Except Failure Resolution := do
  let candidate ← orFail .candidateScanNotFound (ProjectRepository.getScan db candidateScanId)
  match candidate.predecessorScanId with
  | none => pure ⟨none, []⟩
  | some predecessorId =>
    match ProjectRepository.getScan db predecessorId with
    | none => pure ⟨some predecessorId, []⟩
    | some predecessor =>
      if predecessor.projectId ≠ candidate.projectId then pure ⟨some predecessorId, []⟩
      else pure ⟨some predecessorId,
        (ProjectRepository.listRepositorySnapshots db candidateScanId).map fun c =>
          (c.repositoryName,
            reasonCode c (repositorySnapshot env db predecessorId c.repositoryName))⟩

end PredecessorResolver

namespace InheritanceEngine

open AnalysisDomainRepository

/-! ## The state of a run -/

/-- `cache_key` of `_candidate_block_for_relation`. -/
structure BlockCacheKey where
  /-- The block of the predecessor. -/
  sourceBlockId : Nat
  /-- The file of the Candidate. -/
  fileId : Nat
  /-- The mapping. -/
  mappingFingerprint : String
  /-- First line of the source block. -/
  sourceStart : Nat
  /-- Last line of the source block. -/
  sourceEnd : Nat
  /-- The cloned record. -/
  recordId : Nat
  deriving DecidableEq, Repr

/-- What a run carries from one relation to the next. -/
structure RunState where
  /-- The database. -/
  db : Db
  /-- `read_set` -/
  readSet : ReadSetAccumulator
  /-- `_candidate_record_cache`: the clone of each source record. -/
  candidateRecordCache : List (Nat × Nat)
  /-- `_candidate_block_cache` -/
  candidateBlockCache : List (BlockCacheKey × Nat)

/-- What is fixed during a run with a predecessor. -/
structure RunContext where
  /-- Git, parser and hashes. -/
  env : Env
  /-- `run_id` -/
  runId : String
  /-- The Candidate. -/
  candidateScanId : Nat
  /-- The predecessor. -/
  predecessorScanId : Nat
  /-- `repository_resolution` -/
  repositories : List (String × String)
  /-- `repository_paths` -/
  repositoryPaths : List (String × String)

/-! ## Decisions -/

/-- The decision of a run about a line. -/
def findDecision (db : Db) (runId : String) (lineId : Nat) : Option (Nat × Decision) :=
  db.domain.decisions.rows.find? fun d =>
    d.2.decisionRunId = runId ∧ d.2.candidateLineId = lineId

/-- `_write_decision` for a line of the Candidate: the first decision of a run stands. -/
def writeDecision (db : Db) (runId : String) (candidateScanId lineId : Nat)
    (relation : Option SourceRelation) (reason : String) : Db :=
  if (findDecision db runId lineId).isSome then db
  else
    let source := (relation.map fun r : SourceRelation =>
      (⟨some r.link.scanId, some r.link.lineId, some r.id⟩ : SourceTriple)).getD SourceTriple.none
    let row : Decision := ⟨runId, candidateScanId, lineId, source, reason = "INHERITED", reason⟩
    { db with domain.decisions := db.domain.decisions.insert row }

/-! ## Comparison -/

/-- `lines[n - 1]`, or the text the database has when the file is shorter. -/
def textAt (lines : List String) (n : Nat) (fallback : String) : String :=
  if 0 < n then (lines[n - 1]?).getD fallback else fallback

/-- The relation names a block whose identity was verified. -/
def blockVerified (r : SourceRelation) : Bool :=
  r.link.blockId.getD 0 ≠ 0 ∧ (r.block.any Block.blockIdentityVerified) = true

/-- The outcome of one mapped relation: `none` to inherit, else the reason not to. -/
def compareRelation (source : SourceText) (r : SourceRelation) (line : LineRow)
    (newLineNumber : Nat) : Option String :=
  let oldLineNumber := r.line.facts.lineNumber
  let result := source.compareLine
    (textAt source.oldLines oldLineNumber r.line.facts.lineText)
    (textAt source.newLines newLineNumber line.facts.lineText) oldLineNumber newLineNumber
  match result with
  | some reason => some reason
  | none => if blockVerified r then none else some "BLOCK_AMBIGUOUS"

/-- `_snapshot_for_relation`: a reason code, or the two texts of the file. -/
def snapshotForRelation (ctx : RunContext) (db : Db) (r : SourceRelation) :
    Except Failure (Except String SourceText) :=
  let old := PredecessorResolver.repositorySnapshot ctx.env db ctx.predecessorScanId r.file.repositoryName
  let new := PredecessorResolver.repositorySnapshot ctx.env db ctx.candidateScanId r.file.repositoryName
  let branch := fun s : Option Snapshot => strip ((s.map Snapshot.branchName).getD "")
  let commit := fun s : Option Snapshot => ((s.bind Snapshot.commitSha).getD "")
  let verified := fun s : Option Snapshot => ((s.map Snapshot.identityVerified).getD false)
  if branch old ≠ "" ∧ branch new ≠ "" ∧ branch old ≠ branch new then
    pure (.error "BRANCH_MISMATCH")
  else if commit old = "" ∨ commit new = "" ∨ !verified old ∨ !verified new then
    pure (.error "REPOSITORY_IDENTITY_UNVERIFIED")
  else
    let repoPath := (ctx.repositoryPaths.lookup r.file.repositoryName).getD ""
    if repoPath = "" then pure (.error "REPOSITORY_PATH_UNAVAILABLE")
    else match ctx.env.snapshot repoPath (commit old) (commit new) r.file.filePath with
      | .error detail => .error (.technicalFailure detail)
      | .ok source => pure source

/-! ## Inheriting one relation -/

/-- `_candidate_record_cache`: the clone of the source record, created on first use. -/
def cloneRecord (st : RunState) (sourceRecordId : Nat) : Except Failure (RunState × Nat) :=
  match st.candidateRecordCache.lookup sourceRecordId with
  | some clone => pure (st, clone)
  | none => do
    let record ← orFail (.technicalFailure "'NoneType' object has no attribute 'get'")
      (st.db.domain.records.get? sourceRecordId)
    let (db, clone) := createRecord st.db record.content .inherited
    let cache := (sourceRecordId, clone) :: st.candidateRecordCache
    pure ({ st with db := db, candidateRecordCache := cache }, clone)

/-- The mapped numbers of a block, split into contiguous runs. -/
def contiguousRuns (numbers : List Nat) : List (List Nat) :=
  Grouping.groups (fun current n => current.getLast?.map (· + 1) ≠ some n) numbers

/-- First and last line of the source block of a relation. -/
def sourceRange (r : SourceRelation) : Nat × Nat :=
  let number := r.line.facts.lineNumber
  let or := fun n : Nat => if n ≠ 0 then n else number
  (or ((r.block.map Block.startLine).getD 0), or ((r.block.map Block.endLine).getD 0))

/-- The run of mapped lines of the source block that contains the target line. -/
def selectedRun (mapping : LineMapping) (r : SourceRelation) (targetNumber : Nat) : List Nat :=
  let (sourceStart, sourceEnd) := sourceRange r
  let mappedNumbers :=
    if sourceStart < 1 ∨ sourceEnd < sourceStart ∨ 20000 < sourceEnd - sourceStart + 1 then
      [targetNumber]
    else (List.range' sourceStart (sourceEnd - sourceStart + 1)).filterMap mapping.get
  match (contiguousRuns mappedNumbers).find? fun run => run.contains targetNumber with
  | some run => run
  | none => [targetNumber]

/-- `_candidate_block_for_relation` -/
def candidateBlockForRelation (ctx : RunContext) (mapping : LineMapping) (st : RunState)
    (r : SourceRelation) (line : LineRow) (recordId : Nat) : Except Failure (RunState × Nat) := do
  let sourceBlockId := r.link.blockId.getD 0
  require .blockAmbiguous (sourceBlockId ≠ 0)
  let (sourceStart, sourceEnd) := sourceRange r
  let key : BlockCacheKey :=
    ⟨sourceBlockId, line.fileId, mapping.fingerprint, sourceStart, sourceEnd, recordId⟩
  match st.candidateBlockCache.lookup key with
  | some blockId => pure (st, blockId)
  | none => do
    let run := selectedRun mapping r line.facts.lineNumber
    let block : Block := ⟨ctx.candidateScanId, line.fileId, run.headD 0, run.getLastD 0,
      .inheritance, true, some recordId, "INHERITANCE"⟩
    let (db, blockId) ← createBlock st.db block
    pure ({ st with db := db, candidateBlockCache := (key, blockId) :: st.candidateBlockCache },
      blockId)

/-- `_ensure_group`: the source repository must have a master identity. -/
def ensureGroup (ctx : RunContext) (mapping : LineMapping) (db : Db) (r : SourceRelation)
    (line : LineRow) : Db × Option Nat :=
  let repositoryId := ((PredecessorResolver.repositorySnapshot ctx.env db ctx.predecessorScanId
    r.file.repositoryName).bind Snapshot.repositoryId).getD 0
  if r.link.blockId.getD 0 = 0 ∨ repositoryId = 0 then (db, none)
  else
    let blockId := r.link.blockId.getD 0
    match db.domain.groups.rows.find? fun g => g.2.decisionRunId = ctx.runId ∧
        g.2.sourceAnalysisBlockId = blockId ∧ g.2.candidateFileId = line.fileId ∧
        g.2.mappingFingerprint = mapping.fingerprint with
    | some (groupId, _) => (db, some groupId)
    | none =>
      let row : Group := ⟨ctx.runId, ctx.candidateScanId, ctx.predecessorScanId, blockId,
        repositoryId, line.fileId, mapping.fingerprint⟩
      ({ db with domain.groups := db.domain.groups.insert row }, some db.domain.groups.next)

/-- The review state an inherited line starts in. -/
def inheritedState (line : LineRow) : ReviewState :=
  if isCovered line.facts.coverageState then .carriedCovered else .inheritedPending

/-- The relation the engine writes. -/
def inheritedLink (ctx : RunContext) (r : SourceRelation) (lineId recordId blockId : Nat)
    (groupId : Option Nat) (line : LineRow) : LinkItem :=
  ⟨lineId, recordId, some blockId, inheritedState line, .inheritance, groupId, "",
    ⟨some ctx.predecessorScanId, some r.link.lineId, some r.id⟩, none⟩

/-- The second half of `_persist_relation_decision`: clone, block, group and relation. -/
def inheritRelation (ctx : RunContext) (mapping : LineMapping) (st : RunState)
    (r : SourceRelation) (lineId : Nat) (line : LineRow) : Except Failure RunState := do
  let (st, clone) ← cloneRecord st r.link.recordId
  let (st, blockId) ← candidateBlockForRelation ctx mapping st r line clone
  let (db, groupId) := ensureGroup ctx mapping st.db r line
  let db ← createLink db ctx.candidateScanId (inheritedLink ctx r lineId clone blockId groupId line)
  pure { st with db := db }

/-- `_persist_relation_decision` -/
def persistRelationDecision (ctx : RunContext) (source : SourceText) (st : RunState)
    (r : SourceRelation) (lineId : Nat) (line : LineRow) (newLineNumber : Nat) :
    Except Failure RunState :=
  let existing := findDecision st.db ctx.runId lineId
  let result := compareRelation source r line newLineNumber
  let db := writeDecision st.db ctx.runId ctx.candidateScanId lineId (some r)
    (result.getD "INHERITED")
  let st := { st with db := db }
  match result with
  | some _ => pure st
  | none =>
    if (existing.any fun d => d.2.inherited) ∧
        (st.db.activeLink ctx.candidateScanId lineId).isSome then pure st
    else inheritRelation ctx source.mapping st r lineId line

/-! ## Files -/

/-- `_iter_relation_files`: the files of a scan with an active relation. -/
def relationFiles (db : Db) (scanId : Nat) : List (Nat × FileRow) :=
  db.facts.files.select fun id f =>
    f.scanId = scanId ∧ db.facts.lines.rows.any fun l => l.2.fileId = id ∧
      db.domain.links.rows.any fun q =>
        q.2.lineId = l.1 ∧ q.2.scanId = scanId ∧ q.2.isActive = true

/-- `_candidate_file`: the first file of the Candidate with the given path. -/
def candidateFile (env : Env) (db : Db) (scanId : Nat) (repositoryName filePath : String) :
    Option (Nat × FileRow) :=
  db.facts.files.rows.find? fun f =>
    f.2.scanId = scanId ∧ env.sameSource f.2 ⟨repositoryName, filePath⟩

/-- One relation of a file whose two versions are known.  A relation without a target line leaves
no row. -/
def runRelation (ctx : RunContext) (source : SourceText) (targetFileId : Nat) (st : RunState)
    (r : SourceRelation) : Except Failure RunState :=
  match source.mapping.get r.line.facts.lineNumber with
  | none => pure st
  | some newLineNumber =>
    match LineIndexRepository.getLine st.db targetFileId newLineNumber with
    | none => pure st
    | some (lineId, line) => persistRelationDecision ctx source st r lineId line newLineNumber

/-- The file takes part in the inheritance: its repository is eligible. -/
def eligible (repositories : List (String × String)) (file : FileRow) : Bool :=
  repositories.lookup file.repositoryName = some "READY"

/-- One file work unit of `run`. -/
def runFile (ctx : RunContext) (st : RunState) (file : Nat × FileRow) : Except Failure RunState :=
  if !eligible ctx.repositories file.2 then pure st
  else match candidateFile ctx.env st.db ctx.candidateScanId file.2.repositoryName file.2.filePath with
    | none => pure st
    | some (targetFileId, _) => do
      let relations := fileRelations st.db ctx.predecessorScanId file.1
      let readSet := (st.readSet.addSourceFile
        ⟨file.2.repositoryName, file.2.filePath⟩).observeAll ctx.env relations
      let st := { st with readSet := readSet }
      match relations.head? with
      | none => pure st
      | some first =>
        match ← snapshotForRelation ctx st.db first with
        | .error _ => pure st
        | .ok source => relations.foldlM (runRelation ctx source targetFileId) st

/-! ## The run -/

/-- `_iter_candidate_lines`: the lines of a scan with the repository of their file. -/
def candidateLines (db : Db) (scanId : Nat) : List (Nat × LineRow × FileRow) :=
  db.facts.lines.rows.filterMap fun l =>
    match db.facts.files.get? l.2.fileId with
    | some f => if f.scanId = scanId then some (l.1, l.2, f) else none
    | none => none

/-- The reason a line no relation reached is not inherited. -/
def lineReason (repositories : List (String × String)) (file : FileRow) : String :=
  match repositories.lookup file.repositoryName with
  | some "READY" => "NO_SOURCE_RELATION"
  | some reason => reason
  | none => "NO_PREDECESSOR"

/-- A decision for every uncovered line that has none. -/
def decideRemaining (db : Db) (runId : String) (candidateScanId : Nat)
    (reason : FileRow → String) : Db :=
  (candidateLines db candidateScanId).foldl (fun db l =>
    if isUncovered l.2.1.facts.coverageState then
      writeDecision db runId candidateScanId l.1 none (reason l.2.2)
    else db) db

/-- The context of a run with a predecessor. -/
def contextOf (env : Env) (candidateScanId predecessorScanId : Nat)
    (repositories repositoryPaths : List (String × String)) : RunContext :=
  ⟨env, env.decisionRunId candidateScanId (some predecessorScanId), candidateScanId,
    predecessorScanId, repositories, repositoryPaths⟩

/-- The state a run starts from: every cache is empty. -/
def RunState.start (db : Db) : RunState := ⟨db, ReadSetAccumulator.empty, [], []⟩

/-- `run`.  Without a predecessor the read set is empty and is not kept. -/
def run (env : Env) (db : Db) (candidateScanId : Nat) (repositoryPaths : List (String × String)) :
    Except Failure (Db × Option ReadSet) := do
  let resolution ← PredecessorResolver.resolve env db candidateScanId
  match resolution.predecessorScanId with
  | none =>
    pure (decideRemaining db (env.decisionRunId candidateScanId none) candidateScanId
      fun _ => "NO_PREDECESSOR", none)
  | some predecessorScanId => do
    let ctx := contextOf env candidateScanId predecessorScanId resolution.repositories
      repositoryPaths
    let st ← (relationFiles db predecessorScanId).foldlM (runFile ctx) (RunState.start db)
    let db := decideRemaining st.db ctx.runId candidateScanId (lineReason resolution.repositories)
    pure (db, some (st.readSet.toPayload (some candidateScanId) (some predecessorScanId)))

end InheritanceEngine

end FosCoverage
