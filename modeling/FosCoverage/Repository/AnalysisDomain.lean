import FosCoverage.Repository.FileState

/-!
# Records, blocks and line relations

`AnalysisDomainRepository` and `AnalysisRepository` as the code computes them.  A relation has one
row for its scan and line, and it is written in one place only: `writeLink` inserts the row at
revision one or replaces all of it and raises the revision.  `createLink` (the inheritance engine)
and `createLinksMany` (a manual save) differ in how they validate what they write.

The lemmas say what a written relation is (`getLink_writeLink`), that the relations of all other
lines are as before (`getLink_writeLink_of_ne`, `activeLink_writeLink_of_ne`), and that a table of
relations only evolves (`evolves_writeLink`).
-/

set_option autoImplicit false

namespace FosCoverage

open Relational Outcome

/-! ## Reads -/

namespace AnalysisDomainRepository

/-- The key of a relation. -/
def sameLine (scanId lineId : Nat) (q : Link) : Bool :=
  q.scanId = scanId ∧ q.lineId = lineId

/-- The relation of a line in a table of relations, active or not. -/
def findLink (links : Table Link) (scanId lineId : Nat) : Option (Nat × Link) :=
  links.rows.find? fun q => sameLine scanId lineId q.2

/-- `get_link` -/
def getLink (db : Db) (scanId lineId : Nat) : Option (Nat × Link) :=
  findLink db.domain.links scanId lineId

/-- `get_active_line_ids_by_record_ids`, for one record: the lines of all scans whose active
relation is to the record. -/
def getActiveLineIdsByRecordId (db : Db) (recordId : Nat) : List Nat :=
  (db.domain.links.select fun _ q => q.isActive = true ∧ q.recordId = recordId).map
    fun q => q.2.lineId

/-- What a reader sees of a line: the columns of `read_line`. -/
structure LineView where
  /-- The conclusion. -/
  content : Content
  /-- Its revision. -/
  contentRevision : Nat
  /-- Where the review stands. -/
  reviewState : ReviewState
  /-- Where the relation comes from. -/
  relationOrigin : RelationOrigin
  /-- Who reviewed it. -/
  reviewedBy : String
  /-- The selected range. -/
  blockId : Option Nat
  /-- The revision of the relation. -/
  relationRevision : Nat
  /-- The relation it was inherited from. -/
  source : SourceTriple
  deriving DecidableEq, Repr

/-- `read_line`: the join of the active relation with its record. -/
def readLine (db : Db) (scanId lineId : Nat) : Option LineView := do
  let (_, q) ← db.activeLink scanId lineId
  let r ← db.domain.records.get? q.recordId
  pure ⟨r.content, r.contentRevision, q.reviewState, q.relationOrigin, q.reviewedBy, q.blockId,
    q.relationRevision, q.source⟩

/-- The file and the line number of a line of a scan. -/
def lineOfScan (db : Db) (scanId lineId : Nat) : Option LineRow := do
  let line ← db.facts.lines.get? lineId
  let file ← db.facts.files.get? line.fileId
  if file.scanId = scanId then some line else none

/-! ## Records -/

/-- `create_record` and one row of `create_manual_records_many`. -/
def createRecord (db : Db) (content : Content) (origin : ContentOrigin) : Db × Nat :=
  let row : Record := ⟨content, 1, origin, none⟩
  ({ db with domain.records := db.domain.records.insert row }, db.domain.records.next)

/-- A content update of one record under its expected revision. -/
structure RecordUpdate where
  /-- The record. -/
  recordId : Nat
  /-- The revision the caller has read. -/
  expectedRevision : Nat
  /-- The new content. -/
  content : Content
  deriving DecidableEq, Repr

/-- The compare-and-set of one row of `update_records_many`. -/
def updateRecord (db : Db) (u : RecordUpdate) : Except Failure Db := do
  let current ← orFail .recordNotFound (db.domain.records.get? u.recordId)
  require .staleContentRevision (current.contentRevision = u.expectedRevision)
  let records := db.domain.records.updateWhere (fun id _ => id = u.recordId) fun r =>
    { r with content := u.content, contentRevision := r.contentRevision + 1 }
  pure { db with domain.records := records }

/-- `update_records_many` -/
def updateRecordsMany (db : Db) (updates : List RecordUpdate) : Except Failure Db := do
  require .duplicateRecordInUpdate ((updates.map RecordUpdate.recordId).Nodup)
  updates.foldlM updateRecord db

/-! ## Blocks -/

/-- A block names a file of its own scan. -/
def assertBlockFile (db : Db) (block : Block) : Except Failure Unit := do
  let file ← orFail .blockFileScanMismatch (db.facts.files.get? block.fileId)
  require .blockFileScanMismatch (file.scanId = block.scanId)

/-- The record a block is created for must exist. -/
def assertBlockRecord (db : Db) (block : Block) : Except Failure Unit := do
  let recordId ← orFail .analysisRecordNotFound block.originatingRecordId
  let _ ← orFail .analysisRecordNotFound (db.domain.records.get? recordId)
  pure ()

/-- A block is a range of lines. -/
def assertBlockRange (block : Block) : Except Failure Unit :=
  require .invalidBlockRange (0 < block.startLine ∧ block.startLine ≤ block.endLine)

/-- `create_block` -/
def createBlock (db : Db) (block : Block) : Except Failure (Db × Nat) := do
  assertBlockRange block
  assertBlockFile db block
  pure ({ db with domain.blocks := db.domain.blocks.insert block }, db.domain.blocks.next)

/-- `create_blocks_many`: the new blocks, in the order of the request. -/
def createBlocksMany (db : Db) (blocks : List Block) : Except Failure (Db × List Nat) := do
  blocks.forM (assertBlockFile db)
  blocks.forM (assertBlockRecord db)
  blocks.forM assertBlockRange
  pure ({ db with domain.blocks := db.domain.blocks.insertMany blocks },
    db.domain.blocks.newKeys blocks.length)

/-! ## Relations -/

/-- What a caller asks a relation to become. -/
structure LinkItem where
  /-- The line. -/
  lineId : Nat
  /-- The conclusion. -/
  recordId : Nat
  /-- The selected range. -/
  blockId : Option Nat
  /-- Where the review stands. -/
  reviewState : ReviewState
  /-- Where the relation comes from. -/
  relationOrigin : RelationOrigin
  /-- The inheritance group. -/
  inheritanceGroupId : Option Nat
  /-- Who reviewed it. -/
  reviewedBy : String
  /-- The relation it is inherited from. -/
  source : SourceTriple
  /-- The revision the caller has read. -/
  expectedRelationRevision : Option Nat
  deriving DecidableEq, Repr

/-- The row of a written relation, at a given revision. -/
def LinkItem.link (item : LinkItem) (scanId revision : Nat) : Link :=
  ⟨scanId, item.lineId, item.recordId, item.blockId, item.reviewState, item.relationOrigin,
    item.inheritanceGroupId, true, item.reviewedBy, item.source, revision⟩

/-- The block of a relation is of the same scan and file and contains the line. -/
def validateBlock (db : Db) (scanId : Nat) (line : LineRow) (missing : Failure) :
    Option Nat → Except Failure Unit
  | none => pure ()
  | some blockId => do
    let block ← orFail missing (db.domain.blocks.get? blockId)
    require .blockIdentityMismatch (block.scanId = scanId ∧ block.fileId = line.fileId)
    require .blockLineRangeMismatch
      (block.startLine ≤ line.facts.lineNumber ∧ line.facts.lineNumber ≤ block.endLine)

/-- The group of a relation is of the same scan and file. -/
def validateGroup (db : Db) (scanId : Nat) (line : LineRow) : Option Nat → Except Failure Unit
  | none => pure ()
  | some groupId => do
    let group ← orFail .groupIdentityMismatch (db.domain.groups.get? groupId)
    require .groupIdentityMismatch
      (group.candidateScanId = scanId ∧ group.candidateFileId = line.fileId)

/-- A source triple is absent, or complete and that of an existing relation. -/
def validateSource (db : Db) (source : SourceTriple) : Except Failure Unit :=
  match source with
  | ⟨none, none, none⟩ => pure ()
  | ⟨some scanId, some lineId, some relationId⟩ => do
    let q ← orFail .sourceRelationMismatch (db.domain.links.get? relationId)
    require .sourceRelationMismatch (q.scanId = scanId ∧ q.lineId = lineId)
  | _ => .error .sourceRelationMismatch

/-- The revision the caller has read is the stored one; a relation that does not exist has
revision zero. -/
def validateRevision (db : Db) (scanId : Nat) (item : LinkItem) : Except Failure Unit :=
  match item.expectedRelationRevision with
  | none => pure ()
  | some expected => require .staleRelationRevision
      (((getLink db scanId item.lineId).map fun q => q.2.relationRevision).getD 0 = expected)

/-- The checks of `create_link`.  `missingBlock` is what an unknown block raises. -/
def validateLink (db : Db) (scanId : Nat) (missingBlock : Failure) (item : LinkItem) :
    Except Failure Unit := do
  let line ← orFail .lineScanIdentityMismatch (lineOfScan db scanId item.lineId)
  let _ ← orFail .analysisRecordNotFound (db.domain.records.get? item.recordId)
  validateBlock db scanId line missingBlock item.blockId
  validateGroup db scanId line item.inheritanceGroupId
  validateSource db item.source
  validateRevision db scanId item

/-- `INSERT` at revision one, or `UPDATE` of every column with the next revision.  The
compare-and-set on the revision read in the same transaction always matches. -/
def writeLink (links : Table Link) (scanId : Nat) (item : LinkItem) : Table Link :=
  if links.rows.any fun q => sameLine scanId item.lineId q.2 then
    links.updateWhere (fun _ q => sameLine scanId item.lineId q) fun q =>
      item.link scanId (q.relationRevision + 1)
  else links.insert (item.link scanId 1)

/-- The bulk write of `create_links_many`. -/
def writeLinks (links : Table Link) (scanId : Nat) (items : List LinkItem) : Table Link :=
  items.foldl (fun links item => writeLink links scanId item) links

/-- `create_link` -/
def createLink (db : Db) (scanId : Nat) (item : LinkItem) : Except Failure Db := do
  validateLink db scanId .blockIdentityMismatch item
  pure { db with domain.links := writeLink db.domain.links scanId item }

/-- `create_links_many`: everything is validated before anything is written. -/
def createLinksMany (db : Db) (scanId : Nat) (items : List LinkItem) : Except Failure Db := do
  require .lineIdRequired (∀ item ∈ items, 0 < item.lineId)
  require .duplicateLineInBatch ((items.map LinkItem.lineId).Nodup)
  require .lineScanIdentityMismatch (∀ item ∈ items, (lineOfScan db scanId item.lineId).isSome)
  require .analysisRecordNotFound (∀ item ∈ items, (db.domain.records.get? item.recordId).isSome)
  require .blockNotFound (∀ item ∈ items, ∀ b ∈ item.blockId, (db.domain.blocks.get? b).isSome)
  require .groupNotFound
    (∀ item ∈ items, ∀ g ∈ item.inheritanceGroupId, (db.domain.groups.get? g).isSome)
  require .sourceRelationNotFound
    (∀ item ∈ items, ∀ q ∈ item.source.relationId, (db.domain.links.get? q).isSome)
  items.forM (validateLink db scanId .blockNotFound)
  pure { db with domain.links := writeLinks db.domain.links scanId items }

/-! ### What a written relation is -/

section WriteLink

variable {links : Table Link} {scanId : Nat} {item : LinkItem}

theorem sameLine_iff {s l : Nat} {q : Link} :
    sameLine s l q = true ↔ q.scanId = s ∧ q.lineId = l := by
  simp [sameLine]

@[simp] theorem sameLine_link (s l rev : Nat) :
    sameLine s l (item.link scanId rev) = true ↔ scanId = s ∧ item.lineId = l := by
  rw [sameLine_iff]
  rfl

theorem findLink_some {s l k : Nat} {q : Link} (h : findLink links s l = some (k, q)) :
    links.get? k = some q ∧ q.scanId = s ∧ q.lineId = l :=
  ⟨Keyed.get?_eq_some_iff.2 (List.mem_of_find?_eq_some h), sameLine_iff.1 (by simpa using List.find?_some h)⟩

theorem findLink_none {s l : Nat} (h : findLink links s l = none) {k : Nat} {q : Link}
    (hk : links.get? k = some q) : ¬ (q.scanId = s ∧ q.lineId = l) := by
  have := List.find?_eq_none.1 h _ (Keyed.get?_eq_some_iff.1 hk)
  rwa [← sameLine_iff]

/-- A write is an insertion when the line has no relation yet. -/
theorem writeLink_of_none (h : findLink links scanId item.lineId = none) :
    writeLink links scanId item = links.insert (item.link scanId 1) := by
  have hany : (links.rows.any fun q => sameLine scanId item.lineId q.2) = false := by
    rw [List.any_eq_false]
    exact fun r hr => List.find?_eq_none.1 h r hr
  simp [writeLink, hany]

/-- A write replaces the relation the line has. -/
theorem writeLink_of_some {r : Nat × Link} (h : findLink links scanId item.lineId = some r) :
    writeLink links scanId item =
      links.updateWhere (fun _ q => sameLine scanId item.lineId q) fun q =>
        item.link scanId (q.relationRevision + 1) := by
  have hany : (links.rows.any fun q => sameLine scanId item.lineId q.2) = true :=
    List.any_eq_true.2 ⟨r, List.mem_of_find?_eq_some h, by simpa using List.find?_some h⟩
  simp [writeLink, hany]

/-- The rows of the table after a write. -/
theorem get?_writeLink {k : Nat} {q : Link} (h : (writeLink links scanId item).get? k = some q) :
    (links.get? k = some q ∧ ¬ (q.scanId = scanId ∧ q.lineId = item.lineId)) ∨
    (∃ q₀, links.get? k = some q₀ ∧ q₀.scanId = scanId ∧ q₀.lineId = item.lineId ∧
      q = item.link scanId (q₀.relationRevision + 1)) ∨
    (findLink links scanId item.lineId = none ∧ k = links.next ∧ q = item.link scanId 1) := by
  cases hf : findLink links scanId item.lineId with
  | none =>
    rw [writeLink_of_none hf, Table.get?_insert] at h
    split at h
    · rename_i hk
      exact .inr (.inr ⟨rfl, hk, (Option.some.inj h).symm⟩)
    · exact .inl ⟨h, findLink_none hf h⟩
  | some r =>
    rw [writeLink_of_some hf, Table.toKeyed_updateWhere, Keyed.get?_updateWhere,
      Option.map_eq_some_iff] at h
    obtain ⟨q₀, hq₀, rfl⟩ := h
    by_cases hs : sameLine scanId item.lineId q₀ = true
    · obtain ⟨h₁, h₂⟩ := sameLine_iff.1 hs
      exact .inr (.inl ⟨q₀, hq₀, h₁, h₂, by simp [hs]⟩)
    · rw [if_neg (by simpa using hs)]
      exact .inl ⟨hq₀, fun h => hs (sameLine_iff.2 h)⟩

/-- The relations of other lines are still there. -/
theorem get?_writeLink_of_ne {k : Nat} {q : Link} (hk : links.get? k = some q)
    (hne : ¬ (q.scanId = scanId ∧ q.lineId = item.lineId)) :
    (writeLink links scanId item).get? k = some q := by
  cases hf : findLink links scanId item.lineId with
  | none =>
    rw [writeLink_of_none hf, Table.get?_insert, if_neg, hk]
    have := Table.get?_issued hk
    omega
  | some r =>
    have hs : sameLine scanId item.lineId q = false := by
      rw [Bool.eq_false_iff]
      exact fun h => hne (sameLine_iff.1 h)
    rw [writeLink_of_some hf, Table.toKeyed_updateWhere, Keyed.get?_updateWhere, hk]
    simp [hs]

/-- A relation keeps its line. -/
theorem get?_writeLink_same (scanId : Nat) (item : LinkItem) {k : Nat} {q : Link}
    (hk : links.get? k = some q) :
    ∃ q', (writeLink links scanId item).get? k = some q' ∧ q'.scanId = q.scanId ∧
      q'.lineId = q.lineId := by
  by_cases hne : q.scanId = scanId ∧ q.lineId = item.lineId
  · have hf : ∃ r, findLink links scanId item.lineId = some r := by
      cases hf : findLink links scanId item.lineId with
      | none => exact absurd hne (findLink_none hf hk)
      | some r => exact ⟨r, rfl⟩
    obtain ⟨r, hf⟩ := hf
    refine ⟨item.link scanId (q.relationRevision + 1), ?_, hne.1.symm, hne.2.symm⟩
    rw [writeLink_of_some hf, Table.toKeyed_updateWhere, Keyed.get?_updateWhere, hk]
    simp [sameLine_iff.2 hne]
  · exact ⟨q, get?_writeLink_of_ne hk hne, rfl, rfl⟩

/-- A search for relations of another line does not see the write. -/
theorem find?_writeLink_of_ne {p : Nat × Link → Bool}
    (hp : ∀ r, p r = true → ¬ (r.2.scanId = scanId ∧ r.2.lineId = item.lineId)) :
    (writeLink links scanId item).rows.find? p = links.rows.find? p := by
  have hnew : ∀ k rev, p (k, item.link scanId rev) = false := by
    intro k rev
    rw [Bool.eq_false_iff]
    exact fun h => hp _ h ⟨rfl, rfl⟩
  cases hf : findLink links scanId item.lineId with
  | none => rw [writeLink_of_none hf, Table.find?_insert (hnew _ _)]
  | some r =>
    rw [writeLink_of_some hf]
    refine Keyed.find?_updateWhere fun r _ hs => ⟨?_, hnew _ _⟩
    rw [Bool.eq_false_iff]
    exact fun h => hp r h (sameLine_iff.1 hs)

/-- The written relation is the one the line has afterwards. -/
theorem findLink_writeLink (links : Table Link) (scanId : Nat) (item : LinkItem) :
    ∃ k rev, findLink (writeLink links scanId item) scanId item.lineId =
      some (k, item.link scanId rev) := by
  cases hf : findLink (writeLink links scanId item) scanId item.lineId with
  | some r =>
    obtain ⟨h, hs, hl⟩ := findLink_some hf
    rcases get?_writeLink h with ⟨_, hne⟩ | ⟨q₀, _, _, _, hq⟩ | ⟨_, _, hq⟩
    · exact absurd ⟨hs, hl⟩ hne
    · exact ⟨r.1, _, by rw [← hq]⟩
    · exact ⟨r.1, _, by rw [← hq]⟩
  | none =>
    exfalso
    cases h₀ : findLink links scanId item.lineId with
    | none =>
      have : (writeLink links scanId item).get? links.next = some (item.link scanId 1) := by
        rw [writeLink_of_none h₀]
        simp
      exact findLink_none hf this ⟨rfl, rfl⟩
    | some r =>
      obtain ⟨h, hs, hl⟩ := findLink_some h₀
      have : (writeLink links scanId item).get? r.1 =
          some (item.link scanId (r.2.relationRevision + 1)) := by
        rw [writeLink_of_some h₀, Table.toKeyed_updateWhere, Keyed.get?_updateWhere, h]
        simp [sameLine_iff.2 ⟨hs, hl⟩]
      exact findLink_none hf this ⟨rfl, rfl⟩

/-- A table of relations only evolves: no relation is lost, and a change raises the revision. -/
theorem evolves_writeLink :
    Evolves Link.relationRevision links.toKeyed (writeLink links scanId item).toKeyed := by
  cases hf : findLink links scanId item.lineId with
  | none =>
    rw [writeLink_of_none hf]
    exact Evolves.insert _
  | some r =>
    rw [writeLink_of_some hf]
    exact Evolves.updateWhere fun _ q _ _ => Nat.lt_succ_self _

end WriteLink

/-! ## Rejections and the legacy projection -/

/-- `close_active_rejections_many` with `MANUAL_REANALYSIS`. -/
def closeActiveRejectionsMany (db : Db) (scanId : Nat) (lineIds : List Nat) : Db :=
  let rejections := db.domain.rejections.updateWhere
    (fun _ x => x.scanId = scanId ∧ x.lineId ∈ lineIds ∧ x.isActive = true) fun x =>
      { x with
        isActive := false
        terminalReason := some .manualReanalysis
        rejectionRevision := x.rejectionRevision + 1 }
  { db with domain.rejections := rejections }

end AnalysisDomainRepository

namespace AnalysisRepository

/-- `upsert_many` -/
def upsertMany (db : Db) (rows : List (Nat × Analysis)) : Db :=
  { db with domain.analyses := rows.foldl (fun t r => t.put r.1 r.2) db.domain.analyses }

end AnalysisRepository

end FosCoverage
