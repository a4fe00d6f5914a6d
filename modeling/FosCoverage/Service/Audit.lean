import Mathlib.Data.List.Dedup
import FosCoverage.Repository.AnalysisDomain

/-!
# The consistency audit

`AnalysisDomainService.audit_consistency` as the code computes it: one count for every check, and
`PASSED` when all of them are zero.  With a scan the checks of links are restricted to it and
unreferenced records are only reported.  The check of the review states counts nothing here, since
`ReviewState` has no other value.

`Consistent` says what the unscoped audit checks in terms of rows, and
`auditConsistency_none_iff` that the audit passes exactly then.
-/

set_option autoImplicit false

namespace FosCoverage

open Relational

/-- A record is referenced from a line, from a block or from a rejection. -/
def Domain.referenced (d : Domain) (recordId : Nat) : Bool :=
  (d.links.rows.any fun q => q.2.recordId = recordId) ||
  (d.blocks.rows.any fun b => b.2.originatingRecordId = some recordId) ||
  (d.rejections.rows.any fun x => x.2.rejectedAnalysisRecordId = recordId)

namespace AnalysisDomainService

variable (db : Db)

/-! ## The checks -/

/-- The scope of a check on links. -/
def inScope (scanId : Option Nat) (q : Link) : Bool := scanId.all fun s => q.scanId = s

/-- The line of a link is a line of the link's scan. -/
def lineBound (q : Link) : Bool :=
  (AnalysisDomainRepository.lineOfScan db q.scanId q.lineId).isSome

/-- `orphan_links` -/
def orphanLinks (scanId : Option Nat) : Nat :=
  db.domain.links.rows.countP fun q => inScope scanId q.2 &&
    !((db.domain.records.get? q.2.recordId).isSome && lineBound db q.2)

/-- `orphan_records`: the truly unreferenced ones. -/
def orphanRecords : Nat :=
  db.domain.records.rows.countP fun r => !db.domain.referenced r.1

/-- The file of a block is a file of the block's scan. -/
def blockBound (b : Block) : Bool :=
  (db.facts.files.get? b.fileId).any fun f => f.scanId = b.scanId

/-- `cross_scan_blocks` -/
def crossScanBlocks : Nat :=
  db.domain.blocks.rows.countP fun b => !blockBound db b.2

/-- `GROUP BY ... HAVING COUNT(*) > 1` -/
def duplicates (keys : List (Nat × Nat)) : Nat :=
  keys.dedup.countP fun k => 1 < keys.count k

/-- `duplicate_current_links` -/
def duplicateLinks : Nat :=
  duplicates (db.domain.links.rows.map fun q => (q.2.scanId, q.2.lineId))

/-- The block of a link, when it exists, is a range of the link's file that contains its line. -/
def blockFits (q : Link) (line : LineRow) : Bool :=
  (q.blockId.bind db.domain.blocks.get?).all fun b =>
    b.scanId = q.scanId ∧ b.fileId = line.fileId ∧ 1 ≤ b.startLine ∧ b.startLine ≤ b.endLine ∧
      b.startLine ≤ line.facts.lineNumber ∧ line.facts.lineNumber ≤ b.endLine

/-- The group of a link exists and is of the link's scan and file. -/
def groupFits (q : Link) (line : LineRow) : Bool :=
  q.inheritanceGroupId.all fun groupId => (db.domain.groups.get? groupId).any fun g =>
    g.candidateScanId = q.scanId ∧ g.candidateFileId = line.fileId

/-- The identity of one link. -/
def linkFits (q : Link) : Bool :=
  (AnalysisDomainRepository.lineOfScan db q.scanId q.lineId).any fun line =>
    blockFits db q line && groupFits db q line

/-- `link_identity_mismatches` -/
def linkIdentityMismatches (scanId : Option Nat) : Nat :=
  db.domain.links.rows.countP fun q => inScope scanId q.2 && !linkFits db q.2

/-- The source triple of an inherited link is complete and that of an existing relation; any other
link has none. -/
def sourceFits (q : Link) : Bool :=
  match q.relationOrigin with
  | .inheritance =>
    match q.source with
    | ⟨some s, some l, some k⟩ =>
      (db.domain.links.get? k).any fun q' => q'.scanId = s ∧ q'.lineId = l
    | _ => false
  | _ => q.source = SourceTriple.none

/-- `source_identity_mismatches` -/
def sourceIdentityMismatches (scanId : Option Nat) : Nat :=
  db.domain.links.rows.countP fun q => inScope scanId q.2 && !sourceFits db q.2

/-- `COALESCE(x, 0)` of the three columns. -/
def coalesce (s : SourceTriple) : Nat × Nat × Nat :=
  (s.scanId.getD 0, s.lineId.getD 0, s.relationId.getD 0)

/-- The relation of a rejection is inactive and still as the rejection left it. -/
def rejectionFits (x : Rejection) : Bool :=
  (db.domain.links.get? x.rejectedRelationId).any fun q =>
    q.scanId = x.scanId ∧ q.lineId = x.lineId ∧ q.isActive = false ∧
      q.relationRevision = x.rejectedRelationRevision + 1 ∧
      q.recordId = x.rejectedAnalysisRecordId ∧ coalesce q.source = coalesce x.rejectedSource

/-- `rejection_identity_mismatches` -/
def rejectionIdentityMismatches : Nat :=
  db.domain.rejections.rows.countP fun x => x.2.isActive && !rejectionFits db x.2

/-- `duplicate_active_rejections` -/
def duplicateRejections : Nat :=
  duplicates ((db.domain.rejections.rows.filter fun x => x.2.isActive).map fun x =>
    (x.2.scanId, x.2.lineId))

/-- `audit_consistency`: `status = "PASSED"`. -/
def auditConsistency (scanId : Option Nat) : Bool :=
  orphanLinks db scanId = 0 ∧ (scanId.isSome = true ∨ orphanRecords db = 0) ∧
    crossScanBlocks db = 0 ∧ duplicateLinks db = 0 ∧ linkIdentityMismatches db scanId = 0 ∧
    sourceIdentityMismatches db scanId = 0 ∧ rejectionIdentityMismatches db = 0 ∧
    duplicateRejections db = 0

/-! ## What a passed audit means -/

/-- The state the unscoped audit accepts. -/
structure Consistent : Prop where
  /-- A link names an existing record. -/
  record : ∀ k q, db.domain.links.get? k = some q → (db.domain.records.get? q.recordId).isSome
  /-- A link names a line of its own scan, and its block and group fit. -/
  link : ∀ k q, db.domain.links.get? k = some q → linkFits db q = true
  /-- No record is unreferenced. -/
  referenced : ∀ k r, db.domain.records.get? k = some r → db.domain.referenced k = true
  /-- A block names a file of its own scan. -/
  block : ∀ k b, db.domain.blocks.get? k = some b → blockBound db b = true
  /-- A line of a scan has one link. -/
  unique : (db.domain.links.rows.map fun q => (q.2.scanId, q.2.lineId)).Nodup
  /-- Inherited links have a source, others have none. -/
  source : ∀ k q, db.domain.links.get? k = some q → sourceFits db q = true
  /-- An active rejection matches its relation. -/
  rejection : ∀ k x, db.domain.rejections.get? k = some x → x.isActive = true →
    rejectionFits db x = true
  /-- A line has at most one active rejection. -/
  uniqueRejection : ((db.domain.rejections.rows.filter fun x => x.2.isActive).map fun x =>
    (x.2.scanId, x.2.lineId)).Nodup

theorem countP_rows_eq_zero {α : Type} {t : Keyed Nat α} {p : Nat × α → Bool} :
    t.rows.countP p = 0 ↔ ∀ k a, t.get? k = some a → p (k, a) = false := by
  rw [List.countP_eq_zero]
  constructor
  · intro h k a hk
    simpa using h (k, a) (Keyed.get?_eq_some_iff.1 hk)
  · rintro h ⟨k, a⟩ hr
    simpa using h k a (Keyed.get?_eq_some_iff.2 hr)

theorem duplicates_eq_zero {keys : List (Nat × Nat)} : duplicates keys = 0 ↔ keys.Nodup := by
  rw [duplicates, List.countP_eq_zero, List.nodup_iff_count_le_one]
  constructor
  · intro h k
    by_cases hk : k ∈ keys
    · simpa using h k (List.mem_dedup.2 hk)
    · rw [List.count_eq_zero_of_not_mem hk]
      omega
  · intro h k _
    simpa using h k

theorem lineBound_of_linkFits {q : Link} (h : linkFits db q = true) : lineBound db q = true := by
  unfold linkFits at h
  unfold lineBound
  cases hl : AnalysisDomainRepository.lineOfScan db q.scanId q.lineId with
  | none => simp [hl] at h
  | some line => rfl

/-- **The unscoped audit passes exactly on the consistent states.** -/
theorem auditConsistency_none_iff : auditConsistency db none = true ↔ Consistent db := by
  rw [auditConsistency, decide_eq_true_eq]
  simp only [Option.isSome_none, Bool.false_eq_true, false_or, orphanLinks, orphanRecords,
    crossScanBlocks, duplicateLinks, linkIdentityMismatches, sourceIdentityMismatches,
    rejectionIdentityMismatches, duplicateRejections, countP_rows_eq_zero, duplicates_eq_zero, inScope, Option.all_none, Bool.true_and,
    Bool.not_eq_false', Bool.and_eq_true, Bool.and_eq_false_iff]
  constructor
  · rintro ⟨ho, hr, hb, hu, hl, hs, hx, hd⟩
    refine ⟨fun k q hq => (ho k q hq).1, hl, hr, hb, hu, hs, fun k x hk ha => ?_, hd⟩
    rcases hx k x hk with h | h
    · rw [ha] at h
      cases h
    · exact h
  · intro h
    refine ⟨fun k q hq => ⟨h.record k q hq, lineBound_of_linkFits db (h.link k q hq)⟩,
      h.referenced, h.block, h.unique, h.link, h.source, fun k x hk => ?_, h.uniqueRejection⟩
    cases ha : x.isActive with
    | false => exact .inl rfl
    | true => exact .inr (h.rejection k x hk ha)

end AnalysisDomainService

end FosCoverage
