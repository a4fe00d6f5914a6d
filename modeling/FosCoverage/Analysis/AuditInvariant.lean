import FosCoverage.Service.Audit
import FosCoverage.Analysis.SaveFrame
import FosCoverage.Inheritance.Relations

/-!
# The audit as an invariant

What the audit accepts, as an invariant over rows (`AuditInv`), and which analysis operations keep
it.  `confirm`, `reject` and `undo` always do.  A save re-links lines, and breaks it when a line of
the batch held the last reference to its record.  A record of a save or of the engine is also
referenced by the block that was made for it, but the record of a migrated row has no block
(`Domain.Anchored`); `SaveKeeps` is the condition under which nothing is lost.
-/

set_option autoImplicit false

namespace FosCoverage

open Relational Outcome AnalysisDomainRepository AnalysisDomainService

/-! ## The invariant, row by row -/

/-- A reference no operation removes: a block that was made for the record, or a rejection. -/
def Domain.Anchored (d : Domain) (recordId : Nat) : Prop :=
  (∃ k b, d.blocks.get? k = some b ∧ b.originatingRecordId = some recordId) ∨
  ∃ k x, d.rejections.get? k = some x ∧ x.rejectedAnalysisRecordId = recordId

/-- Some line is linked to the record. -/
def Domain.Linked (d : Domain) (recordId : Nat) : Prop :=
  ∃ k q, d.links.get? k = some q ∧ q.recordId = recordId

theorem any_rows_iff {α : Type} {t : Keyed Nat α} {p : α → Bool} :
    (t.rows.any fun r => p r.2) = true ↔ ∃ k a, t.get? k = some a ∧ p a = true := by
  rw [List.any_eq_true]
  constructor
  · rintro ⟨⟨k, a⟩, hr, hp⟩
    exact ⟨k, a, Keyed.get?_eq_some_iff.2 hr, hp⟩
  · rintro ⟨k, a, hk, hp⟩
    exact ⟨(k, a), Keyed.get?_eq_some_iff.1 hk, hp⟩

theorem Domain.referenced_iff {d : Domain} {recordId : Nat} :
    d.referenced recordId = true ↔ d.Linked recordId ∨ d.Anchored recordId := by
  unfold Domain.referenced
  rw [Bool.or_eq_true, Bool.or_eq_true,
    any_rows_iff (t := d.links.toKeyed) (p := fun q => decide (q.recordId = recordId)),
    any_rows_iff (t := d.blocks.toKeyed)
      (p := fun b => decide (b.originatingRecordId = some recordId)),
    any_rows_iff (t := d.rejections.toKeyed)
      (p := fun x => decide (x.rejectedAnalysisRecordId = recordId))]
  simp only [decide_eq_true_eq, or_assoc]
  rfl

/-- `fk_analysis_line_link_block`: the block a relation names exists. -/
def BlocksExist (db : Db) : Prop :=
  ∀ k q, db.domain.links.get? k = some q → ∀ b ∈ q.blockId, (db.domain.blocks.get? b).isSome

/-- What the audit accepts, with the foreign key it does not check. -/
structure AuditInv (db : Db) : Prop extends LinksOk db where
  /-- Block and group of a link are of its scan and file. -/
  fits : ∀ k q, db.domain.links.get? k = some q → linkFits db q = true
  /-- No record is unreferenced. -/
  referenced : ∀ k r, db.domain.records.get? k = some r →
    db.domain.Linked k ∨ db.domain.Anchored k
  /-- A block names a file of its own scan. -/
  bound : ∀ k b, db.domain.blocks.get? k = some b → blockBound db b = true
  /-- Inherited links have a source, others have none. -/
  source : ∀ k q, db.domain.links.get? k = some q → sourceFits db q = true
  /-- An active rejection matches its relation. -/
  rejection : ∀ k x, db.domain.rejections.get? k = some x → x.isActive = true →
    rejectionFits db x = true
  /-- A line has at most one active rejection. -/
  uniqueRejection : ∀ k k' x x', db.domain.rejections.get? k = some x →
    db.domain.rejections.get? k' = some x' → x.isActive = true → x'.isActive = true →
    x.scanId = x'.scanId → x.lineId = x'.lineId → k = k'

/-- **The audit passes exactly on the states with the invariant.** -/
theorem auditInv_iff {db : Db} :
    AuditInv db ↔ auditConsistency db none = true ∧ BlocksExist db := by
  rw [auditConsistency_none_iff]
  have hunique : (db.domain.links.rows.map fun q => (q.2.scanId, q.2.lineId)).Nodup ↔
      ∀ k k' q q', db.domain.links.get? k = some q → db.domain.links.get? k' = some q' →
        q.scanId = q'.scanId → q.lineId = q'.lineId → k = k' := by
    have := Keyed.nodup_column (t := db.domain.links.toKeyed) (p := fun _ => true)
      (f := fun q => (q.2.scanId, q.2.lineId))
    simpa using this
  have hrejection : ((db.domain.rejections.rows.filter fun x => x.2.isActive).map fun x =>
      (x.2.scanId, x.2.lineId)).Nodup ↔
      ∀ k k' x x', db.domain.rejections.get? k = some x → db.domain.rejections.get? k' = some x' →
        x.isActive = true → x'.isActive = true → x.scanId = x'.scanId → x.lineId = x'.lineId →
        k = k' := by
    have := Keyed.nodup_column (t := db.domain.rejections.toKeyed) (p := fun x => x.2.isActive)
      (f := fun x => (x.2.scanId, x.2.lineId))
    simpa using this
  constructor
  · intro h
    refine ⟨⟨h.record, h.fits, fun k r hk => ?_, h.bound, hunique.2 h.unique, h.source,
      h.rejection, hrejection.2 h.uniqueRejection⟩, h.block⟩
    exact Domain.referenced_iff.2 (h.referenced k r hk)
  · rintro ⟨h, hb⟩
    refine ⟨⟨h.record, fun k q hk => ?_, hb, hunique.1 h.unique⟩, h.link, fun k r hk => ?_, h.block,
      h.source, h.rejection, hrejection.1 h.uniqueRejection⟩
    · exact lineBound_of_linkFits db (h.link k q hk)
    · exact Domain.referenced_iff.1 (h.referenced k r hk)

/-! ## What a step must show -/

/-- The identity of a link, spelled out. -/
theorem linkFits_iff {db : Db} {q : Link} : linkFits db q = true ↔
    ∃ line, lineOfScan db q.scanId q.lineId = some line ∧
      (∀ b ∈ q.blockId, ∀ row, db.domain.blocks.get? b = some row → row.scanId = q.scanId ∧
        row.fileId = line.fileId ∧ 1 ≤ row.startLine ∧ row.startLine ≤ row.endLine ∧
        row.startLine ≤ line.facts.lineNumber ∧ line.facts.lineNumber ≤ row.endLine) ∧
      ∀ g ∈ q.inheritanceGroupId, ∃ row, db.domain.groups.get? g = some row ∧
        row.candidateScanId = q.scanId ∧ row.candidateFileId = line.fileId := by
  unfold linkFits
  cases hl : lineOfScan db q.scanId q.lineId with
  | none => simp
  | some line =>
    simp only [Option.any_some, Bool.and_eq_true, Option.some.injEq, exists_eq_left']
    refine and_congr ?_ ?_
    · unfold blockFits
      cases hb : q.blockId with
      | none => simp
      | some b =>
        cases hrow : db.domain.blocks.get? b with
        | none => simp [hrow]
        | some row => simp [hrow]
    · unfold groupFits
      cases hg : q.inheritanceGroupId with
      | none => simp
      | some g =>
        cases hrow : db.domain.groups.get? g with
        | none => simp [hrow]
        | some row => simp [hrow]

/-- The columns of a link the audit looks at, revision and review state aside. -/
structure SameIdentity (q q₀ : Link) : Prop where
  /-- The scan. -/
  scan : q.scanId = q₀.scanId
  /-- The line. -/
  line : q.lineId = q₀.lineId
  /-- The block. -/
  block : q.blockId = q₀.blockId
  /-- The group. -/
  group : q.inheritanceGroupId = q₀.inheritanceGroupId
  /-- The origin. -/
  origin : q.relationOrigin = q₀.relationOrigin
  /-- The source. -/
  source : q.source = q₀.source

theorem SameIdentity.refl (q : Link) : SameIdentity q q := ⟨rfl, rfl, rfl, rfl, rfl, rfl⟩

/-- A step that adds blocks and groups, keeps every link for its line, and replaces links by valid
ones. -/
structure AuditStep (db db' : Db) : Prop where
  /-- The physical side is untouched. -/
  facts : db'.facts = db.facts
  /-- Blocks are added, each for a file of its scan. -/
  blocks : ∃ new, db'.domain.blocks = db.domain.blocks.insertMany new ∧
    ∀ b ∈ new, blockBound db b = true
  /-- Groups stay. -/
  groups : ∀ g row, db.domain.groups.get? g = some row → db'.domain.groups.get? g = some row
  /-- Links keep their line. -/
  sameLines : SameLines db.domain.links db'.domain.links
  /-- A link keeps its identity, or is a valid one. -/
  links : ∀ k q, db'.domain.links.get? k = some q →
    (∃ q₀, db.domain.links.get? k = some q₀ ∧ SameIdentity q q₀) ∨
    (linkFits db' q = true ∧ sourceFits db' q = true)

namespace AuditStep

variable {db db' : Db}

theorem fits (h : AuditStep db db') (hi : AuditInv db) {k : Nat} {q : Link}
    (hk : db'.domain.links.get? k = some q) : linkFits db' q = true := by
  rcases h.links k q hk with ⟨q₀, hq₀, hid⟩ | ⟨hfits, _⟩
  · obtain ⟨line, hl, hb, hg⟩ := linkFits_iff.1 (hi.fits k q₀ hq₀)
    obtain ⟨new, hblocks, _⟩ := h.blocks
    refine linkFits_iff.2 ⟨line, ?_, ?_, ?_⟩
    · rw [hid.scan, hid.line, ← hl]
      unfold lineOfScan
      rw [h.facts]
    · intro b hqb row hrow
      rw [hid.block] at hqb
      rw [hblocks, get?_insertMany_of_isSome (hi.block k q₀ hq₀ b hqb)] at hrow
      rw [hid.scan]
      exact hb b hqb row hrow
    · intro g hqg
      rw [hid.group] at hqg
      obtain ⟨row, hrow, hfit⟩ := hg g hqg
      rw [hid.scan]
      exact ⟨row, h.groups g row hrow, hfit⟩
  · exact hfits

theorem sourceFits (h : AuditStep db db') (hi : AuditInv db) {k : Nat} {q : Link}
    (hk : db'.domain.links.get? k = some q) : sourceFits db' q = true := by
  rcases h.links k q hk with ⟨q₀, hq₀, hid⟩ | ⟨_, hsource⟩
  · have hfit := hi.source k q₀ hq₀
    unfold AnalysisDomainService.sourceFits at hfit ⊢
    rw [hid.origin, hid.source]
    cases horigin : q₀.relationOrigin with
    | inheritance =>
      simp only [horigin] at hfit ⊢
      split at hfit
      · rename_i s l j _
        obtain ⟨q', hq', hmatch⟩ := (Option.any_eq_true _ _).1 hfit
        obtain ⟨q'', hq'', hs, hl⟩ := h.sameLines j q' hq'
        rw [decide_eq_true_eq] at hmatch
        refine (Option.any_eq_true _ _).2 ⟨q'', hq'', ?_⟩
        rw [decide_eq_true_eq]
        exact ⟨hs.trans hmatch.1, hl.trans hmatch.2⟩
      · cases hfit
    | manual => simpa [horigin] using hfit
    | legacyMigrated => simpa [horigin] using hfit
  · exact hsource

theorem blockBound (h : AuditStep db db') (hi : AuditInv db) {k : Nat} {b : Block}
    (hk : db'.domain.blocks.get? k = some b) :
    AnalysisDomainService.blockBound db' b = true := by
  obtain ⟨new, hblocks, hnew⟩ := h.blocks
  have hb : AnalysisDomainService.blockBound db b = true := by
    rw [hblocks] at hk
    rcases Table.get?_insertMany_cases hk with hold | ⟨_, hmem⟩
    · exact hi.bound k b hold
    · exact hnew b hmem
  unfold AnalysisDomainService.blockBound at hb ⊢
  rwa [h.facts]

end AuditStep

/-! ## Review operations -/

namespace AuditInv

variable {db : Db}

/-- An active rejection names an inactive link of its line. -/
theorem rejected_link (h : AuditInv db) {k : Nat} {x : Rejection}
    (hx : db.domain.rejections.get? k = some x) (ha : x.isActive = true) :
    ∃ q, db.domain.links.get? x.rejectedRelationId = some q ∧ q.scanId = x.scanId ∧
      q.lineId = x.lineId ∧ q.isActive = false := by
  obtain ⟨q, hq, hfit⟩ := (Option.any_eq_true _ _).1 (h.rejection k x hx ha)
  rw [decide_eq_true_eq] at hfit
  exact ⟨q, hq, hfit.1, hfit.2.1, hfit.2.2.1⟩

/-- The rejections of links that did not change still fit. -/
theorem rejectionFits_of_eq {db' : Db} (h : AuditInv db) {k : Nat} {x : Rejection}
    (hx : db.domain.rejections.get? k = some x) (ha : x.isActive = true)
    (heq : db'.domain.links.get? x.rejectedRelationId =
      db.domain.links.get? x.rejectedRelationId) : rejectionFits db' x = true := by
  have := h.rejection k x hx ha
  unfold rejectionFits at this ⊢
  rwa [heq]

/-- Review state and activity of one link change, and so may the rejections. -/
theorem setLink (h : AuditInv db) (id : Nat) {f : Link → Link} (hf : LinksOk.Keeps f)
    (hid : ∀ q, SameIdentity (f q) q) (rs : Table Rejection)
    (hrs : ∀ k x, db.domain.rejections.get? k = some x → ∃ j x', rs.get? j = some x' ∧
      x'.rejectedAnalysisRecordId = x.rejectedAnalysisRecordId)
    (hrej : ∀ k x, rs.get? k = some x → x.isActive = true → rejectionFits
      { db with domain.links := FosCoverage.setLink db.domain.links id f } x = true)
    (huniq : ∀ k k' x x', rs.get? k = some x → rs.get? k' = some x' → x.isActive = true →
      x'.isActive = true → x.scanId = x'.scanId → x.lineId = x'.lineId → k = k') :
    AuditInv { db with
      domain.links := FosCoverage.setLink db.domain.links id f
      domain.rejections := rs } := by
  have hstep : AuditStep db { db with
      domain.links := FosCoverage.setLink db.domain.links id f
      domain.rejections := rs } := by
    refine ⟨rfl, ⟨[], rfl, by simp⟩, fun _ _ h => h, SameLines.setLink id hf, fun k q hk => .inl ?_⟩
    rcases get?_setLink_some hk with ⟨_, hold⟩ | ⟨q₀, rfl, hq₀, rfl⟩
    · exact ⟨q, hold, SameIdentity.refl q⟩
    · exact ⟨q₀, hq₀, hid q₀⟩
  constructor
  case toLinksOk => exact (h.toLinksOk.setLink id hf).congr rfl rfl rfl rfl
  case fits => exact fun k q hk => hstep.fits h hk
  case referenced =>
    intro k r hk
    rcases h.referenced k r hk with ⟨j, q, hq, hrec⟩ | hblock | ⟨j, x, hx, hrec⟩
    · refine .inl ?_
      by_cases hj : j = id
      · subst hj
        exact ⟨j, f q, get?_setLink_self hq, (hf.record q).trans hrec⟩
      · exact ⟨j, q, (get?_setLink_of_ne hj).trans hq, hrec⟩
    · exact .inr (.inl hblock)
    · obtain ⟨j', x', hx', hrec'⟩ := hrs j x hx
      exact .inr (.inr ⟨j', x', hx', hrec'.trans hrec⟩)
  case bound => exact fun k b hk => hstep.blockBound h hk
  case source => exact fun k q hk => hstep.sourceFits h hk
  case rejection => exact hrej
  case uniqueRejection => exact huniq

/-- The invariant is about facts and domain only. -/
theorem congr {db' : Db} (h : AuditInv db) (hf : db'.facts = db.facts)
    (hd : db'.domain = db.domain) : AuditInv db' := by
  have hline : ∀ s l, lineOfScan db' s l = lineOfScan db s l := fun s l => by
    unfold lineOfScan
    rw [hf]
  have hfits : ∀ q, linkFits db' q = linkFits db q := fun q => by
    simp only [linkFits, blockFits, groupFits, hline, hd]
  have hsource : ∀ q, sourceFits db' q = sourceFits db q := fun q => by
    simp only [sourceFits, hd]
  have hrej : ∀ x, rejectionFits db' x = rejectionFits db x := fun x => by
    simp only [rejectionFits, hd]
  have hbound : ∀ b, blockBound db' b = blockBound db b := fun b => by
    simp only [blockBound, hf]
  constructor
  case toLinksOk => exact h.toLinksOk.congr hf (by rw [hd]) (by rw [hd]) (by rw [hd])
  case fits => simp only [hd, hfits]; exact h.fits
  case referenced => rw [hd]; exact h.referenced
  case bound => simp only [hd, hbound]; exact h.bound
  case source => simp only [hd, hsource]; exact h.source
  case rejection => simp only [hd, hrej]; exact h.rejection
  case uniqueRejection => rw [hd]; exact h.uniqueRejection

/-- The decisions of a run are not looked at. -/
theorem of_decisions (h : AuditInv db) (decisions : Table Decision) :
    AuditInv { db with domain.decisions := decisions } :=
  ⟨h.toLinksOk.congr rfl rfl rfl rfl, h.fits, h.referenced, h.bound, h.source, h.rejection,
    h.uniqueRejection⟩

/-- An active link has no active rejection. -/
theorem not_rejected (h : AuditInv db) {id k : Nat} {q : Link} {x : Rejection}
    (hq : db.domain.links.get? id = some q) (hact : q.isActive = true)
    (hx : db.domain.rejections.get? k = some x) (ha : x.isActive = true) :
    ¬ (x.scanId = q.scanId ∧ x.lineId = q.lineId) := by
  rintro ⟨hs, hl⟩
  obtain ⟨q', hq', hs', hl', hina⟩ := h.rejected_link hx ha
  obtain rfl := h.unique id x.rejectedRelationId q q' hq hq' (hs.symm.trans hs'.symm)
    (hl.symm.trans hl'.symm)
  rw [hq] at hq'
  obtain rfl := Option.some.inj hq'
  rw [hact] at hina
  cases hina

/-- An active rejection is of another link than an active one. -/
theorem rejected_ne (h : AuditInv db) {id k : Nat} {q : Link} {x : Rejection}
    (hq : db.domain.links.get? id = some q) (hact : q.isActive = true)
    (hx : db.domain.rejections.get? k = some x) (ha : x.isActive = true) :
    x.rejectedRelationId ≠ id := by
  rintro rfl
  obtain ⟨q', hq', hs', hl', _⟩ := h.rejected_link hx ha
  rw [hq] at hq'
  obtain rfl := Option.some.inj hq'
  exact h.not_rejected hq hact hx ha ⟨hs'.symm, hl'.symm⟩

theorem confirm {db' : Db} {projectId scanId : Nat} {selected : List Nat}
    {expectedMap : List (Nat × Nat)} {default : Option Nat} {reviewer : String} (h : AuditInv db)
    (hok : InheritanceReviewService.confirm db projectId scanId selected expectedMap default
      reviewer = .ok db') : AuditInv db' := by
  have hrun := InheritanceReviewService.confirm_inv hok
    (fun d => AuditInv { db with domain := d }) ?_ (h.congr rfl rfl)
  · exact hrun.1.congr hrun.2.1.facts rfl
  · rintro d lineId d' hf _ hd ⟨id, q, hact, _, rfl⟩
    have hd : AuditInv d := hd.congr hf rfl
    obtain ⟨hq, _, _, ha⟩ := activeLink_some hact
    have hset := hd.setLink id (InheritanceReviewService.keeps_confirmed reviewer)
      (fun q => ⟨rfl, rfl, rfl, rfl, rfl, rfl⟩) d.domain.rejections
      (fun k x hx => ⟨k, x, hx, rfl⟩) ?_ hd.uniqueRejection
    · exact hset.congr hf.symm rfl
    · intro k x hx hxa
      exact hd.rejectionFits_of_eq hx hxa (get?_setLink_of_ne (hd.rejected_ne hq ha hx hxa))

theorem reject {db' : Db} {projectId scanId lineId expected : Nat} {rejectedBy : String}
    (h : AuditInv db)
    (hok : InheritanceReviewService.reject db projectId scanId lineId rejectedBy expected =
      .ok db') : AuditInv db' := by
  obtain ⟨id, q, hact, _, hdom, hmut, _⟩ := InheritanceReviewService.reject_ok hok
  obtain ⟨hq, hs, hl, ha⟩ := activeLink_some hact
  -- the rejections afterwards are the old ones and the new one
  have cases : ∀ {k x}, (db.domain.rejections.insert
      (InheritanceReviewService.rejectionOf scanId lineId id rejectedBy q)).get? k = some x →
      db.domain.rejections.get? k = some x ∨ (k = db.domain.rejections.next ∧
        x = InheritanceReviewService.rejectionOf scanId lineId id rejectedBy q) := by
    intro k x hx
    rw [Table.get?_insert] at hx
    split at hx
    · exact .inr ⟨‹_›, (Option.some.inj hx).symm⟩
    · exact .inl hx
  have hset := h.setLink id InheritanceReviewService.keeps_rejected
    (fun q => ⟨rfl, rfl, rfl, rfl, rfl, rfl⟩)
    (db.domain.rejections.insert
      (InheritanceReviewService.rejectionOf scanId lineId id rejectedBy q)) ?_ ?_ ?_
  · exact hset.congr hmut.facts (by rw [hdom])
  · intro k x hx
    have := Table.get?_issued hx
    refine ⟨k, x, ?_, rfl⟩
    rw [Table.get?_insert, if_neg (by omega), hx]
  · intro k x hx hxa
    rcases cases hx with hold | ⟨_, rfl⟩
    · exact h.rejectionFits_of_eq hold hxa (get?_setLink_of_ne (h.rejected_ne hq ha hold hxa))
    · refine (Option.any_eq_true _ _).2 ⟨_, get?_setLink_self hq, ?_⟩
      rw [decide_eq_true_eq]
      exact ⟨hs, hl, rfl, rfl, rfl, rfl⟩
  · intro k k' x x' hx hx' hxa hxa' hss hll
    rcases cases hx with hold | ⟨rfl, rfl⟩ <;> rcases cases hx' with hold' | ⟨rfl, rfl⟩
    · exact h.uniqueRejection k k' x x' hold hold' hxa hxa' hss hll
    · exact absurd ⟨hss.trans hs.symm, hll.trans hl.symm⟩ (h.not_rejected hq ha hold hxa)
    · exact absurd ⟨hss.symm.trans hs.symm, hll.symm.trans hl.symm⟩
        (h.not_rejected hq ha hold' hxa')
    · rfl

theorem undo {db' : Db} {projectId scanId lineId rejectionId er el : Nat} (h : AuditInv db)
    (hok : InheritanceReviewService.undo db projectId scanId lineId rejectionId er el = .ok db') :
    AuditInv db' := by
  obtain ⟨x₀, q, hx₀, _, _, ha₀, hq, _, hdom, hmut, _⟩ := InheritanceReviewService.undo_ok hok
  obtain ⟨q', hq', hs, hl, _⟩ := h.rejected_link hx₀ ha₀
  obtain rfl := Option.some.inj (hq.symm.trans hq')
  -- what is still active was not undone
  have back : ∀ {k x}, (db.domain.rejections.updateWhere (fun k _ => decide (k = rejectionId))
      InheritanceReviewService.undone).get? k = some x → x.isActive = true →
      k ≠ rejectionId ∧ db.domain.rejections.get? k = some x := by
    intro k x hx hxa
    rw [Table.toKeyed_updateWhere, Keyed.get?_updateWhere, Option.map_eq_some_iff] at hx
    obtain ⟨y, hy, rfl⟩ := hx
    by_cases hk : k = rejectionId
    · rw [if_pos (by simpa using hk)] at hxa
      cases hxa
    · exact ⟨hk, by rw [if_neg (by simpa using hk), hy]⟩
  have hset := h.setLink x₀.rejectedRelationId InheritanceReviewService.keeps_restored
    (fun q => ⟨rfl, rfl, rfl, rfl, rfl, rfl⟩)
    (db.domain.rejections.updateWhere (fun k _ => k = rejectionId)
      InheritanceReviewService.undone) ?_ ?_ ?_
  · exact hset.congr hmut.facts (by rw [hdom])
  · intro k x hx
    refine ⟨k, _, by rw [Table.toKeyed_updateWhere, Keyed.get?_updateWhere, hx]; rfl, ?_⟩
    split <;> rfl
  · intro k x hx hxa
    obtain ⟨hk, hold⟩ := back hx hxa
    refine h.rejectionFits_of_eq hold hxa (get?_setLink_of_ne fun hid => hk ?_)
    obtain ⟨q', hq', hs', hl', _⟩ := h.rejected_link hold hxa
    rw [hid, hq] at hq'
    obtain rfl := Option.some.inj hq'
    exact h.uniqueRejection k rejectionId x x₀ hold hx₀ hxa ha₀ (hs'.symm.trans hs)
      (hl'.symm.trans hl)
  · intro k k' x x' hx hx' hxa hxa' hss hll
    exact h.uniqueRejection k k' x x' (back hx hxa).2 (back hx' hxa').2 hxa hxa' hss hll

end AuditInv

/-! ## Written relations -/

/-- A validated relation has the identity the audit asks for. -/
theorem linkFits_of_valid {db db' : Db} {scanId rev : Nat} {missing : Failure} {item : LinkItem}
    {u : Unit} (h : validateLink db scanId missing item = .ok u) (hf : db'.facts = db.facts)
    (hb : db'.domain.blocks = db.domain.blocks) (hg : db'.domain.groups = db.domain.groups)
    (hrange : ∀ b ∈ item.blockId, ∀ row, db.domain.blocks.get? b = some row →
      1 ≤ row.startLine ∧ row.startLine ≤ row.endLine) :
    linkFits db' (item.link scanId rev) = true := by
  simp only [validateLink, bind_eq_ok, orFail_eq_ok] at h
  obtain ⟨line, hl, _, _, _, hblock, _, hgroup, _⟩ := h
  have hline : lineOfScan db' scanId item.lineId = some line := by
    rw [← hl]
    unfold lineOfScan
    rw [hf]
  refine linkFits_iff.2 ⟨line, hline, ?_, ?_⟩
  · intro b hqb row hrow
    replace hqb : item.blockId = some b := hqb
    rw [hb] at hrow
    rw [hqb] at hblock
    simp only [validateBlock, bind_eq_ok, orFail_eq_ok, require_eq_ok] at hblock
    obtain ⟨row', hrow', _, ⟨hscan, hfile⟩, hfirst, hlast⟩ := hblock
    obtain rfl := Option.some.inj (hrow'.symm.trans hrow)
    obtain ⟨h₁, h₂⟩ := hrange b hqb row' hrow
    exact ⟨hscan, hfile, h₁, h₂, hfirst, hlast⟩
  · intro g hqg
    replace hqg : item.inheritanceGroupId = some g := hqg
    rw [hqg] at hgroup
    simp only [validateGroup, bind_eq_ok, orFail_eq_ok, require_eq_ok] at hgroup
    obtain ⟨row, hrow, hfit⟩ := hgroup
    exact ⟨row, by rw [hg]; exact hrow, hfit⟩

/-- Links of another line than the written ones still refer to the record: either none is re-linked,
or the record has a reference that stays. -/
def Domain.KeepsReference (d : Domain) (relinked : Link → Prop) (recordId : Nat) : Prop :=
  d.Anchored recordId ∨
    ∃ k q, d.links.get? k = some q ∧ q.recordId = recordId ∧ ¬ relinked q

/-! ## Saves -/

/-- No record loses its last reference: the record of every line of the batch has a block or a
rejection of its own, a line outside of the batch, or is edited in place. -/
def SaveKeeps (env : Env) (db : Db) (scanId : Nat) (records : List AnalysisService.Item)
    (reviewer : String) : Prop :=
  ∀ resolved, AnalysisService.resolveRecords env db scanId records reviewer = .ok resolved →
    ∀ k q, db.domain.links.get? k = some q →
      (q.scanId = scanId ∧ q.lineId ∈ resolved.map AnalysisService.Resolved.lineId) →
      db.domain.KeepsReference (fun q => q.scanId = scanId ∧
        q.lineId ∈ resolved.map AnalysisService.Resolved.lineId) q.recordId ∨
      ∃ r ∈ resolved, r.item.requestedRecordId = q.recordId ∧
        Edits db resolved r.operationKey q.recordId

section Save

variable {db db' : Db} {scanId : Nat} {records : List AnalysisService.Item} {reviewer : String}
  {tr : AnalysisService.SaveTrace}

open AnalysisService

theorem AnalysisService.Saved.auditStep (h : Saved db scanId records reviewer tr)
    (hf : db'.facts = db.facts) (hd : db'.domain = tr.domain db scanId) : AuditStep db db' := by
  constructor
  case facts => exact hf
  case blocks =>
    refine ⟨tr.blocks, by rw [hd]; rfl, fun b hb => ?_⟩
    obtain ⟨_, _, file, hfile, hscan⟩ := h.block b hb
    simp [AnalysisDomainService.blockBound, hfile, hscan]
  case groups => rw [hd]; exact fun _ _ hg => hg
  case sameLines => rw [hd]; exact SameLines.writeLinks scanId tr.links
  case links =>
    intro k q hk
    rw [hd] at hk
    rcases get?_writeLinks hk with ⟨hold, _⟩ | ⟨item, hitem, rev, rfl⟩
    · exact .inl ⟨q, hold, SameIdentity.refl q⟩
    · refine .inr ⟨?_, ?_⟩
      · refine linkFits_of_valid (h.valid item hitem) hf (by rw [hd]; rfl) (by rw [hd]; rfl) ?_
        intro b hb row hrow
        have hnew := h.linkBlock item hitem b hb
        rcases Table.get?_insertMany_cases hrow with hold | ⟨_, hmem⟩
        · have := Table.get?_issued hold
          omega
        · obtain ⟨h₁, h₂, _⟩ := h.block row hmem
          exact ⟨h₁, h₂⟩
      · obtain ⟨a, _, r, _, hitem⟩ := h.link item hitem
        rw [hitem]
        rfl

/-- Anchors stay through a save. -/
theorem AnalysisService.SaveTrace.anchored {recordId : Nat} (h : db.domain.Anchored recordId) :
    (tr.domain db scanId).Anchored recordId := by
  rcases h with ⟨k, b, hk, hb⟩ | ⟨k, x, hk, hx⟩
  · exact .inl ⟨k, b, Table.get?_insertMany_of_some hk, hb⟩
  · refine .inr ⟨k, _, (Keyed.get?_updateWhere _ _ _ k).trans (congrArg _ hk), ?_⟩
    dsimp only
    split <;> exact hx

/-- A record of an operation has a line afterwards. -/
theorem AnalysisService.Saved.linked_assigned (h : Saved db scanId records reviewer tr)
    {a : Plan × Nat} (ha : a ∈ tr.assigned) : (tr.domain db scanId).Linked a.2 := by
  obtain ⟨b, hb⟩ := h.linked a ha a.1.first (h.plan a ha).first
  obtain ⟨k, rev, hf⟩ := findLink_writeLinks db.domain.links h.links_nodup hb
  exact ⟨k, _, (findLink_some hf).1, rfl⟩

/-- **A save that keeps references keeps the audit.** -/
theorem AuditInv.saved (hi : AuditInv db) (h : Saved db scanId records reviewer tr)
    (hf : db'.facts = db.facts) (hd : db'.domain = tr.domain db scanId)
    (hkeep : ∀ k q, db.domain.links.get? k = some q →
      (q.scanId = scanId ∧ q.lineId ∈ tr.resolved.map Resolved.lineId) →
      db.domain.KeepsReference (fun q => q.scanId = scanId ∧
        q.lineId ∈ tr.resolved.map Resolved.lineId) q.recordId ∨
      ∃ r ∈ tr.resolved, r.item.requestedRecordId = q.recordId ∧
        Edits db tr.resolved r.operationKey q.recordId) : AuditInv db' := by
  have hstep := h.auditStep hf hd
  have hlinks := h.linksOk hi.toLinksOk hf hd
  -- the links of other lines, and with them their records
  have stay : ∀ k q, db.domain.links.get? k = some q →
      ¬ (q.scanId = scanId ∧ q.lineId ∈ tr.resolved.map Resolved.lineId) →
      db'.domain.links.get? k = some q := by
    intro k q hk hout
    rw [hd]
    refine get?_writeLinks_of_ne hk fun item hitem hsame => hout ⟨hsame.1, ?_⟩
    rw [hsame.2]
    exact h.link_line hitem
  have anchored : ∀ {k}, db.domain.Anchored k → db'.domain.Anchored k := by
    intro k hk
    rw [hd]
    exact tr.anchored hk
  have close : ∀ {k x}, db'.domain.rejections.get? k = some x → x.isActive = true →
      db.domain.rejections.get? k = some x ∧
        ¬ (x.scanId = scanId ∧ x.lineId ∈ tr.resolved.map Resolved.lineId) := by
    intro k x hx hxa
    rw [hd] at hx
    simp only [SaveTrace.domain, closeActiveRejectionsMany, Table.toKeyed_updateWhere,
      Keyed.get?_updateWhere, Option.map_eq_some_iff] at hx
    obtain ⟨y, hy, rfl⟩ := hx
    split at hxa
    · cases hxa
    · rename_i hne
      rw [if_neg hne]
      refine ⟨hy, fun hin => hne ?_⟩
      rw [decide_eq_true_eq]
      exact ⟨hin.1, hin.2, hxa⟩
  constructor
  case toLinksOk => exact hlinks
  case fits => exact fun k q hk => hstep.fits hi hk
  case bound => exact fun k b hk => hstep.blockBound hi hk
  case source => exact fun k q hk => hstep.sourceFits hi hk
  case referenced =>
    intro k r hk
    by_cases hnew : db.domain.records.next ≤ k
    · rw [hd] at hk
      obtain ⟨a, ha, rfl⟩ := h.newRecord k r hnew hk
      rw [hd]
      exact .inl (h.linked_assigned ha)
    · have hsome : ((tr.records db.domain.records).get? k).isSome := by
        rw [hd] at hk
        exact Option.isSome_iff_exists.2 ⟨r, hk⟩
      obtain ⟨r₀, hr₀⟩ := Option.isSome_iff_exists.1 (isSome_of_records hsome (by omega))
      rcases hi.referenced k r₀ hr₀ with ⟨j, q, hq, rfl⟩ | hanch
      · by_cases hin : q.scanId = scanId ∧ q.lineId ∈ tr.resolved.map Resolved.lineId
        · rcases hkeep j q hq hin with (hanch | ⟨j', q', hq', hrec, hout⟩) | ⟨r, hr, hreq, he⟩
          · exact .inr (anchored hanch)
          · exact .inl ⟨j', q', stay j' q' hq' hout, hrec⟩
          · obtain ⟨k', q', hact, ⟨_, hrec⟩ | ⟨hno, _⟩⟩ :=
              (h.selectedOnly hi.toLinksOk hlinks hd).selected r hr
            · exact .inl ⟨k', q', (activeLink_some hact).1, hrec.trans hreq⟩
            · rw [hreq] at hno
              exact absurd he hno
        · exact .inl ⟨j, q, stay j q hq hin, rfl⟩
      · exact .inr (anchored hanch)
  case rejection =>
    intro k x hx hxa
    obtain ⟨hold, hout⟩ := close hx hxa
    obtain ⟨q, hq, hs, hl, _⟩ := hi.rejected_link hold hxa
    refine hi.rejectionFits_of_eq hold hxa ?_
    rw [hq]
    exact stay _ q hq (by rwa [hs, hl])
  case uniqueRejection =>
    intro k k' x x' hx hx' hxa hxa'
    exact hi.uniqueRejection k k' x x' (close hx hxa).1 (close hx' hxa').1 hxa hxa'

end Save

end FosCoverage
