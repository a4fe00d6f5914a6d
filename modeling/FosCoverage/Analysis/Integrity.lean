import FosCoverage.Import.Current

/-!
# Integrity of the analysis domain

What holds of relations, records and rejections in every reachable state, whatever the interleaving:

* a relation names a record that exists and a line of its own scan;
* a line of a scan has at most one relation, active or not;
* a rejection names the relation of its own line.

Each statement of the services keeps `Integrity`; a whole action does since every write of the
domain is an analysis operation, a migration or an engine run (`Action.domainEffect`).
-/

set_option autoImplicit false

namespace FosCoverage

open Relational Outcome AnalysisDomainRepository

/-! ## The invariant -/

/-- The references of the relations: the foreign keys, and the unique key of a line. -/
structure LinksOk (db : Db) : Prop where
  /-- A relation names an existing record. -/
  record : ∀ k q, db.domain.links.get? k = some q → (db.domain.records.get? q.recordId).isSome
  /-- A relation names a line of its own scan. -/
  line : ∀ k q, db.domain.links.get? k = some q → (lineOfScan db q.scanId q.lineId).isSome
  /-- A relation names no block, or an existing one. -/
  block : ∀ k q, db.domain.links.get? k = some q →
    ∀ b ∈ q.blockId, (db.domain.blocks.get? b).isSome
  /-- A line of a scan has one relation. -/
  unique : ∀ k k' q q', db.domain.links.get? k = some q → db.domain.links.get? k' = some q' →
    q.scanId = q'.scanId → q.lineId = q'.lineId → k = k'

/-- The references within the analysis domain. -/
structure Integrity (db : Db) : Prop extends LinksOk db where
  /-- A rejection names the relation of its line. -/
  rejection : ∀ k x, db.domain.rejections.get? k = some x →
    ∃ q, db.domain.links.get? x.rejectedRelationId = some q ∧ q.scanId = x.scanId ∧
      q.lineId = x.lineId

/-- Lines stay lines of their scan when facts are only added. -/
theorem lineOfScan_mono {db db' : Db}
    (hfile : ∀ k f, db.facts.files.get? k = some f → db'.facts.files.get? k = some f)
    (hline : ∀ k l, db.facts.lines.get? k = some l → db'.facts.lines.get? k = some l)
    {s l : Nat} {line : LineRow} (h : lineOfScan db s l = some line) :
    lineOfScan db' s l = some line := by
  rw [AnalysisService.lineOfScan_eq_some] at h ⊢
  obtain ⟨hl, file, hf, hs⟩ := h
  exact ⟨hline _ _ hl, file, hfile _ _ hf, hs⟩

theorem isSome_insertMany {α : Type} {t : Table α} {as : List α} {k : Nat}
    (h : (t.get? k).isSome) : ((t.insertMany as).get? k).isSome := by
  obtain ⟨a, ha⟩ := Option.isSome_iff_exists.1 h
  rw [Table.get?_insertMany_of_some ha]
  rfl

/-- What a valid relation names exists. -/
structure ItemOk (db : Db) (scanId : Nat) (item : LinkItem) : Prop where
  /-- The line. -/
  line : (lineOfScan db scanId item.lineId).isSome
  /-- The record. -/
  record : (db.domain.records.get? item.recordId).isSome
  /-- The block. -/
  block : ∀ b ∈ item.blockId, (db.domain.blocks.get? b).isSome

theorem itemOk_of_valid {db : Db} {scanId : Nat} {missing : Failure} {item : LinkItem} {u : Unit}
    (h : validateLink db scanId missing item = .ok u) : ItemOk db scanId item := by
  simp only [validateLink, bind_eq_ok, orFail_eq_ok] at h
  obtain ⟨line, hl, r, hr, _, hblock, _⟩ := h
  refine ⟨by simp [hl], by simp [hr], fun b hb => ?_⟩
  rw [show item.blockId = some b from hb] at hblock
  simp only [validateBlock, bind_eq_ok, orFail_eq_ok] at hblock
  obtain ⟨block, hbl, _⟩ := hblock
  simp [hbl]

namespace LinksOk

variable {db db' : Db}

/-- Facts are added and the domain is untouched. -/
theorem grow (h : LinksOk db)
    (hfile : ∀ k f, db.facts.files.get? k = some f → db'.facts.files.get? k = some f)
    (hline : ∀ k l, db.facts.lines.get? k = some l → db'.facts.lines.get? k = some l)
    (hd : db'.domain = db.domain) : LinksOk db' := by
  constructor
  case record => rw [hd]; exact h.record
  case line =>
    rw [hd]
    intro k q hk
    obtain ⟨line, hl⟩ := Option.isSome_iff_exists.1 (h.line k q hk)
    rw [lineOfScan_mono hfile hline hl]
    rfl
  case block => rw [hd]; exact h.block
  case unique => rw [hd]; exact h.unique

/-- The tables the invariant is about are the same. -/
theorem congr (h : LinksOk db) (hf : db'.facts = db.facts)
    (hl : db'.domain.links = db.domain.links) (hr : db'.domain.records = db.domain.records)
    (hb : db'.domain.blocks = db.domain.blocks) : LinksOk db' := by
  have hline : ∀ s l, lineOfScan db' s l = lineOfScan db s l := fun s l => by
    unfold lineOfScan
    rw [hf]
  constructor
  case record => rw [hl, hr]; exact h.record
  case line => simp only [hl, hline]; exact h.line
  case block => rw [hl, hb]; exact h.block
  case unique => rw [hl]; exact h.unique

/-- No record and no block is lost. -/
theorem rows (h : LinksOk db) (rs : Table Record) (bs : Table Block)
    (hr : ∀ k, (db.domain.records.get? k).isSome → (rs.get? k).isSome)
    (hb : ∀ k, (db.domain.blocks.get? k).isSome → (bs.get? k).isSome) :
    LinksOk { db with domain.records := rs, domain.blocks := bs } :=
  ⟨fun k q hk => hr _ (h.record k q hk), h.line, fun k q hk b hq => hb _ (h.block k q hk b hq),
    h.unique⟩

/-- A relation of which everything it names exists is written. -/
theorem writeLink (h : LinksOk db) {scanId : Nat} {item : LinkItem}
    (hitem : ItemOk db scanId item) :
    LinksOk { db with domain.links := writeLink db.domain.links scanId item } := by
  constructor
  case record =>
    intro k q hk
    rcases get?_writeLink hk with ⟨hold, _⟩ | ⟨q₀, _, _, _, rfl⟩ | ⟨_, _, rfl⟩
    · exact h.record k q hold
    · exact hitem.record
    · exact hitem.record
  case line =>
    intro k q hk
    rcases get?_writeLink hk with ⟨hold, _⟩ | ⟨q₀, _, _, _, rfl⟩ | ⟨_, _, rfl⟩
    · exact h.line k q hold
    · exact hitem.line
    · exact hitem.line
  case block =>
    intro k q hk
    rcases get?_writeLink hk with ⟨hold, _⟩ | ⟨q₀, _, _, _, rfl⟩ | ⟨_, _, rfl⟩
    · exact h.block k q hold
    · exact hitem.block
    · exact hitem.block
  case unique =>
    intro k k' q q' hk hk' hs hl
    rcases get?_writeLink hk with ⟨hold, hne⟩ | ⟨q₀, hq₀, h₁, h₂, rfl⟩ | ⟨hnone, hkn, rfl⟩ <;>
    rcases get?_writeLink hk' with ⟨hold', hne'⟩ | ⟨q₁, hq₁, h₁', h₂', rfl⟩ | ⟨hnone', hkn', rfl⟩
    · exact h.unique k k' q q' hold hold' hs hl
    · exact absurd ⟨hs, hl⟩ hne
    · exact absurd ⟨hs, hl⟩ hne
    · exact absurd ⟨hs.symm, hl.symm⟩ hne'
    · exact h.unique k k' q₀ q₁ hq₀ hq₁ (h₁.trans h₁'.symm) (h₂.trans h₂'.symm)
    · exact absurd ⟨h₁, h₂⟩ (findLink_none hnone' hq₀)
    · exact absurd ⟨hs.symm, hl.symm⟩ hne'
    · exact absurd ⟨h₁', h₂'⟩ (findLink_none hnone hq₁)
    · rw [hkn, hkn']

theorem writeLinks (h : LinksOk db) (scanId : Nat) (items : List LinkItem)
    (hitem : ∀ item ∈ items, ItemOk db scanId item) :
    LinksOk { db with domain.links := writeLinks db.domain.links scanId items } := by
  induction items generalizing db with
  | nil => exact h
  | cons item items ih =>
    refine ih (h.writeLink (hitem item List.mem_cons_self)) fun i hi => ?_
    have := hitem i (List.mem_cons_of_mem _ hi)
    exact ⟨this.line, this.record, this.block⟩

/-- An update of a relation that changes nothing it names. -/
structure Keeps (f : Link → Link) : Prop where
  /-- The scan. -/
  scan : ∀ q, (f q).scanId = q.scanId
  /-- The line. -/
  line : ∀ q, (f q).lineId = q.lineId
  /-- The record. -/
  record : ∀ q, (f q).recordId = q.recordId
  /-- The block. -/
  block : ∀ q, (f q).blockId = q.blockId

/-- A relation is changed without changing what it names. -/
theorem setLink (h : LinksOk db) (id : Nat) {f : Link → Link} (hf : Keeps f) :
    LinksOk { db with domain.links := setLink db.domain.links id f } := by
  have back : ∀ {k q}, (FosCoverage.setLink db.domain.links id f).get? k = some q →
      ∃ q₀, db.domain.links.get? k = some q₀ ∧ q.scanId = q₀.scanId ∧ q.lineId = q₀.lineId ∧
        q.recordId = q₀.recordId ∧ q.blockId = q₀.blockId := by
    intro k q hk
    rcases get?_setLink_some hk with ⟨_, hold⟩ | ⟨q₀, rfl, hq₀, rfl⟩
    · exact ⟨q, hold, rfl, rfl, rfl, rfl⟩
    · exact ⟨q₀, hq₀, hf.scan q₀, hf.line q₀, hf.record q₀, hf.block q₀⟩
  constructor
  case record =>
    intro k q hk
    obtain ⟨q₀, hq₀, _, _, hrec, _⟩ := back hk
    rw [hrec]
    exact h.record k q₀ hq₀
  case line =>
    intro k q hk
    obtain ⟨q₀, hq₀, hscan, hline, _⟩ := back hk
    rw [hscan, hline]
    exact h.line k q₀ hq₀
  case block =>
    intro k q hk
    obtain ⟨q₀, hq₀, _, _, _, hblock⟩ := back hk
    rw [hblock]
    exact h.block k q₀ hq₀
  case unique =>
    intro k k' q q' hk hk' hsc hli
    obtain ⟨q₀, hq₀, hscan, hline, _⟩ := back hk
    obtain ⟨q₁, hq₁, hscan', hline', _⟩ := back hk'
    exact h.unique k k' q₀ q₁ hq₀ hq₁ (hscan.symm.trans (hsc.trans hscan'))
      (hline.symm.trans (hli.trans hline'))

/-- The one relation of a line is its active one when it is active. -/
theorem activeLink_eq (h : LinksOk db) {k : Nat} {q : Link}
    (hk : db.domain.links.get? k = some q) (ha : q.isActive = true) :
    db.activeLink q.scanId q.lineId = some (k, q) := by
  cases hf : db.activeLink q.scanId q.lineId with
  | none => exact absurd ⟨rfl, rfl, ha⟩ (activeLink_none hf hk)
  | some r =>
    obtain ⟨k', q'⟩ := r
    obtain ⟨hk', hs, hl, _⟩ := activeLink_some hf
    obtain rfl := h.unique k' k q' q hk' hk hs hl
    obtain rfl : q' = q := Option.some.inj (hk'.symm.trans hk)
    rfl

end LinksOk

theorem InheritanceReviewService.keeps_confirmed (reviewer : String) :
    LinksOk.Keeps (InheritanceReviewService.confirmed reviewer) :=
  ⟨fun _ => rfl, fun _ => rfl, fun _ => rfl, fun _ => rfl⟩

theorem InheritanceReviewService.keeps_rejected : LinksOk.Keeps InheritanceReviewService.rejected :=
  ⟨fun _ => rfl, fun _ => rfl, fun _ => rfl, fun _ => rfl⟩

theorem InheritanceReviewService.keeps_restored : LinksOk.Keeps InheritanceReviewService.restored :=
  ⟨fun _ => rfl, fun _ => rfl, fun _ => rfl, fun _ => rfl⟩

/-! ## Relations keep their line -/

/-- The rows of `links` are still there, for the same lines. -/
def SameLines (links links' : Table Link) : Prop :=
  ∀ k q, links.get? k = some q →
    ∃ q', links'.get? k = some q' ∧ q'.scanId = q.scanId ∧ q'.lineId = q.lineId

namespace SameLines

variable {links : Table Link}

theorem writeLinks (scanId : Nat) (items : List LinkItem) :
    SameLines links (writeLinks links scanId items) := by
  induction items generalizing links with
  | nil => exact fun k q hk => ⟨q, hk, rfl, rfl⟩
  | cons item items ih =>
    intro k q hk
    obtain ⟨q₁, hq₁, hs₁, hl₁⟩ := get?_writeLink_same scanId item hk
    obtain ⟨q₂, hq₂, hs₂, hl₂⟩ := ih k q₁ hq₁
    exact ⟨q₂, hq₂, hs₂.trans hs₁, hl₂.trans hl₁⟩

theorem setLink (id : Nat) {f : Link → Link} (hf : LinksOk.Keeps f) :
    SameLines links (setLink links id f) := by
  intro k q hk
  by_cases hid : k = id
  · subst hid
    exact ⟨f q, get?_setLink_self hk, hf.scan q, hf.line q⟩
  · exact ⟨q, (get?_setLink_of_ne hid).trans hk, rfl, rfl⟩

end SameLines

/-- The relations after the inheritance of one. -/
theorem InheritanceEngine.Inherits.linksOk {ctx : InheritanceEngine.RunContext} {db : Db}
    {r : SourceRelation} {lineId : Nat} {line : LineRow} {i : InheritanceEngine.Inheritance}
    (hi : InheritanceEngine.Inherits ctx db r lineId line i) (h : LinksOk db) :
    LinksOk (i.after db ctx.candidateScanId) := by
  have h₁ : LinksOk (i.beforeLink db) :=
    (h.rows (db.domain.records.insertMany i.newRecords) (db.domain.blocks.insertMany i.newBlocks)
      (fun k hk => isSome_insertMany hk) (fun k hk => isSome_insertMany hk)).congr rfl rfl rfl rfl
  exact h₁.writeLink (itemOk_of_valid hi.valid)

/-! ## Analysis operations -/

/-- The relations after a save. -/
theorem AnalysisService.Saved.linksOk {db db' : Db} {scanId : Nat}
    {records : List AnalysisService.Item} {reviewer : String} {tr : AnalysisService.SaveTrace}
    (hs : AnalysisService.Saved db scanId records reviewer tr) (h : LinksOk db)
    (hf : db'.facts = db.facts) (hd : db'.domain = tr.domain db scanId) : LinksOk db' := by
  have h₁ : LinksOk (tr.beforeLinks db) := h.rows (tr.records db.domain.records)
    (db.domain.blocks.insertMany tr.blocks) (fun k hk => AnalysisService.isSome_records hk)
    (fun k hk => isSome_insertMany hk)
  have h₂ := h₁.writeLinks scanId tr.links fun item hi => itemOk_of_valid (hs.valid item hi)
  exact h₂.congr hf (by rw [hd]; rfl) (by rw [hd]; rfl) (by rw [hd]; rfl)

namespace Integrity

variable {env : Env} {db db' : Db}

theorem grow (h : Integrity db)
    (hfile : ∀ k f, db.facts.files.get? k = some f → db'.facts.files.get? k = some f)
    (hline : ∀ k l, db.facts.lines.get? k = some l → db'.facts.lines.get? k = some l)
    (hd : db'.domain = db.domain) : Integrity db' :=
  ⟨h.toLinksOk.grow hfile hline hd, by rw [hd]; exact h.rejection⟩

theorem congr (h : Integrity db) (hf : db'.facts = db.facts) (hd : db'.domain = db.domain) :
    Integrity db' :=
  h.grow (by rw [hf]; exact fun _ _ h => h) (by rw [hf]; exact fun _ _ h => h) hd

/-- The relations keep their lines, and new rejections name the relation of their line. -/
theorem of_links (h : Integrity db) (h' : LinksOk db')
    (hl : SameLines db.domain.links db'.domain.links)
    (hr : ∀ k x, db'.domain.rejections.get? k = some x →
      (∃ x₀, db.domain.rejections.get? k = some x₀ ∧ x.scanId = x₀.scanId ∧ x.lineId = x₀.lineId ∧
        x.rejectedRelationId = x₀.rejectedRelationId) ∨
      ∃ q, db.domain.links.get? x.rejectedRelationId = some q ∧ q.scanId = x.scanId ∧
        q.lineId = x.lineId) : Integrity db' := by
  refine ⟨h', fun k x hk => ?_⟩
  obtain ⟨q, hq, hs, hline⟩ : ∃ q, db.domain.links.get? x.rejectedRelationId = some q ∧
      q.scanId = x.scanId ∧ q.lineId = x.lineId := by
    rcases hr k x hk with ⟨x₀, hx₀, hs, hline, hid⟩ | hnew
    · rw [hs, hline, hid]
      exact h.rejection k x₀ hx₀
    · exact hnew
  obtain ⟨q', hq', hs', hl'⟩ := hl _ q hq
  exact ⟨q', hq', hs'.trans hs, hl'.trans hline⟩

/-- The relations keep their lines and the rejections are untouched. -/
theorem of_sameLines (h : Integrity db) (h' : LinksOk db')
    (hl : SameLines db.domain.links db'.domain.links)
    (hr : db'.domain.rejections = db.domain.rejections) : Integrity db' :=
  h.of_links h' hl fun k x hk => .inl ⟨x, by rw [← hr]; exact hk, rfl, rfl, rfl⟩

theorem save {projectName reviewer : String} {scanId : Nat} {records : List AnalysisService.Item}
    {enforceCurrent : Bool} (h : Integrity db)
    (hok : AnalysisService.save env db projectName scanId records reviewer enforceCurrent =
      .ok db') : Integrity db' := by
  by_cases hne : records = []
  · subst hne
    obtain ⟨p, rfl⟩ := AnalysisService.save_nil hok
    exact h.congr (by simp) (by simp)
  · obtain ⟨p, tr, _, _, hsaved, hdom, hmut⟩ := AnalysisService.saved_of_ok hne hok
    refine h.of_links (hsaved.linksOk h.toLinksOk hmut.facts hdom) ?_ ?_
    · rw [hdom]
      exact SameLines.writeLinks scanId tr.links
    · intro k x hk
      rw [hdom] at hk
      simp only [AnalysisService.SaveTrace.domain, closeActiveRejectionsMany,
        Table.toKeyed_updateWhere, Keyed.get?_updateWhere, Option.map_eq_some_iff] at hk
      obtain ⟨x₀, hx₀, rfl⟩ := hk
      refine .inl ⟨x₀, hx₀, ?_⟩
      split <;> exact ⟨rfl, rfl, rfl⟩

theorem confirm {projectId scanId : Nat} {selected : List Nat} {expectedMap : List (Nat × Nat)}
    {default : Option Nat} {reviewer : String} (h : Integrity db)
    (hok : InheritanceReviewService.confirm db projectId scanId selected expectedMap default
      reviewer = .ok db') : Integrity db' := by
  obtain ⟨hP, hmut, _⟩ := InheritanceReviewService.confirm_inv hok
    (fun d => Integrity { db with domain := d }) (by
      rintro d lineId d' hf _ hd ⟨id, q, _, _, rfl⟩
      have hkeep := InheritanceReviewService.keeps_confirmed reviewer
      exact hd.of_sameLines (hd.toLinksOk.setLink id hkeep) (SameLines.setLink id hkeep) rfl) h
  exact hP.congr hmut.facts rfl

theorem reject {projectId scanId lineId expected : Nat} {rejectedBy : String} (h : Integrity db)
    (hok : InheritanceReviewService.reject db projectId scanId lineId rejectedBy expected =
      .ok db') : Integrity db' := by
  obtain ⟨id, q, hq, _, hdom, hmut, _⟩ := InheritanceReviewService.reject_ok hok
  obtain ⟨hget, hs, hl, _⟩ := activeLink_some hq
  have hkeep := InheritanceReviewService.keeps_rejected
  refine h.of_links ((h.toLinksOk.setLink id hkeep).congr hmut.facts (by rw [hdom]) (by rw [hdom])
    (by rw [hdom])) (by rw [hdom]; exact SameLines.setLink id hkeep) ?_
  intro k x hk
  rw [hdom] at hk
  dsimp only at hk
  rw [Table.get?_insert] at hk
  split at hk
  · obtain rfl := Option.some.inj hk
    exact .inr ⟨q, hget, hs, hl⟩
  · exact .inl ⟨x, hk, rfl, rfl, rfl⟩

theorem undo {projectId scanId lineId rejectionId er el : Nat} (h : Integrity db)
    (hok : InheritanceReviewService.undo db projectId scanId lineId rejectionId er el = .ok db') :
    Integrity db' := by
  obtain ⟨x, q, _, _, _, _, _, _, hdom, hmut, _⟩ := InheritanceReviewService.undo_ok hok
  have hkeep := InheritanceReviewService.keeps_restored
  refine h.of_links ((h.toLinksOk.setLink x.rejectedRelationId hkeep).congr hmut.facts
    (by rw [hdom]) (by rw [hdom]) (by rw [hdom])) (by rw [hdom]; exact SameLines.setLink _ hkeep) ?_
  intro k y hk
  rw [hdom] at hk
  dsimp only at hk
  rw [Table.toKeyed_updateWhere, Keyed.get?_updateWhere, Option.map_eq_some_iff] at hk
  obtain ⟨x₀, hx₀, rfl⟩ := hk
  refine .inl ⟨x₀, hx₀, ?_⟩
  split <;> exact ⟨rfl, rfl, rfl⟩

theorem mutate {m : Mutation} (h : Integrity db) (hok : m.apply env db = .ok db') :
    Integrity db' := by
  cases m with
  | save => exact h.save hok
  | confirm => exact h.confirm hok
  | editConfirm => exact h.save hok
  | reject => exact h.reject hok
  | undo => exact h.undo hok

/-! ## Migrations and engine runs -/

theorem backfill {scanId : Nat} (h : Integrity db) (hok : backfillLegacy db scanId = .ok db') :
    Integrity db' := by
  refine foldlM_inv Integrity ?_ h hok
  intro d row d' _ hd hstep
  dsimp only at hstep
  split at hstep
  · generalize hlr : legacyRecord d row.1 row.2 = pair at hstep
    obtain ⟨d₁, recordId⟩ := pair
    have hd₁ : LinksOk d₁ ∧ d₁.domain.links = d.domain.links ∧
        d₁.domain.rejections = d.domain.rejections := by
      unfold legacyRecord at hlr
      split at hlr
      · obtain ⟨rfl, _⟩ := Prod.mk.inj hlr
        exact ⟨hd.toLinksOk, rfl, rfl⟩
      · obtain ⟨rfl, _⟩ := Prod.mk.inj hlr
        exact ⟨hd.toLinksOk.rows (d.domain.records.insertMany [_]) d.domain.blocks
          (fun k hk => isSome_insertMany hk) (fun k hk => hk), rfl, rfl⟩
    obtain ⟨hlinks, hlinkEq, hrejEq⟩ := hd₁
    obtain ⟨rfl, _, hvalid⟩ := AnalysisService.createLinksMany_ok hstep
    refine hd.of_sameLines
      (hlinks.writeLinks scanId _ fun item hi => itemOk_of_valid (hvalid item hi)) ?_ hrejEq
    rw [← hlinkEq]
    exact SameLines.writeLinks scanId _
  · obtain rfl := pure_eq_ok.1 hstep
    exact hd

theorem engine {scanId : Nat} {paths : List (String × String)} {readSet : Option ReadSet}
    (h : Integrity db) (hok : InheritanceEngine.run env db scanId paths = .ok (db', readSet)) :
    Integrity db' := by
  refine (InheritanceEngine.run_inv hok ?_ (fun ctx hctx _ => ?_) h).2
  · exact fun d rows _ hd => ⟨hd.toLinksOk.congr rfl rfl rfl rfl, hd.rejection⟩
  · intro _ d r lineId line i _ _ _ _ hd hi
    exact hd.of_sameLines (hi.linksOk hd.toLinksOk)
      (SameLines.writeLinks ctx.candidateScanId [i.item]) rfl

end Integrity

/-! ## Every action -/

/-- The engine run an action carries: the Candidate and the working copies. -/
def Action.engineRun (db : Db) : Action → Option (Nat × List (String × String))
  | .runEngine scanId paths => some (scanId, paths)
  | .phase w _ _ (.computeInheritance paths) => some (db.jobScan w.jobId, paths)
  | _ => none

/-- How an action may write the analysis domain. -/
inductive DomainEffect (env : Env) (db : Db) (d : Domain) : Action → Prop
  /-- Not at all. -/
  | none (a : Action) (hd : d = db.domain) : DomainEffect env db d a
  /-- An analysis operation. -/
  | mutate {m : Mutation} {db' : Db} (h : m.apply env db = .ok db') (hd : d = db'.domain) :
    DomainEffect env db d (.mutate m)
  /-- A migration. -/
  | backfill {scanId : Nat} {db' : Db} (h : backfillLegacy db scanId = .ok db')
      (hd : d = db'.domain) : DomainEffect env db d (.backfill scanId)
  /-- An engine run. -/
  | engine {a : Action} {scanId : Nat} {paths : List (String × String)} {readSet : Option ReadSet}
      {db' : Db} (ha : a.engineRun db = some (scanId, paths))
      (h : InheritanceEngine.run env db scanId paths = .ok (db', readSet))
      (hd : d = db'.domain) : DomainEffect env db d a

/-- **Every write of the analysis domain is an analysis operation, a migration or an engine
run.** -/
theorem Action.domainEffect {env : Env} {db db' : Db} {a : Action} (hc : CurrentOk db)
    (h : a.apply env db = .ok db') : DomainEffect env db db'.domain a := by
  cases a with
  | tick d =>
    obtain rfl := pure_eq_ok.1 h
    exact .none _ rfl
  | registerResource r =>
    simp only [Action.apply] at h
    split at h <;> obtain rfl := pure_eq_ok.1 h <;> exact .none _ rfl
  | mutate m => exact .mutate h rfl
  | backfill scanId => exact .backfill h rfl
  | runEngine scanId paths =>
    obtain ⟨_, hrun⟩ := map_fst_eq_ok h
    exact .engine rfl hrun rfl
  | createScan identity status => exact .none _ (ProjectService.createScan_quiet hc h).2
  | createScanAndIngest identity status files =>
    exact .none _ (ProjectService.createScanAndIngest_effect hc h).2
  | ingestFiles scanId files => exact .none _ (ProjectService.ingestFiles_effect hc h).2
  | sealScan scanId => exact .none _ (sealScan_quiet hc h).2
  | create request =>
    obtain ⟨_, hcreate⟩ := map_fst_eq_ok h
    exact .none _ (ScanImportCoordinator.create_quiet hc hcreate).2
  | phase w target payload op =>
    obtain ⟨⟨payload', committed⟩, hphase⟩ := map_fst_eq_ok h
    obtain ⟨c, _, ⟨_, rfl, _⟩ | ⟨_, _, _, db₁, c₁, hop, _, _, _, rfl⟩⟩ :=
      ScanImportCoordinator.runPhaseOperation_ok hphase
    · exact .none _ rfl
    · cases op with
      | checkpoint =>
        obtain ⟨rfl, _⟩ := Prod.mk.inj (pure_eq_ok.1 hop)
        exact .none _ rfl
      | finalizeCoverage =>
        obtain rfl := ScanImportCoordinator.finalizeCoverage_eq hop
        exact .none _ rfl
      | computeInheritance =>
        simp only [PhaseOp.operation, ScanImportCoordinator.computeInheritance, bind_eq_ok,
          pure_eq_ok, Prod.exists, Prod.mk.injEq] at hop
        obtain ⟨db₂, readSet, hrun, rfl, _⟩ := hop
        exact .engine rfl hrun rfl
      | verifyConsistency =>
        obtain ⟨p, version, hr⟩ := ScanImportCoordinator.verifyConsistency_rebuilt hop
        exact .none _ hr.domain
  | batch w items batchSeq files lines payload =>
    obtain ⟨_, hbatch⟩ := map_fst_eq_ok h
    exact .none _ (ScanImportCoordinator.ingestCoverageBatch_quiet hc hbatch).2
  | sealImport w => exact .none _ (ScanImportCoordinator.sealImport_quiet hc h).2
  | publish w expected readSet =>
    obtain ⟨committed, hpub⟩ := map_fst_eq_ok h
    exact .none _ (ScanImportCoordinator.publishTransaction_effect hpub).2
  | reclaim jobId observed =>
    obtain ⟨_, hreclaim⟩ := map_fst_eq_ok h
    obtain ⟨uuid, imports, rfl⟩ := ScanImportRecoveryService.reclaim_frame hreclaim
    exact .none _ rfl
  | recordFailure jobId phase message fencingToken aborted ownerToken =>
    exact .none _ (ScanImportRecoveryService.recordFailure_quiet hc h).2

/-- Files and lines are never changed or removed. -/
theorem Action.grows {env : Env} {db db' : Db} {a : Action} (hc : CurrentOk db)
    (h : a.apply env db = .ok db') :
    (∀ k f, db.facts.files.get? k = some f → db'.facts.files.get? k = some f) ∧
    (∀ k l, db.facts.lines.get? k = some l → db'.facts.lines.get? k = some l) := by
  have he := Action.effect hc h
  split at he
  · obtain ⟨_, _, hp⟩ := he
    obtain ⟨db₁, hq, hf, _⟩ := hp.moves
    rw [hf]
    exact ⟨hq.file, hq.line⟩
  · exact ⟨he.file, he.line⟩

/-- A scan keeps its project and its predecessor. -/
theorem Action.scan_kept {env : Env} {db db' : Db} {a : Action} (hc : CurrentOk db)
    (h : a.apply env db = .ok db') {s : Nat} {scan : Scan}
    (hs : db.facts.scans.get? s = some scan) :
    ∃ scan', db'.facts.scans.get? s = some scan' ∧ scan'.projectId = scan.projectId ∧
      scan'.predecessorScanId = scan.predecessorScanId := by
  have kept : ∀ d : Db, Quiet db d → ∃ scan', d.facts.scans.get? s = some scan' ∧
      scan'.projectId = scan.projectId ∧ scan'.predecessorScanId = scan.predecessorScanId := by
    intro d hq
    obtain ⟨scan', hscan', hproj, hpred, _⟩ := hq.scan s scan hs
    exact ⟨scan', hscan', hproj, hpred⟩
  have he := Action.effect hc h
  split at he
  · obtain ⟨_, _, hp⟩ := he
    obtain ⟨db₁, hq, hf, _⟩ := hp.moves
    rw [hf]
    exact kept db₁ hq
  · exact kept db' he

/-- **Every action keeps the integrity of the domain.** -/
theorem Integrity.step {env : Env} {db db' : Db} {a : Action} (h : Integrity db)
    (hc : CurrentOk db) (ha : a.apply env db = .ok db') : Integrity db' := by
  have key : Integrity { db with domain := db'.domain } := by
    cases Action.domainEffect hc ha with
    | none _ hd => exact h.congr rfl hd
    | mutate hm hd => exact (h.mutate hm).congr (Mutation.reviewed hm).facts.symm hd
    | backfill hb hd => exact (h.backfill hb).congr (by rw [backfillLegacy_frame hb]) hd
    | engine _ hr hd => exact (h.engine hr).congr (by rw [InheritanceEngine.run_frame hr]) hd
  obtain ⟨hfile, hline⟩ := Action.grows hc ha
  exact key.grow hfile hline rfl

theorem Integrity.empty : Integrity Db.empty := by
  refine ⟨⟨?_, ?_, ?_, ?_⟩, ?_⟩ <;> intro k <;> simp [Db.empty]

theorem Reachable.integrity {env : Env} {db : Db} (h : Reachable env db) : Integrity db :=
  (h.inv (P := fun d => HistoryOk d ∧ Integrity d) ⟨HistoryOk.empty, Integrity.empty⟩
    fun _ _ _ hd ha => ⟨hd.1.step ha, hd.2.step hd.1.current ha⟩).2

end FosCoverage
