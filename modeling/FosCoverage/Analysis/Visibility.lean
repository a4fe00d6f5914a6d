import FosCoverage.Analysis.Versions

/-!
# Reviewed lines stay visible

A line is visible when it has an active relation or an active rejection.  A relation is deactivated
by a rejection alone, and a rejection ends with an active relation, so

* no action makes a visible line invisible (`Shows`, `Action.shows`);
* in every reachable database every line with a relation is visible (`Reachable.relationsVisible`);
* an accepted operation leaves a relation for every line it names (`Mutation.linked`).
-/

set_option autoImplicit false

namespace FosCoverage

open Relational Outcome AnalysisDomainRepository

/-- The line has an active relation or an active rejection. -/
def Domain.Visible (d : Domain) (scanId lineId : Nat) : Prop :=
  (∃ k q, d.links.get? k = some q ∧ q.scanId = scanId ∧ q.lineId = lineId ∧ q.isActive = true) ∨
  ∃ k x, d.rejections.get? k = some x ∧ x.scanId = scanId ∧ x.lineId = lineId ∧ x.isActive = true

/-- The line has a relation, active or not. -/
def Domain.HasLink (d : Domain) (scanId lineId : Nat) : Prop :=
  ∃ k q, d.links.get? k = some q ∧ q.scanId = scanId ∧ q.lineId = lineId

/-- Every line with a relation is visible. -/
def RelationsVisible (db : Db) : Prop :=
  ∀ s l, db.domain.HasLink s l → db.domain.Visible s l

/-- Visible lines stay visible, and a line that gets a relation becomes visible. -/
structure Shows (d d' : Domain) : Prop where
  /-- No visible line is lost. -/
  visible : ∀ s l, d.Visible s l → d'.Visible s l
  /-- A new relation is visible. -/
  linked : ∀ s l, d'.HasLink s l → d.HasLink s l ∨ d'.Visible s l

namespace Shows

theorem refl (d : Domain) : Shows d d := ⟨fun _ _ h => h, fun _ _ h => .inl h⟩

theorem trans {d d' d'' : Domain} (h : Shows d d') (h' : Shows d' d'') : Shows d d'' where
  visible := fun s l hv => h'.visible s l (h.visible s l hv)
  linked := by
    intro s l hl
    rcases h'.linked s l hl with hl | hv
    · exact (h.linked s l hl).imp id (h'.visible s l)
    · exact .inr hv

theorem relationsVisible {db db' : Db} (h : Shows db.domain db'.domain)
    (hv : RelationsVisible db) : RelationsVisible db' :=
  fun s l hl => (h.linked s l hl).elim (fun hl => h.visible s l (hv s l hl)) id

/-- Every written line has a relation. -/
theorem exists_writeLinks (scanId : Nat) {items : List LinkItem} {item : LinkItem}
    (h : item ∈ items) (links : Table Link) :
    ∃ k q, (AnalysisDomainRepository.writeLinks links scanId items).get? k = some q ∧
      q.scanId = scanId ∧ q.lineId = item.lineId := by
  induction items generalizing links with
  | nil => cases h
  | cons i items ih =>
    rcases List.mem_cons.1 h with rfl | h
    · obtain ⟨k, rev, hf⟩ := findLink_writeLink links scanId item
      obtain ⟨hk, hs, hl⟩ := findLink_some hf
      obtain ⟨q, hq, hs', hl'⟩ := SameLines.writeLinks scanId items k _ hk
      exact ⟨k, q, hq, hs'.trans hs, hl'.trans hl⟩
    · exact ih h _

/-- Active relations are written, and rejections end on the written lines only. -/
theorem writeLinks {d d' : Domain} {scanId : Nat} {items : List LinkItem}
    (hlinks : d'.links = AnalysisDomainRepository.writeLinks d.links scanId items)
    (hrejections : ∀ k x, d.rejections.get? k = some x → x.isActive = true →
      d'.rejections.get? k = some x ∨
        ∃ item ∈ items, x.scanId = scanId ∧ x.lineId = item.lineId) : Shows d d' := by
  -- a relation after the write is as it was, or active
  have after : ∀ k q, d'.links.get? k = some q →
      (d.links.get? k = some q ∧ ∀ item ∈ items, ¬ (q.scanId = scanId ∧ q.lineId = item.lineId)) ∨
        q.isActive = true := by
    intro k q hk
    rw [hlinks] at hk
    rcases get?_writeLinks hk with hold | ⟨item, _, rev, rfl⟩
    · exact .inl hold
    · exact .inr rfl
  constructor
  · rintro s l (⟨k, q, hk, hs, hl, ha⟩ | ⟨k, x, hk, hs, hl, ha⟩)
    · obtain ⟨q', hk', hs', hl'⟩ := SameLines.writeLinks scanId items k q hk
      rw [← hlinks] at hk'
      refine .inl ⟨k, q', hk', hs'.trans hs, hl'.trans hl, ?_⟩
      rcases after k q' hk' with ⟨hold, _⟩ | ha'
      · obtain rfl := Option.some.inj (hold.symm.trans hk)
        exact ha
      · exact ha'
    · rcases hrejections k x hk ha with hkeep | ⟨item, hitem, hsx, hlx⟩
      · exact .inr ⟨k, x, hkeep, hs, hl, ha⟩
      · obtain ⟨k', q, hk', hs', hl'⟩ := exists_writeLinks scanId hitem d.links
        rw [← hlinks] at hk'
        refine .inl ⟨k', q, hk', ?_, ?_, ?_⟩
        · rw [hs', ← hsx, hs]
        · rw [hl', ← hlx, hl]
        · rcases after k' q hk' with ⟨_, hne⟩ | ha'
          · exact absurd ⟨hs', hl'⟩ (hne item hitem)
          · exact ha'
  · rintro s l ⟨k, q, hk, hs, hl⟩
    rcases after k q hk with ⟨hold, _⟩ | ha
    · exact .inl ⟨k, q, hold, hs, hl⟩
    · exact .inr (.inl ⟨k, q, hk, hs, hl, ha⟩)

/-- One relation is changed and keeps its line; if it was active and is no more, its line has an
active rejection. -/
theorem setLink {d d' : Domain} {id : Nat} {f : Link → Link} (hf : LinksOk.Keeps f)
    (hlinks : d'.links = FosCoverage.setLink d.links id f)
    (hactive : ∀ q, d.links.get? id = some q → q.isActive = true →
      (f q).isActive = true ∨ d'.Visible q.scanId q.lineId)
    (hrejections : ∀ k x, d.rejections.get? k = some x → x.isActive = true →
      d'.rejections.get? k = some x ∨ d'.Visible x.scanId x.lineId) : Shows d d' := by
  constructor
  · rintro s l (⟨k, q, hk, rfl, rfl, ha⟩ | ⟨k, x, hk, rfl, rfl, ha⟩)
    · by_cases hid : k = id
      · subst hid
        rcases hactive q hk ha with ha' | hv
        · refine .inl ⟨k, f q, ?_, hf.scan q, hf.line q, ha'⟩
          rw [hlinks]
          exact get?_setLink_self hk
        · exact hv
      · refine .inl ⟨k, q, ?_, rfl, rfl, ha⟩
        rw [hlinks, get?_setLink_of_ne hid]
        exact hk
    · rcases hrejections k x hk ha with hkeep | hv
      · exact .inr ⟨k, x, hkeep, rfl, rfl, ha⟩
      · exact hv
  · rintro s l ⟨k, q, hk, hs, hl⟩
    rw [hlinks] at hk
    rcases get?_setLink_some hk with ⟨_, hold⟩ | ⟨q₀, _, hold, rfl⟩
    · exact .inl ⟨k, q, hold, hs, hl⟩
    · exact .inl ⟨id, q₀, hold, (hf.scan q₀).symm.trans hs, (hf.line q₀).symm.trans hl⟩

end Shows

/-! ## Every action -/

section Step

variable {env : Env} {db db' : Db}

theorem AnalysisService.save_shows {projectName reviewer : String} {scanId : Nat}
    {records : List AnalysisService.Item} {enforceCurrent : Bool}
    (hok : AnalysisService.save env db projectName scanId records reviewer enforceCurrent =
      .ok db') : Shows db.domain db'.domain := by
  by_cases hne : records = []
  · subst hne
    obtain ⟨p, rfl⟩ := AnalysisService.save_nil hok
    rw [ProjectStateRepository.domain_ensure]
    exact .refl _
  · obtain ⟨p, tr, _, _, hsaved, hdom, _⟩ := AnalysisService.saved_of_ok hne hok
    rw [hdom]
    refine @Shows.writeLinks db.domain _ scanId tr.links rfl fun k x hk ha => ?_
    by_cases hx : x.scanId = scanId ∧ x.lineId ∈ tr.resolved.map AnalysisService.Resolved.lineId
    · -- the line of a rejection that ends is one of the batch, and is linked
      obtain ⟨r, hr, hrl⟩ := List.mem_map.1 hx.2
      obtain ⟨a, hassigned, hitems⟩ := hsaved.covered r hr
      obtain ⟨b, hlink⟩ := hsaved.linked a hassigned r hitems
      exact .inr ⟨_, hlink, hx.1, hrl.symm⟩
    · left
      show (Table.updateWhere _ _ _).get? k = some x
      rw [Table.toKeyed_updateWhere, Keyed.get?_updateWhere, hk]
      have : ¬ (x.scanId = scanId ∧ x.lineId ∈ tr.resolved.map AnalysisService.Resolved.lineId ∧
          x.isActive = true) := fun h => hx ⟨h.1, h.2.1⟩
      simp only [Option.map_some, decide_eq_true_eq, if_neg this]

/-- **No operation hides a line.** -/
theorem Mutation.shows {m : Mutation} (hi : Integrity db) (hok : m.apply env db = .ok db') :
    Shows db.domain db'.domain := by
  cases m with
  | save => exact AnalysisService.save_shows hok
  | editConfirm => exact AnalysisService.save_shows hok
  | confirm projectId scanId selected expectedMap default reviewer =>
    refine (InheritanceReviewService.confirm_inv hok (fun d => Shows db.domain d) ?_
      (Shows.refl _)).1
    rintro d lineId d' _ _ hd ⟨id, q, _, _, rfl⟩
    exact hd.trans (Shows.setLink (InheritanceReviewService.keeps_confirmed reviewer) rfl
      (fun q _ ha => .inl ha) fun _ _ hk _ => .inl hk)
  | reject projectId scanId lineId rejectedBy expected =>
    obtain ⟨id, q, hact, _, hdom, _⟩ := InheritanceReviewService.reject_ok hok
    obtain ⟨hq, hs, hl, _⟩ := activeLink_some hact
    rw [hdom]
    refine Shows.setLink InheritanceReviewService.keeps_rejected rfl (fun q' hq' _ => ?_)
      fun k x hk _ => .inl ?_
    · obtain rfl := Option.some.inj (hq'.symm.trans hq)
      refine .inr (.inr ⟨db.domain.rejections.next,
        InheritanceReviewService.rejectionOf scanId lineId id rejectedBy q', ?_, hs.symm, hl.symm,
        rfl⟩)
      rw [Table.get?_insert, if_pos rfl]
    · have := Table.get?_issued hk
      rw [Table.get?_insert, if_neg (by omega), hk]
  | undo projectId scanId lineId rejectionId er el =>
    obtain ⟨x, q, hx, hs, hl, _, hq, _, hdom, _⟩ := InheritanceReviewService.undo_ok hok
    obtain ⟨q', hq', hs', hl'⟩ := hi.rejection rejectionId x hx
    obtain rfl := Option.some.inj (hq'.symm.trans hq)
    rw [hdom]
    refine Shows.setLink InheritanceReviewService.keeps_restored rfl (fun _ _ _ => .inl rfl)
      fun k x' hk _ => ?_
    by_cases hid : k = rejectionId
    · -- the rejection ends with its relation active again
      subst hid
      obtain rfl := Option.some.inj (hx.symm.trans hk)
      exact .inr (.inl ⟨_, _, get?_setLink_self hq, hs', hl', rfl⟩)
    · left
      rw [Table.toKeyed_updateWhere, Keyed.get?_updateWhere, hk]
      simp [hid]

theorem AnalysisDomainRepository.backfill_shows {scanId : Nat}
    (hok : backfillLegacy db scanId = .ok db') : Shows db.domain db'.domain := by
  refine foldlM_inv (fun d : Db => Shows db.domain d.domain) ?_ (Shows.refl _) hok
  intro d row d' _ hd hstep
  dsimp only at hstep
  split at hstep
  · generalize hlr : legacyRecord d row.1 row.2 = pair at hstep
    obtain ⟨d₁, recordId⟩ := pair
    have hd₁ : d₁.domain.links = d.domain.links ∧ d₁.domain.rejections = d.domain.rejections := by
      unfold legacyRecord at hlr
      split at hlr <;> obtain ⟨rfl, _⟩ := Prod.mk.inj hlr <;> exact ⟨rfl, rfl⟩
    obtain ⟨rfl, _, _⟩ := AnalysisService.createLinksMany_ok hstep
    refine hd.trans (@Shows.writeLinks d.domain _ scanId [legacyLink row.1 recordId row.2] ?_
      fun k x hk _ => .inl ?_)
    · rw [← hd₁.1]
    · rw [← hd₁.2] at hk
      exact hk
  · obtain rfl := pure_eq_ok.1 hstep
    exact hd

theorem InheritanceEngine.run_shows {scanId : Nat} {paths : List (String × String)}
    {readSet : Option ReadSet}
    (hok : InheritanceEngine.run env db scanId paths = .ok (db', readSet)) :
    Shows db.domain db'.domain := by
  refine (InheritanceEngine.run_inv (P := fun d => Shows db.domain d.domain) hok
    (fun d rows _ hd => hd.trans ⟨fun _ _ h => h, fun _ _ h => .inl h⟩) (fun ctx hctx _ => ?_)
    (Shows.refl _)).2
  intro _ d r lineId line i _ _ _ _ hd _
  refine hd.trans ?_
  exact @Shows.writeLinks d.domain (i.after d ctx.candidateScanId).domain ctx.candidateScanId
    [i.item] rfl fun _ _ hk _ => .inl hk

/-- **No action hides a line.** -/
theorem Action.shows {a : Action} (hi : Integrity db) (hc : CurrentOk db)
    (hok : a.apply env db = .ok db') : Shows db.domain db'.domain := by
  cases Action.domainEffect hc hok with
  | none _ hd => rw [hd]; exact Shows.refl _
  | mutate hm hd => rw [hd]; exact Mutation.shows hi hm
  | backfill hb hd => rw [hd]; exact backfill_shows hb
  | engine _ hr hd => rw [hd]; exact InheritanceEngine.run_shows hr

/-- **Every line with a relation is visible in every reachable database.** -/
theorem Reachable.relationsVisible (h : Reachable env db) : RelationsVisible db := by
  refine (h.inv (P := fun d => (HistoryOk d ∧ Integrity d) ∧ RelationsVisible d)
    ⟨⟨HistoryOk.empty, Integrity.empty⟩, ?_⟩ fun d a d' hd ha => ?_).2
  · rintro s l ⟨k, q, hk, _⟩
    simp [Db.empty] at hk
  · exact ⟨⟨hd.1.1.step ha, hd.1.2.step hd.1.1.current ha⟩,
      (Action.shows hd.1.2 hd.1.1.current ha).relationsVisible hd.2⟩

/-! ## The lines an operation names -/

/-- A save that names a line has an item. -/
theorem AnalysisService.ne_nil_of_names {scanId l : Nat} {records : List AnalysisService.Item}
    {reviewer : String}
    (hn : ∃ resolved, AnalysisService.resolveRecords env db scanId records reviewer = .ok resolved ∧
      l ∈ resolved.map AnalysisService.Resolved.lineId) : records ≠ [] := by
  rintro rfl
  obtain ⟨resolved, hres, hmem⟩ := hn
  obtain rfl := pure_eq_ok.1 hres
  cases hmem

theorem AnalysisService.save_linked {projectName reviewer : String} {scanId l : Nat}
    {records : List AnalysisService.Item} {enforceCurrent : Bool}
    (hok : AnalysisService.save env db projectName scanId records reviewer enforceCurrent =
      .ok db')
    (hn : ∃ resolved, AnalysisService.resolveRecords env db scanId records reviewer = .ok resolved ∧
      l ∈ resolved.map AnalysisService.Resolved.lineId) : db'.domain.HasLink scanId l := by
  obtain ⟨p, tr, _, hres', hsaved, hdom, _⟩ :=
    AnalysisService.saved_of_ok (AnalysisService.ne_nil_of_names hn) hok
  obtain ⟨resolved, hres, hmem⟩ := hn
  obtain rfl := Except.ok.inj (hres.symm.trans hres')
  obtain ⟨r, hr, rfl⟩ := List.mem_map.1 hmem
  obtain ⟨a, hassigned, hitems⟩ := hsaved.covered r hr
  obtain ⟨b, hlink⟩ := hsaved.linked a hassigned r hitems
  obtain ⟨k, q, hk, hs, hql⟩ := Shows.exists_writeLinks scanId hlink db.domain.links
  rw [hdom]
  exact ⟨k, q, hk, hs, hql⟩

/-- **An accepted operation leaves a relation for every line it names.** -/
theorem Mutation.linked {m : Mutation} {l : Nat} (hi : Integrity db)
    (hok : m.apply env db = .ok db') (hn : m.Names env db l) (hl : l ≠ 0) :
    db'.domain.HasLink m.scanId l := by
  cases m with
  | save projectName scanId records reviewer enforceCurrent =>
    exact AnalysisService.save_linked hok hn
  | editConfirm projectName scanId records reviewer => exact AnalysisService.save_linked hok hn
  | confirm projectId scanId selected expectedMap default reviewer =>
    obtain ⟨id, q, hact, _, _, hconf⟩ :=
      (InheritanceReviewService.confirm_links hi.toLinksOk hok).1 l hn hl
    obtain ⟨_, hs, hline, _⟩ := activeLink_some hact
    exact ⟨id, _, hconf, hs, hline⟩
  | reject projectId scanId lineId rejectedBy expected =>
    obtain ⟨id, q, hact, _, hdom, _⟩ := InheritanceReviewService.reject_ok hok
    obtain ⟨hq, hs, hline, _⟩ := activeLink_some hact
    rw [hdom]
    obtain rfl : l = lineId := hn
    exact ⟨id, _, get?_setLink_self hq, hs, hline⟩
  | undo projectId scanId lineId rejectionId er el =>
    obtain ⟨x, q, hx, hs, hline, _, hq, _, hdom, _⟩ := InheritanceReviewService.undo_ok hok
    obtain ⟨q', hq', hs', hl'⟩ := hi.rejection rejectionId x hx
    obtain rfl := Option.some.inj (hq'.symm.trans hq)
    rw [hdom]
    obtain rfl : l = lineId := hn
    exact ⟨_, _, get?_setLink_self hq, hs'.trans hs, hl'.trans hline⟩

/-- An operation was accepted on a scan, and raised the version of its project. -/
def Advances (db db' : Db) (scanId : Nat) : Prop :=
  ∃ scan, db.facts.scans.get? scanId = some scan ∧
    (db'.stateOf scan.projectId).dataVersion = (db.stateOf scan.projectId).dataVersion + 1

theorem AnalysisService.Mutated.advances {projectId scanId : Nat} {scan : Scan}
    (h : AnalysisService.Mutated db projectId db') (hscan : db.facts.scans.get? scanId = some scan)
    (hp : scan.projectId = projectId) : Advances db db' scanId := by
  refine ⟨scan, hscan, ?_⟩
  rw [h.stateOf, if_pos hp, hp]

/-- A review works on CURRENT, which is a scan of its project. -/
theorem AnalysisService.Mutated.advances_current {projectId scanId : Nat} (hc : CurrentOk db)
    (h : AnalysisService.Mutated db projectId db')
    (hcur : (db.stateOf projectId).currentScanId.getD 0 = scanId) (hz : scanId ≠ 0) :
    Advances db db' scanId := by
  cases hs : (db.stateOf projectId).currentScanId with
  | none =>
    rw [hs] at hcur
    exact absurd hcur.symm hz
  | some c =>
    rw [hs] at hcur
    obtain rfl : c = scanId := hcur
    obtain ⟨scan, hscan, hp, _⟩ := hc projectId _ hs
    exact h.advances hscan hp

theorem AnalysisService.save_advances {projectName reviewer : String} {scanId l : Nat}
    {records : List AnalysisService.Item} {enforceCurrent : Bool}
    (hok : AnalysisService.save env db projectName scanId records reviewer enforceCurrent =
      .ok db')
    (hn : ∃ resolved, AnalysisService.resolveRecords env db scanId records reviewer = .ok resolved ∧
      l ∈ resolved.map AnalysisService.Resolved.lineId) : Advances db db' scanId := by
  obtain ⟨p, tr, hp, _, _, _, hmut⟩ :=
    AnalysisService.saved_of_ok (AnalysisService.ne_nil_of_names hn) hok
  simp only [AnalysisService.save, bind_eq_ok, orFail_eq_ok, require_eq_ok] at hok
  obtain ⟨p', hp', scan, hs, _, hbound, _⟩ := hok
  obtain rfl := Option.some.inj (hp.symm.trans hp')
  exact hmut.advances hs hbound

/-- **An accepted operation that names a line raises the data version of the scan's project.** -/
theorem Mutation.advances {m : Mutation} {l : Nat} (hc : CurrentOk db)
    (hok : m.apply env db = .ok db') (hn : m.Names env db l) (hz : m.scanId ≠ 0) :
    Advances db db' m.scanId := by
  cases m with
  | save => exact AnalysisService.save_advances hok hn
  | editConfirm => exact AnalysisService.save_advances hok hn
  | confirm projectId scanId selected expectedMap default reviewer =>
    obtain ⟨_, hmut, hcur⟩ := InheritanceReviewService.confirm_inv hok (fun _ => True)
      (fun _ _ _ _ _ _ _ => trivial) trivial
    exact hmut.advances_current hc hcur hz
  | reject =>
    obtain ⟨_, _, _, _, _, hmut, hcur, _⟩ := InheritanceReviewService.reject_ok hok
    exact hmut.advances_current hc hcur hz
  | undo =>
    obtain ⟨_, _, _, _, _, _, _, _, _, hmut, hcur, _⟩ := InheritanceReviewService.undo_ok hok
    exact hmut.advances_current hc hcur hz

end Step

end FosCoverage
