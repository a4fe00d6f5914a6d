import FosCoverage.Analysis.Integrity

/-!
# What a save changes

A save writes the relations of the lines it resolved and nothing else a reader of another line can
see.  Records are shared by many lines, so the argument is about records: one that is edited in
place is linked from no line outside of the operation (`Saved.not_edited`), and an operation that
does not edit in place has a record of its own.

* `Edits` is the in-place condition of the code, in terms of the state before the save.
* `SelectedOnly` collects what follows for the state after it (`save_changes_only_selected`).
-/

set_option autoImplicit false

namespace FosCoverage

open Relational Outcome AnalysisDomainRepository

/-! ## Relations of other lines -/

section WriteLinks

variable (links : Table Link) {scanId : Nat} {items : List LinkItem}

/-- A search for relations of other lines does not see the writes. -/
theorem find?_writeLinks_of_ne {p : Nat × Link → Bool}
    (hp : ∀ r, p r = true → ∀ item ∈ items, ¬ (r.2.scanId = scanId ∧ r.2.lineId = item.lineId)) :
    (writeLinks links scanId items).rows.find? p = links.rows.find? p := by
  induction items generalizing links with
  | nil => rfl
  | cons item items ih =>
    have h₁ := ih (writeLink links scanId item)
      fun r hr i hi => hp r hr i (List.mem_cons_of_mem _ hi)
    exact h₁.trans (find?_writeLink_of_ne fun r hr => hp r hr item List.mem_cons_self)

/-- The relations of other lines are still there. -/
theorem get?_writeLinks_of_ne {links : Table Link} {k : Nat} {q : Link} (hk : links.get? k = some q)
    (hne : ∀ item ∈ items, ¬ (q.scanId = scanId ∧ q.lineId = item.lineId)) :
    (writeLinks links scanId items).get? k = some q := by
  induction items generalizing links with
  | nil => exact hk
  | cons item items ih =>
    exact ih (get?_writeLink_of_ne hk (hne item List.mem_cons_self))
      fun i hi => hne i (List.mem_cons_of_mem _ hi)

/-- A row after the writes is one of another line, or a written one. -/
theorem get?_writeLinks {links : Table Link} {k : Nat} {q : Link}
    (h : (writeLinks links scanId items).get? k = some q) :
    (links.get? k = some q ∧ ∀ item ∈ items, ¬ (q.scanId = scanId ∧ q.lineId = item.lineId)) ∨
    ∃ item ∈ items, ∃ rev, q = item.link scanId rev := by
  induction items generalizing links with
  | nil => exact .inl ⟨h, fun item hi => absurd hi List.not_mem_nil⟩
  | cons item items ih =>
    rcases ih h with ⟨hold, hne⟩ | ⟨i, hi, rev, rfl⟩
    · rcases get?_writeLink hold with ⟨hk, hn⟩ | ⟨q₀, _, _, _, rfl⟩ | ⟨_, _, rfl⟩
      · refine .inl ⟨hk, fun i hi => ?_⟩
        rcases List.mem_cons.1 hi with rfl | hi
        · exact hn
        · exact hne i hi
      · exact .inr ⟨item, List.mem_cons_self, _, rfl⟩
      · exact .inr ⟨item, List.mem_cons_self, _, rfl⟩
    · exact .inr ⟨i, List.mem_cons_of_mem _ hi, rev, rfl⟩

/-- Every written relation is the one its line has afterwards. -/
theorem findLink_writeLinks (hn : (items.map LinkItem.lineId).Nodup) {item : LinkItem}
    (hi : item ∈ items) :
    ∃ k rev, findLink (writeLinks links scanId items) scanId item.lineId =
      some (k, item.link scanId rev) := by
  induction items generalizing links with
  | nil => cases hi
  | cons i items ih =>
    rw [List.map_cons, List.nodup_cons] at hn
    rcases List.mem_cons.1 hi with rfl | hi
    · obtain ⟨k, rev, h⟩ := findLink_writeLink links scanId item
      refine ⟨k, rev, ?_⟩
      rw [← h]
      refine find?_writeLinks_of_ne (writeLink links scanId item) fun r hr i hi hsame => hn.1 ?_
      rw [List.mem_map]
      exact ⟨i, hi, hsame.2.symm.trans (sameLine_iff.1 hr).2⟩
    · exact ih (writeLink links scanId i) hn.2 hi

end WriteLinks

/-- What a reader sees of a relation and its record. -/
def viewOf (q : Link) (c : Record) : LineView :=
  ⟨c.content, c.contentRevision, q.reviewState, q.relationOrigin, q.reviewedBy, q.blockId,
    q.relationRevision, q.source⟩

theorem readLine_eq {db : Db} {s l k : Nat} {q : Link} {c : Record}
    (hq : db.activeLink s l = some (k, q)) (hc : db.domain.records.get? q.recordId = some c) :
    readLine db s l = some (viewOf q c) := by
  simp only [readLine, hq, bind, Option.bind_some, hc]
  rfl

/-! ## Edits in place -/

/-- The in-place condition: the client named a record, and the lines actively linked to it are
exactly the lines of the operation. -/
def Edits (db : Db) (resolved : List AnalysisService.Resolved) (operationKey recordId : Nat) :
    Prop :=
  recordId ≠ 0 ∧ ∀ l, l ∈ getActiveLineIdsByRecordId db recordId ↔
    ∃ r ∈ resolved, r.operationKey = operationKey ∧ r.lineId = l

theorem mem_getActiveLineIdsByRecordId {db : Db} {recordId l : Nat} :
    l ∈ getActiveLineIdsByRecordId db recordId ↔
      ∃ k q, db.domain.links.get? k = some q ∧ q.isActive = true ∧ q.recordId = recordId ∧
        q.lineId = l := by
  simp only [getActiveLineIdsByRecordId, List.mem_map, Keyed.mem_select, Prod.exists,
    decide_eq_true_eq, ← Keyed.get?_eq_some_iff]
  constructor
  · rintro ⟨k, q, ⟨hk, ha, hr⟩, hl⟩
    exact ⟨k, q, hk, ha, hr, hl⟩
  · rintro ⟨k, q, hk, ha, hr, hl⟩
    exact ⟨k, q, ⟨hk, ha, hr⟩, hl⟩

namespace AnalysisService

variable {db : Db} {scanId : Nat} {records : List Item} {reviewer : String} {tr : SaveTrace}

theorem PlanOk.mem_lineIds {resolved : List Resolved} {plan : Plan}
    (h : PlanOk db resolved plan) {l : Nat} :
    l ∈ plan.lineIds ↔ ∃ r ∈ resolved, r.operationKey = plan.operationKey ∧ r.lineId = l := by
  unfold Plan.lineIds
  rw [h.items, List.mem_map]
  simp only [List.mem_filter, decide_eq_true_eq, and_assoc]

/-- The operation of an edit in place meets the condition. -/
theorem Saved.edits (h : Saved db scanId records reviewer tr) {u : RecordUpdate}
    (hu : u ∈ tr.updates) :
    ∃ a ∈ tr.assigned, a.1.inPlace = some u ∧
      Edits db tr.resolved a.1.operationKey u.recordId := by
  obtain ⟨a, ha, hau⟩ := List.mem_filterMap.1 hu
  have hplan := h.plan a ha
  obtain ⟨_, hne, _, hlines⟩ := hplan.inPlace u hau
  exact ⟨a, ha, hau, hne, fun l => (hlines l).trans hplan.mem_lineIds⟩

/-- An operation edits in place when it meets the condition. -/
theorem Saved.inPlace_of_edits (h : Saved db scanId records reviewer tr) {a : Plan × Nat}
    (ha : a ∈ tr.assigned)
    (he : Edits db tr.resolved a.1.operationKey a.1.first.item.requestedRecordId) :
    ∃ u, a.1.inPlace = some u := by
  have hplan := h.plan a ha
  cases hp : a.1.inPlace with
  | some u => exact ⟨u, rfl⟩
  | none =>
    exact absurd (fun l => (he.2 l).trans hplan.mem_lineIds.symm) (hplan.notInPlace hp he.1)

/-- **A record that is edited in place is linked from no line outside of the save.** -/
theorem Saved.not_edited (h : Saved db scanId records reviewer tr) (hi : LinksOk db)
    {k : Nat} {q : Link} (hk : db.domain.links.get? k = some q) (ha : q.isActive = true)
    (hout : ¬ (q.scanId = scanId ∧ q.lineId ∈ tr.resolved.map Resolved.lineId)) :
    ∀ u ∈ tr.updates, u.recordId ≠ q.recordId := by
  intro u hu hrec
  obtain ⟨a, _, _, _, hlines⟩ := h.edits hu
  obtain ⟨r, hr, _, hl⟩ := (hlines q.lineId).1
    (mem_getActiveLineIdsByRecordId.2 ⟨k, q, hk, ha, hrec.symm, rfl⟩)
  refine hout ⟨?_, List.mem_map.2 ⟨r, hr, hl⟩⟩
  -- a line belongs to one scan only
  obtain ⟨line, hline, _⟩ := (h.resolve.lineOk r hr).line
  obtain ⟨line', hline'⟩ := Option.isSome_iff_exists.1 (hi.line k q hk)
  rw [hl, lineOfScan_eq_some] at hline
  rw [lineOfScan_eq_some] at hline'
  obtain ⟨h₁, file, hf, hs⟩ := hline
  obtain ⟨h₁', file', hf', hs'⟩ := hline'
  obtain rfl : line = line' := Option.some.inj (h₁.symm.trans h₁')
  obtain rfl : file = file' := Option.some.inj (hf.symm.trans hf')
  exact hs'.symm.trans hs

/-- A record that no operation edits is as before. -/
theorem SaveTrace.get?_records_of_ne {rs : Table Record} {k : Nat} {r : Record}
    (hk : rs.get? k = some r) (hne : ∀ u ∈ tr.updates, u.recordId ≠ k) :
    (tr.records rs).get? k = some r := by
  unfold SaveTrace.records
  refine Table.get?_insertMany_of_some ?_
  rw [get?_editRecords_of_ne hne, hk]

/-- The written relations are those of lines of the batch. -/
theorem Saved.link_line (h : Saved db scanId records reviewer tr) {item : LinkItem}
    (hi : item ∈ tr.links) : item.lineId ∈ tr.resolved.map Resolved.lineId := by
  obtain ⟨a, ha, r, hr, hitem⟩ := h.link item hi
  rw [(h.plan a ha).items] at hr
  rw [hitem]
  exact List.mem_map.2 ⟨r, (List.mem_filter.1 hr).1, rfl⟩

end AnalysisService

/-! ## The frame of a save -/

section Frame

variable {db db' : Db} {scanId : Nat} {records : List AnalysisService.Item} {reviewer : String}
  {tr : AnalysisService.SaveTrace}

open AnalysisService

/-- The active relation of a line outside of the save. -/
theorem AnalysisService.Saved.activeLink_of_ne (h : Saved db scanId records reviewer tr)
    (hd : db'.domain = tr.domain db scanId) {s l : Nat}
    (hout : ¬ (s = scanId ∧ l ∈ tr.resolved.map Resolved.lineId)) :
    db'.activeLink s l = db.activeLink s l := by
  unfold Db.activeLink
  rw [hd]
  refine find?_writeLinks_of_ne _ fun r hr item hi hsame => hout ?_
  simp only [decide_eq_true_eq] at hr
  exact ⟨hr.1.symm.trans hsame.1, by rw [← hr.2.1, hsame.2]; exact h.link_line hi⟩

/-- What a reader sees of a line outside of the save. -/
theorem AnalysisService.Saved.readLine_of_ne (h : Saved db scanId records reviewer tr)
    (hi : LinksOk db) (hd : db'.domain = tr.domain db scanId) {s l : Nat}
    (hout : ¬ (s = scanId ∧ l ∈ tr.resolved.map Resolved.lineId)) :
    readLine db' s l = readLine db s l := by
  unfold readLine
  rw [h.activeLink_of_ne hd hout]
  cases ha : db.activeLink s l with
  | none => rfl
  | some r =>
    obtain ⟨k, q⟩ := r
    obtain ⟨hk, rfl, rfl, hact⟩ := activeLink_some ha
    obtain ⟨rec, hrec⟩ := Option.isSome_iff_exists.1 (hi.record k q hk)
    have : db'.domain.records.get? q.recordId = some rec := by
      rw [hd]
      exact tr.get?_records_of_ne hrec (h.not_edited hi hk hact hout)
    simp only [bind, Option.bind_some, this, hrec]

/-- The relation a resolved line has after the save. -/
theorem AnalysisService.Saved.activeLink_of_mem (h : Saved db scanId records reviewer tr)
    (hi : LinksOk db') (hd : db'.domain = tr.domain db scanId) {a : Plan × Nat}
    (ha : a ∈ tr.assigned) {r : Resolved} (hr : r ∈ a.1.items) :
    ∃ k b rev, db'.activeLink scanId r.lineId = some (k, (linkItem a.2 b r).link scanId rev) := by
  obtain ⟨b, hb⟩ := h.linked a ha r hr
  obtain ⟨k, rev, hf⟩ := findLink_writeLinks db.domain.links h.links_nodup hb
  have hk := (findLink_some hf).1
  have hk' : db'.domain.links.get? k = some ((linkItem a.2 b r).link scanId rev) := by
    rw [hd]
    exact hk
  exact ⟨k, b, rev, hi.activeLink_eq hk' rfl⟩

/-- A line of an operation carries the operation's key and request. -/
theorem AnalysisService.Saved.of_mem_items (h : Saved db scanId records reviewer tr)
    {a : Plan × Nat} (ha : a ∈ tr.assigned) {r : Resolved} (hr : r ∈ a.1.items) :
    r.operationKey = a.1.operationKey ∧ a.1.first.item = r.item := by
  have hplan := h.plan a ha
  have hf := hplan.first
  rw [hplan.items, List.mem_filter] at hr hf
  have hkey : r.operationKey = a.1.operationKey := by simpa using hr.2
  have hfk : a.1.first.operationKey = a.1.operationKey := by simpa using hf.2
  exact ⟨hkey, h.resolve.same_item hf.1 hr.1 (hfk.trans hkey.symm)⟩

/-- The relation and the record a resolved line has after the save. -/
theorem AnalysisService.Saved.written (h : Saved db scanId records reviewer tr)
    (hi : LinksOk db') (hd : db'.domain = tr.domain db scanId) {r : Resolved}
    (hr : r ∈ tr.resolved) :
    ∃ k recordId b rev c, db'.activeLink scanId r.lineId =
        some (k, (linkItem recordId b r).link scanId rev) ∧
      db'.domain.records.get? recordId = some c ∧
      ((Edits db tr.resolved r.operationKey r.item.requestedRecordId ∧
          c.content = r.item.editContent) ∨ c.content = r.item.newContent) := by
  obtain ⟨a, ha, hra⟩ := h.covered r hr
  obtain ⟨k, b, rev, hlink⟩ := h.activeLink_of_mem hi hd ha hra
  have hplan := h.plan a ha
  obtain ⟨hkey, hitem⟩ := h.of_mem_items ha hra
  rcases h.hasRecord a ha with ⟨u, hu, ha₂⟩ | ⟨_, _, hget⟩
  · obtain ⟨hreq, hne, hcont, hlines⟩ := hplan.inPlace u hu
    have hmem : u ∈ tr.updates := List.mem_filterMap.2 ⟨a, ha, hu⟩
    obtain ⟨c, hc⟩ := h.update u hmem
    refine ⟨k, a.2, b, rev, editRecord u c, hlink, ?_, .inl ⟨?_, ?_⟩⟩
    · rw [hd, ha₂]
      refine Table.get?_insertMany_of_some ?_
      rw [get?_editRecords_of_mem h.updates_nodup hmem, hc]
      rfl
    · rw [← hitem, hkey, ← hreq]
      exact ⟨hne, fun l => (hlines l).trans hplan.mem_lineIds⟩
    · rw [← hitem]
      exact hcont
  · refine ⟨k, a.2, b, rev, _, hlink, by rw [hd]; exact hget, .inr ?_⟩
    rw [← hitem]

/-- What a save does to the lines it selected and to all others. -/
structure SelectedOnly (db : Db) (scanId : Nat) (resolved : List Resolved) (db' : Db) : Prop where
  /-- A line that was not selected looks as before. -/
  unchanged : ∀ s l, ¬ (s = scanId ∧ l ∈ resolved.map Resolved.lineId) →
    readLine db' s l = readLine db s l
  /-- A record that existed is as before, or the lines actively linked to it were exactly those of
  one operation. -/
  inPlace : ∀ k r, db.domain.records.get? k = some r → db'.domain.records.get? k = some r ∨
    ∃ operationKey, Edits db resolved operationKey k
  /-- A selected line is linked to the record its operation edited in place, or else to a new record
  with the content of the operation. -/
  selected : ∀ r ∈ resolved, ∃ k q, db'.activeLink scanId r.lineId = some (k, q) ∧
    ((Edits db resolved r.operationKey r.item.requestedRecordId ∧
        q.recordId = r.item.requestedRecordId) ∨
      (¬ Edits db resolved r.operationKey r.item.requestedRecordId ∧
        db.domain.records.get? q.recordId = none ∧
        db'.domain.records.get? q.recordId = some ⟨r.item.newContent, 1, .manual, none⟩))

theorem AnalysisService.Saved.selectedOnly (h : Saved db scanId records reviewer tr)
    (hi : LinksOk db) (hi' : LinksOk db') (hd : db'.domain = tr.domain db scanId) :
    SelectedOnly db scanId tr.resolved db' where
  unchanged := fun s l hout => h.readLine_of_ne hi hd hout
  inPlace := by
    intro k r hk
    by_cases he : ∃ u ∈ tr.updates, u.recordId = k
    · obtain ⟨u, hu, rfl⟩ := he
      obtain ⟨a, _, _, hedits⟩ := h.edits hu
      exact .inr ⟨a.1.operationKey, hedits⟩
    · refine .inl ?_
      rw [hd]
      exact tr.get?_records_of_ne hk fun u hu heq => he ⟨u, hu, heq⟩
  selected := by
    intro r hr
    obtain ⟨a, ha, hra⟩ := h.covered r hr
    obtain ⟨k, b, rev, hlink⟩ := h.activeLink_of_mem hi' hd ha hra
    have hplan := h.plan a ha
    obtain ⟨hkey, hitem⟩ := h.of_mem_items ha hra
    refine ⟨k, _, hlink, ?_⟩
    rcases h.hasRecord a ha with ⟨u, hu, ha₂⟩ | ⟨hnone, hnext, hget⟩
    · refine .inl ?_
      obtain ⟨hreq, hne, _, hlines⟩ := hplan.inPlace u hu
      rw [← hitem, hkey, ← hreq]
      exact ⟨⟨hne, fun l => (hlines l).trans hplan.mem_lineIds⟩, ha₂⟩
    · refine .inr ⟨?_, ?_, ?_⟩
      · intro he
        rw [hkey, ← hitem] at he
        obtain ⟨u, hu⟩ := h.inPlace_of_edits ha he
        rw [hnone] at hu
        cases hu
      · exact Table.get?_eq_none_of_le hnext
      · rw [hd, ← hitem]
        exact hget

end Frame

/-- **A save changes only what was selected.** -/
theorem save_changes_only_selected {env : Env} {db db' : Db} {projectName reviewer : String}
    {scanId : Nat} {records : List AnalysisService.Item} {enforceCurrent : Bool}
    (hr : Reachable env db)
    (hok : AnalysisService.save env db projectName scanId records reviewer enforceCurrent =
      .ok db') :
    ∃ resolved, AnalysisService.resolveRecords env db scanId records reviewer = .ok resolved ∧
      SelectedOnly db scanId resolved db' := by
  by_cases hne : records = []
  · subst hne
    obtain ⟨p, rfl⟩ := AnalysisService.save_nil hok
    have hlink : ∀ s l, (ProjectStateRepository.ensure db p).activeLink s l = db.activeLink s l :=
      fun s l => by simp [Db.activeLink]
    refine ⟨[], rfl, ⟨fun s l _ => ?_, fun k r hk => .inl (by simpa using hk), fun r hr => ?_⟩⟩
    · simp [readLine, hlink]
    · cases hr
  · obtain ⟨p, tr, _, hres, hsaved, hdom, _⟩ := AnalysisService.saved_of_ok hne hok
    have hi := hr.integrity
    exact ⟨tr.resolved, hres, hsaved.selectedOnly hi.toLinksOk (hi.save hok).toLinksOk hdom⟩

theorem save_changes_only_selected_sample :
    ∃ db' resolved,
      AnalysisService.save Sample.env Sample.inheritedDb "fos" 2 [Sample.conclude 1 1 "无法覆盖"]
        "bob" true = .ok db' ∧
      SelectedOnly Sample.inheritedDb 2 resolved db' := by
  obtain ⟨db', hok⟩ := exists_of_isOk (show (AnalysisService.save Sample.env Sample.inheritedDb
    "fos" 2 [Sample.conclude 1 1 "无法覆盖"] "bob" true).isOk = true by decide +kernel)
  obtain ⟨resolved, _, h⟩ := save_changes_only_selected Sample.reachable_inheritedDb hok
  exact ⟨db', resolved, hok, h⟩

end FosCoverage
