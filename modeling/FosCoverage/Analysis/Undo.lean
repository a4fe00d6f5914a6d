import FosCoverage.Analysis.SaveFrame

/-!
# Undo of a rejection

A rejected relation is kept: it is inactive, and nothing but an operation on its own line writes it
(`Mutation.relation_unchanged`).  What an undo brings back is therefore the relation as it was, with
the record it names.  The record itself is not protected: a rejected line does not count as a user
of its record, so a save of the other lines that share the record edits it in place.

* `Mutation.Rewrites` is the case in which a save changes the content of a given record.
* `undo_restores` holds for every sequence of operations on other lines that does not rewrite the
  record of the rejected relation.
-/

set_option autoImplicit false

namespace FosCoverage

open Relational Outcome AnalysisDomainRepository

/-! ## What an operation leaves alone -/

/-- The operation is a save that edits the record in place, with another content than it has. -/
def Mutation.Rewrites (env : Env) (db : Db) (m : Mutation) (recordId : Nat) : Prop :=
  ∃ records reviewer resolved, m.request = some (records, reviewer) ∧
    AnalysisService.resolveRecords env db m.scanId records reviewer = .ok resolved ∧
    ∃ r ∈ resolved, r.item.requestedRecordId = recordId ∧
      Edits db resolved r.operationKey recordId ∧
      (db.domain.records.get? recordId).map Record.content ≠ some r.item.editContent

section Save

variable {env : Env} {db db' : Db} {projectName reviewer : String} {scanId : Nat}
  {records : List AnalysisService.Item} {enforceCurrent : Bool}

open AnalysisService

/-- The relation of a line no operation of the save names. -/
theorem save_relation_unchanged
    (hok : save env db projectName scanId records reviewer enforceCurrent = .ok db') {k : Nat}
    {q : Link} (hk : db.domain.links.get? k = some q)
    (hne : ∀ resolved, resolveRecords env db scanId records reviewer = .ok resolved →
      ¬ (q.scanId = scanId ∧ q.lineId ∈ resolved.map Resolved.lineId)) :
    db'.domain.links.get? k = some q := by
  by_cases hnil : records = []
  · subst hnil
    obtain ⟨p, rfl⟩ := save_nil hok
    simpa using hk
  · obtain ⟨p, tr, _, hres, hsaved, hdom, _⟩ := saved_of_ok hnil hok
    rw [hdom]
    refine get?_writeLinks_of_ne hk fun item hi hsame => hne _ hres ⟨hsame.1, ?_⟩
    rw [hsame.2]
    exact hsaved.link_line hi

/-- The content of a record the save does not rewrite. -/
theorem save_content_unchanged
    (hok : save env db projectName scanId records reviewer enforceCurrent = .ok db') {k : Nat}
    {c : Record} (hk : db.domain.records.get? k = some c)
    (hne : ∀ resolved, resolveRecords env db scanId records reviewer = .ok resolved →
      ∀ r ∈ resolved, r.item.requestedRecordId = k → Edits db resolved r.operationKey k →
        c.content = r.item.editContent) :
    ∃ c', db'.domain.records.get? k = some c' ∧ c'.content = c.content := by
  by_cases hnil : records = []
  · subst hnil
    obtain ⟨p, rfl⟩ := save_nil hok
    exact ⟨c, by simpa using hk, rfl⟩
  · obtain ⟨p, tr, _, hres, hsaved, hdom, _⟩ := saved_of_ok hnil hok
    rw [hdom]
    by_cases he : ∃ u ∈ tr.updates, u.recordId = k
    · obtain ⟨u, hu, rfl⟩ := he
      obtain ⟨a, ha, hau, hedits⟩ := hsaved.edits hu
      have hplan := hsaved.plan a ha
      obtain ⟨hreq, _, hcont, _⟩ := hplan.inPlace u hau
      have hf := hplan.first
      rw [hplan.items, List.mem_filter] at hf
      have hfk : a.1.first.operationKey = a.1.operationKey := by simpa using hf.2
      have hsame := hne _ hres a.1.first hf.1 hreq.symm (by rw [hfk]; exact hedits)
      refine ⟨editRecord u c, ?_, ?_⟩
      · refine Table.get?_insertMany_of_some ?_
        rw [get?_editRecords_of_mem hsaved.updates_nodup hu, hk]
        rfl
      · exact hcont.trans hsame.symm
    · exact ⟨c, tr.get?_records_of_ne hk fun u hu heq => he ⟨u, hu, heq⟩, rfl⟩

end Save

/-- **An operation leaves the relation of a line it does not name alone.** -/
theorem Mutation.relation_unchanged {env : Env} {db db' : Db} {m : Mutation} (hi : Integrity db)
    (hok : m.apply env db = .ok db') {k : Nat} {q : Link} (hk : db.domain.links.get? k = some q)
    (hne : ¬ (m.scanId = q.scanId ∧ m.Names env db q.lineId)) :
    db'.domain.links.get? k = some q := by
  -- a relation found for a named line is another one
  have other : ∀ {k' : Nat} {q' : Link}, db.domain.links.get? k' = some q' →
      q'.scanId = m.scanId → m.Names env db q'.lineId → k ≠ k' := by
    rintro k' q' hk' hs hn rfl
    obtain rfl : q = q' := Option.some.inj (hk.symm.trans hk')
    exact hne ⟨hs.symm, hn⟩
  cases m with
  | save =>
    exact save_relation_unchanged hok hk fun resolved hres hsame =>
      hne ⟨hsame.1.symm, resolved, hres, hsame.2⟩
  | editConfirm =>
    exact save_relation_unchanged hok hk fun resolved hres hsame =>
      hne ⟨hsame.1.symm, resolved, hres, hsame.2⟩
  | confirm projectId scanId selected expectedMap default reviewer =>
    refine (InheritanceReviewService.confirm_inv hok (fun d => d.links.get? k = some q) ?_ hk).1
    rintro d lineId d' _ hl hd ⟨id, q', hact, _, rfl⟩
    obtain ⟨hid, hs, hline, _⟩ := activeLink_some hact
    refine (get?_setLink_of_ne ?_).trans hd
    rintro rfl
    obtain rfl : q = q' := Option.some.inj (hd.symm.trans hid)
    exact hne ⟨hs.symm, by rw [hline]; exact hl⟩
  | reject projectId scanId lineId rejectedBy expected =>
    obtain ⟨id, q', hact, _, hdom, _⟩ := InheritanceReviewService.reject_ok hok
    obtain ⟨hid, hs, hline, _⟩ := activeLink_some hact
    rw [hdom]
    exact (get?_setLink_of_ne (other hid hs hline)).trans hk
  | undo projectId scanId lineId rejectionId er el =>
    obtain ⟨x, q', hx, hs, hl, _, hid, _, hdom, _⟩ := InheritanceReviewService.undo_ok hok
    obtain ⟨q'', hq'', hs', hl'⟩ := hi.rejection _ x hx
    obtain rfl : q' = q'' := Option.some.inj (hid.symm.trans hq'')
    rw [hdom]
    exact (get?_setLink_of_ne (other hid (hs'.trans hs) (hl'.trans hl))).trans hk

/-- **An operation that does not rewrite a record keeps its content.** -/
theorem Mutation.content_unchanged {env : Env} {db db' : Db} {m : Mutation}
    (hok : m.apply env db = .ok db') {k : Nat} {c : Record}
    (hk : db.domain.records.get? k = some c) (hne : ¬ m.Rewrites env db k) :
    ∃ c', db'.domain.records.get? k = some c' ∧ c'.content = c.content := by
  have same : db'.domain.records = db.domain.records →
      ∃ c', db'.domain.records.get? k = some c' ∧ c'.content = c.content := by
    intro h
    exact ⟨c, by rw [h, hk], rfl⟩
  cases m with
  | save projectName scanId records reviewer enforceCurrent =>
    refine save_content_unchanged hok hk fun resolved hres r hr hreq he => ?_
    by_contra hcont
    exact hne ⟨records, reviewer, resolved, rfl, hres, r, hr, hreq, he, by simpa [hk] using hcont⟩
  | editConfirm projectName scanId records reviewer =>
    refine save_content_unchanged hok hk fun resolved hres r hr hreq he => ?_
    by_contra hcont
    exact hne ⟨records, reviewer, resolved, rfl, hres, r, hr, hreq, he, by simpa [hk] using hcont⟩
  | confirm projectId scanId selected expectedMap default reviewer =>
    refine same (InheritanceReviewService.confirm_inv hok
      (fun d => d.records = db.domain.records) ?_ rfl).1
    rintro d lineId d' _ _ hd ⟨id, q, _, _, rfl⟩
    exact hd
  | reject projectId scanId lineId rejectedBy expected =>
    obtain ⟨id, q, _, _, hdom, _⟩ := InheritanceReviewService.reject_ok hok
    exact same (by rw [hdom])
  | undo projectId scanId lineId rejectionId er el =>
    obtain ⟨x, q, _, _, _, _, _, _, hdom, _⟩ := InheritanceReviewService.undo_ok hok
    exact same (by rw [hdom])

/-! ## Reject, other operations, undo -/

/-- The relation `k` of a rejected line while other operations go on. -/
structure Kept (k : Nat) (q : Link) (content : Content) (db : Db) : Prop where
  /-- The domain is sound. -/
  integrity : Integrity db
  /-- The relation is as the reject left it. -/
  link : db.domain.links.get? k = some q
  /-- The record it names has the content it had. -/
  record : ∃ c, db.domain.records.get? q.recordId = some c ∧ c.content = content

theorem Kept.exec {env : Env} {k : Nat} {q : Link} {content : Content} {db : Db}
    (h : Kept k q content db) {m : Mutation}
    (hother : ¬ (m.scanId = q.scanId ∧ m.Names env db q.lineId))
    (hrw : ¬ m.Rewrites env db q.recordId) : Kept k q content (m.exec env db) := by
  unfold Mutation.exec
  split
  · rename_i db' hok
    obtain ⟨c, hc, hcont⟩ := h.record
    obtain ⟨c', hc', hcont'⟩ := Mutation.content_unchanged hok hc hrw
    exact ⟨h.integrity.mutate hok, Mutation.relation_unchanged h.integrity hok h.link hother,
      c', hc', hcont'.trans hcont⟩
  · exact h

/-- The line is as before the reject, pending, and two revisions on. -/
def Restored (db : Db) (scanId lineId : Nat) (db' : Db) : Prop :=
  ∃ v v', readLine db scanId lineId = some v ∧ readLine db' scanId lineId = some v' ∧
    v'.reviewState = .inheritedPending ∧ v'.content = v.content ∧ v'.blockId = v.blockId ∧
    v'.source = v.source ∧ v'.relationRevision = v.relationRevision + 2

/-- What a step between reject and undo must meet: it is on another line, and it does not rewrite
the record of the line's relation. -/
def LeavesConclusion (env : Env) (db₀ : Db) (scanId lineId : Nat) (db : Db) (m : Mutation) : Prop :=
  ¬ (m.scanId = scanId ∧ m.Names env db lineId) ∧
    ∀ k q, db₀.activeLink scanId lineId = some (k, q) → ¬ m.Rewrites env db q.recordId

/-- **An undo restores the rejected conclusion**, whatever happens in between to other lines, unless
a save rewrites the record the rejected relation shares with them. -/
theorem undo_restores {env : Env} {db db₁ db₂ : Db} {projectId projectId' scanId lineId expected
    rejectionId er el : Nat} {rejectedBy : String} {ms : List Mutation} (hr : Reachable env db)
    (hreject : InheritanceReviewService.reject db projectId scanId lineId rejectedBy expected =
      .ok db₁)
    (hms : Trace.Along (fun d m => Mutation.exec env d m)
      (LeavesConclusion env db scanId lineId) db₁ ms)
    (hundo : InheritanceReviewService.undo (Trace.run (fun d m => Mutation.exec env d m) db₁ ms)
      projectId' scanId lineId rejectionId er el = .ok db₂) :
    Restored db scanId lineId db₂ := by
  have hi := hr.integrity
  obtain ⟨k, q, hact, _, hdom₁, _⟩ := InheritanceReviewService.reject_ok hreject
  obtain ⟨hk, rfl, rfl, _⟩ := activeLink_some hact
  obtain ⟨c, hc⟩ := Option.isSome_iff_exists.1 (hi.record k q hk)
  have h₁ : Kept k (InheritanceReviewService.rejected q) c.content db₁ := by
    refine ⟨hi.reject hreject, ?_, c, ?_, rfl⟩
    · rw [hdom₁]
      exact get?_setLink_self hk
    · rw [hdom₁]
      exact hc
  have h₂ := Trace.run_inv_along (I := Kept k (InheritanceReviewService.rejected q) c.content)
    (fun d m hd hm => hd.exec hm.1 (hm.2 k q hact)) h₁ hms
  generalize Trace.run (fun d m => Mutation.exec env d m) db₁ ms = d at hundo h₂
  -- the rejection that is undone names the one relation of the line
  obtain ⟨x, q', hx, hs, hl, _, hq', _, hdom₂, _⟩ := InheritanceReviewService.undo_ok hundo
  obtain ⟨q'', hq'', hs'', hl''⟩ := h₂.integrity.rejection _ x hx
  have hid : x.rejectedRelationId = k :=
    h₂.integrity.unique _ _ _ _ hq'' h₂.link (hs''.trans hs) (hl''.trans hl)
  obtain ⟨c', hc', hcont⟩ := h₂.record
  have hlink : db₂.domain.links.get? k = some (InheritanceReviewService.restored
      (InheritanceReviewService.rejected q)) := by
    rw [hdom₂, hid]
    exact get?_setLink_self h₂.link
  have hrec : db₂.domain.records.get? q.recordId = some c' := by
    rw [hdom₂]
    exact hc'
  exact ⟨viewOf q c, viewOf (InheritanceReviewService.restored
    (InheritanceReviewService.rejected q)) c', readLine_eq hact hc,
    readLine_eq ((h₂.integrity.undo hundo).activeLink_eq hlink rfl) hrec,
    rfl, hcont, rfl, rfl, rfl⟩

theorem undo_restores_sample :
    ∃ db₁ db₂, InheritanceReviewService.reject Sample.inheritedDb 1 2 3 "ann" 1 = .ok db₁ ∧
      InheritanceReviewService.undo (Mutation.exec Sample.env db₁
        (.confirm 1 2 [4] [] (some 1) "bob")) 1 2 3 1 1 2 = .ok db₂ ∧
      Restored Sample.inheritedDb 2 3 db₂ := by
  have hreject := Mutation.apply_eq_ok (show ((Mutation.reject 1 2 3 "ann" 1).apply Sample.env
    Sample.inheritedDb).isOk = true by decide +kernel)
  generalize hdb₁ : (Mutation.reject 1 2 3 "ann" 1).exec Sample.env Sample.inheritedDb = db₁
    at hreject
  have hundo := Mutation.apply_eq_ok (show ((Mutation.undo 1 2 3 1 1 2).apply Sample.env
    (Mutation.exec Sample.env db₁ (.confirm 1 2 [4] [] (some 1) "bob"))).isOk = true by
      rw [← hdb₁]; decide +kernel)
  generalize Mutation.exec Sample.env _ (Mutation.undo 1 2 3 1 1 2) = db₂ at hundo
  have hother : Trace.Along (fun d m => Mutation.exec Sample.env d m)
      (LeavesConclusion Sample.env Sample.inheritedDb 2 3) db₁
      [.confirm 1 2 [4] [] (some 1) "bob"] := by
    refine ⟨⟨fun h => absurd h.2 (by simp [Mutation.Names]), ?_⟩, trivial⟩
    rintro k q _ ⟨records, reviewer, resolved, hreq, _⟩
    cases hreq
  exact ⟨db₁, db₂, hreject, hundo,
    undo_restores Sample.reachable_inheritedDb hreject hother hundo⟩

/-- The second line of the sample, analysed again under the record it shares with the first. -/
def Sample.editShared : Mutation :=
  .save "fos" 2 [{ Sample.conclude 2 2 "无法覆盖" with
    recordId := 2, expectedRecordRevision := some 1 }] "bob" true

/-- The conclusion of a rejected line is rewritten by an operation on its sibling. -/
theorem undo_of_shared_record_differs :
    Reachable Sample.env Sample.inheritedDb ∧ ∃ db₁ db₂ db₃,
      InheritanceReviewService.reject Sample.inheritedDb 1 2 3 "ann" 1 = .ok db₁ ∧
      Sample.editShared.apply Sample.env db₁ = .ok db₂ ∧
      ¬ (Sample.editShared.scanId = 2 ∧ Sample.editShared.Names Sample.env db₁ 3) ∧
      InheritanceReviewService.undo db₂ 1 2 3 1 1 2 = .ok db₃ ∧
      ¬ Restored Sample.inheritedDb 2 3 db₃ := by
  have hreject := Mutation.apply_eq_ok (show ((Mutation.reject 1 2 3 "ann" 1).apply Sample.env
    Sample.inheritedDb).isOk = true by decide +kernel)
  generalize hdb₁ : (Mutation.reject 1 2 3 "ann" 1).exec Sample.env Sample.inheritedDb = db₁
    at hreject
  have hsave := Mutation.apply_eq_ok (show (Sample.editShared.apply Sample.env db₁).isOk = true by
    rw [← hdb₁]; decide +kernel)
  have hundo := Mutation.apply_eq_ok (show ((Mutation.undo 1 2 3 1 1 2).apply Sample.env
    (Sample.editShared.exec Sample.env db₁)).isOk = true by rw [← hdb₁]; decide +kernel)
  refine ⟨Sample.reachable_inheritedDb, db₁, _, _, hreject, hsave, ?_, hundo, ?_⟩
  · rintro ⟨_, resolved, hres, hmem⟩
    have hlines : (AnalysisService.resolveRecords Sample.env db₁ 2
        [{ Sample.conclude 2 2 "无法覆盖" with recordId := 2, expectedRecordRevision := some 1 }]
        "bob").toOption.map (List.map AnalysisService.Resolved.lineId) = some [4] := by
      rw [← hdb₁]; decide +kernel
    rw [hres] at hlines
    simp only [Except.toOption, Option.map_some, Option.some.injEq] at hlines
    rw [hlines] at hmem
    simp at hmem
  · rintro ⟨v, v', hv, hv', _, hcont, _⟩
    have hbefore : (readLine Sample.inheritedDb 2 3).map (fun v => v.content.conclusionStatus) =
        some "可覆盖" := by decide +kernel
    have hafter : (readLine ((Mutation.undo 1 2 3 1 1 2).exec Sample.env
        (Sample.editShared.exec Sample.env db₁)) 2 3).map (fun v => v.content.conclusionStatus) =
        some "无法覆盖" := by rw [← hdb₁]; decide +kernel
    rw [hv] at hbefore
    rw [hv'] at hafter
    simp only [Option.map_some, Option.some.injEq] at hbefore hafter
    rw [hcont, hbefore] at hafter
    simp at hafter

end FosCoverage
