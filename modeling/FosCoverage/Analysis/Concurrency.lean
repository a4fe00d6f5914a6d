import FosCoverage.Analysis.Progress

/-!
# No lost update

Every analysis operation compares the revision of a line's relation with the one the client has read
and raises it when it succeeds.  Four functions do so in their own way; here they are put together.

* `Db.lineRevision` is the revision of a line, zero when it has no relation yet.
* No action lowers it (`LinksGrow`, `Action.linksGrow`).
* An accepted operation that expects a revision of a line finds exactly that one and leaves the next
  (`Mutation.raises`).

Hence of all requests for one line with one expected revision at most one is ever accepted
(`no_lost_update`).
-/

set_option autoImplicit false

namespace FosCoverage

open Relational Outcome AnalysisDomainRepository

/-! ## Revisions of lines -/

/-- The revision of the relation of a line in a table of relations, zero without a relation. -/
def revisionIn (links : Table Link) (scanId lineId : Nat) : Nat :=
  ((findLink links scanId lineId).map fun q => q.2.relationRevision).getD 0

/-- The revision of a line. -/
def Db.lineRevision (db : Db) (scanId lineId : Nat) : Nat :=
  revisionIn db.domain.links scanId lineId

/-- The relation of a line is the one that is found. -/
theorem LinksOk.findLink_eq {db : Db} (h : LinksOk db) {k : Nat} {q : Link}
    (hk : db.domain.links.get? k = some q) :
    findLink db.domain.links q.scanId q.lineId = some (k, q) := by
  cases hf : findLink db.domain.links q.scanId q.lineId with
  | none => exact absurd ⟨rfl, rfl⟩ (findLink_none hf hk)
  | some r =>
    obtain ⟨k', q'⟩ := r
    obtain ⟨hk', hs, hl⟩ := findLink_some hf
    obtain rfl := h.unique k' k q' q hk' hk hs hl
    rw [Option.some.inj (hk'.symm.trans hk)]

theorem LinksOk.lineRevision_eq {db : Db} (h : LinksOk db) {k : Nat} {q : Link}
    (hk : db.domain.links.get? k = some q) :
    db.lineRevision q.scanId q.lineId = q.relationRevision := by
  unfold Db.lineRevision revisionIn
  rw [h.findLink_eq hk]
  rfl

/-- No relation is lost, none changes its line, and no revision falls. -/
def LinksGrow (links links' : Table Link) : Prop :=
  ∀ k q, links.get? k = some q → ∃ q', links'.get? k = some q' ∧ q'.scanId = q.scanId ∧
    q'.lineId = q.lineId ∧ q.relationRevision ≤ q'.relationRevision

namespace LinksGrow

theorem refl (links : Table Link) : LinksGrow links links :=
  fun _ q hk => ⟨q, hk, rfl, rfl, Nat.le_refl _⟩

theorem trans {links links' links'' : Table Link} (h : LinksGrow links links')
    (h' : LinksGrow links' links'') : LinksGrow links links'' := by
  intro k q hk
  obtain ⟨q₁, hq₁, hs₁, hl₁, hr₁⟩ := h k q hk
  obtain ⟨q₂, hq₂, hs₂, hl₂, hr₂⟩ := h' k q₁ hq₁
  exact ⟨q₂, hq₂, hs₂.trans hs₁, hl₂.trans hl₁, hr₁.trans hr₂⟩

/-- A table that evolves and keeps its lines grows. -/
theorem of_evolves {links links' : Table Link}
    (h : Evolves Link.relationRevision links.toKeyed links'.toKeyed)
    (hs : SameLines links links') : LinksGrow links links' := by
  intro k q hk
  obtain ⟨q₁, hq₁, hrev, _⟩ := h k q hk
  obtain ⟨q₂, hq₂, hscan, hline⟩ := hs k q hk
  obtain rfl := Option.some.inj (hq₁.symm.trans hq₂)
  exact ⟨q₁, hq₁, hscan, hline, hrev⟩

theorem writeLink (links : Table Link) (scanId : Nat) (item : LinkItem) :
    LinksGrow links (writeLink links scanId item) :=
  of_evolves evolves_writeLink (SameLines.writeLinks scanId [item])

theorem writeLinks (links : Table Link) (scanId : Nat) (items : List LinkItem) :
    LinksGrow links (writeLinks links scanId items) := by
  induction items generalizing links with
  | nil => exact refl links
  | cons item items ih => exact (writeLink links scanId item).trans (ih _)

theorem setLink (links : Table Link) (id : Nat) {f : Link → Link} (hf : LinksOk.Keeps f)
    (hr : ∀ q, (f q).relationRevision = q.relationRevision + 1) :
    LinksGrow links (setLink links id f) :=
  of_evolves (evolves_setLink fun q _ => by rw [hr]; exact Nat.lt_succ_self _)
    (SameLines.setLink id hf)

end LinksGrow

/-- **The revision of a line never falls while its relations grow.** -/
theorem lineRevision_mono {db db' : Db} (h : LinksGrow db.domain.links db'.domain.links)
    (hl' : LinksOk db') (s l : Nat) : db.lineRevision s l ≤ db'.lineRevision s l := by
  unfold Db.lineRevision revisionIn
  cases hf : findLink db.domain.links s l with
  | none => exact Nat.zero_le _
  | some r =>
    obtain ⟨k, q⟩ := r
    obtain ⟨hk, rfl, rfl⟩ := findLink_some hf
    obtain ⟨q', hq', hs, hli, hrev⟩ := h k q hk
    have hfind := hl'.findLink_eq hq'
    rw [hs, hli] at hfind
    rw [hfind]
    exact hrev

/-! ## No action lowers a revision -/

section Grow

variable {env : Env} {db db' : Db}

theorem AnalysisService.save_linksGrow {projectName reviewer : String} {scanId : Nat}
    {records : List AnalysisService.Item} {enforceCurrent : Bool}
    (hok : AnalysisService.save env db projectName scanId records reviewer enforceCurrent =
      .ok db') : LinksGrow db.domain.links db'.domain.links := by
  by_cases hne : records = []
  · subst hne
    obtain ⟨p, rfl⟩ := AnalysisService.save_nil hok
    rw [ProjectStateRepository.domain_ensure]
    exact LinksGrow.refl _
  · obtain ⟨p, tr, _, _, _, hdom, _⟩ := AnalysisService.saved_of_ok hne hok
    rw [hdom]
    exact LinksGrow.writeLinks _ scanId tr.links

theorem Mutation.linksGrow {m : Mutation} (hok : m.apply env db = .ok db') :
    LinksGrow db.domain.links db'.domain.links := by
  cases m with
  | save => exact AnalysisService.save_linksGrow hok
  | editConfirm => exact AnalysisService.save_linksGrow hok
  | confirm projectId scanId selected expectedMap default reviewer =>
    refine (InheritanceReviewService.confirm_inv hok
      (fun d => LinksGrow db.domain.links d.links) ?_ (LinksGrow.refl _)).1
    rintro d lineId d' _ _ hd ⟨id, q, _, _, rfl⟩
    exact hd.trans (LinksGrow.setLink _ id (InheritanceReviewService.keeps_confirmed reviewer)
      fun _ => rfl)
  | reject =>
    obtain ⟨id, q, _, _, hdom, _⟩ := InheritanceReviewService.reject_ok hok
    rw [hdom]
    exact LinksGrow.setLink _ id InheritanceReviewService.keeps_rejected fun _ => rfl
  | undo =>
    obtain ⟨x, q, _, _, _, _, _, _, hdom, _⟩ := InheritanceReviewService.undo_ok hok
    rw [hdom]
    exact LinksGrow.setLink _ _ InheritanceReviewService.keeps_restored fun _ => rfl

theorem AnalysisDomainRepository.backfill_linksGrow {scanId : Nat}
    (hok : backfillLegacy db scanId = .ok db') : LinksGrow db.domain.links db'.domain.links := by
  refine foldlM_inv (fun d : Db => LinksGrow db.domain.links d.domain.links) ?_
    (LinksGrow.refl _) hok
  intro d row d' _ hd hstep
  dsimp only at hstep
  split at hstep
  · generalize hlr : legacyRecord d row.1 row.2 = pair at hstep
    obtain ⟨d₁, recordId⟩ := pair
    have hd₁ : d₁.domain.links = d.domain.links := by
      unfold legacyRecord at hlr
      split at hlr <;> obtain ⟨rfl, _⟩ := Prod.mk.inj hlr <;> rfl
    obtain ⟨rfl, _, _⟩ := AnalysisService.createLinksMany_ok hstep
    rw [← hd₁] at hd
    exact hd.trans (LinksGrow.writeLinks _ scanId _)
  · obtain rfl := pure_eq_ok.1 hstep
    exact hd

theorem InheritanceEngine.run_linksGrow {scanId : Nat} {paths : List (String × String)}
    {readSet : Option ReadSet}
    (hok : InheritanceEngine.run env db scanId paths = .ok (db', readSet)) :
    LinksGrow db.domain.links db'.domain.links := by
  refine (InheritanceEngine.run_inv (P := fun d => LinksGrow db.domain.links d.domain.links) hok
    (fun d rows _ hd => hd) (fun ctx hctx _ => ?_) (LinksGrow.refl _)).2
  intro _ d r lineId line i _ _ _ _ hd _
  exact hd.trans (LinksGrow.writeLink _ ctx.candidateScanId i.item)

/-- **No action lowers the revision of a relation.** -/
theorem Action.linksGrow {a : Action} (hc : CurrentOk db) (hok : a.apply env db = .ok db') :
    LinksGrow db.domain.links db'.domain.links := by
  cases Action.domainEffect hc hok with
  | none _ hd => rw [hd]; exact LinksGrow.refl _
  | mutate hm hd => rw [hd]; exact Mutation.linksGrow hm
  | backfill hb hd => rw [hd]; exact backfill_linksGrow hb
  | engine _ hr hd => rw [hd]; exact InheritanceEngine.run_linksGrow hr

end Grow

/-! ## An accepted operation raises the revision it expects -/

/-- The revision of a line an operation says it has read. -/
def Mutation.expects (env : Env) (db : Db) (m : Mutation) (l : Nat) : Option Nat :=
  match m with
  | .save _ scanId records reviewer _ | .editConfirm _ scanId records reviewer =>
    match AnalysisService.resolveRecords env db scanId records reviewer with
    | .ok resolved => (resolved.find? fun r => r.lineId = l).bind fun r =>
        r.item.expectedRelationRevision
    | .error _ => none
  | .confirm _ _ selected expectedMap default _ =>
    if l ∈ selected ∧ l ≠ 0 then
      some (InheritanceReviewService.expectedRevision expectedMap default l) else none
  | .reject _ _ lineId _ expected => if lineId = l then some expected else none
  | .undo _ _ lineId _ _ expected => if lineId = l then some expected else none

/-- A write leaves the next revision. -/
theorem revisionIn_writeLink (links : Table Link) (scanId : Nat) (item : LinkItem) :
    revisionIn (writeLink links scanId item) scanId item.lineId =
      revisionIn links scanId item.lineId + 1 := by
  unfold revisionIn
  cases hf : findLink links scanId item.lineId with
  | none =>
    rw [writeLink_of_none hf]
    have hfind : findLink (links.insert (item.link scanId 1)) scanId item.lineId =
        some (links.next, item.link scanId 1) := by
      unfold findLink at hf ⊢
      rw [Table.rows_insert, List.find?_append, hf]
      simp
    rw [hfind]
    rfl
  | some r =>
    rw [writeLink_of_some hf]
    have hfind : findLink (links.updateWhere (fun _ q => sameLine scanId item.lineId q) fun q =>
        item.link scanId (q.relationRevision + 1)) scanId item.lineId =
        some (r.1, item.link scanId (r.2.relationRevision + 1)) := by
      have hr : sameLine scanId item.lineId r.2 = true := by simpa using List.find?_some hf
      unfold findLink at hf ⊢
      simp only [Table.updateWhere, Keyed.updateWhere, List.find?_map]
      have hp : ((fun q : Nat × Link => sameLine scanId item.lineId q.2) ∘
          fun x : Nat × Link => (x.1, if sameLine scanId item.lineId x.2 = true then
            item.link scanId (x.2.relationRevision + 1) else x.2)) =
          fun q => sameLine scanId item.lineId q.2 := by
        funext x
        by_cases hx : sameLine scanId item.lineId x.2 = true
        · simp [hx]
        · simp [hx]
      rw [hp, hf]
      simp [hr]
    rw [hfind]
    rfl

/-- Writes of other lines do not change a revision. -/
theorem revisionIn_writeLinks_of_ne (links : Table Link) (scanId : Nat) (items : List LinkItem)
    {l : Nat} (hne : ∀ item ∈ items, item.lineId ≠ l) :
    revisionIn (writeLinks links scanId items) scanId l = revisionIn links scanId l := by
  unfold revisionIn findLink
  rw [find?_writeLinks_of_ne links]
  intro r hr item hi hsame
  exact hne item hi (hsame.2.symm.trans (sameLine_iff.1 hr).2)

/-- A batch leaves the next revision for each of its lines. -/
theorem revisionIn_writeLinks (links : Table Link) (scanId : Nat) {items : List LinkItem}
    (hn : (items.map LinkItem.lineId).Nodup) {item : LinkItem} (hi : item ∈ items) :
    revisionIn (writeLinks links scanId items) scanId item.lineId =
      revisionIn links scanId item.lineId + 1 := by
  induction items generalizing links with
  | nil => cases hi
  | cons i items ih =>
    rw [List.map_cons, List.nodup_cons] at hn
    rcases List.mem_cons.1 hi with rfl | hrest
    · have hrest := revisionIn_writeLinks_of_ne (writeLink links scanId item) scanId items
        fun j hj he => hn.1 (List.mem_map.2 ⟨j, hj, he⟩)
      exact hrest.trans (revisionIn_writeLink links scanId item)
    · have hne : ∀ j ∈ [i], j.lineId ≠ item.lineId := by
        intro j hj he
        obtain rfl := List.mem_singleton.1 hj
        exact hn.1 (List.mem_map.2 ⟨item, hrest, he.symm⟩)
      have hfirst : revisionIn (writeLink links scanId i) scanId item.lineId =
          revisionIn links scanId item.lineId :=
        revisionIn_writeLinks_of_ne links scanId [i] hne
      exact (ih (writeLink links scanId i) hn.2 hrest).trans (by rw [hfirst])

section Expect

variable {env : Env} {db db' : Db}

/-- The revisions an accepted save has compared. -/
theorem AnalysisService.save_expected {projectName reviewer : String} {scanId : Nat}
    {records : List AnalysisService.Item} {enforceCurrent : Bool}
    {resolved : List AnalysisService.Resolved} (hne : records ≠ [])
    (h : save env db projectName scanId records reviewer enforceCurrent = .ok db')
    (hres : resolveRecords env db scanId records reviewer = .ok resolved) {r : Resolved}
    (hr : r ∈ resolved) {e : Nat} (he : r.item.expectedRelationRevision = some e) :
    db.lineRevision scanId r.lineId = e := by
  simp only [save, bind_eq_ok, orFail_eq_ok, require_eq_ok, if_neg hne] at h
  obtain ⟨projectId, _, _, _, _, _, _, _, resolved', hres', _, hval, _⟩ := h
  obtain ⟨states, hstates⟩ := ProjectStateRepository.ensure_eq db projectId
  simp only [ProjectStateRepository.lockForUpdate, hstates] at hres' hval
  obtain rfl : resolved = resolved' := Except.ok.inj (hres.symm.trans hres')
  have hrow := forM_eq_ok.1 hval r hr
  simp only [assertRevisions, bind_eq_ok, require_eq_ok] at hrow
  obtain ⟨_, hrevision, _⟩ := hrow
  exact hrevision e he

theorem AnalysisService.save_raises {projectName reviewer : String} {scanId : Nat}
    {records : List AnalysisService.Item} {enforceCurrent : Bool} {l e : Nat}
    (hok : save env db projectName scanId records reviewer enforceCurrent = .ok db')
    (he : (Mutation.save projectName scanId records reviewer enforceCurrent).expects env db l =
      some e) : db.lineRevision scanId l = e ∧ db'.lineRevision scanId l = e + 1 := by
  by_cases hne : records = []
  · subst hne
    cases he
  · obtain ⟨p, tr, _, hres, hsaved, hdom, _⟩ := saved_of_ok hne hok
    simp only [Mutation.expects, hres, Option.bind_eq_some_iff] at he
    obtain ⟨r, hfind, hexp⟩ := he
    have hr := List.mem_of_find?_eq_some hfind
    obtain rfl : r.lineId = l := by simpa using List.find?_some hfind
    have hbefore := save_expected hne hok hres hr hexp
    refine ⟨hbefore, ?_⟩
    obtain ⟨a, ha, hra⟩ := hsaved.covered r hr
    obtain ⟨b, hb⟩ := hsaved.linked a ha r hra
    have := revisionIn_writeLinks db.domain.links scanId hsaved.links_nodup hb
    rw [← hbefore]
    unfold Db.lineRevision
    rw [hdom]
    exact this

/-- **An accepted operation finds the revision it expects and leaves the next one.** -/
theorem Mutation.raises {m : Mutation} {l e : Nat} (hi : Integrity db)
    (hok : m.apply env db = .ok db') (he : m.expects env db l = some e) :
    db.lineRevision m.scanId l = e ∧ db'.lineRevision m.scanId l = e + 1 := by
  have hi' := hi.mutate hok
  cases m with
  | save => exact AnalysisService.save_raises hok he
  | editConfirm projectName scanId records reviewer =>
    exact @AnalysisService.save_raises env db db' projectName reviewer scanId records true l e hok he
  | confirm projectId scanId selected expectedMap default reviewer =>
    simp only [Mutation.expects] at he
    split at he
    · rename_i hl
      obtain rfl := Option.some.inj he
      obtain ⟨id, q, hact, _, hexp, hq'⟩ :=
        (InheritanceReviewService.confirm_links hi.toLinksOk hok).1 l hl.1 hl.2
      obtain ⟨hq, rfl, rfl, _⟩ := activeLink_some hact
      refine ⟨(hi.lineRevision_eq hq).trans hexp, ?_⟩
      refine (hi'.toLinksOk.lineRevision_eq hq').trans ?_
      rw [← hexp]
      rfl
    · cases he
  | reject projectId scanId lineId rejectedBy expected =>
    simp only [Mutation.expects] at he
    split at he
    · rename_i hl
      subst hl
      obtain rfl := Option.some.inj he
      obtain ⟨id, q, hact, _, hdom, _, _, hexp⟩ := InheritanceReviewService.reject_ok hok
      obtain ⟨hq, rfl, rfl, _⟩ := activeLink_some hact
      have hq' : db'.domain.links.get? id = some (InheritanceReviewService.rejected q) := by
        rw [hdom]
        exact get?_setLink_self hq
      refine ⟨(hi.lineRevision_eq hq).trans hexp, ?_⟩
      refine (hi'.toLinksOk.lineRevision_eq hq').trans ?_
      rw [← hexp]
      rfl
    · cases he
  | undo projectId scanId lineId rejectionId er el =>
    simp only [Mutation.expects] at he
    split at he
    · rename_i hl
      subst hl
      obtain rfl := Option.some.inj he
      obtain ⟨x, q, hx, rfl, rfl, _, hq, _, hdom, _, _, hexp⟩ :=
        InheritanceReviewService.undo_ok hok
      obtain ⟨q₀, hq₀, hs, hl⟩ := hi.rejection _ x hx
      obtain rfl := Option.some.inj (hq.symm.trans hq₀)
      have hq' : db'.domain.links.get? x.rejectedRelationId =
          some (InheritanceReviewService.restored q) := by
        rw [hdom]
        exact get?_setLink_self hq
      have hbefore := hi.lineRevision_eq hq
      have hafter := hi'.toLinksOk.lineRevision_eq hq'
      rw [hs, hl] at hbefore
      rw [show (InheritanceReviewService.restored q).scanId = x.scanId from hs,
        show (InheritanceReviewService.restored q).lineId = x.lineId from hl] at hafter
      refine ⟨hbefore.trans hexp, hafter.trans ?_⟩
      rw [← hexp]
      rfl
    · cases he

end Expect

/-! ## Every interleaving -/

/-- A request for a line that carries the revision `e` is accepted in `db`. -/
def Mutation.Wins (env : Env) (db : Db) (m : Mutation) (s l e : Nat) : Prop :=
  m.scanId = s ∧ m.expects env db l = some e ∧ (m.apply env db).isOk = true

/-- Requests are never lost, and those that fail leave nothing behind. -/
structure NoLostUpdate (env : Env) (actions : List Action) : Prop where
  /-- Of the requests for one line with one expected revision at most one succeeds. -/
  once : ∀ pre m mid m' post s l e, actions = pre ++ .mutate m :: (mid ++ .mutate m' :: post) →
    m.Wins env (Trace.run (Action.exec env) Db.empty pre) s l e →
    ¬ m'.Wins env (Trace.run (Action.exec env) Db.empty (pre ++ .mutate m :: mid)) s l e
  /-- A success raises the revision of the line, from the expected one. -/
  raises : ∀ pre m post s l e, actions = pre ++ .mutate m :: post →
    m.Wins env (Trace.run (Action.exec env) Db.empty pre) s l e →
    (Trace.run (Action.exec env) Db.empty pre).lineRevision s l = e ∧
    e < (Trace.run (Action.exec env) Db.empty (pre ++ [.mutate m])).lineRevision s l
  /-- A failed request leaves the whole database as it was. -/
  fails : ∀ pre m post, actions = pre ++ .mutate m :: post →
    (m.apply env (Trace.run (Action.exec env) Db.empty pre)).isOk = false →
    Trace.run (Action.exec env) Db.empty (pre ++ [.mutate m]) =
      Trace.run (Action.exec env) Db.empty pre

/-- The revision of a line never falls along a run. -/
theorem lineRevision_run (env : Env) {db : Db} (hi : Integrity db) (hh : HistoryOk db)
    (actions : List Action) (s l : Nat) :
    db.lineRevision s l ≤ (Trace.run (Action.exec env) db actions).lineRevision s l := by
  have step : ∀ d a, Integrity d ∧ HistoryOk d ∧ db.lineRevision s l ≤ d.lineRevision s l →
      Integrity (Action.exec env d a) ∧ HistoryOk (Action.exec env d a) ∧
        db.lineRevision s l ≤ (Action.exec env d a).lineRevision s l := by
    rintro d a ⟨hid, hhd, hle⟩
    refine Action.exec_inv (P := fun d => Integrity d ∧ HistoryOk d ∧
      db.lineRevision s l ≤ d.lineRevision s l) ⟨hid, hhd, hle⟩ (fun a d' ha => ?_) a
    have hid' := hid.step hhd.current ha
    exact ⟨hid', hhd.step ha, hle.trans
      (lineRevision_mono (Action.linksGrow hhd.current ha) hid'.toLinksOk s l)⟩
  exact (Trace.run_inv step ⟨hi, hh, Nat.le_refl _⟩ actions).2.2

/-- **No update is lost**, in any interleaving of requests with anything else the system does. -/
theorem no_lost_update (env : Env) (actions : List Action) : NoLostUpdate env actions := by
  have reach : ∀ pre, Reachable env (Trace.run (Action.exec env) Db.empty pre) :=
    fun pre => ⟨pre, rfl⟩
  have wins : ∀ pre m s l e, Mutation.Wins env (Trace.run (Action.exec env) Db.empty pre) m s l e →
      (Trace.run (Action.exec env) Db.empty pre).lineRevision s l = e ∧
      (Trace.run (Action.exec env) Db.empty (pre ++ [.mutate m])).lineRevision s l = e + 1 := by
    rintro pre m s l e ⟨rfl, hexp, hok⟩
    have hok' := Mutation.apply_eq_ok hok
    have hraise := Mutation.raises (reach pre).integrity hok' hexp
    rw [Trace.run_append]
    have hexec : Action.exec env (Trace.run (Action.exec env) Db.empty pre) (.mutate m) =
        m.exec env (Trace.run (Action.exec env) Db.empty pre) := Action.exec_of_ok hok'
    rw [Trace.run_cons, Trace.run_nil, hexec]
    exact hraise
  constructor
  case once =>
    rintro pre m mid m' post s l e _ hwin hwin'
    have hafter := (wins pre m s l e hwin).2
    have hsecond := (wins (pre ++ .mutate m :: mid) m' s l e hwin').1
    have hmono := lineRevision_run env (reach (pre ++ [.mutate m])).integrity
      (reach (pre ++ [.mutate m])).historyOk mid s l
    rw [← Trace.run_append, List.append_assoc, List.singleton_append, hsecond, hafter] at hmono
    omega
  case raises =>
    rintro pre m post s l e _ hwin
    obtain ⟨hbefore, hafter⟩ := wins pre m s l e hwin
    exact ⟨hbefore, by omega⟩
  case fails =>
    rintro pre m post _ hfail
    rw [Trace.run_append, Trace.run_cons, Trace.run_nil]
    cases hok : m.apply env (Trace.run (Action.exec env) Db.empty pre) with
    | error err => exact Action.exec_of_error hok
    | ok db' =>
      rw [hok] at hfail
      cases hfail

end FosCoverage
