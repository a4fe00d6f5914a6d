import Mathlib.Data.List.Induction
import FosCoverage.Analysis.Progress
import FosCoverage.Inheritance.Relations

/-!
# Where an inherited relation comes from

An inherited relation names its source: a scan, a line and a relation.  This file says what that
name is worth after any history.

* `InheritedFrom` is the moment of inheritance: an engine run on the scan of the relation, and an
  active relation of the predecessor on the line mapped to it, in the file with the same names.
* `Action.relation_of_inheritance` is the step: after an action an inherited relation is one that
  was there, with the same source, or the action is an engine run that has just written it.
* `CarriesOver` is what a relation that nobody has touched since still shares with its source: the
  content and the review state the coverage of its line calls for.
* `Traced` follows the sources back through any number of scans.

`inheritance_provenance` puts these together for every history whose engine runs find the files of
the predecessor under their own names.  A query compares names without case, so where the Candidate
has `A.cpp` before `a.cpp` the relations of `a.cpp` go to the lines of `A.cpp`
(`not_inheritance_provenance`).
-/

set_option autoImplicit false

namespace FosCoverage

open Relational Outcome AnalysisDomainRepository

/-! ## The moment of inheritance -/

/-- The engine run `a` in `db` gave the relation `q` its source `r`: an active relation of the
predecessor, on the line of the same file that is mapped to the line of `q`. -/
structure InheritedFrom (env : Env) (db : Db) (a : Action) (q : Link) (r : SourceRelation) :
    Prop where
  /-- The run succeeded. -/
  accepted : (a.apply env db).isOk = true
  /-- The source belongs to the predecessor of the scan. -/
  predecessor : (ProjectRepository.getScan db q.scanId).bind Scan.predecessorScanId =
    some r.link.scanId
  /-- The source is active. -/
  active : db.activeLink r.link.scanId r.link.lineId = some (r.id, r.link)
  /-- The run was on the scan of `q` and mapped the line of the source to the line of `q`. -/
  mapped : ∃ paths ctx line, a.engineRun db = some (q.scanId, paths) ∧
    InheritanceEngine.RunContext.Of env db q.scanId paths ctx ∧
    InheritanceEngine.Mapped ctx db r q.lineId line ∧ InheritanceEngine.SameFile db r line
  /-- `q` names its source. -/
  source : q.source = ⟨some r.link.scanId, some r.link.lineId, some r.id⟩

/-- What `q` in `db` has from its source `r` as that was in `db₀`. -/
structure CarriesOver (db₀ : Db) (r : SourceRelation) (db : Db) (q : Link) : Prop where
  /-- The content of the source's record. -/
  content : ∃ s c, db₀.domain.records.get? r.link.recordId = some s ∧
    db.domain.records.get? q.recordId = some c ∧ c.content = s.content
  /-- A covered line carries the conclusion along, any other waits for a review. -/
  state : ∃ line, db.facts.lines.get? q.lineId = some line ∧ q.reviewState =
    if isCovered line.facts.coverageState then .carriedCovered else .inheritedPending
  /-- The scan of the source is still the predecessor. -/
  predecessor : (ProjectRepository.getScan db q.scanId).bind Scan.predecessorScanId =
    some r.link.scanId

/-- An engine run finds the files of the predecessor under their own names. -/
def Action.NamesApart (env : Env) (db : Db) (a : Action) : Prop :=
  ∀ scanId paths predecessor, a.engineRun db = some (scanId, paths) →
    (ProjectRepository.getScan db scanId).bind Scan.predecessorScanId = some predecessor →
    InheritanceEngine.NamesApart env db scanId predecessor

instance (env : Env) (db : Db) (a : Action) : Decidable (a.NamesApart env db) :=
  decidable_of_iff (∀ run ∈ a.engineRun db, ∀ predecessor ∈
      (ProjectRepository.getScan db run.1).bind Scan.predecessorScanId,
      InheritanceEngine.NamesApart env db run.1 predecessor)
    ⟨fun h scanId paths predecessor hrun hpred => h (scanId, paths) hrun predecessor hpred,
      fun h run hrun predecessor hpred => h run.1 run.2 predecessor hrun hpred⟩

/-- The action is an accepted operation on the line. -/
def Action.Touches (env : Env) (db : Db) (a : Action) (s l : Nat) : Prop :=
  ∃ m, a = .mutate m ∧ m.scanId = s ∧ m.Names env db l ∧ (m.apply env db).isOk = true

/-! ## One engine run -/

namespace InheritanceEngine

variable {env : Env} {db db' : Db} {scanId : Nat} {paths : List (String × String)}
  {readSet : Option ReadSet}

/-- A mapped relation is an active relation of the predecessor. -/
theorem Mapped.activeLink {ctx : RunContext} {r : SourceRelation} {lineId : Nat} {line : LineRow}
    (h : Mapped ctx db r lineId line) (hl : LinksOk db) :
    r.link.scanId = ctx.predecessorScanId ∧ db.domain.links.get? r.id = some r.link ∧
      db.activeLink r.link.scanId r.link.lineId = some (r.id, r.link) := by
  obtain ⟨hget, hscan, hactive, _, _⟩ := FosCoverage.mem_activeRelations h.mem_activeRelations
  exact ⟨hscan, hget, hl.activeLink_eq hget hactive⟩

/-- The run has written `q` when it has reached `d`. -/
def Written (env : Env) (db : Db) (scanId : Nat) (paths : List (String × String)) (d : Db)
    (q : Link) : Prop :=
  ∃ ctx r line, RunContext.Of env db scanId paths ctx ∧ Mapped ctx db r q.lineId line ∧
    q.scanId = scanId ∧ q.source = ⟨some ctx.predecessorScanId, some r.link.lineId, some r.id⟩ ∧
    q.reviewState = inheritedState line ∧
    ∃ s c, db.domain.records.get? r.link.recordId = some s ∧
      d.domain.records.get? q.recordId = some c ∧ c.content = s.content

/-- What the run has done to the relations and records when it has reached `d`. -/
structure Progressed (env : Env) (db : Db) (scanId : Nat) (paths : List (String × String))
    (d : Db) : Prop where
  /-- Records are only added. -/
  record : ∀ k c, db.domain.records.get? k = some c → d.domain.records.get? k = some c
  /-- A relation is an old one, or it was inherited. -/
  link : ∀ k q, d.domain.links.get? k = some q →
    db.domain.links.get? k = some q ∨ Written env db scanId paths d q

/-- **What a run does to the relations and records.** -/
theorem run_progressed (hl : LinksOk db) (hh : HistoryOk db)
    (hok : run env db scanId paths = .ok (db', readSet)) : Progressed env db scanId paths db' := by
  refine (run_inv_mapped hok hl (fun ctx hctx => hctx.predecessor_ne hh) ?_ ?_ ?_).2
  · exact fun d rows _ hd => ⟨hd.record, hd.link⟩
  · intro ctx hctx d r lineId line i _ _ hd hmap hi
    have grow : ∀ k c, d.domain.records.get? k = some c →
        (i.after d scanId).domain.records.get? k = some c :=
      fun k c hc => Table.get?_insertMany_of_some hc
    refine ⟨fun k c hc => grow k c (hd.record k c hc), fun k q hk => ?_⟩
    have hwritten : ∀ rev, q = i.item.link scanId rev →
        Written env db scanId paths (i.after d scanId) q := by
      rintro rev rfl
      obtain ⟨blockId, groupId, hitem⟩ := hi.item
      obtain ⟨s, c, hs, hc, hcont⟩ := hi.content
      obtain ⟨hpred, hget, _⟩ := hmap.activeLink hl
      obtain ⟨s₀, hs₀⟩ := Option.isSome_iff_exists.1 (hl.record r.id r.link hget)
      obtain rfl := Option.some.inj ((hd.record _ _ hs₀).symm.trans hs)
      refine ⟨ctx, r, line, hctx, ?_, rfl, ?_, ?_, s₀, c, hs₀, hc, hcont⟩
      · rw [hitem]
        exact hmap
      · rw [hitem]
        rfl
      · rw [hitem]
        rfl
    rcases get?_writeLink hk with ⟨hold, _⟩ | ⟨q₀, _, _, _, hq⟩ | ⟨_, _, hq⟩
    · rcases hd.link k q hold with hold | ⟨ctx', r', line', h₁, h₂, h₃, h₄, h₅, s, c, hs, hc, hcont⟩
      · exact .inl hold
      · exact .inr ⟨ctx', r', line', h₁, h₂, h₃, h₄, h₅, s, c, hs, grow _ c hc, hcont⟩
    · exact .inr (hwritten _ hq)
    · exact .inr (hwritten _ hq)
  · exact ⟨fun _ _ hc => hc, fun _ _ hk => .inl hk⟩

end InheritanceEngine

/-! ## One action -/

section Step

variable {env : Env} {db db' : Db} {k : Nat} {q : Link}

/-- An update of one relation that keeps the source of every inherited relation. -/
def KeepsSource (f : Link → Link) : Prop :=
  ∀ q, (f q).relationOrigin = q.relationOrigin ∧ (f q).scanId = q.scanId ∧
    (f q).lineId = q.lineId ∧ (f q).source = q.source

/-- The relation `q` was there before, as far as its origin goes. -/
def SameSource (links : Table Link) (k : Nat) (q : Link) : Prop :=
  ∃ q₀, links.get? k = some q₀ ∧ q₀.relationOrigin = q.relationOrigin ∧ q₀.scanId = q.scanId ∧
    q₀.lineId = q.lineId ∧ q₀.source = q.source

theorem SameSource.of_setLink {links : Table Link} {id : Nat} {f : Link → Link}
    (hf : KeepsSource f) (hk : (setLink links id f).get? k = some q) : SameSource links k q := by
  rcases get?_setLink_some hk with ⟨_, hold⟩ | ⟨q₀, rfl, hq₀, rfl⟩
  · exact ⟨q, hold, rfl, rfl, rfl, rfl⟩
  · obtain ⟨h₁, h₂, h₃, h₄⟩ := hf q₀
    exact ⟨q₀, hq₀, h₁.symm, h₂.symm, h₃.symm, h₄.symm⟩

theorem AnalysisService.save_sameSource {projectName reviewer : String} {scanId : Nat}
    {records : List AnalysisService.Item} {enforceCurrent : Bool}
    (hok : save env db projectName scanId records reviewer enforceCurrent = .ok db')
    (hk : db'.domain.links.get? k = some q) (ho : q.relationOrigin = .inheritance) :
    SameSource db.domain.links k q := by
  by_cases hnil : records = []
  · subst hnil
    obtain ⟨p, rfl⟩ := save_nil hok
    exact ⟨q, by simpa using hk, rfl, rfl, rfl, rfl⟩
  · obtain ⟨p, tr, _, _, hsaved, hdom, _⟩ := saved_of_ok hnil hok
    rw [hdom] at hk
    rcases get?_writeLinks hk with ⟨hold, _⟩ | ⟨item, hitem, rev, rfl⟩
    · exact ⟨q, hold, rfl, rfl, rfl, rfl⟩
    · -- a save writes manual relations only
      obtain ⟨a, _, r, _, hmanual⟩ := hsaved.link item hitem
      rw [hmanual] at ho
      cases ho

/-- **An operation leaves an inherited relation its source.** -/
theorem Mutation.sameSource {m : Mutation} (hok : m.apply env db = .ok db')
    (hk : db'.domain.links.get? k = some q) (ho : q.relationOrigin = .inheritance) :
    SameSource db.domain.links k q := by
  cases m with
  | save => exact AnalysisService.save_sameSource hok hk ho
  | editConfirm => exact AnalysisService.save_sameSource hok hk ho
  | confirm projectId scanId selected expectedMap default reviewer =>
    have hinv := (InheritanceReviewService.confirm_inv hok (fun d => ∀ k q,
      d.links.get? k = some q → SameSource db.domain.links k q) ?_
      fun k q hk => ⟨q, hk, rfl, rfl, rfl, rfl⟩).1
    · exact hinv k q hk
    · rintro d lineId d' _ _ hd ⟨id, q₀, _, _, rfl⟩ k q hk
      have hkeeps : KeepsSource (InheritanceReviewService.confirmed reviewer) :=
        fun _ => ⟨rfl, rfl, rfl, rfl⟩
      obtain ⟨q₁, hq₁, h₁, h₂, h₃, h₄⟩ := SameSource.of_setLink hkeeps hk
      obtain ⟨q₂, hq₂, h₅, h₆, h₇, h₈⟩ := hd k q₁ hq₁
      exact ⟨q₂, hq₂, h₅.trans h₁, h₆.trans h₂, h₇.trans h₃, h₈.trans h₄⟩
  | reject =>
    obtain ⟨id, q₀, _, _, hdom, _⟩ := InheritanceReviewService.reject_ok hok
    rw [hdom] at hk
    have hkeeps : KeepsSource InheritanceReviewService.rejected := fun _ => ⟨rfl, rfl, rfl, rfl⟩
    exact SameSource.of_setLink hkeeps hk
  | undo =>
    obtain ⟨x, q₀, _, _, _, _, _, _, hdom, _⟩ := InheritanceReviewService.undo_ok hok
    rw [hdom] at hk
    have hkeeps : KeepsSource InheritanceReviewService.restored := fun _ => ⟨rfl, rfl, rfl, rfl⟩
    exact SameSource.of_setLink hkeeps hk

/-- The record of an active relation keeps its content unless its line is named. -/
theorem Mutation.content_of_active {m : Mutation} (hi : Integrity db)
    (hok : m.apply env db = .ok db') (hk : db.domain.links.get? k = some q)
    (ha : q.isActive = true) (hne : ¬ (m.scanId = q.scanId ∧ m.Names env db q.lineId)) {c : Record}
    (hc : db.domain.records.get? q.recordId = some c) :
    ∃ c', db'.domain.records.get? q.recordId = some c' ∧ c'.content = c.content := by
  refine Mutation.content_unchanged hok hc ?_
  rintro ⟨records, reviewer, resolved, hreq, hres, _, _, _, hedits, _⟩
  -- the edited record is linked from the lines of the operation only
  obtain ⟨r, hr, _, hl⟩ := (hedits.2 q.lineId).1
    (mem_getActiveLineIdsByRecordId.2 ⟨k, q, hk, ha, rfl, rfl⟩)
  obtain ⟨line, hline, _⟩ := ((AnalysisService.resolveRecords_ok hres).lineOk r hr).line
  have hscan : m.scanId = q.scanId := by
    refine scan_of_line ?_ (hi.line k q hk)
    rw [← hl, hline]
    rfl
  have hmem : q.lineId ∈ resolved.map AnalysisService.Resolved.lineId :=
    List.mem_map.2 ⟨r, hr, hl⟩
  cases m with
  | save =>
    obtain ⟨rfl, rfl⟩ := Prod.mk.inj (Option.some.inj hreq)
    exact hne ⟨hscan, resolved, hres, hmem⟩
  | editConfirm =>
    obtain ⟨rfl, rfl⟩ := Prod.mk.inj (Option.some.inj hreq)
    exact hne ⟨hscan, resolved, hres, hmem⟩
  | confirm => cases hreq
  | reject => cases hreq
  | undo => cases hreq

/-- What a migration does: it adds records and relations of other origins. -/
theorem AnalysisDomainRepository.backfill_adds {scanId : Nat}
    (hok : backfillLegacy db scanId = .ok db') :
    (∀ k c, db.domain.records.get? k = some c → db'.domain.records.get? k = some c) ∧
    ∀ k q, db'.domain.links.get? k = some q → q.relationOrigin = .inheritance →
      db.domain.links.get? k = some q := by
  refine foldlM_inv (fun d : Db =>
    (∀ k c, db.domain.records.get? k = some c → d.domain.records.get? k = some c) ∧
    ∀ k q, d.domain.links.get? k = some q → q.relationOrigin = .inheritance →
      db.domain.links.get? k = some q) ?_ ⟨fun _ _ hc => hc, fun _ _ hk _ => hk⟩ hok
  rintro d row d' _ ⟨hrec, hlink⟩ hstep
  dsimp only at hstep
  split at hstep
  · generalize hlr : legacyRecord d row.1 row.2 = pair at hstep
    obtain ⟨d₁, recordId⟩ := pair
    have hd₁ : (∃ new, d₁.domain.records = d.domain.records.insertMany new) ∧
        d₁.domain.links = d.domain.links := by
      unfold legacyRecord at hlr
      split at hlr <;> obtain ⟨rfl, _⟩ := Prod.mk.inj hlr
      · exact ⟨⟨[], rfl⟩, rfl⟩
      · exact ⟨⟨[_], rfl⟩, rfl⟩
    obtain ⟨⟨new, hnew⟩, hsame⟩ := hd₁
    obtain ⟨rfl, _, _⟩ := AnalysisService.createLinksMany_ok hstep
    refine ⟨fun k c hc => ?_, fun k q hk ho => ?_⟩
    · show d₁.domain.records.get? k = some c
      rw [hnew]
      exact Table.get?_insertMany_of_some (hrec k c hc)
    · rcases get?_writeLinks hk with ⟨hold, _⟩ | ⟨item, hitem, rev, rfl⟩
      · rw [hsame] at hold
        exact hlink k q hold ho
      · obtain rfl := List.mem_singleton.1 hitem
        cases ho
  · obtain rfl := pure_eq_ok.1 hstep
    exact ⟨hrec, hlink⟩

/-- A scan keeps its predecessor. -/
theorem Action.predecessor_kept {a : Action} (hc : CurrentOk db) (hok : a.apply env db = .ok db')
    {s p : Nat} (h : (ProjectRepository.getScan db s).bind Scan.predecessorScanId = some p) :
    (ProjectRepository.getScan db' s).bind Scan.predecessorScanId = some p := by
  obtain ⟨scan, hscan, hpred⟩ := Option.bind_eq_some_iff.1 h
  obtain ⟨scan', hscan', _, hpred'⟩ := Action.scan_kept hc hok hscan
  exact Option.bind_eq_some_iff.2 ⟨scan', hscan', hpred'.trans hpred⟩

/-- The record of a relation has the same content in both states. -/
def SameContent (db db' : Db) (recordId : Nat) : Prop :=
  ∀ c, db.domain.records.get? recordId = some c →
    ∃ c', db'.domain.records.get? recordId = some c' ∧ c'.content = c.content

/-- **The step**: an inherited relation was there before, with the same source, and is as it was
unless the action is an operation on its line; or the action is an engine run that wrote it. -/
theorem Action.relation_of_inheritance {a : Action} (hi : Integrity db) (hh : HistoryOk db)
    (hapart : a.NamesApart env db) (hok : a.apply env db = .ok db') (hk : db'.domain.links.get? k = some q)
    (ho : q.relationOrigin = .inheritance) :
    (SameSource db.domain.links k q ∧ (¬ a.Touches env db q.scanId q.lineId →
      db.domain.links.get? k = some q ∧ (q.isActive = true → SameContent db db' q.recordId))) ∨
    ∃ r, InheritedFrom env db a q r ∧ CarriesOver db r db' q := by
  obtain ⟨_, hline⟩ := Action.grows hh.current hok
  cases Action.domainEffect hh.current hok with
  | none _ hd =>
    rw [hd] at hk
    refine .inl ⟨⟨q, hk, rfl, rfl, rfl, rfl⟩, fun _ => ⟨hk, fun _ c hc => ⟨c, ?_, rfl⟩⟩⟩
    rw [hd]
    exact hc
  | @mutate m _ hm hd =>
    rw [hd] at hk
    have hsame := Mutation.sameSource hm hk ho
    refine .inl ⟨hsame, fun hnot => ?_⟩
    obtain ⟨q₀, hq₀, h₁, h₂, h₃, h₄⟩ := hsame
    have hne : ¬ (m.scanId = q₀.scanId ∧ m.Names env db q₀.lineId) := by
      rw [h₂, h₃]
      rintro ⟨hs, hn⟩
      exact hnot ⟨m, rfl, hs, hn, by rw [hm]; rfl⟩
    have hkeep := Mutation.relation_unchanged hi hm hq₀ hne
    obtain rfl := Option.some.inj (hkeep.symm.trans hk)
    refine ⟨hq₀, fun ha c hc => ?_⟩
    rw [hd]
    exact Mutation.content_of_active hi hm hq₀ ha hne hc
  | backfill hb hd =>
    obtain ⟨hrec, hlink⟩ := backfill_adds hb
    rw [hd] at hk
    have hold := hlink k q hk ho
    refine .inl ⟨⟨q, hold, rfl, rfl, rfl, rfl⟩, fun _ => ⟨hold, fun _ c hc => ⟨c, ?_, rfl⟩⟩⟩
    rw [hd]
    exact hrec _ c hc
  | @engine _ scanId paths _ _ ha hr hd =>
    have hp := InheritanceEngine.run_progressed hi.toLinksOk hh hr
    rw [hd] at hk
    rcases hp.link k q hk with hold | ⟨ctx, r, line, hctx, hmap, rfl, hsrc, hst, s, c, hs, hc, hcont⟩
    · refine .inl ⟨⟨q, hold, rfl, rfl, rfl, rfl⟩, fun _ => ⟨hold, fun _ c hc => ⟨c, ?_, rfl⟩⟩⟩
      rw [hd]
      exact hp.record _ c hc
    · obtain ⟨hpred, _, hact⟩ := hmap.activeLink hi.toLinksOk
      have hscan := hctx.predecessor_eq
      have hfile : InheritanceEngine.SameFile db r line := by
        refine hmap.sameFile hi.toLinksOk ?_
        rw [hctx.candidate, hctx.env]
        exact hapart _ paths _ ha hscan
      rw [← hpred] at hscan hsrc
      refine .inr ⟨r, ⟨by rw [hok]; rfl, hscan, hact, ⟨paths, ctx, line, ha, hctx, hmap, hfile⟩, hsrc⟩,
        ⟨s, c, hs, by rw [hd]; exact hc, hcont⟩, ⟨line, hline _ _ hmap.line, hst⟩, ?_⟩
      exact Action.predecessor_kept hh.current hok hscan

end Step

/-! ## Every history -/

/-- The database after a history. -/
def Db.after (env : Env) (actions : List Action) : Db :=
  Trace.run (Action.exec env) Db.empty actions

theorem Db.after_append_singleton (env : Env) (actions : List Action) (a : Action) :
    Db.after env (actions ++ [a]) = Action.exec env (Db.after env actions) a :=
  Trace.run_append (Action.exec env) Db.empty actions [a]

/-- No operation of the history was on the line. -/
def Untouched (env : Env) (db : Db) (actions : List Action) (s l : Nat) : Prop :=
  Trace.Along (Action.exec env) (fun d a => ¬ a.Touches env d s l) db actions

/-- `q` was inherited at some moment of the history, and carries over what its source had then as
long as nobody has touched its line since. -/
def HasSource (env : Env) (actions : List Action) (q : Link) : Prop :=
  ∃ pre a post r, actions = pre ++ a :: post ∧ InheritedFrom env (Db.after env pre) a q r ∧
    (q.isActive = true → Untouched env (Db.after env (pre ++ [a])) post q.scanId q.lineId →
      CarriesOver (Db.after env pre) r (Db.after env actions) q)

/-- Following the sources back: a relation of another origin, or one that was inherited from an
active relation, which is followed in turn as it was at that moment. -/
inductive Traced (env : Env) : List Action → Link → Prop
  /-- The end: a manual or migrated relation. -/
  | origin {actions : List Action} {q : Link} (h : q.relationOrigin ≠ .inheritance) :
    Traced env actions q
  /-- One scan back. -/
  | inherited {pre post : List Action} {a : Action} {q : Link} {r : SourceRelation}
      (h : InheritedFrom env (Db.after env pre) a q r) (source : Traced env pre r.link) :
    Traced env (pre ++ a :: post) q

theorem InheritedFrom.congr {env : Env} {db : Db} {a : Action} {q q' : Link} {r : SourceRelation}
    (h : InheritedFrom env db a q r) (hs : q.scanId = q'.scanId) (hl : q.lineId = q'.lineId)
    (hsrc : q.source = q'.source) : InheritedFrom env db a q' r := by
  obtain ⟨h₁, h₂, h₃, ⟨paths, ctx, line, h₄, h₅, h₆, h₈⟩, h₇⟩ := h
  rw [hs] at h₂ h₄ h₅
  rw [hl] at h₆
  rw [hsrc] at h₇
  exact ⟨h₁, h₂, h₃, ⟨paths, ctx, line, h₄, h₅, h₆, h₈⟩, h₇⟩

/-- The database after a history is reachable. -/
theorem Db.reachable_after (env : Env) (actions : List Action) :
    Reachable env (Db.after env actions) := ⟨actions, rfl⟩

/-- Every engine run of the history finds the files under their own names. -/
def NamesApartAlong (env : Env) (actions : List Action) : Prop :=
  Trace.Along (Action.exec env) (fun d a => a.NamesApart env d) Db.empty actions

/-- **Every inherited relation has a source.**  The induction is on the history; an action that
raises leaves everything as it was. -/
theorem hasSource (env : Env) (actions : List Action) (hapart : NamesApartAlong env actions) :
    ∀ k q, (Db.after env actions).domain.links.get? k = some q →
      q.relationOrigin = .inheritance → HasSource env actions q := by
  induction actions using List.reverseRecOn with
  | nil =>
    intro k q hk
    simp [Db.after, Db.empty] at hk
  | append_singleton actions a ih =>
    intro k q hk ho
    obtain ⟨hactions, hlast, _⟩ := Trace.along_append.1 hapart
    have ih := ih hactions
    have hi := (Db.reachable_after env actions).integrity
    have hh := (Db.reachable_after env actions).historyOk
    rw [Db.after_append_singleton] at hk
    cases hok : a.apply env (Db.after env actions) with
    | error e =>
      rw [Action.exec_of_error hok] at hk
      obtain ⟨pre, b, post, r, rfl, hfrom, hcarry⟩ := ih k q hk ho
      refine ⟨pre, b, post ++ [a], r, by simp, hfrom, fun ha hun => ?_⟩
      rw [Db.after_append_singleton, Action.exec_of_error hok]
      exact hcarry ha (Trace.along_append.1 hun).1
    | ok db' =>
      rw [Action.exec_of_ok hok] at hk
      rcases Action.relation_of_inheritance hi hh hlast hok hk ho with ⟨hsame, hkeep⟩ | ⟨r, hfrom, hcarry⟩
      · obtain ⟨q₀, hq₀, h₁, h₂, h₃, h₄⟩ := hsame
        obtain ⟨pre, b, post, r, rfl, hfrom, hcarry⟩ := ih k q₀ hq₀ (h₁.trans ho)
        refine ⟨pre, b, post ++ [a], r, by simp, hfrom.congr h₂ h₃ h₄, fun ha hun => ?_⟩
        obtain ⟨hpost, huntouched, _⟩ := Trace.along_append.1 hun
        have hstate : Trace.run (Action.exec env) (Db.after env (pre ++ [b])) post =
            Db.after env (pre ++ b :: post) := by
          simp only [Db.after, Trace.run_append, Trace.run_cons, Trace.run_nil]
        rw [hstate] at huntouched
        obtain ⟨hq, hcontent⟩ := hkeep huntouched
        obtain rfl := Option.some.inj (hq₀.symm.trans hq)
        obtain ⟨⟨s, c, hs, hc, hcont⟩, ⟨line, hline, hst⟩, hpred⟩ := hcarry ha hpost
        obtain ⟨c', hc', hcont'⟩ := hcontent ha c hc
        rw [Db.after_append_singleton, Action.exec_of_ok hok]
        exact ⟨⟨s, c', hs, hc', hcont'.trans hcont⟩,
          ⟨line, (Action.grows hh.current hok).2 _ _ hline, hst⟩,
          Action.predecessor_kept hh.current hok hpred⟩
      · refine ⟨actions, a, [], r, rfl, hfrom, fun _ _ => ?_⟩
        rw [Db.after_append_singleton, Action.exec_of_ok hok]
        exact hcarry

/-- **The sources of every relation lead back to a manual or migrated one.** -/
theorem traced (env : Env) (actions : List Action) (hapart : NamesApartAlong env actions) (k : Nat)
    (q : Link) (hk : (Db.after env actions).domain.links.get? k = some q) : Traced env actions q := by
  -- the source was there before the engine run, so the history gets shorter
  induction hn : actions.length using Nat.strong_induction_on generalizing actions k q with
  | _ n ih =>
    by_cases ho : q.relationOrigin = .inheritance
    · obtain ⟨pre, a, post, r, rfl, hfrom, _⟩ := hasSource env actions hapart k q hk ho
      refine .inherited hfrom (ih pre.length ?_ pre (Trace.along_append.1 hapart).1 r.id r.link (activeLink_some hfrom.active).1 rfl)
      rw [← hn, List.length_append, List.length_cons]
      omega
    · exact .origin ho

/-- The provenance of the inherited relations after a history. -/
structure Provenance (env : Env) (actions : List Action) : Prop where
  /-- An active inherited relation whose line nobody has touched comes from a relation of the
  predecessor that was active when it was inherited, with its content, and awaits a review unless
  its line is covered. -/
  source : ∀ k q, (Db.after env actions).domain.links.get? k = some q →
    q.relationOrigin = .inheritance → q.isActive = true →
    Untouched env Db.empty actions q.scanId q.lineId →
    ∃ pre a post r, actions = pre ++ a :: post ∧ InheritedFrom env (Db.after env pre) a q r ∧
      CarriesOver (Db.after env pre) r (Db.after env actions) q
  /-- The sources lead back to a manual or migrated relation, through relations that were active
  when the next scan was computed. -/
  chain : ∀ k q, (Db.after env actions).domain.links.get? k = some q → Traced env actions q

/-- **Inherited relations have their provenance**, over any number of scans and in any history whose
engine runs find the files under their own names. -/
theorem inheritance_provenance (env : Env) (actions : List Action)
    (hapart : NamesApartAlong env actions) : Provenance env actions where
  source := by
    intro k q hk ho ha hun
    obtain ⟨pre, a, post, r, rfl, hfrom, hcarry⟩ := hasSource env actions hapart k q hk ho
    refine ⟨pre, a, post, r, rfl, hfrom, hcarry ha ?_⟩
    have hpost := (Trace.along_append.1 hun).2.2
    rw [Db.after_append_singleton]
    exact hpost
  chain := traced env actions hapart

/-! ### Two files that differ in case -/

/-- The names of the file of a line. -/
def Db.sourceOf (db : Db) (lineId : Nat) : Option SourceFile :=
  (db.facts.lines.get? lineId).bind fun line =>
    (db.facts.files.get? line.fileId).map FileRow.source

theorem sourceOf_after_append {env : Env} (pre post : List Action) {l : Nat} {s : SourceFile}
    (h : (Db.after env pre).sourceOf l = some s) :
    (Db.after env (pre ++ post)).sourceOf l = some s := by
  induction post using List.reverseRecOn with
  | nil => rwa [List.append_nil]
  | append_singleton post a ih =>
    rw [← List.append_assoc, Db.after_append_singleton]
    cases hok : a.apply env (Db.after env (pre ++ post)) with
    | error e =>
      rw [Action.exec_of_error hok]
      exact ih
    | ok db' =>
      obtain ⟨hfiles, hlines⟩ :=
        Action.grows (Db.reachable_after env (pre ++ post)).historyOk.current hok
      obtain ⟨line, hline, hfile⟩ := Option.bind_eq_some_iff.1 ih
      obtain ⟨f, hf, hs⟩ := Option.map_eq_some_iff.1 hfile
      rw [Action.exec_of_ok hok, Db.sourceOf, hlines l line hline, Option.bind_some,
        hfiles line.fileId f hf, Option.map_some, hs]

/-- A relation and its source stand in files with the same names, at any later moment. -/
theorem InheritedFrom.sourceOf_eq {env : Env} {pre : List Action} {a : Action} {q : Link}
    {r : SourceRelation} (h : InheritedFrom env (Db.after env pre) a q r) (post : List Action)
    {l : Nat} (hl : q.source.lineId = some l) :
    (Db.after env (pre ++ post)).sourceOf q.lineId =
      (Db.after env (pre ++ post)).sourceOf l := by
  obtain ⟨_, _, _, ⟨paths, ctx, line, _, _, hmap, hsame⟩, hsource⟩ := h
  obtain ⟨_, _, _, hrow, hfile⟩ := mem_activeRelations hmap.mem_activeRelations
  rw [hsource] at hl
  obtain rfl : r.link.lineId = l := Option.some.inj hl
  have hq : (Db.after env pre).sourceOf q.lineId = some r.file.source := by
    rw [Db.sourceOf, hmap.line, Option.bind_some]
    exact hsame
  have hr : (Db.after env pre).sourceOf r.link.lineId = some r.file.source := by
    rw [Db.sourceOf, hrow, Option.bind_some, hfile, Option.map_some]
  rw [sourceOf_after_append pre post hq, sourceOf_after_append pre post hr]

/-- The last inheritance of a traced relation. -/
theorem Traced.exists_source {env : Env} {actions : List Action} {q : Link}
    (h : Traced env actions q) (ho : q.relationOrigin = .inheritance) :
    ∃ pre a post r, actions = pre ++ a :: post ∧ InheritedFrom env (Db.after env pre) a q r := by
  cases h with
  | origin hne => exact absurd ho hne
  | inherited hfrom _ => exact ⟨_, _, _, _, rfl, hfrom⟩

namespace Sample

/-- Both files in two scans; the lines of `a.cpp` have a conclusion. -/
def namesakes : List Action :=
  [firstScan [upperTwoLines, twoLines],
    .mutate (.save "fos" 1 [conclude 1 2 "可覆盖"] "ann" true), .registerResource 7,
    .create ⟨identity "sha2", [7], "sha2", 10⟩] ++ construct worker 2 [upperTwoLines, twoLines] 4

end Sample

/-- Lines that were inherited in a history with one file. -/
theorem inheritance_provenance_inherited :
    (∃ q ∈ (Db.after Sample.env Sample.inherited).domain.links.rows,
      q.2.relationOrigin = .inheritance ∧ q.2.isActive = true) ∧
    Provenance Sample.env Sample.inherited :=
  ⟨by decide +kernel,
    inheritance_provenance Sample.env Sample.inherited (by unfold NamesApartAlong; decide +kernel)⟩

/-- The relations of `a.cpp` are inherited by the lines of `A.cpp`. -/
theorem not_inheritance_provenance : ¬ Provenance Sample.env Sample.namesakes := by
  intro h
  have hlink : ∃ q ∈ (Db.after Sample.env Sample.namesakes).domain.links.get? 3,
      q.relationOrigin = .inheritance ∧ q.lineId = 5 ∧ q.source.lineId = some 3 := by
    decide +kernel
  obtain ⟨q, hq, horigin, hline, hsource⟩ := hlink
  obtain ⟨pre, a, post, r, hactions, hfrom⟩ := (h.chain 3 q hq).exists_source horigin
  have hsame := hfrom.sourceOf_eq (a :: post) hsource
  rw [← hactions, hline] at hsame
  exact absurd hsame (by decide +kernel)

end FosCoverage
