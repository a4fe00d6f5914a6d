import FosCoverage.Analysis.ProjectionRuns
import FosCoverage.Analysis.Versions
import FosCoverage.Analysis.Visibility
import FosCoverage.Import.Writes
import FosCoverage.Lib.Pinned
import FosCoverage.Repository.FilePages

/-!
# What a data version pins

An answer about a scan carries the data version of its project, and a client takes two answers with
one version for answers about one state.  That is right as long as nobody writes into the scan
without raising the version: the lines of an import, the relations of an engine run or of a
migration (`Action.WritesInto`).  Every other action leaves what is known of the lines of the scan
as it is, or raises the version (`Action.view_or_advances`).  So the version pins the view of the
scan over every run of such actions (`Viewed.run`).
-/

set_option autoImplicit false

namespace FosCoverage

open Relational Outcome AnalysisDomainRepository FileStateRepository

/-! ## The view of a scan -/

/-- The files of a scan, and what is known of their lines. -/
def scanView (db : Db) (scanId : Nat) : List ((Nat × FileRow) × List (Nat × LineReview)) :=
  (filesOf db scanId none).map fun f =>
    (f, (db.facts.lines.select fun _ l => l.fileId = f.1).map fun l =>
      (l.1, db.lineReview scanId l.1 l.2))

theorem filesOf_eq_filter (db : Db) (scanId : Nat) (fileIds : Option (List Nat)) :
    filesOf db scanId fileIds =
      (filesOf db scanId none).filter fun f => ∀ ids ∈ fileIds, f.1 ∈ ids := by
  unfold filesOf Keyed.select
  rw [List.filter_filter]
  refine List.filter_congr fun f _ => ?_
  simp [Bool.and_comm]

/-- The pending lines are read off the view. -/
theorem pendingRows_eq_scanView (db : Db) (scanId : Nat) (fileIds : Option (List Nat)) :
    pendingRows db scanId fileIds =
      ((scanView db scanId).filter fun f => ∀ ids ∈ fileIds, f.1.1 ∈ ids).flatMap fun f =>
        (f.2.filter fun r => r.2.countedPending).map fun r =>
          ⟨f.1.1, r.1, f.1.2.repositoryName, f.1.2.filePath, r.2.line.facts.lineNumber⟩ := by
  rw [pendingRows, filesOf_eq_filter, scanView, List.filter_map, List.flatMap_map]
  refine List.flatMap_congr fun f _ => ?_
  rw [List.filter_map, List.map_map]
  rfl

theorem pendingRows_congr {db db' : Db} {scanId : Nat}
    (h : scanView db' scanId = scanView db scanId) (fileIds : Option (List Nat)) :
    pendingRows db' scanId fileIds = pendingRows db scanId fileIds := by
  rw [pendingRows_eq_scanView, h, ← pendingRows_eq_scanView]

/-! ## Files and lines -/

/-- The files of the scan and their lines are as in `db`. -/
structure SameFiles (db : Db) (scanId : Nat) (d : Db) : Prop where
  /-- The files. -/
  files : filesOf d scanId none = filesOf db scanId none
  /-- The lines. -/
  lines : ∀ f ∈ filesOf db scanId none,
    (d.facts.lines.select fun _ l => l.fileId = f.1) =
      db.facts.lines.select fun _ l => l.fileId = f.1

namespace SameFiles

variable {env : Env} {db d d' : Db} {scanId : Nat}

theorem refl (db : Db) (scanId : Nat) : SameFiles db scanId db := ⟨rfl, fun _ _ => rfl⟩

/-- Files and lines are added to another scan. -/
theorem ingests {s : Nat} (h : SameFiles db scanId d) (hi : Ingests s d d') (hne : scanId ≠ s) :
    SameFiles db scanId d' := by
  obtain ⟨files, lines, rfl, hfiles, hlines⟩ := hi.rows
  constructor
  · refine Eq.trans ?_ h.files
    exact Table.select_insertMany fun k f hf =>
      decide_eq_false fun hs => hne (hs.1.symm.trans (hfiles f hf))
  · rintro ⟨f, file⟩ hf
    rw [← h.lines (f, file) hf]
    obtain ⟨hget, hscan, _⟩ := mem_filesOf.1 (h.files ▸ hf : (f, file) ∈ filesOf d scanId none)
    refine Table.select_insertMany fun k l hl => decide_eq_false fun he => hne ?_
    obtain ⟨file', hf', hs'⟩ := hlines l hl
    rw [he, Table.get?_insertMany_of_some hget] at hf'
    rw [← hscan, Option.some.inj hf', hs']

/-- Nothing else writes files or lines. -/
theorem survives {a : Action} (hw : ¬ a.IngestsInto db scanId) :
    SurvivesWrites env db a (SameFiles db scanId) := by
  constructor
  case same =>
    intro d d' hs hd
    refine ⟨?_, ?_⟩
    · unfold filesOf
      rw [hs.files]
      exact hd.files
    · rw [hs.lines]
      exact hd.lines
  case newScan => exact fun d scan hd => ⟨hd.files, hd.lines⟩
  case settle => exact fun d s status _ hd => ⟨hd.files, hd.lines⟩
  case ingest =>
    intro d d' s batch result hin hb hd
    refine hd.ingests (ProjectService.ingestFileBatch_ok hb).1 ?_
    rintro rfl
    exact hw hin
  case checkpoint => exact fun d j c _ hd => ⟨hd.files, hd.lines⟩
  case claim => exact fun d j c token _ _ hd => ⟨hd.files, hd.lines⟩

/-- The view is the same when the same is known of every line. -/
theorem scanView_eq (h : SameFiles db scanId d)
    (hr : ∀ l line, lineOfScan db scanId l = some line → SameReview db d scanId l) :
    scanView d scanId = scanView db scanId := by
  unfold scanView
  rw [h.files]
  refine List.map_congr_left fun f hf => ?_
  rw [h.lines f hf]
  refine congrArg (Prod.mk f) (List.map_congr_left fun l hl => ?_)
  obtain ⟨hmem, hfile⟩ := Keyed.mem_select.1 hl
  rw [decide_eq_true_eq] at hfile
  obtain ⟨hget, hscan, _⟩ := mem_filesOf.1 (show (f.1, f.2) ∈ filesOf db scanId none from hf)
  have hline : lineOfScan db scanId l.1 = some l.2 := AnalysisService.lineOfScan_eq_some.2
    ⟨Keyed.get?_eq_some_iff.2 hmem, f.2, by rw [hfile]; exact hget, hscan⟩
  rw [hr l.1 l.2 hline l.2]

end SameFiles

/-! ## Reviews -/

section Reviews

variable {env : Env} {db db' d : Db} {s l : Nat}

theorem SameReview.of_domain (h : db'.domain = db.domain) (s l : Nat) : SameReview db db' s l := by
  intro line
  unfold Db.lineReview Db.activeLink
  rw [h]

theorem SameReview.congr (h : SameReview db d s l) (hd : db'.domain = d.domain) :
    SameReview db db' s l := fun line =>
  (SameReview.of_domain hd s l line).trans (h line)

theorem Gated.sameReview {p scanId : Nat} {line : LineRow} (h : Gated db p scanId db')
    (hne : s ≠ scanId) (hl : lineOfScan db s l = some line) : SameReview db db' s l := by
  obtain ⟨_, _, _, _, _, _, _, hlines⟩ := h.gate
  exact (hlines s l line hl).resolve_right fun he => hne he.1

/-- Every operation ends in a gate for its scan, but for a save of nothing. -/
theorem Mutation.gated {m : Mutation} (hi : Integrity db) (h : m.apply env db = .ok db') :
    (∃ p, db' = ProjectStateRepository.ensure db p) ∨ ∃ p, Gated db p m.scanId db' := by
  have save : ∀ {projectName reviewer : String} {scanId : Nat}
      {records : List AnalysisService.Item} {enforceCurrent : Bool},
      AnalysisService.save env db projectName scanId records reviewer enforceCurrent = .ok db' →
      (∃ p, db' = ProjectStateRepository.ensure db p) ∨ ∃ p, Gated db p scanId db' := by
    intro projectName reviewer scanId records enforceCurrent h
    by_cases hne : records = []
    · subst hne
      exact .inl (AnalysisService.save_nil h)
    · exact .inr (AnalysisService.save_gated hi.toLinksOk hne h)
  cases m with
  | save => exact save h
  | editConfirm => exact save h
  | confirm => exact .inr ⟨_, InheritanceReviewService.confirm_gated hi.toLinksOk h⟩
  | reject => exact .inr ⟨_, InheritanceReviewService.reject_gated h⟩
  | undo => exact .inr ⟨_, InheritanceReviewService.undo_gated hi h⟩

/-- An operation leaves alone what is known of the lines of other scans. -/
theorem Mutation.sameReview {m : Mutation} {line : LineRow} (hi : Integrity db)
    (h : m.apply env db = .ok db') (hne : s ≠ m.scanId) (hl : lineOfScan db s l = some line) :
    SameReview db db' s l := by
  rcases Mutation.gated hi h with ⟨p, rfl⟩ | ⟨p, hg⟩
  · exact .of_domain (ProjectStateRepository.domain_ensure db p) s l
  · exact hg.sameReview hne hl

theorem AnalysisService.save_pins {projectName reviewer : String} {scanId : Nat}
    {records : List AnalysisService.Item} {enforceCurrent : Bool}
    (h : AnalysisService.save env db projectName scanId records reviewer enforceCurrent = .ok db') :
    (∃ p, db' = ProjectStateRepository.ensure db p) ∨ Advances db db' scanId := by
  by_cases hne : records = []
  · subst hne
    exact .inl (AnalysisService.save_nil h)
  · obtain ⟨p, tr, hp, _, _, _, hmut⟩ := AnalysisService.saved_of_ok hne h
    simp only [AnalysisService.save, bind_eq_ok, orFail_eq_ok, require_eq_ok] at h
    obtain ⟨p', hp', scan, hs, _, hbound, _⟩ := h
    obtain rfl := Option.some.inj (hp.symm.trans hp')
    exact .inr (hmut.advances hs hbound)

/-- **An operation that changes anything raises the version of its scan.** -/
theorem Mutation.pins {m : Mutation} (hc : CurrentOk db) (h : m.apply env db = .ok db')
    (hz : m.scanId ≠ 0) :
    (∃ p, db' = ProjectStateRepository.ensure db p) ∨ Advances db db' m.scanId := by
  cases m with
  | save => exact AnalysisService.save_pins h
  | editConfirm => exact AnalysisService.save_pins h
  | confirm =>
    obtain ⟨_, hmut, hcur⟩ := InheritanceReviewService.confirm_inv h (fun _ => True)
      (fun _ _ _ _ _ _ _ => trivial) trivial
    exact .inr (hmut.advances_current hc hcur hz)
  | reject =>
    obtain ⟨_, _, _, _, _, hmut, hcur, _⟩ := InheritanceReviewService.reject_ok h
    exact .inr (hmut.advances_current hc hcur hz)
  | undo =>
    obtain ⟨_, _, _, _, _, _, _, _, _, hmut, hcur, _⟩ := InheritanceReviewService.undo_ok h
    exact .inr (hmut.advances_current hc hcur hz)

end Reviews

/-! ## Every action -/

/-- The action writes lines or relations of the scan, and leaves the data version alone. -/
def Action.WritesInto (db : Db) (a : Action) (scanId : Nat) : Prop :=
  a.IngestsInto db scanId ∨ (∃ paths, a.engineRun db = some (scanId, paths)) ∨ a = .backfill scanId

section Step

variable {env : Env} {db db' : Db} {scanId : Nat}

/-- **Every other action leaves the view alone or raises the version.** -/
theorem Action.view_or_advances {a : Action} {scan : Scan} (hi : Integrity db) (hc : CurrentOk db)
    (hs : db.facts.scans.get? scanId = some scan) (ha : a.apply env db = .ok db')
    (hw : ¬ a.WritesInto db scanId) :
    scanView db' scanId = scanView db scanId ∨ Advances db db' scanId := by
  have hz : scanId ≠ 0 := by
    have := (Table.get?_issued hs).1
    omega
  have hfiles : SameFiles db scanId db' :=
    Action.writes_inv ha (SameFiles.survives fun h => hw (.inl h)) (.refl db scanId)
  cases Action.domainEffect hc ha with
  | none _ hd => exact .inl (hfiles.scanView_eq fun l _ _ => .of_domain hd scanId l)
  | @mutate m d hm hd =>
    by_cases hscan : scanId = m.scanId
    · rcases Mutation.pins hc hm (hscan ▸ hz) with ⟨p, rfl⟩ | hadv
      · rw [ProjectStateRepository.domain_ensure] at hd
        exact .inl (hfiles.scanView_eq fun l _ _ => .of_domain hd scanId l)
      · obtain rfl : d = db' := Except.ok.inj (hm.symm.trans ha)
        rw [hscan]
        exact .inr hadv
    · exact .inl (hfiles.scanView_eq fun l _ hl => (Mutation.sameReview hi hm hscan hl).congr hd)
  | @backfill s d hb hd =>
    have hne : scanId ≠ s := by
      rintro rfl
      exact hw (.inr (.inr rfl))
    exact .inl (hfiles.scanView_eq fun l _ _ =>
      ((backfill_writesScan hb).sameReview hi.toLinksOk hne l).congr hd)
  | @engine a s paths readSet d hrun he hd =>
    have hne : scanId ≠ s := by
      rintro rfl
      exact hw (.inr (.inl ⟨paths, hrun⟩))
    exact .inl (hfiles.scanView_eq fun l _ _ =>
      ((InheritanceEngine.run_writesScan he).sameReview hi.toLinksOk hne l).congr hd)

/-- A step of the system that does not write into the scan. -/
def Undisturbed (env : Env) (scanId : Nat) (db db' : Db) : Prop :=
  ∃ a : Action, a.apply env db = .ok db' ∧ ¬ a.WritesInto db scanId

end Step

/-! ## Runs -/

/-- A scan of a project, in a database that holds what every reachable one does. -/
structure Viewed (db : Db) (projectId scanId : Nat) : Prop where
  /-- CURRENT is a sealed scan of its project. -/
  history : HistoryOk db
  /-- The references of the domain. -/
  integrity : Integrity db
  /-- The scan. -/
  scan : ∃ scan, db.facts.scans.get? scanId = some scan ∧ scan.projectId = projectId

namespace Viewed

variable {env : Env} {db db' : Db} {projectId scanId : Nat}

theorem step (h : Viewed db projectId scanId) (hu : Undisturbed env scanId db db') :
    Viewed db' projectId scanId ∧
      Pinned (fun d => (d.stateOf projectId).dataVersion) (fun d => scanView d scanId) db db' := by
  obtain ⟨a, ha, hw⟩ := hu
  obtain ⟨scan, hs, rfl⟩ := h.scan
  constructor
  · have hfollows : Follows db (Action.exec env db a) := .of_exec h.history
    rw [Action.exec_of_ok ha] at hfollows
    exact ⟨h.history.step ha, h.integrity.step h.history.current ha,
      hfollows.project scanId scan hs⟩
  · have hstep := Action.view_or_advances h.integrity h.history.current hs ha hw
    rcases hstep with hv | ⟨scan', hs', hadv⟩
    · exact .of_view (Action.versions ha scan.projectId) hv
    · obtain rfl := Option.some.inj (hs.symm.trans hs')
      exact .of_lt (by rw [hadv]; exact Nat.lt_succ_self _)

/-- **The version pins the view of the scan.** -/
theorem run (h : Viewed db projectId scanId)
    (hr : Relation.ReflTransGen (Undisturbed env scanId) db db') :
    Viewed db' projectId scanId ∧
      Pinned (fun d => (d.stateOf projectId).dataVersion) (fun d => scanView d scanId) db db' :=
  Pinned.run (fun _ _ hd hu => Viewed.step hd hu) hr h

end Viewed

end FosCoverage
