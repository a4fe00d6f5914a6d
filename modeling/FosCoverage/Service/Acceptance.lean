import FosCoverage.Service.Resolution

/-!
# Which inputs an ingestion accepts

The checks of `ensure_files` and `upsert_lines` compare a file and a line with what is stored
already, so whether an input is accepted seems to depend on its order and on the limits of the
batches.  For a scan that starts empty it does not: what is stored came from the input itself.

* `ingestBatches` ingests any sequence of batches; `ingestAll` is one of them.
* `Coherent` is what the checks come to: files and lines are valid, and two items or records with
  one identity say the same.
* `ingestAll_isOk_iff` says that a fresh scan accepts exactly the coherent inputs, and
  `mem_importedLines_of_fresh` what it holds then.
-/

set_option autoImplicit false

namespace FosCoverage

open Relational Outcome

namespace ProjectService

section Batches

variable {env : Env} {scanId : Nat} {db db' : Db}

/-- Some batches, one after another. -/
def ingestBatches (env : Env) (db : Db) (scanId : Nat) (batches : List (List CoverageItem)) :
    Except Failure Db :=
  batches.foldlM (fun db batch => (ingestFileBatch env db scanId batch).map Prod.fst) db

theorem ingestAll_eq (files : List CoverageItem) : ingestAll env db scanId files =
    ingestBatches env db scanId
      (Grouping.groups (fun current _ => fileIngestBatchSize ≤ current.length) files) := rfl

theorem map_fst_eq_ok {x : Except Failure (Db × BatchResult)} :
    x.map Prod.fst = .ok db' ↔ ∃ result, x = .ok (db', result) := by
  cases x with
  | error e => simp [Except.map]
  | ok r => obtain ⟨d, result⟩ := r; simp [Except.map]

/-- **What some batches leave.** -/
theorem ingestBatches_spec {batches : List (List CoverageItem)} (hok : FactsOk db)
    (h : ingestBatches env db scanId batches = .ok db') :
    IngestsItems env scanId batches.flatten db db' := by
  induction batches generalizing db with
  | nil =>
    obtain rfl : db = db' := by simpa [ingestBatches, pure, Except.pure] using h
    exact .nil hok
  | cons batch batches ih =>
    rw [ingestBatches, List.foldlM_cons, bind_eq_ok] at h
    obtain ⟨mid, hfirst, hrest⟩ := h
    obtain ⟨result, hfirst⟩ := map_fst_eq_ok.1 hfirst
    have hfirst := (ingestFileBatch_spec hok hfirst).1
    exact hfirst.append (ih hfirst.ok hrest)

end Batches

/-! ## Coherent inputs -/

/-- What the checks ask of an input. -/
structure Coherent (env : Env) (items : List CoverageItem) : Prop where
  /-- Every file has a hash and a path. -/
  required : ∀ item ∈ items, (normalizedItem env item).filePathHash ≠ "" ∧ item.filePath ≠ ""
  /-- Line numbers start at one. -/
  positive : ∀ item ∈ items, ∀ r ∈ item.lines, 0 < r.lineNumber
  /-- One identity has one path. -/
  file : ∀ a ∈ items, ∀ b ∈ items,
    (normalizedItem env a).identity = (normalizedItem env b).identity →
    normalizedItem env a = normalizedItem env b
  /-- One line has one fact. -/
  line : ∀ a ∈ items, ∀ b ∈ items,
    (normalizedItem env a).identity = (normalizedItem env b).identity →
    ∀ r ∈ a.lines, ∀ s ∈ b.lines, r.lineNumber = s.lineNumber → r.facts = s.facts

theorem Coherent.subset {env : Env} {items items' : List CoverageItem} (h : Coherent env items)
    (hsub : items' ⊆ items) : Coherent env items' where
  required := fun item hi => h.required item (hsub hi)
  positive := fun item hi => h.positive item (hsub hi)
  file := fun a ha b hb => h.file a (hsub ha) b (hsub hb)
  line := fun a ha b hb => h.line a (hsub ha) b (hsub hb)

/-! ## What is accepted is coherent -/

section Accepted

variable {env : Env} {scanId : Nat} {db db' : Db}

theorem required_of_ensureFiles {items : List ProjectRepository.FileItem}
    (h : ProjectRepository.ensureFiles db scanId items = .ok db') :
    ∀ item ∈ items, item.filePathHash ≠ "" ∧ item.filePath ≠ "" := by
  simp only [ProjectRepository.ensureFiles, bind_eq_ok] at h
  obtain ⟨_, _, normalized, hnorm, _⟩ := h
  refine foldlM_each (fun _ => True)
    (fun item _ => item.filePathHash ≠ "" ∧ item.filePath ≠ "") ?_ trivial hnorm
  intro seen item seen' _ _ hstep
  simp only [ProjectRepository.normalizeFile, bind_eq_ok, require_eq_ok] at hstep
  exact ⟨trivial, hstep.choose_spec.1, fun _ hj => hj⟩

theorem positive_of_ingestLines {fileId : Nat} {records : List LineRecord}
    (h : ingestLines db fileId records = .ok db') : ∀ r ∈ records, 0 < r.lineNumber := by
  have key := foldlM_each (fun _ : Db => True)
    (fun (group : List LineRecord) (_ : Db) => ∀ r ∈ group, 0 < r.lineNumber) ?_ trivial h
  · intro r hr
    rw [← Grouping.flatten_groups (fun current _ => decide (lineIngestBatchSize ≤ current.length))
      records, List.mem_flatten] at hr
    obtain ⟨group, hgroup, hr⟩ := hr
    exact key group hgroup r hr
  · intro d group d' _ _ hstep
    simp only [LineIndexRepository.upsertLines, bind_eq_ok, forM_eq_ok, require_eq_ok] at hstep
    obtain ⟨_, _, _, hpositive, _⟩ := hstep
    exact ⟨trivial, hpositive, fun _ hj => hj⟩

/-- The checks on one batch that do not compare. -/
theorem valid_of_ingestFileBatch {batch : List CoverageItem} {result : BatchResult}
    (h : ingestFileBatch env db scanId batch = .ok (db', result)) :
    ∀ item ∈ batch, ((normalizedItem env item).filePathHash ≠ "" ∧ item.filePath ≠ "") ∧
      ∀ r ∈ item.lines, 0 < r.lineNumber := by
  simp only [ingestFileBatch, bind_eq_ok] at h
  obtain ⟨_, _, h⟩ := h
  split at h
  · rename_i hnil
    subst hnil
    exact fun item hitem => absurd hitem List.not_mem_nil
  · simp only [bind_eq_ok] at h
    obtain ⟨db₁, hfiles, db₂, hitems, _⟩ := h
    have hrequired := required_of_ensureFiles hfiles
    have hpositive := foldlM_each (fun _ : Db => True)
      (fun (item : CoverageItem) (_ : Db) => ∀ r ∈ item.lines, 0 < r.lineNumber) ?_ trivial hitems
    · exact fun item hitem => ⟨hrequired _ (List.mem_map_of_mem hitem), hpositive item hitem⟩
    · intro d item d' _ _ hstep
      simp only [ingestItem, bind_eq_ok] at hstep
      obtain ⟨_, _, hlines⟩ := hstep
      exact ⟨trivial, positive_of_ingestLines hlines, fun _ hj => hj⟩

/-- **Accepted batches are coherent.** -/
theorem coherent_of_ingestBatches {batches : List (List CoverageItem)} (hok : FactsOk db)
    (h : ingestBatches env db scanId batches = .ok db') : Coherent env batches.flatten := by
  have hspec := ingestBatches_spec hok h
  have hvalid := foldlM_each (fun _ : Db => True)
    (fun (batch : List CoverageItem) (_ : Db) => ∀ item ∈ batch,
      ((normalizedItem env item).filePathHash ≠ "" ∧ item.filePath ≠ "") ∧
        ∀ r ∈ item.lines, 0 < r.lineNumber) ?_ trivial h
  · have hrow : ∀ a ∈ batches.flatten, ∀ b ∈ batches.flatten,
        (normalizedItem env a).identity = (normalizedItem env b).identity →
        ∃ k, db'.facts.files.get? k = some (itemRow env scanId a) ∧
          itemRow env scanId a = itemRow env scanId b ∧
          (∀ r ∈ a.lines, ∃ q, db'.facts.lines.get? q = some ⟨k, r.facts⟩) ∧
          ∀ r ∈ b.lines, ∃ q, db'.facts.lines.get? q = some ⟨k, r.facts⟩ := by
      intro a ha b hb he
      obtain ⟨k, hk, hlines⟩ := hspec.stores a ha
      obtain ⟨k', hk', hlines'⟩ := hspec.stores b hb
      obtain rfl : k = k' := hspec.ok.file k k' _ _ hk hk' (by rw [key_itemRow, key_itemRow, he])
      exact ⟨k, hk, Option.some.inj (hk.symm.trans hk'), hlines, hlines'⟩
    refine ⟨fun item hitem => ?_, fun item hitem => ?_, fun a ha b hb he => ?_,
      fun a ha b hb he r hr s hs hn => ?_⟩
    · obtain ⟨batch, hbatch, hitem⟩ := List.mem_flatten.1 hitem
      exact (hvalid batch hbatch item hitem).1
    · obtain ⟨batch, hbatch, hitem⟩ := List.mem_flatten.1 hitem
      exact (hvalid batch hbatch item hitem).2
    · obtain ⟨_, _, hsame, _⟩ := hrow a ha b hb he
      simp only [itemRow, ProjectRepository.FileItem.row, FileRow.mk.injEq, true_and] at hsame
      obtain ⟨h₁, h₂, h₃, h₄⟩ := hsame
      cases ha' : normalizedItem env a
      cases hb' : normalizedItem env b
      simp_all
    · obtain ⟨k, _, _, hlines, hlines'⟩ := hrow a ha b hb he
      obtain ⟨q, hq⟩ := hlines r hr
      obtain ⟨q', hq'⟩ := hlines' s hs
      obtain rfl : q = q' := hspec.ok.line q q' _ _ hq hq' (by
        simp only [LineRow.key, LineRecord.facts, hn])
      exact (LineRow.mk.inj (Option.some.inj (hq.symm.trans hq'))).2
  · intro d batch d' _ _ hstep
    obtain ⟨result, hstep⟩ := map_fst_eq_ok.1 hstep
    exact ⟨trivial, valid_of_ingestFileBatch hstep, fun _ hj => hj⟩

end Accepted

/-! ## What is coherent is accepted -/

section Progress

variable {env : Env} {scanId : Nat} {db : Db} {items : List CoverageItem}

/-- A scan under construction that holds part of an input and nothing else. -/
structure Filling (env : Env) (scanId : Nat) (items : List CoverageItem) (db : Db) : Prop where
  /-- The constraints of the fact tables. -/
  ok : FactsOk db
  /-- The scan is under construction. -/
  building : ∃ scan, db.facts.scans.get? scanId = some scan ∧ scan.status.underConstruction = true
  /-- What the scan has is in the input. -/
  within : Within env scanId items db

theorem Filling.assertScanBuilding (h : Filling env scanId items db) :
    ProjectRepository.assertScanBuilding db scanId = .ok ⟨⟩ := by
  obtain ⟨scan, hscan, hstatus⟩ := h.building
  simp only [ProjectRepository.assertScanBuilding, ProjectRepository.getScan, bind_eq_ok,
    orFail_eq_ok, require_eq_ok]
  exact ⟨scan, hscan, hstatus⟩

/-- The dictionary of `ensure_files` has no conflict. -/
theorem exists_normalized (hc : Coherent env items) {batch : List CoverageItem}
    (hsub : batch ⊆ items) : ∃ normalized,
      (batch.map (normalizedItem env)).foldlM ProjectRepository.normalizeFile [] =
        .ok normalized := by
  have hstep : ∀ (seen : List ProjectRepository.FileItem) (item : ProjectRepository.FileItem),
      item ∈ batch.map (normalizedItem env) → (∀ s ∈ seen, s ∈ batch.map (normalizedItem env)) →
      ∃ seen', ProjectRepository.normalizeFile seen item = .ok seen' ∧
        ∀ s ∈ seen', s ∈ batch.map (normalizedItem env) := by
    intro seen item hitem hseen
    obtain ⟨a, ha, rfl⟩ := List.mem_map.1 hitem
    have hrequired := hc.required a (hsub ha)
    have hguard : (require .fileIdentityRequired ((normalizedItem env a).filePathHash ≠ "" ∧
        (normalizedItem env a).filePath ≠ "") : Except Failure Unit) = .ok ⟨⟩ :=
      require_eq_ok.2 hrequired
    rw [ProjectRepository.normalizeFile, hguard, ok_bind]
    split
    · rename_i known hknown
      obtain ⟨b, hb, rfl⟩ := List.mem_map.1 (hseen known (List.mem_of_find?_eq_some hknown))
      have hsame := List.find?_some hknown
      rw [decide_eq_true_eq] at hsame
      have heq : normalizedItem env b = normalizedItem env a :=
        hc.file b (hsub hb) a (hsub ha) (Prod.ext hsame.1 hsame.2)
      refine ⟨seen, ?_, hseen⟩
      simp only [heq, bind_eq_ok, require_eq_ok, pure_eq_ok]
      exact ⟨⟨⟩, trivial, trivial⟩
    · refine ⟨seen ++ [normalizedItem env a], rfl, fun s hs => ?_⟩
      rcases List.mem_append.1 hs with hs | hs
      · exact hseen s hs
      · rw [List.mem_singleton.1 hs]
        exact List.mem_map_of_mem ha
  obtain ⟨normalized, h, _⟩ := foldlM_progress
    (fun seen => ∀ s ∈ seen, s ∈ batch.map (normalizedItem env)) hstep
    (s := []) (fun s hs => absurd hs List.not_mem_nil)
  exact ⟨normalized, h⟩

/-- A file that is there already is one of the input. -/
theorem assertFileIdentity_of_filling (hc : Coherent env items) (h : Filling env scanId items db)
    {item : CoverageItem} (hitem : item ∈ items) :
    ProjectRepository.assertFileIdentity db scanId (normalizedItem env item) = .ok ⟨⟩ := by
  rw [ProjectRepository.assertFileIdentity]
  split
  · rename_i k row hget
    obtain ⟨hk, hkey⟩ := ProjectRepository.getFile_some hget
    have hkey := Prod.mk.inj hkey
    obtain ⟨b, hb, rfl⟩ := h.within.file k row hk hkey.1
    have heq : normalizedItem env b = normalizedItem env item := hc.file b hb item hitem hkey.2
    rw [require_eq_ok, itemRow, heq]
    exact ⟨rfl, rfl⟩
  · rfl

theorem exists_ensureFiles (hc : Coherent env items) (h : Filling env scanId items db)
    {batch : List CoverageItem} (hsub : batch ⊆ items) :
    ∃ db', ProjectRepository.ensureFiles db scanId (batch.map (normalizedItem env)) = .ok db' := by
  obtain ⟨normalized, hnorm⟩ := exists_normalized hc hsub
  have hcheck : normalized.forM (ProjectRepository.assertFileIdentity db scanId) = .ok ⟨⟩ := by
    refine forM_eq_ok.2 fun n hn => ?_
    obtain ⟨item, hitem, rfl⟩ := List.mem_map.1
      ((ProjectRepository.normalized_spec hnorm).2.1 n hn)
    exact assertFileIdentity_of_filling hc h (hsub hitem)
  exact ⟨_, by rw [ProjectRepository.ensureFiles, h.assertScanBuilding, ok_bind, hnorm, ok_bind,
    hcheck, ok_bind]; rfl⟩

/-- More lines of a file of the input. -/
theorem Filling.addLines {db' : Db} {fileId : Nat} {item : CoverageItem} {records : List LineRecord}
    (h : Filling env scanId items db) (hitem : item ∈ items)
    (hfile : db.facts.files.get? fileId = some (itemRow env scanId item))
    (hsub : records ⊆ item.lines) (hadds : LineIndexRepository.AddsLines fileId records db db')
    (hscans : db'.facts.scans = db.facts.scans) : Filling env scanId items db' := by
  refine ⟨hadds.ok, by rw [hscans]; exact h.building, ?_, fun k l f hk hf hs => ?_⟩
  · rw [hadds.files]
    exact h.within.file
  · rw [hadds.files] at hf
    cases hold : db.facts.lines.get? k with
    | none =>
      obtain ⟨r, hr, rfl⟩ := hadds.new k l hk hold
      exact ⟨item, hitem, Option.some.inj (hf.symm.trans hfile), r, hsub hr, rfl⟩
    | some l' =>
      obtain rfl : l' = l := Option.some.inj ((hadds.line k l' hold).symm.trans hk)
      exact h.within.line k l' f hold hf hs

/-- One statement of lines of a file of the input. -/
theorem exists_upsertLines (hc : Coherent env items) (h : Filling env scanId items db)
    {fileId : Nat} {item : CoverageItem} (hitem : item ∈ items)
    (hfile : db.facts.files.get? fileId = some (itemRow env scanId item))
    {records : List LineRecord} (hsub : records ⊆ item.lines)
    (hdistinct : (records.map LineRecord.lineNumber).Nodup) :
    ∃ db', LineIndexRepository.upsertLines db fileId records = .ok db' ∧
      Filling env scanId items db' ∧ db'.facts.files = db.facts.files := by
  have hscan : LineIndexRepository.assertFileScanBuilding db fileId = .ok ⟨⟩ := by
    obtain ⟨scan, hscan, hstatus⟩ := h.building
    simp only [LineIndexRepository.assertFileScanBuilding, bind_eq_ok, orFail_eq_ok, require_eq_ok]
    exact ⟨_, hfile, scan, hscan, hstatus⟩
  have hpositive : records.forM (fun r => require .lineNumberPositive (0 < r.lineNumber)) =
      (.ok ⟨⟩ : Except Failure Unit) :=
    forM_eq_ok.2 fun r hr => require_eq_ok.2 (hc.positive item hitem r (hsub hr))
  have hnumbers : ((records.map LineRecord.facts).map LineFacts.lineNumber).Nodup := by
    rw [List.map_map]
    exact hdistinct
  have hcheck : (records.map LineRecord.facts).forM
      (LineIndexRepository.assertLineFact db fileId) = .ok ⟨⟩ := by
    refine forM_eq_ok.2 fun facts hfacts => ?_
    obtain ⟨r, hr, rfl⟩ := List.mem_map.1 hfacts
    rw [LineIndexRepository.assertLineFact]
    split
    · rename_i q row hget
      obtain ⟨hq, hrow, hnumber⟩ := LineIndexRepository.getLine_some hget
      obtain ⟨b, hb, hsame, s, hs, hfact⟩ := h.within.line q row _ hq (hrow.symm ▸ hfile) rfl
      have hidentity : (normalizedItem env b).identity = (normalizedItem env item).identity := by
        have := congrArg FileRow.key hsame
        rw [key_itemRow, key_itemRow] at this
        exact (Prod.mk.inj this).2.symm
      rw [require_eq_ok, hfact]
      refine hc.line b hb item hitem hidentity s hs r (hsub hr) ?_
      rw [hfact] at hnumber
      exact hnumber
    · rfl
  obtain ⟨db', hdb'⟩ : ∃ db', LineIndexRepository.upsertLines db fileId records = .ok db' :=
    ⟨_, by
      simp only [LineIndexRepository.upsertLines, bind_eq_ok, pure_eq_ok]
      exact ⟨⟨⟩, hscan, ⟨⟩, hpositive, ⟨⟩, require_eq_ok.2 hnumbers, ⟨⟩, hcheck, rfl⟩⟩
  have hadds := LineIndexRepository.upsertLines_spec h.ok hdb'
  obtain ⟨_, _, _, _, _, hing⟩ := upsertLines_ok hdb'
  exact ⟨db', hdb', h.addLines hitem hfile hsub hadds hing.scans, hadds.files⟩

/-- One file of the input that is registered. -/
theorem exists_ingestItem (hc : Coherent env items) (h : Filling env scanId items db)
    {item : CoverageItem} (hitem : item ∈ items)
    (hdistinct : (item.lines.map LineRecord.lineNumber).Nodup)
    (hfile : ∃ k, db.facts.files.get? k = some (itemRow env scanId item)) :
    ∃ db', ingestItem env scanId db item = .ok db' ∧ Filling env scanId items db' ∧
      db'.facts.files = db.facts.files := by
  obtain ⟨k, hk⟩ := hfile
  have hget : ProjectRepository.getFile db scanId (normalizedItem env item).repositoryName
      (normalizedItem env item).filePathHash = some (k, itemRow env scanId item) :=
    AnalysisService.getFile_of_row h.ok hk rfl
  have hgroup : ∀ (d : Db) (group : List LineRecord),
      group ∈ Grouping.groups (fun current _ => lineIngestBatchSize ≤ current.length) item.lines →
      (Filling env scanId items d ∧ d.facts.files = db.facts.files) →
      ∃ d', LineIndexRepository.upsertLines d k group = .ok d' ∧
        Filling env scanId items d' ∧ d'.facts.files = db.facts.files := by
    rintro d group hmem ⟨hd, hfiles⟩
    have hsub := Grouping.sublist_of_mem_groups hmem
    obtain ⟨d', hd', hfill, hfiles'⟩ := exists_upsertLines hc hd hitem (by rw [hfiles]; exact hk)
      hsub.subset (hdistinct.sublist (hsub.map _))
    exact ⟨d', hd', hfill, hfiles'.trans hfiles⟩
  obtain ⟨db', hdb', hfill, hfiles⟩ := foldlM_progress
    (fun d => Filling env scanId items d ∧ d.facts.files = db.facts.files) hgroup ⟨h, rfl⟩
  exact ⟨db', by rw [ingestItem, hget, orFail_some, ok_bind]; exact hdb', hfill, hfiles⟩

/-- **One batch of a coherent input.** -/
theorem exists_ingestFileBatch (hc : Coherent env items) (h : Filling env scanId items db)
    (hdistinct : ∀ item ∈ items, (item.lines.map LineRecord.lineNumber).Nodup)
    {batch : List CoverageItem} (hsub : batch ⊆ items) :
    ∃ r, ingestFileBatch env db scanId batch = .ok r ∧ Filling env scanId items r.1 := by
  by_cases hnil : batch = []
  · refine ⟨(db, ⟨0, 0, none⟩), ?_, h⟩
    rw [ingestFileBatch, h.assertScanBuilding, ok_bind, if_pos hnil]
    rfl
  · obtain ⟨db₁, hdb₁⟩ := exists_ensureFiles hc h hsub
    obtain ⟨hok₁, hstored, hnew⟩ := ProjectRepository.ensureFiles_spec h.ok hdb₁
    have hing := (ensureFiles_ok hdb₁).1
    have hlines : db₁.facts.lines = db.facts.lines := by
      simp only [ProjectRepository.ensureFiles, bind_eq_ok, pure_eq_ok] at hdb₁
      obtain ⟨_, _, _, _, _, _, rfl⟩ := hdb₁
      rfl
    have hwithin : Within env scanId items db₁ := by
      refine ⟨fun k f hk hs => ?_, fun k l f hk hf hs => ?_⟩
      · cases hold : db.facts.files.get? k with
        | none =>
          obtain ⟨n, hn, rfl⟩ := hnew k f hk hold
          obtain ⟨item, hitem, rfl⟩ := List.mem_map.1 hn
          exact ⟨item, hsub hitem, rfl⟩
        | some f' =>
          obtain rfl : f' = f := Option.some.inj ((hing.file hold).symm.trans hk)
          exact h.within.file k f' hold hs
      · rw [hlines] at hk
        obtain ⟨f', hf'⟩ := h.ok.reference k l hk
        obtain rfl : f' = f := Option.some.inj ((hing.file hf').symm.trans hf)
        exact h.within.line k l f' hk hf' hs
    have hfill : Filling env scanId items db₁ :=
      ⟨hok₁, by rw [hing.scans]; exact h.building, hwithin⟩
    have hstep : ∀ (d : Db) (item : CoverageItem), item ∈ batch →
        (Filling env scanId items d ∧ d.facts.files = db₁.facts.files) →
        ∃ d', ingestItem env scanId d item = .ok d' ∧
          Filling env scanId items d' ∧ d'.facts.files = db₁.facts.files := by
      rintro d item hitem ⟨hd, hfiles⟩
      obtain ⟨d', hd', hfill', hfiles'⟩ := exists_ingestItem hc hd (hsub hitem)
        (hdistinct item (hsub hitem)) (by
          rw [hfiles]
          exact hstored _ (List.mem_map_of_mem hitem))
      exact ⟨d', hd', hfill', hfiles'.trans hfiles⟩
    obtain ⟨db₂, hdb₂, hfill₂, _⟩ := foldlM_progress
      (fun d => Filling env scanId items d ∧ d.facts.files = db₁.facts.files) hstep ⟨hfill, rfl⟩
    exact ⟨(db₂, _), by rw [ingestFileBatch, h.assertScanBuilding, ok_bind, if_neg hnil, hdb₁,
      ok_bind, hdb₂, ok_bind]; rfl, hfill₂⟩

end Progress

/-! ## Fresh scans -/

section Fresh

variable {env : Env} {scanId : Nat} {db db' : Db}

/-- A scan under construction without files. -/
structure Fresh (db : Db) (scanId : Nat) : Prop where
  /-- The constraints of the fact tables. -/
  ok : FactsOk db
  /-- The scan is under construction. -/
  building : ∃ scan, db.facts.scans.get? scanId = some scan ∧ scan.status.underConstruction = true
  /-- The scan has no file. -/
  noFile : ∀ k f, db.facts.files.get? k = some f → f.scanId ≠ scanId

theorem Fresh.within (h : Fresh db scanId) (items : List CoverageItem) :
    Within env scanId items db :=
  ⟨fun k f hk hs => absurd hs (h.noFile k f hk), fun _ _ f _ hf hs => absurd hs (h.noFile _ f hf)⟩

/-- **A fresh scan accepts the coherent inputs.** -/
theorem ingestBatches_isOk_iff (h : Fresh db scanId) {batches : List (List CoverageItem)}
    (hdistinct : ∀ item ∈ batches.flatten, (item.lines.map LineRecord.lineNumber).Nodup) :
    (∃ db', ingestBatches env db scanId batches = .ok db') ↔ Coherent env batches.flatten := by
  constructor
  · rintro ⟨db', hrun⟩
    exact coherent_of_ingestBatches h.ok hrun
  · intro hc
    have hstep : ∀ (d : Db) (batch : List CoverageItem), batch ∈ batches →
        Filling env scanId batches.flatten d →
        ∃ d', (ingestFileBatch env d scanId batch).map Prod.fst = .ok d' ∧
          Filling env scanId batches.flatten d' := by
      intro d batch hbatch hd
      obtain ⟨r, hr, hfill⟩ := exists_ingestFileBatch hc hd hdistinct
        fun item hitem => List.mem_flatten.2 ⟨batch, hbatch, hitem⟩
      exact ⟨r.1, by rw [hr]; rfl, hfill⟩
    obtain ⟨db', hdb', _⟩ := foldlM_progress (Filling env scanId batches.flatten) hstep
      ⟨h.ok, h.building, h.within _⟩
    exact ⟨db', hdb'⟩

/-- The same for one input in the batches of the service. -/
theorem ingestAll_isOk_iff (h : Fresh db scanId) {items : List CoverageItem}
    (hdistinct : ∀ item ∈ items, (item.lines.map LineRecord.lineNumber).Nodup) :
    (∃ db', ingestAll env db scanId items = .ok db') ↔ Coherent env items := by
  have hflat := Grouping.flatten_groups
    (fun current (_ : CoverageItem) => decide (fileIngestBatchSize ≤ current.length)) items
  have key : (∃ db', ingestAll env db scanId items = .ok db') ↔ Coherent env (Grouping.groups
      (fun current _ => decide (fileIngestBatchSize ≤ current.length)) items).flatten :=
    ingestBatches_isOk_iff h (by rw [hflat]; exact hdistinct)
  rwa [hflat] at key

/-- What a fresh scan holds after some batches: their items and nothing else. -/
theorem within_of_fresh (h : Fresh db scanId) {batches : List (List CoverageItem)}
    (hrun : ingestBatches env db scanId batches = .ok db') :
    Within env scanId batches.flatten db' ∧ ∀ item ∈ batches.flatten, Stores env scanId db' item :=
  have hspec := ingestBatches_spec h.ok hrun
  ⟨(h.within _).ingest h.ok hspec fun part hpart => ⟨part, hpart, rfl, List.Subset.refl _⟩,
    hspec.stores⟩

/-- **The lines of a fresh scan** are those of the input. -/
theorem mem_importedLines_of_fresh (h : Fresh db scanId) {items : List CoverageItem}
    (hrun : ingestAll env db scanId items = .ok db') {x : FileRow × LineFacts} :
    x ∈ importedLines db' scanId ↔ x ∈ inputLines env scanId items := by
  obtain ⟨hwithin, hstores⟩ := within_of_fresh h (ingestAll_eq items ▸ hrun)
  rw [Grouping.flatten_groups] at hwithin hstores
  obtain ⟨f, facts⟩ := x
  rw [mem_importedLines]
  simp only [inputLines, List.mem_flatMap, List.mem_map, Prod.mk.injEq]
  constructor
  · rintro ⟨q, l, hq, hf, hscan, rfl⟩
    obtain ⟨item, hitem, rfl, r, hr, hfacts⟩ := hwithin.line q l f hq hf hscan
    exact ⟨item, hitem, r, hr, rfl, hfacts.symm⟩
  · rintro ⟨item, hitem, r, hr, rfl, rfl⟩
    obtain ⟨k, hk, hlines⟩ := hstores item hitem
    obtain ⟨q, hq⟩ := hlines r hr
    exact ⟨q, _, hq, hk, rfl, rfl⟩

end Fresh

end ProjectService

/-- A scan that was just opened. -/
def Sample.openedDb : Db :=
  (ProjectService.createScan Sample.env Db.empty (Sample.identity "sha1") .building).toOption.getD
    Db.empty

theorem Sample.fresh_openedDb : ProjectService.Fresh Sample.openedDb 1 where
  ok := by
    have hfiles : Sample.openedDb.facts.files.rows = [] := by decide +kernel
    have hlines : Sample.openedDb.facts.lines.rows = [] := by decide +kernel
    refine ⟨Table.uniqueOn_of_rows (by rw [hfiles]; decide),
      Table.uniqueOn_of_rows (by rw [hlines]; decide), fun k l hl => ?_⟩
    have := Keyed.get?_eq_some_iff.1 hl
    rw [hlines] at this
    exact absurd this List.not_mem_nil
  building := by
    obtain ⟨scan, hscan⟩ := Option.isSome_iff_exists.1
      (show (Sample.openedDb.facts.scans.get? 1).isSome = true by decide +kernel)
    refine ⟨scan, hscan, ?_⟩
    have hstatus : ∀ s ∈ Sample.openedDb.facts.scans.get? 1,
        s.status.underConstruction = true := by decide +kernel
    exact hstatus scan hscan
  noFile := by
    have hfiles : Sample.openedDb.facts.files.rows = [] := by decide +kernel
    intro k f hk
    have := Keyed.get?_eq_some_iff.1 hk
    rw [hfiles] at this
    exact absurd this List.not_mem_nil

end FosCoverage
