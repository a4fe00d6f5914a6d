import FosCoverage.Analysis.Progress

/-!
# What the rows of `coverage_file_state` are worth

A row is computed from the lines of one file and from what is known of them, so it stays right as
long as these do.

* `authoritativeFileSummary` counts a file line by line; the grouped statement behind the rows gives
  the same counters (`authoritativeFileSummary_eq`).
* `RowsOk` says that the rows of a scan are those counters.
* The ready gate writes rows only, and only right ones: all of its scan (`gate_full`), or those of
  the files it is given, all others being left as they are (`gate_rows`).
* `Gated` is the shape of every analysis operation: some lines change, and the gate is given a list
  of files that has every one of them.  It keeps the rows of every scan right
  (`Gated.rowsOk`), whether the rebuild is incremental or not.
-/

set_option autoImplicit false

namespace FosCoverage

open Relational Outcome AnalysisDomainRepository FileStateRepository

/-! ## Counting a file line by line -/

deriving instance DecidableEq for LineReview

/-- `authoritative_file_summary`: the rows are those of lines of the file, if the file is one of the
scan. -/
def FileStateRepository.authoritativeFileSummary (db : Db) (scanId fileId : Nat) : Totals :=
  let rows := if ((db.facts.files.get? fileId).map FileRow.scanId) = some scanId then
    fileReviews db scanId fileId else []
  let uncovered := rows.filter LineReview.uncovered
  let confirmed := uncovered.filter fun r => !r.isDraft && confirmedStatuses.contains r.status
  let pending := uncovered.filter fun r => r ∉ confirmed
  let ordinaryPending := pending.filter fun r => r.link.isNone
  let inheritedPending := pending.filter fun r =>
    r.link.any fun q => q.reviewState = .inheritedPending
  let manualDraftPending := pending.filter fun r =>
    r.link.any fun q => q.reviewState ≠ .inheritedPending
  { totalLines := rows.length
    totalUncovered := uncovered.length
    filledTotal := (rows.filter fun r => r.status ≠ "").length
    draftTotal := (rows.filter LineReview.isDraft).length
    confirmedTotal := confirmed.length
    pendingTotal := pending.length
    ordinaryPendingTotal := ordinaryPending.length
    inheritedPendingTotal := inheritedPending.length
    manualDraftPendingTotal := manualDraftPending.length }

section Summary

variable (rows : List LineReview)

/-- The confirmed lines, as the summary filters them. -/
theorem filter_confirmed : (rows.filter LineReview.uncovered).filter (fun r =>
    !r.isDraft && confirmedStatuses.contains r.status) =
      rows.filter LineReview.countedConfirmed := by
  rw [List.filter_filter]
  refine List.filter_congr fun r _ => ?_
  rw [LineReview.countedConfirmed, LineReview.confirmed]
  cases r.uncovered <;> cases r.isDraft <;> cases confirmedStatuses.contains r.status <;> rfl

/-- The pending lines, as the summary filters them. -/
theorem filter_pending : (rows.filter LineReview.uncovered).filter (fun r =>
    r ∉ rows.filter LineReview.countedConfirmed) = rows.filter LineReview.countedPending := by
  rw [List.filter_filter]
  refine List.filter_congr fun r hr => ?_
  have hmem : (r ∉ rows.filter LineReview.countedConfirmed) ↔ r.countedConfirmed = false := by
    rw [List.mem_filter, not_and, Bool.not_eq_true]
    exact ⟨fun h => h hr, fun h _ => h⟩
  rw [Bool.eq_iff_iff, Bool.and_eq_true, decide_eq_true_eq, hmem, LineReview.countedPending_iff,
    and_comm]

theorem filter_ordinary : (rows.filter LineReview.countedPending).filter (fun r =>
    r.link.isNone) = rows.filter LineReview.ordinaryPending := by
  rw [List.filter_filter]
  refine List.filter_congr fun r _ => ?_
  rw [LineReview.countedPending, LineReview.ordinaryPending]
  cases r.uncovered <;> cases r.link.isNone <;> cases r.confirmed <;> rfl

theorem filter_inherited : (rows.filter LineReview.countedPending).filter (fun r =>
    r.link.any fun q => q.reviewState = .inheritedPending) =
      rows.filter LineReview.inheritedPending := by
  rw [List.filter_filter]
  refine List.filter_congr fun r _ => ?_
  -- an inherited relation is a draft, hence not confirmed
  have hconf := @LineReview.not_confirmed_of_inheritedPending r
  rw [LineReview.inheritedPending] at hconf
  rw [LineReview.countedPending, LineReview.inheritedPending]
  cases hu : r.uncovered
  · simp
  · cases hl : r.link.any fun q => decide (q.reviewState = .inheritedPending)
    · rfl
    · rw [hconf (by rw [hu, hl]; rfl)]
      rfl

theorem filter_manual : (rows.filter LineReview.countedPending).filter (fun r =>
    r.link.any fun q => q.reviewState ≠ .inheritedPending) =
      rows.filter LineReview.manualDraftPending := by
  rw [List.filter_filter]
  refine List.filter_congr fun r _ => ?_
  rw [LineReview.countedPending, LineReview.manualDraftPending]
  cases r.uncovered <;> cases r.confirmed <;>
    cases (r.link.any fun q => decide (q.reviewState ≠ .inheritedPending)) <;> rfl

end Summary

/-- **The grouped statement counts like the summary.** -/
theorem authoritativeFileSummary_eq {db : Db} {scanId fileId : Nat} {file : FileRow}
    (hf : db.facts.files.get? fileId = some file) (hs : file.scanId = scanId) :
    authoritativeFileSummary db scanId fileId = Totals.count (fileReviews db scanId fileId) := by
  simp only [authoritativeFileSummary, hf, hs, Option.map_some, if_pos, filter_confirmed,
    filter_pending, filter_ordinary, filter_inherited, filter_manual, Totals.count,
    List.countP_eq_length_filter]

/-- **Every uncovered line is confirmed or pending, and every pending line is pending of one
kind.** -/
theorem Totals.count_partition (rows : List LineReview) :
    (Totals.count rows).totalUncovered =
      (Totals.count rows).confirmedTotal + (Totals.count rows).pendingTotal ∧
    (Totals.count rows).pendingTotal = (Totals.count rows).ordinaryPendingTotal +
      (Totals.count rows).inheritedPendingTotal + (Totals.count rows).manualDraftPendingTotal := by
  simp only [Totals.count]
  induction rows with
  | nil => exact ⟨rfl, rfl⟩
  | cons r rows ih =>
    simp only [List.countP_cons]
    obtain ⟨h₁, h₂⟩ := ih
    cases hp : r.countedPending with
    | true =>
      obtain ⟨hu, hc⟩ := (LineReview.countedPending_iff r).1 hp
      rcases LineReview.pending_partition r hp with ⟨ho, hi, hm⟩ | ⟨ho, hi, hm⟩ | ⟨ho, hi, hm⟩ <;>
      · simp only [hu, hc, ho, hi, hm]
        constructor <;> simp only [if_true, Bool.false_eq_true, if_false] <;> omega
    | false =>
      have hkinds : r.ordinaryPending = false ∧ r.inheritedPending = false ∧
          r.manualDraftPending = false := by
        have hi := @LineReview.not_confirmed_of_inheritedPending r
        revert hp hi
        simp only [LineReview.countedPending, LineReview.ordinaryPending,
          LineReview.inheritedPending, LineReview.manualDraftPending]
        cases r.uncovered <;> cases r.confirmed <;> simp
      have hu : r.uncovered = r.countedConfirmed := by
        revert hp
        simp only [LineReview.countedPending, LineReview.countedConfirmed]
        cases r.uncovered <;> cases r.confirmed <;> simp
      obtain ⟨ho, hi, hm⟩ := hkinds
      simp only [hu, ho, hi, hm, Bool.false_eq_true, if_false]
      constructor <;> omega

/-! ## The rows of a scan -/

/-- The row of every file of the scan has the counters of the file. -/
def RowsOk (db : Db) (scanId : Nat) : Prop :=
  ∀ f file, db.facts.files.get? f = some file → file.scanId = scanId →
    (db.fileStates.get? (scanId, f)).map FileState.totals =
      some (Totals.count (fileReviews db scanId f))

theorem mem_filesOf {db : Db} {scanId : Nat} {fileIds : Option (List Nat)} {f : Nat}
    {file : FileRow} : (f, file) ∈ filesOf db scanId fileIds ↔
      db.facts.files.get? f = some file ∧ file.scanId = scanId ∧ ∀ ids ∈ fileIds, f ∈ ids := by
  rw [filesOf, Keyed.mem_select, ← Keyed.get?_eq_some_iff, decide_eq_true_eq]

theorem nodup_filesOf (db : Db) (scanId : Nat) (fileIds : Option (List Nat)) :
    ((filesOf db scanId fileIds).map Prod.fst).Nodup :=
  (List.filter_sublist.map Prod.fst).nodup db.facts.files.nodup

/-- The files of a scan and what is known of their lines are as in `db`. -/
structure SameInputs (db db' : Db) (scanId : Nat) : Prop where
  /-- The files. -/
  file : ∀ f file, file.scanId = scanId →
    (db'.facts.files.get? f = some file ↔ db.facts.files.get? f = some file)
  /-- The lines of the files. -/
  reviews : ∀ f file, db.facts.files.get? f = some file → file.scanId = scanId →
    fileReviews db' scanId f = fileReviews db scanId f

namespace SameInputs

variable {db db' : Db} {scanId : Nat}

/-- The rows of a file depend on its lines and on the domain. -/
theorem of_domain (hf : db'.facts = db.facts) (hd : db'.domain = db.domain) :
    SameInputs db db' scanId := by
  refine ⟨fun f file _ => by rw [hf], fun f file _ _ => ?_⟩
  unfold fileReviews Db.lineReview Db.activeLink
  rw [hf, hd]

theorem rowsOk (h : SameInputs db db' scanId) (hrows : RowsOk db scanId)
    (hs : ∀ f, db'.fileStates.get? (scanId, f) = db.fileStates.get? (scanId, f)) :
    RowsOk db' scanId := by
  intro f file hf hscan
  have hf₀ := (h.file f file hscan).1 hf
  rw [hs, h.reviews f file hf₀ hscan]
  exact hrows f file hf₀ hscan

end SameInputs

/-! ## The ready gate -/

/-- The rows a rebuild writes. -/
def FileStateRepository.rebuiltRows (db : Db) (scanId dataVersion : Nat)
    (fileIds : Option (List Nat)) : List ((Nat × Nat) × FileState) :=
  (filesOf db scanId fileIds).map fun f =>
    ((scanId, f.1), ⟨Totals.count (fileReviews db scanId f.1), dataVersion⟩)

section Rebuild

variable {db : Db} {scanId dataVersion : Nat} {fileIds : Option (List Nat)}

theorem nodup_rebuiltRows :
    ((rebuiltRows db scanId dataVersion fileIds).map Prod.fst).Nodup := by
  rw [rebuiltRows, List.map_map]
  have h := (nodup_filesOf db scanId fileIds).map (f := fun f => (scanId, f))
    fun a b hab => (Prod.mk.inj hab).2
  rwa [List.map_map] at h

/-- A rebuild writes its rows, and drops none of a file of the scan. -/
theorem get?_rebuildScan {s f : Nat}
    (hkeep : s = scanId → ∃ file, db.facts.files.get? f = some file ∧ file.scanId = scanId) :
    (rebuildScan db scanId dataVersion fileIds).fileStates.get? (s, f) =
      ((rebuiltRows db scanId dataVersion fileIds).foldl (fun t r => t.put r.1 r.2)
        db.fileStates).get? (s, f) := by
  unfold rebuildScan rebuiltRows
  rw [List.foldl_map]
  split
  · rfl
  · rw [Keyed.get?_deleteWhere]
    have hnot : ¬ (s = scanId ∧ ∀ x ∈ filesOf db scanId none, x.1 ≠ f) := by
      rintro ⟨hs, hall⟩
      obtain ⟨file, hf, hscan⟩ := hkeep hs
      exact hall (f, file) (mem_filesOf.2 ⟨hf, hscan, by simp⟩) rfl
    rw [decide_eq_false hnot]
    generalize Keyed.get? _ (s, f) = row
    cases row <;> rfl

/-- The rows of other scans, and of files that are not selected, stay. -/
theorem get?_rebuildScan_of_ne {s f : Nat}
    (hkeep : s = scanId → ∃ file, db.facts.files.get? f = some file ∧ file.scanId = scanId)
    (hne : s = scanId → ∃ ids ∈ fileIds, f ∉ ids) :
    (rebuildScan db scanId dataVersion fileIds).fileStates.get? (s, f) =
      db.fileStates.get? (s, f) := by
  rw [get?_rebuildScan hkeep]
  refine Keyed.get?_puts_of_ne _ fun r hr he => ?_
  obtain ⟨⟨f', file⟩, hmem, rfl⟩ := List.mem_map.1 hr
  obtain ⟨hs, rfl⟩ := Prod.mk.inj he
  obtain ⟨ids, hids, hnot⟩ := hne hs.symm
  exact hnot ((mem_filesOf.1 hmem).2.2 ids hids)

/-- The row of a selected file is computed. -/
theorem get?_rebuildScan_of_mem {f : Nat} {file : FileRow}
    (hf : db.facts.files.get? f = some file) (hs : file.scanId = scanId)
    (hsel : ∀ ids ∈ fileIds, f ∈ ids) :
    (rebuildScan db scanId dataVersion fileIds).fileStates.get? (scanId, f) =
      some ⟨Totals.count (fileReviews db scanId f), dataVersion⟩ := by
  rw [get?_rebuildScan fun _ => ⟨file, hf, hs⟩]
  exact Keyed.get?_puts_of_mem db.fileStates nodup_rebuiltRows
    (List.mem_map.2 ⟨(f, file), mem_filesOf.2 ⟨hf, hs, hsel⟩, rfl⟩)

end Rebuild

/-- The rows after a passed gate over the files `affected` of a scan. -/
structure GateRows (db : Db) (scanId : Nat) (affected : Option (List Nat)) (db' : Db) : Prop where
  /-- The rows of other scans stay. -/
  other : ∀ s f, s ≠ scanId → db'.fileStates.get? (s, f) = db.fileStates.get? (s, f)
  /-- A file of the scan has its counters, or it is not affected and keeps its row. -/
  file : ∀ f file, db.facts.files.get? f = some file → file.scanId = scanId →
    (db'.fileStates.get? (scanId, f)).map FileState.totals =
        some (Totals.count (fileReviews db scanId f)) ∨
      ∃ ids ∈ affected, f ∉ ids ∧
        db'.fileStates.get? (scanId, f) = db.fileStates.get? (scanId, f)

/-- **What a passed gate does to the rows.** -/
theorem FileStateService.gate_rows {db db' : Db} {projectId scanId dataVersion : Nat}
    {affected : Option (List Nat)} {previousReady : Bool}
    (h : rebuildValidateAndMarkReadyInTransaction db projectId scanId dataVersion affected
      previousReady = .ok db') : GateRows db scanId affected db' := by
  simp only [rebuildValidateAndMarkReadyInTransaction, bind_eq_ok, pure_eq_ok] at h
  obtain ⟨_, _, _, _, rfl⟩ := h
  generalize hsel : (if (affected.map normalizedFileIds).isSome && previousReady &&
    fileStateCompleteness db scanId (dataVersion - 1) none false then
      affected.map normalizedFileIds else none) = selected
  -- up to the state of the project the gate is a rebuild of the selected files
  have hin : ∀ f, fileReviews (ProjectStateRepository.invalidate db projectId) scanId f =
      fileReviews db scanId f := by
    intro f
    unfold fileReviews Db.lineReview Db.activeLink
    simp [ProjectStateRepository.invalidate]
  have hfacts : (ProjectStateRepository.invalidate db projectId).facts = db.facts := by
    simp [ProjectStateRepository.invalidate]
  have hrows : (ProjectStateRepository.invalidate db projectId).fileStates = db.fileStates := by
    simp [ProjectStateRepository.invalidate]
  constructor
  · intro s f hne
    simp only [ProjectStateRepository.markReady, ProjectStateRepository.fileStates_modify]
    rw [get?_rebuildScan_of_ne (fun hs => absurd hs hne) fun hs => absurd hs hne, hrows]
  · intro f file hf hs
    simp only [ProjectStateRepository.markReady, ProjectStateRepository.fileStates_modify]
    rw [← hfacts] at hf
    by_cases hmem : ∀ ids ∈ selected, f ∈ ids
    · left
      rw [get?_rebuildScan_of_mem hf hs hmem, Option.map_some, hin]
    · right
      push Not at hmem
      obtain ⟨ids, hids, hnot⟩ := hmem
      rw [get?_rebuildScan_of_ne (fun _ => ⟨file, hf, hs⟩) (fun _ => ⟨ids, hids, hnot⟩), hrows]
      rw [← hsel] at hids
      split at hids
      · obtain ⟨ids₀, haff, rfl⟩ := Option.map_eq_some_iff.1 hids
        refine ⟨ids₀, haff, fun hin => hnot ?_, rfl⟩
        rw [normalizedFileIds, List.mem_dedup, List.mem_filter]
        exact ⟨hin, by simpa using (Table.get?_issued hf).1⟩
      · cases hids

/-- **A full gate leaves the right rows, whatever they were before.** -/
theorem FileStateService.gate_full {db db' : Db} {projectId scanId dataVersion : Nat}
    {previousReady : Bool} (h : rebuildValidateAndMarkReadyInTransaction db projectId scanId
      dataVersion none previousReady = .ok db') : RowsOk db' scanId := by
  have hreb := rebuilt_of_ok h
  have hsame : SameInputs db db' scanId := .of_domain hreb.facts hreb.domain
  intro f file hf hs
  rw [hreb.facts] at hf
  rw [hsame.reviews f file hf hs]
  rcases (gate_rows h).file f file hf hs with hrow | ⟨ids, hids, _⟩
  · exact hrow
  · cases hids

/-! ## Analysis operations -/

/-- Nothing that counts is known differently of the line. -/
def SameReview (db db' : Db) (scanId lineId : Nat) : Prop :=
  ∀ line, db'.lineReview scanId lineId line = db.lineReview scanId lineId line

/-- The relation of a line, the record of that and its legacy row are all that is known of it. -/
theorem SameReview.of_rows {db db' : Db} {s l : Nat}
    (hl : db'.activeLink s l = db.activeLink s l)
    (ha : db'.domain.analyses.get? l = db.domain.analyses.get? l)
    (hr : ∀ k q, db.activeLink s l = some (k, q) →
      db'.domain.records.get? q.recordId = db.domain.records.get? q.recordId) :
    SameReview db db' s l := by
  intro line
  unfold Db.lineReview
  rw [hl, ha]
  cases hq : db.activeLink s l with
  | none => rfl
  | some r => simp only [Option.map_some, Option.bind_some, hr r.1 r.2 hq]

/-- An operation on a scan that ends in a passed gate: some lines are known differently afterwards,
all of them lines of files the gate is given. -/
structure Gated (db : Db) (projectId scanId : Nat) (db' : Db) : Prop where
  /-- The gate, and the lines that differ. -/
  gate : ∃ db₁ version affected ready,
    FileStateService.rebuildValidateAndMarkReadyInTransaction db₁ projectId scanId version
      (some affected) ready = .ok db' ∧
    db₁.facts = db.facts ∧ db₁.fileStates = db.fileStates ∧
    ∀ s l line, lineOfScan db s l = some line →
      SameReview db db' s l ∨ (s = scanId ∧ line.fileId ∈ affected)

/-- **An operation that names the files it touches keeps the rows of every scan right.** -/
theorem Gated.rowsOk {db db' : Db} {projectId scanId s : Nat} (h : Gated db projectId scanId db')
    (hrows : RowsOk db s) : RowsOk db' s := by
  obtain ⟨db₁, version, affected, ready, hgate, hfacts, hstates, hlines⟩ := h.gate
  have hreb := FileStateService.rebuilt_of_ok hgate
  have hg := FileStateService.gate_rows hgate
  have hafter : ∀ f, fileReviews db' s f = fileReviews db₁ s f := by
    intro f
    unfold fileReviews Db.lineReview Db.activeLink
    rw [hreb.facts, hreb.domain]
  -- a file none of whose lines is known differently
  have hkept : ∀ f file, db.facts.files.get? f = some file → file.scanId = s →
      (s = scanId → f ∉ affected) → fileReviews db' s f = fileReviews db s f := by
    intro f file hf hscan hnot
    unfold fileReviews
    rw [hreb.facts, hfacts]
    refine List.map_congr_left fun l hl => ?_
    obtain ⟨hmem, hfile⟩ := Keyed.mem_select.1 hl
    rw [decide_eq_true_eq] at hfile
    have hline : lineOfScan db s l.1 = some l.2 := AnalysisService.lineOfScan_eq_some.2
      ⟨Keyed.get?_eq_some_iff.2 hmem, file, by rw [hfile]; exact hf, hscan⟩
    rcases hlines s l.1 l.2 hline with hsame | ⟨hs, haff⟩
    · exact hsame l.2
    · rw [hfile] at haff
      exact absurd haff (hnot hs)
  intro f file hf hscan
  rw [hreb.facts, hfacts] at hf
  by_cases hs : s = scanId
  · subst hs
    rcases hg.file f file (by rw [hfacts]; exact hf) hscan with hrow | ⟨ids, hids, hnot, hrow⟩
    · rw [hafter]
      exact hrow
    · obtain rfl := Option.some.inj hids
      rw [hrow, hstates, hkept f file hf hscan fun _ => hnot]
      exact hrows f file hf hscan
  · rw [hg.other s f hs, hstates, hkept f file hf hscan fun he => absurd he hs]
    exact hrows f file hf hscan

/-- The file of a line that is looked up is among the affected ones. -/
theorem mem_fileIdsForLines {db : Db} {scanId l : Nat} {line : LineRow} {ids : List Nat}
    (hl : lineOfScan db scanId l = some line) (hmem : l ∈ ids) :
    line.fileId ∈ fileIdsForLines db scanId ids := by
  obtain ⟨hline, file, hf, hs⟩ := AnalysisService.lineOfScan_eq_some.1 hl
  refine List.mem_map.2 ⟨(line.fileId, file), List.mem_filter.2 ⟨?_, ?_⟩, rfl⟩
  · exact mem_filesOf.2 ⟨hf, hs, by simp⟩
  · exact List.any_eq_true.2 ⟨(l, line), Keyed.get?_eq_some_iff.1 hline, by simp [hmem]⟩

section Operations

variable {env : Env} {db db' : Db}

/-- The files a save hands to the gate are those of its lines. -/
theorem AnalysisService.saveDomainRecords_files {scanId : Nat} {resolved : List Resolved}
    {files : List Nat} (h : saveDomainRecords db scanId resolved = .ok (db', files)) :
    ∀ r ∈ resolved, r.fileId ∈ files := by
  simp only [saveDomainRecords, bind_eq_ok] at h
  obtain ⟨found, hfound, _, _, h⟩ := h
  generalize assignRecords _ _ = assigned at h
  obtain ⟨⟨_, _⟩, _, _, _, hpair⟩ := h
  obtain ⟨_, rfl⟩ := Prod.mk.inj (pure_eq_ok.1 hpair)
  intro r hr
  obtain ⟨plan, hplan, hrp⟩ := (plans_ok hfound).2 r hr
  rw [List.mem_dedup]
  exact List.mem_flatMap.2 ⟨plan, hplan, List.mem_map_of_mem hrp⟩

/-- The legacy row of a line outside of the save. -/
theorem AnalysisService.SaveTrace.get?_analyses_of_ne {tr : SaveTrace} {scanId l : Nat}
    (h : l ∉ tr.resolved.map Resolved.lineId) :
    (tr.domain db scanId).analyses.get? l = db.domain.analyses.get? l := by
  refine Keyed.get?_puts_of_ne db.domain.analyses fun r hr he => h ?_
  obtain ⟨x, hx, rfl⟩ := List.mem_map.1 hr
  exact List.mem_map.2 ⟨x, hx, he⟩

theorem AnalysisService.Saved.sameReview {scanId : Nat} {records : List Item} {reviewer : String}
    {tr : SaveTrace} (h : Saved db scanId records reviewer tr) (hi : LinksOk db)
    (hd : db'.domain = tr.domain db scanId) {s l : Nat}
    (hout : l ∉ tr.resolved.map Resolved.lineId) : SameReview db db' s l := by
  have hout' : ¬ (s = scanId ∧ l ∈ tr.resolved.map Resolved.lineId) := fun hs => hout hs.2
  refine SameReview.of_rows (h.activeLink_of_ne hd hout') ?_ fun k q hq => ?_
  · rw [hd]
    exact tr.get?_analyses_of_ne hout
  · obtain ⟨hk, rfl, rfl, hact⟩ := activeLink_some hq
    obtain ⟨rec, hrec⟩ := Option.isSome_iff_exists.1 (hi.record k q hk)
    rw [hrec, hd]
    exact tr.get?_records_of_ne hrec (h.not_edited hi hk hact hout')

theorem AnalysisService.save_gated {projectName reviewer : String} {scanId : Nat}
    {records : List Item} {enforceCurrent : Bool} (hi : LinksOk db) (hne : records ≠ [])
    (h : save env db projectName scanId records reviewer enforceCurrent = .ok db') :
    ∃ projectId, Gated db projectId scanId db' := by
  simp only [save, bind_eq_ok, orFail_eq_ok, if_neg hne] at h
  obtain ⟨projectId, _, scan, _, _, _, _, _, resolved, hres, _, _, ⟨db₁, files⟩, hsave, hgate⟩ := h
  obtain ⟨states, hstates⟩ := ProjectStateRepository.ensure_eq db projectId
  simp only [ProjectStateRepository.lockForUpdate, hstates] at hres hsave hgate
  have hfiles := saveDomainRecords_files hsave
  obtain ⟨tr, rfl, hsaved, rfl⟩ := saveDomainRecords_ok (resolveRecords_ok hres) hsave
  have hsaved := hsaved.of_states
  have hdomain : db'.domain = tr.domain db scanId := by
    rw [(FileStateService.rebuilt_of_ok hgate).domain]
    simp only [ProjectStateRepository.advance, ProjectStateRepository.domain_modify]
    rfl
  refine ⟨projectId, _, _, files, _, hgate, ?_, ?_, fun s l line hline => ?_⟩
  · simp only [ProjectStateRepository.advance, ProjectStateRepository.facts_modify]
    rfl
  · simp only [ProjectStateRepository.advance, ProjectStateRepository.fileStates_modify]
    rfl
  · by_cases hmem : l ∈ tr.resolved.map Resolved.lineId
    · obtain ⟨r, hr, rfl⟩ := List.mem_map.1 hmem
      obtain ⟨line', hline', hfile, _⟩ := (hsaved.resolve.lineOk r hr).line
      obtain rfl : s = scanId := scan_of_line (by rw [hline]; rfl) (by rw [hline']; rfl)
      obtain rfl : line = line' := Option.some.inj (hline.symm.trans hline')
      exact .inr ⟨rfl, hfile ▸ hfiles r hr⟩
    · exact .inl (hsaved.sameReview hi hdomain hmem)

namespace InheritanceReviewService

/-- An operation on single relations: records and legacy rows stay, and the relation of every line
it does not name. -/
theorem gated_of_finish {db₁ : Db} {projectId scanId : Nat} {state : ProjectState}
    {lineIds : List Nat} (h : finish db₁ projectId scanId state
      (fileIdsForLines db scanId lineIds) = .ok db')
    (hf : db₁.facts = db.facts) (hs : db₁.fileStates = db.fileStates)
    (hr : db'.domain.records = db.domain.records)
    (ha : db'.domain.analyses = db.domain.analyses)
    (hl : ∀ s l line, lineOfScan db s l = some line → ¬ (s = scanId ∧ l ∈ lineIds) →
      db'.activeLink s l = db.activeLink s l) : Gated db projectId scanId db' := by
  refine ⟨_, _, _, _, h, ?_, ?_, fun s l line hline => ?_⟩
  · rw [ProjectStateRepository.advance, ProjectStateRepository.facts_modify, hf]
  · rw [ProjectStateRepository.advance, ProjectStateRepository.fileStates_modify, hs]
  · by_cases hin : s = scanId ∧ l ∈ lineIds
    · obtain ⟨rfl, hmem⟩ := hin
      exact .inr ⟨rfl, mem_fileIdsForLines hline hmem⟩
    · refine .inl (SameReview.of_rows (hl s l line hline hin) (by rw [ha]) fun k q _ => ?_)
      rw [hr]

theorem confirm_gated {projectId scanId : Nat} {selected : List Nat}
    {expectedMap : List (Nat × Nat)} {default : Option Nat} {reviewer : String} (hi : LinksOk db)
    (h : confirm db projectId scanId selected expectedMap default reviewer = .ok db') :
    Gated db projectId scanId db' := by
  obtain ⟨_, hother⟩ := confirm_links hi h
  obtain ⟨⟨hrec, han⟩, _⟩ := confirm_inv h (fun d => d.records = db.domain.records ∧
    d.analyses = db.domain.analyses) (by
      rintro d l d' _ _ ⟨h₁, h₂⟩ ⟨id, q, _, _, rfl⟩
      exact ⟨h₁, h₂⟩) ⟨rfl, rfl⟩
  simp only [confirm, bind_eq_ok] at h
  obtain ⟨_, _, _, _, ⟨db₁, state⟩, hcur, db₂, hfold, hfin⟩ := h
  obtain ⟨_, _, ⟨states, rfl⟩, _⟩ := assertCurrent_ok hcur
  have hframe : db₂.facts = db.facts ∧ db₂.fileStates = db.fileStates := by
    refine foldlM_inv (s := { db with states := states })
      (fun d : Db => d.facts = db.facts ∧ d.fileStates = db.fileStates) ?_ ⟨rfl, rfl⟩ hfold
    intro d l d' _ hd hok
    obtain ⟨id, q, _, _, rfl⟩ := confirmStep_of_ok hok
    exact hd
  refine gated_of_finish hfin hframe.1 hframe.2 hrec han fun s l line hline hne => ?_
  refine hother s l fun hin => hne ⟨hin.1, List.mem_filter.2 ⟨hin.2, ?_⟩⟩
  have hpos := (Table.get?_issued (AnalysisService.lineOfScan_eq_some.1 hline).1).1
  simpa using Nat.pos_iff_ne_zero.1 hpos

theorem reject_gated {projectId scanId lineId expected : Nat} {rejectedBy : String}
    (h : reject db projectId scanId lineId rejectedBy expected = .ok db') :
    Gated db projectId scanId db' := by
  obtain ⟨id, q, hq, _, hdom, _⟩ := reject_ok h
  obtain ⟨hget, hs, hl, _⟩ := activeLink_some hq
  simp only [reject, bind_eq_ok] at h
  obtain ⟨⟨db₁, state⟩, hcur, _, _, _, _, _, _, hfin⟩ := h
  obtain ⟨_, _, ⟨states, rfl⟩, _⟩ := assertCurrent_ok hcur
  refine gated_of_finish hfin rfl rfl (by rw [hdom]) (by rw [hdom]) fun s l line _ hne => ?_
  refine activeLink_setLink_of_ne keeps_rejected (by rw [hdom]) hget fun hsame => hne ?_
  exact ⟨hsame.1.trans hs, by rw [hsame.2, hl]; exact List.mem_singleton.2 rfl⟩

theorem undo_gated {projectId scanId lineId rejectionId er el : Nat} (hi : Integrity db)
    (h : undo db projectId scanId lineId rejectionId er el = .ok db') :
    Gated db projectId scanId db' := by
  obtain ⟨x, q, hx, hs, hl, _, hget, _, hdom, _⟩ := undo_ok h
  obtain ⟨q', hq', hs', hl'⟩ := hi.rejection _ x hx
  obtain rfl : q = q' := Option.some.inj (hget.symm.trans hq')
  simp only [undo, bind_eq_ok] at h
  obtain ⟨⟨db₁, state⟩, hcur, _, _, _, _, _, _, _, _, _, _, _, _, hfin⟩ := h
  obtain ⟨_, _, ⟨states, rfl⟩, _⟩ := assertCurrent_ok hcur
  refine gated_of_finish hfin rfl rfl (by rw [hdom]) (by rw [hdom]) fun s l line _ hne => ?_
  refine activeLink_setLink_of_ne keeps_restored (by rw [hdom]) hget fun hsame => hne ?_
  exact ⟨hsame.1.trans (hs'.trans hs), by rw [hsame.2, hl', hl]; exact List.mem_singleton.2 rfl⟩

end InheritanceReviewService

/-- **Every analysis operation keeps the rows of every scan right.** -/
theorem Mutation.rowsOk {m : Mutation} (hi : Integrity db) (h : m.apply env db = .ok db') {s : Nat}
    (hrows : RowsOk db s) : RowsOk db' s := by
  have save : ∀ {projectName reviewer : String} {scanId : Nat}
      {records : List AnalysisService.Item} {enforceCurrent : Bool},
      AnalysisService.save env db projectName scanId records reviewer enforceCurrent = .ok db' →
      RowsOk db' s := by
    intro projectName reviewer scanId records enforceCurrent h
    by_cases hne : records = []
    · subst hne
      obtain ⟨p, rfl⟩ := AnalysisService.save_nil h
      exact (SameInputs.of_domain (by simp) (by simp)).rowsOk hrows fun f => by simp
    · obtain ⟨p, hg⟩ := AnalysisService.save_gated hi.toLinksOk hne h
      exact hg.rowsOk hrows
  cases m with
  | save => exact save h
  | editConfirm => exact save h
  | confirm => exact (InheritanceReviewService.confirm_gated hi.toLinksOk h).rowsOk hrows
  | reject => exact (InheritanceReviewService.reject_gated h).rowsOk hrows
  | undo => exact (InheritanceReviewService.undo_gated hi h).rowsOk hrows

end Operations

end FosCoverage
