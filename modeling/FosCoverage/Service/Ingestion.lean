import FosCoverage.Service.ProjectSpec

/-!
# What ingestion stores

`Service.ProjectSpec` says that an ingestion only adds rows.  Here is which rows: those of the input,
each once.

* `FactsOk` has the keys of the schema: a file is identified by its scan, repository and path hash, a
  line by its file and number, and a line names a file.
* `Stores` says that a file of the input is there with all its lines, `Within` that everything the
  scan has is in the input.
* `ingestFileBatch_spec`: after a batch the keys are as before, the items of the batch are stored, and
  every new row is one of theirs.
* `imported_perm`: a scan that stores the whole input and nothing else has the files and lines of the
  input, each exactly once.
-/

set_option autoImplicit false

namespace FosCoverage

open Relational Outcome

/-! ## Keys -/

/-- The identity of a file. -/
def FileRow.key (f : FileRow) : Nat × String × String := (f.scanId, f.repositoryName, f.filePathHash)

/-- The identity of a line. -/
def LineRow.key (l : LineRow) : Nat × Nat := (l.fileId, l.facts.lineNumber)

/-- The constraints of the fact tables. -/
structure FactsOk (db : Db) : Prop where
  /-- Two files have two identities. -/
  file : db.facts.files.UniqueOn FileRow.key
  /-- Two lines have two identities. -/
  line : db.facts.lines.UniqueOn LineRow.key
  /-- A line is a line of a file. -/
  reference : ∀ k l, db.facts.lines.get? k = some l → ∃ f, db.facts.files.get? l.fileId = some f

namespace FactsOk

variable {db db' : Db}

theorem empty : FactsOk Db.empty := by
  refine ⟨?_, ?_, ?_⟩ <;> intro k <;> simp [Db.empty]

theorem congr (h : FactsOk db) (hf : db'.facts.files = db.facts.files)
    (hl : db'.facts.lines = db.facts.lines) : FactsOk db' := by
  refine ⟨by rw [hf]; exact h.file, by rw [hl]; exact h.line, ?_⟩
  rw [hf, hl]
  exact h.reference

end FactsOk

/-! ## Files -/

namespace ProjectRepository

/-- The identity of a file within its scan. -/
def FileItem.identity (item : FileItem) : String × String := (item.repositoryName, item.filePathHash)

theorem getFile_some {db : Db} {scanId k : Nat} {repositoryName hash : String} {f : FileRow}
    (h : getFile db scanId repositoryName hash = some (k, f)) :
    db.facts.files.get? k = some f ∧ f.key = (scanId, repositoryName, hash) := by
  refine ⟨Keyed.get?_eq_some_iff.2 (List.mem_of_find?_eq_some h), ?_⟩
  have := List.find?_some h
  simp only [decide_eq_true_eq] at this
  obtain ⟨h₁, h₂, h₃⟩ := this
  rw [FileRow.key, h₁, h₂, h₃]

theorem getFile_none {db : Db} {scanId k : Nat} {repositoryName hash : String} {f : FileRow}
    (h : (getFile db scanId repositoryName hash).isNone = true)
    (hk : db.facts.files.get? k = some f) : f.key ≠ (scanId, repositoryName, hash) := by
  intro he
  rw [Option.isNone_iff_eq_none] at h
  have := List.find?_eq_none.1 h (k, f) (Keyed.get?_eq_some_iff.1 hk)
  simp only [FileRow.key, Prod.mk.injEq] at he
  simp [he] at this

/-- The dictionary of a list of files has every file, and no identity twice. -/
theorem normalized_spec {items normalized : List FileItem}
    (h : items.foldlM normalizeFile [] = .ok normalized) :
    (normalized.map FileItem.identity).Nodup ∧ (∀ item ∈ normalized, item ∈ items) ∧
      ∀ item ∈ items, item ∈ normalized := by
  have step : ∀ seen item seen', item ∈ items →
      ((seen.map FileItem.identity).Nodup ∧ ∀ s ∈ seen, s ∈ items) →
      normalizeFile seen item = .ok seen' →
      ((seen'.map FileItem.identity).Nodup ∧ ∀ s ∈ seen', s ∈ items) ∧ item ∈ seen' ∧
        ∀ s, s ∈ seen → s ∈ seen' := by
    rintro seen item seen' hitem ⟨hn, hin⟩ hok
    simp only [normalizeFile, bind_eq_ok] at hok
    obtain ⟨_, _, hok⟩ := hok
    split at hok
    · rename_i known hknown
      simp only [bind_eq_ok, require_eq_ok, pure_eq_ok] at hok
      obtain ⟨_, rfl, rfl⟩ := hok
      exact ⟨⟨hn, hin⟩, List.mem_of_find?_eq_some hknown, fun _ hs => hs⟩
    · rename_i hnone
      obtain rfl := pure_eq_ok.1 hok
      refine ⟨⟨?_, ?_⟩, by simp, fun s hs => List.mem_append.2 (.inl hs)⟩
      · rw [List.map_append, List.nodup_append]
        refine ⟨hn, by simp, ?_⟩
        rintro i hi i' hi' rfl
        obtain ⟨s, hs, he⟩ := List.mem_map.1 hi
        have hne := List.find?_eq_none.1 hnone s hs
        simp only [List.map_cons, List.map_nil, List.mem_singleton] at hi'
        simp only [FileItem.identity, Prod.mk.injEq, hi'] at he
        simp [he] at hne
      · intro s hs
        rcases List.mem_append.1 hs with hs | hs
        · exact hin s hs
        · exact List.mem_singleton.1 hs ▸ hitem
  have start : (([] : List FileItem).map FileItem.identity).Nodup ∧
      ∀ s ∈ ([] : List FileItem), s ∈ items := ⟨by simp, by simp⟩
  obtain ⟨hn, hin⟩ := foldlM_inv
    (fun seen => (seen.map FileItem.identity).Nodup ∧ ∀ s ∈ seen, s ∈ items)
    (fun seen item seen' hi hs hok => (step seen item seen' hi hs hok).1) start h
  exact ⟨hn, hin, foldlM_each _ (fun item seen => item ∈ seen)
    (fun seen item seen' hi hs hok => ⟨(step seen item seen' hi hs hok).1,
      (step seen item seen' hi hs hok).2.1, fun j => (step seen item seen' hi hs hok).2.2 j⟩)
    start h⟩

/-- **What `ensure_files` leaves**: every file is there, and every new one was asked for. -/
theorem ensureFiles_spec {db db' : Db} {scanId : Nat} {items : List FileItem} (hok : FactsOk db)
    (h : ensureFiles db scanId items = .ok db') :
    FactsOk db' ∧ (∀ item ∈ items, ∃ k, db'.facts.files.get? k = some (item.row scanId)) ∧
      ∀ k f, db'.facts.files.get? k = some f → db.facts.files.get? k = none →
        ∃ item ∈ items, f = item.row scanId := by
  have hgrow := (ensureFiles_ok h).1
  simp only [ensureFiles, bind_eq_ok, pure_eq_ok, forM_eq_ok] at h
  obtain ⟨_, _, normalized, hnorm, _, hcheck, rfl⟩ := h
  obtain ⟨hn, hin, hall⟩ := normalized_spec hnorm
  refine ⟨⟨?_, hok.line, fun k l hl => ?_⟩, fun item hitem => ?_, fun k f hk hnew => ?_⟩
  · refine hok.file.insertMany ?_ ?_
    · rw [List.map_map, List.nodup_map_iff_inj_on]
      · intro a ha b hb he
        simp only [Function.comp_apply, FileRow.key, FileItem.row, Prod.mk.injEq, true_and] at he
        refine List.inj_on_of_nodup_map hn (List.mem_filter.1 ha).1 (List.mem_filter.1 hb).1 ?_
        rw [FileItem.identity, FileItem.identity, he.1, he.2]
      · exact (hn.of_map _).filter _
    · intro a ha k b hb
      obtain ⟨item, hitem, rfl⟩ := List.mem_map.1 ha
      exact getFile_none (List.mem_filter.1 hitem).2 hb
  · obtain ⟨f, hf⟩ := hok.reference k l hl
    exact ⟨f, hgrow.file hf⟩
  · have hnormal := hall item hitem
    cases hget : getFile db scanId item.repositoryName item.filePathHash with
    | none =>
      refine Table.exists_get?_insertMany (List.mem_map_of_mem (List.mem_filter.2 ⟨hnormal, ?_⟩))
      rw [hget]
      rfl
    | some r =>
      obtain ⟨k, f⟩ := r
      obtain ⟨hk, hkey⟩ := getFile_some hget
      have hc := hcheck item hnormal
      simp only [assertFileIdentity, hget, require_eq_ok] at hc
      refine ⟨k, hgrow.file ?_⟩
      rw [hk, FileItem.row]
      simp only [FileRow.key, Prod.mk.injEq] at hkey
      obtain ⟨s, rn, hash, path, name⟩ := f
      simp_all
  · rcases Table.get?_insertMany_cases hk with hold | ⟨_, hmem⟩
    · rw [hnew] at hold
      cases hold
    · obtain ⟨item, hitem, rfl⟩ := List.mem_map.1 hmem
      exact ⟨item, hin item (List.mem_filter.1 hitem).1, rfl⟩

end ProjectRepository

/-! ## Lines -/

namespace LineIndexRepository

theorem getLine_some {db : Db} {fileId lineNumber k : Nat} {l : LineRow}
    (h : getLine db fileId lineNumber = some (k, l)) :
    db.facts.lines.get? k = some l ∧ l.fileId = fileId ∧ l.facts.lineNumber = lineNumber := by
  refine ⟨Keyed.get?_eq_some_iff.2 (List.mem_of_find?_eq_some h), ?_⟩
  simpa using List.find?_some h

theorem getLine_none {db : Db} {fileId lineNumber k : Nat} {l : LineRow}
    (h : (getLine db fileId lineNumber).isNone = true) (hk : db.facts.lines.get? k = some l) :
    l.key ≠ (fileId, lineNumber) := by
  intro he
  rw [Option.isNone_iff_eq_none] at h
  have := List.find?_eq_none.1 h (k, l) (Keyed.get?_eq_some_iff.1 hk)
  simp only [LineRow.key, Prod.mk.injEq] at he
  simp [he] at this

/-- What is added to one file. -/
structure AddsLines (fileId : Nat) (records : List LineRecord) (db db' : Db) : Prop where
  /-- The constraints hold as before. -/
  ok : FactsOk db'
  /-- No file is added. -/
  files : db'.facts.files = db.facts.files
  /-- Lines stay. -/
  line : ∀ k l, db.facts.lines.get? k = some l → db'.facts.lines.get? k = some l
  /-- Every record is there. -/
  stored : ∀ r ∈ records, ∃ k, db'.facts.lines.get? k = some ⟨fileId, r.facts⟩
  /-- A new line is one of the records. -/
  new : ∀ k l, db'.facts.lines.get? k = some l → db.facts.lines.get? k = none →
    ∃ r ∈ records, l = ⟨fileId, r.facts⟩

theorem AddsLines.nil {fileId : Nat} {db : Db} (h : FactsOk db) : AddsLines fileId [] db db :=
  ⟨h, rfl, fun _ _ hk => hk, by simp, fun k l hk hnew => by rw [hnew] at hk; cases hk⟩

theorem AddsLines.append {fileId : Nat} {records records' : List LineRecord} {db db' db'' : Db}
    (h : AddsLines fileId records db db') (h' : AddsLines fileId records' db' db'') :
    AddsLines fileId (records ++ records') db db'' := by
  refine ⟨h'.ok, h'.files.trans h.files, fun k l hk => h'.line k l (h.line k l hk),
    fun r hr => ?_, fun k l hk hnew => ?_⟩
  · rcases List.mem_append.1 hr with hr | hr
    · obtain ⟨k, hk⟩ := h.stored r hr
      exact ⟨k, h'.line k _ hk⟩
    · exact h'.stored r hr
  · cases hmid : db'.facts.lines.get? k with
    | none =>
      obtain ⟨r, hr, rfl⟩ := h'.new k l hk hmid
      exact ⟨r, List.mem_append.2 (.inr hr), rfl⟩
    | some l' =>
      obtain rfl : l' = l := Option.some.inj ((h'.line k l' hmid).symm.trans hk)
      obtain ⟨r, hr, rfl⟩ := h.new k l' hmid hnew
      exact ⟨r, List.mem_append.2 (.inl hr), rfl⟩

/-- **What `upsert_lines` leaves.** -/
theorem upsertLines_spec {db db' : Db} {fileId : Nat} {records : List LineRecord}
    (hok : FactsOk db) (h : upsertLines db fileId records = .ok db') :
    AddsLines fileId records db db' := by
  simp only [upsertLines, assertFileScanBuilding, bind_eq_ok, orFail_eq_ok, require_eq_ok,
    forM_eq_ok, pure_eq_ok] at h
  obtain ⟨_, ⟨file, hfile, _⟩, _, _, _, hn, _, hcheck, rfl⟩ := h
  have hstay : ∀ k l, db.facts.lines.get? k = some l → ∀ as,
      (db.facts.lines.insertMany as).get? k = some l := fun k l hk as =>
    Table.get?_insertMany_of_some hk
  refine ⟨⟨hok.file, ?_, ?_⟩, rfl, fun k l hk => hstay k l hk _, fun r hr => ?_,
    fun k l hk hnew => ?_⟩
  · refine hok.line.insertMany ?_ ?_
    · rw [List.map_map, List.nodup_map_iff_inj_on]
      · intro a ha b hb he
        simp only [Function.comp_apply, LineRow.key, Prod.mk.injEq, true_and] at he
        exact List.inj_on_of_nodup_map hn (List.mem_filter.1 ha).1 (List.mem_filter.1 hb).1 he
      · exact (hn.of_map _).filter _
    · intro a ha k b hb
      obtain ⟨facts, hfacts, rfl⟩ := List.mem_map.1 ha
      exact getLine_none (List.mem_filter.1 hfacts).2 hb
  · intro k l hk
    rcases Table.get?_insertMany_cases hk with hold | ⟨_, hmem⟩
    · exact hok.reference k l hold
    · obtain ⟨facts, _, rfl⟩ := List.mem_map.1 hmem
      exact ⟨file, hfile⟩
  · have hmem := List.mem_map_of_mem (f := LineRecord.facts) hr
    cases hget : getLine db fileId r.facts.lineNumber with
    | none =>
      refine Table.exists_get?_insertMany (List.mem_map_of_mem (List.mem_filter.2 ⟨hmem, ?_⟩))
      rw [hget]
      rfl
    | some q =>
      obtain ⟨k, l⟩ := q
      obtain ⟨hk, hf, _⟩ := getLine_some hget
      have hc := hcheck _ hmem
      simp only [assertLineFact, hget, require_eq_ok] at hc
      refine ⟨k, hstay k _ ?_ _⟩
      rw [hk, ← hf, ← hc]
  · rcases Table.get?_insertMany_cases hk with hold | ⟨_, hmem⟩
    · rw [hnew] at hold
      cases hold
    · obtain ⟨facts, hfacts, rfl⟩ := List.mem_map.1 hmem
      obtain ⟨r, hr, rfl⟩ := List.mem_map.1 (List.mem_filter.1 hfacts).1
      exact ⟨r, hr, rfl⟩

end LineIndexRepository

/-! ## Batches -/

namespace ProjectService

section Items

variable {env : Env} {scanId : Nat} {db db' db'' : Db}

/-- The row of a file of the input. -/
def itemRow (env : Env) (scanId : Nat) (item : CoverageItem) : FileRow :=
  (normalizedItem env item).row scanId

/-- The file is there with all its lines. -/
def Stores (env : Env) (scanId : Nat) (db : Db) (item : CoverageItem) : Prop :=
  ∃ k, db.facts.files.get? k = some (itemRow env scanId item) ∧
    ∀ r ∈ item.lines, ∃ q, db.facts.lines.get? q = some ⟨k, r.facts⟩

/-- What a list of items adds to a scan. -/
structure IngestsItems (env : Env) (scanId : Nat) (items : List CoverageItem) (db db' : Db) :
    Prop where
  /-- The constraints hold as before. -/
  ok : FactsOk db'
  /-- Rows are only added. -/
  ingests : Ingests scanId db db'
  /-- Every item is there. -/
  stores : ∀ item ∈ items, Stores env scanId db' item
  /-- A new file is one of the items. -/
  newFile : ∀ k f, db'.facts.files.get? k = some f → db.facts.files.get? k = none →
    ∃ item ∈ items, f = itemRow env scanId item
  /-- A new line is a line of one of the items. -/
  newLine : ∀ k l, db'.facts.lines.get? k = some l → db.facts.lines.get? k = none →
    ∃ item ∈ items, db'.facts.files.get? l.fileId = some (itemRow env scanId item) ∧
      ∃ r ∈ item.lines, l.facts = r.facts

theorem Stores.mono {item : CoverageItem} (h : Stores env scanId db item)
    (hfile : ∀ k f, db.facts.files.get? k = some f → db'.facts.files.get? k = some f)
    (hline : ∀ k l, db.facts.lines.get? k = some l → db'.facts.lines.get? k = some l) :
    Stores env scanId db' item := by
  obtain ⟨k, hk, hlines⟩ := h
  refine ⟨k, hfile k _ hk, fun r hr => ?_⟩
  obtain ⟨q, hq⟩ := hlines r hr
  exact ⟨q, hline q _ hq⟩

theorem IngestsItems.nil (h : FactsOk db) : IngestsItems env scanId [] db db := by
  refine ⟨h, .refl db, by simp, fun k f hk hnew => ?_, fun k l hk hnew => ?_⟩
  · rw [hnew] at hk
    cases hk
  · rw [hnew] at hk
    cases hk

theorem IngestsItems.append {items items' : List CoverageItem}
    (h : IngestsItems env scanId items db db') (h' : IngestsItems env scanId items' db' db'') :
    IngestsItems env scanId (items ++ items') db db'' := by
  refine ⟨h'.ok, h.ingests.trans h'.ingests, fun item hitem => ?_, fun k f hk hnew => ?_,
    fun k l hk hnew => ?_⟩
  · rcases List.mem_append.1 hitem with hitem | hitem
    · exact (h.stores item hitem).mono (fun _ _ => h'.ingests.file) (fun _ _ => h'.ingests.line)
    · exact h'.stores item hitem
  · cases hmid : db'.facts.files.get? k with
    | none =>
      obtain ⟨item, hitem, hf⟩ := h'.newFile k f hk hmid
      exact ⟨item, List.mem_append.2 (.inr hitem), hf⟩
    | some f' =>
      obtain rfl : f' = f := Option.some.inj ((h'.ingests.file hmid).symm.trans hk)
      obtain ⟨item, hitem, hf⟩ := h.newFile k f' hmid hnew
      exact ⟨item, List.mem_append.2 (.inl hitem), hf⟩
  · cases hmid : db'.facts.lines.get? k with
    | none =>
      obtain ⟨item, hitem, hl⟩ := h'.newLine k l hk hmid
      exact ⟨item, List.mem_append.2 (.inr hitem), hl⟩
    | some l' =>
      obtain rfl : l' = l := Option.some.inj ((h'.ingests.line hmid).symm.trans hk)
      obtain ⟨item, hitem, hf, hl⟩ := h.newLine k l' hmid hnew
      exact ⟨item, List.mem_append.2 (.inl hitem), h'.ingests.file hf, hl⟩

theorem ingestLines_spec {fileId : Nat} {records : List LineRecord} (hok : FactsOk db)
    (h : ingestLines db fileId records = .ok db') :
    LineIndexRepository.AddsLines fileId records db db' := by
  have key : ∀ (groups : List (List LineRecord)) (d : Db), FactsOk d →
      groups.foldlM (fun db lines => LineIndexRepository.upsertLines db fileId lines) d = .ok db' →
      LineIndexRepository.AddsLines fileId groups.flatten d db' := by
    intro groups
    induction groups with
    | nil =>
      intro d hd hfold
      obtain rfl : d = db' := by simpa [pure, Except.pure] using hfold
      exact .nil hd
    | cons lines groups ih =>
      intro d hd hfold
      rw [List.foldlM_cons, bind_eq_ok] at hfold
      obtain ⟨d₁, hfirst, hfold⟩ := hfold
      have hfirst := LineIndexRepository.upsertLines_spec hd hfirst
      exact hfirst.append (ih d₁ hfirst.ok hfold)
  have := key _ db hok h
  rwa [Grouping.flatten_groups] at this

/-- One item whose file is registered. -/
theorem ingestItem_spec {item : CoverageItem} (hok : FactsOk db)
    (hfile : ∃ k, db.facts.files.get? k = some (itemRow env scanId item))
    (h : ingestItem env scanId db item = .ok db') :
    IngestsItems env scanId [item] db db' ∧ db'.facts.files = db.facts.files := by
  have hing := ingestItem_ok h
  obtain ⟨k, hk⟩ := hfile
  simp only [ingestItem, bind_eq_ok, orFail_eq_ok, Prod.exists] at h
  obtain ⟨fileId, f, hget, h⟩ := h
  obtain ⟨hf, hkey⟩ := ProjectRepository.getFile_some hget
  obtain rfl : fileId = k := hok.file fileId k f _ hf hk hkey
  have hadds := ingestLines_spec hok h
  have hrow : db'.facts.files.get? fileId = some (itemRow env scanId item) := by
    rw [hadds.files, hk]
  refine ⟨⟨hadds.ok, hing, fun i hi => ?_, fun q g hq hnew => ?_, fun q l hq hnew => ?_⟩,
    hadds.files⟩
  · obtain rfl := List.mem_singleton.1 hi
    exact ⟨fileId, hrow, hadds.stored⟩
  · rw [hadds.files, hnew] at hq
    cases hq
  · obtain ⟨r, hr, rfl⟩ := hadds.new q l hq hnew
    exact ⟨item, List.mem_singleton.2 rfl, hrow, r, hr, rfl⟩

/-- **What a batch leaves.** -/
theorem ingestFileBatch_spec {batch : List CoverageItem} {result : BatchResult}
    (hok : FactsOk db) (h : ingestFileBatch env db scanId batch = .ok (db', result)) :
    IngestsItems env scanId batch db db' ∧
    result.fileCount = (batch.map CoverageItem.fileCountDelta).sum ∧
    result.lineCount = (batch.map fun item => item.lines.length).sum := by
  simp only [ingestFileBatch, bind_eq_ok] at h
  obtain ⟨_, _, h⟩ := h
  split at h
  · rename_i hnil
    simp only [pure_eq_ok, Prod.mk.injEq] at h
    obtain ⟨rfl, rfl⟩ := h
    subst hnil
    exact ⟨.nil hok, rfl, rfl⟩
  · simp only [bind_eq_ok, pure_eq_ok, Prod.mk.injEq] at h
    obtain ⟨db₁, hfiles, db₂, hitems, rfl, rfl⟩ := h
    refine ⟨?_, rfl, rfl⟩
    have hing := (ensureFiles_ok hfiles).1
    have hlines : db₁.facts.lines = db.facts.lines := by
      simp only [ProjectRepository.ensureFiles, bind_eq_ok, pure_eq_ok] at hfiles
      obtain ⟨_, _, _, _, _, _, rfl⟩ := hfiles
      rfl
    obtain ⟨hok₁, hstored, hnew⟩ := ProjectRepository.ensureFiles_spec hok hfiles
    have key : ∀ (items : List CoverageItem) (d : Db), (∀ item ∈ items, item ∈ batch) →
        FactsOk d → d.facts.files = db₁.facts.files →
        items.foldlM (ingestItem env scanId) d = .ok db₂ →
        IngestsItems env scanId items d db₂ ∧ db₂.facts.files = db₁.facts.files := by
      intro items
      induction items with
      | nil =>
        intro d _ hd hf hfold
        obtain rfl : d = db₂ := by simpa [pure, Except.pure] using hfold
        exact ⟨.nil hd, hf⟩
      | cons item items ih =>
        intro d hmem hd hf hfold
        rw [List.foldlM_cons, bind_eq_ok] at hfold
        obtain ⟨d₁, hfirst, hfold⟩ := hfold
        have hrow : ∃ k, d.facts.files.get? k = some (itemRow env scanId item) := by
          rw [hf]
          exact hstored _ (List.mem_map_of_mem (hmem item List.mem_cons_self))
        obtain ⟨hfirst, hf₁⟩ := ingestItem_spec hd hrow hfirst
        obtain ⟨hrest, hf₂⟩ := ih d₁ (fun i hi => hmem i (List.mem_cons_of_mem _ hi)) hfirst.ok
          (hf₁.trans hf) hfold
        exact ⟨hfirst.append hrest, hf₂⟩
    obtain ⟨hadds, hf⟩ := key batch db₁ (fun _ hi => hi) hok₁ rfl hitems
    refine ⟨hadds.ok, hing.trans hadds.ingests, hadds.stores, fun k f hk hnone => ?_,
      fun k l hk hnone => ?_⟩
    · rw [hf] at hk
      obtain ⟨_, hmem, rfl⟩ := hnew k f hk hnone
      obtain ⟨item, hitem, rfl⟩ := List.mem_map.1 hmem
      exact ⟨item, hitem, rfl⟩
    · exact hadds.newLine k l hk (by rw [hlines]; exact hnone)

end Items

/-! ## The whole input -/

section Input

/-- What the parser promises: distinct files, and in each distinct lines. -/
structure DistinctInput (env : Env) (files : List CoverageItem) : Prop where
  /-- Distinct identities. -/
  file : (files.map fun item => (normalizedItem env item).identity).Nodup
  /-- Distinct line numbers. -/
  line : ∀ item ∈ files, (item.lines.map LineRecord.lineNumber).Nodup
  /-- Line numbers start at one. -/
  positive : ∀ item ∈ files, ∀ r ∈ item.lines, 0 < r.lineNumber

/-- The files of an input, as the rows of a scan. -/
def inputFiles (env : Env) (scanId : Nat) (files : List CoverageItem) : List FileRow :=
  files.map (itemRow env scanId)

/-- The lines of an input: file, number and facts. -/
def inputLines (env : Env) (scanId : Nat) (files : List CoverageItem) :
    List (FileRow × LineFacts) :=
  files.flatMap fun item => item.lines.map fun r => (itemRow env scanId item, r.facts)

/-- The files of a scan. -/
def importedFiles (db : Db) (scanId : Nat) : List FileRow :=
  (FileStateRepository.filesOf db scanId none).map Prod.snd

/-- The line rows of a scan. -/
def lineRows (db : Db) (scanId : Nat) : List (Nat × LineRow) :=
  db.facts.lines.select fun _ l =>
    (FileStateRepository.filesOf db scanId none).any fun f => f.1 = l.fileId

/-- The lines of a scan: file, number and facts. -/
def importedLines (db : Db) (scanId : Nat) : List (FileRow × LineFacts) :=
  (lineRows db scanId).filterMap fun l =>
    (db.facts.files.get? l.2.fileId).map fun f => (f, l.2.facts)

/-- Everything the scan has is in the input. -/
structure Within (env : Env) (scanId : Nat) (files : List CoverageItem) (db : Db) : Prop where
  /-- Every file is one of the input. -/
  file : ∀ k f, db.facts.files.get? k = some f → f.scanId = scanId →
    ∃ item ∈ files, f = itemRow env scanId item
  /-- Every line is a line of that file of the input. -/
  line : ∀ k l f, db.facts.lines.get? k = some l → db.facts.files.get? l.fileId = some f →
    f.scanId = scanId → ∃ item ∈ files, f = itemRow env scanId item ∧
      ∃ r ∈ item.lines, l.facts = r.facts

variable {env : Env} {scanId : Nat} {db db' : Db} {files : List CoverageItem}

theorem Within.congr (h : Within env scanId files db) (hf : db'.facts.files = db.facts.files)
    (hl : db'.facts.lines = db.facts.lines) : Within env scanId files db' := by
  refine ⟨?_, ?_⟩
  · rw [hf]
    exact h.file
  · rw [hf, hl]
    exact h.line

/-- A batch of parts of the input keeps the scan within the input. -/
theorem Within.ingest {items : List CoverageItem} (h : Within env scanId files db)
    (hok : FactsOk db) (hi : IngestsItems env scanId items db db')
    (hpart : ∀ part ∈ items, ∃ item ∈ files, itemRow env scanId part = itemRow env scanId item ∧
      part.lines ⊆ item.lines) : Within env scanId files db' := by
  refine ⟨fun k f hk hs => ?_, fun k l f hk hf hs => ?_⟩
  · cases hold : db.facts.files.get? k with
    | none =>
      obtain ⟨part, hp, rfl⟩ := hi.newFile k f hk hold
      obtain ⟨item, hitem, hrow, _⟩ := hpart part hp
      exact ⟨item, hitem, hrow⟩
    | some f' =>
      obtain rfl : f' = f := Option.some.inj ((hi.ingests.file hold).symm.trans hk)
      exact h.file k f' hold hs
  · cases hold : db.facts.lines.get? k with
    | none =>
      obtain ⟨part, hp, hrow, r, hr, hfacts⟩ := hi.newLine k l hk hold
      obtain ⟨item, hitem, hsame, hsub⟩ := hpart part hp
      obtain rfl : f = itemRow env scanId part := Option.some.inj (hf.symm.trans hrow)
      exact ⟨item, hitem, hsame, r, hsub hr, hfacts⟩
    | some l' =>
      obtain rfl : l' = l := Option.some.inj ((hi.ingests.line hold).symm.trans hk)
      obtain ⟨f', hf'⟩ := hok.reference k l' hold
      obtain rfl : f' = f := Option.some.inj ((hi.ingests.file hf').symm.trans hf)
      exact h.line k l' f' hold hf' hs

theorem key_itemRow (item : CoverageItem) : (itemRow env scanId item).key =
    (scanId, (normalizedItem env item).identity) := rfl

/-- A file of the input is the only one with its row. -/
theorem DistinctInput.item_unique (h : DistinctInput env files) {a b : CoverageItem}
    (ha : a ∈ files) (hb : b ∈ files) (he : itemRow env scanId a = itemRow env scanId b) : a = b := by
  refine List.inj_on_of_nodup_map h.file ha hb ?_
  have := congrArg FileRow.key he
  rw [key_itemRow, key_itemRow] at this
  exact (Prod.mk.inj this).2

theorem DistinctInput.nodup_inputFiles (h : DistinctInput env files) :
    (inputFiles env scanId files).Nodup :=
  (List.nodup_map_iff_inj_on (h.file.of_map _)).2 fun _ ha _ hb he => h.item_unique ha hb he

theorem DistinctInput.nodup_inputLines (h : DistinctInput env files) :
    (inputLines env scanId files).Nodup := by
  rw [inputLines, List.nodup_flatMap]
  constructor
  · intro item hitem
    refine (List.nodup_map_iff_inj_on ((h.line item hitem).of_map _)).2 fun r hr r' hr' he => ?_
    have hfacts := congrArg LineFacts.lineNumber (Prod.mk.inj he).2
    exact List.inj_on_of_nodup_map (h.line item hitem) hr hr' hfacts
  · refine List.Pairwise.imp_of_mem ?_ (h.file.of_map _)
    intro a b ha hb hne x hxa hxb
    obtain ⟨r, _, rfl⟩ := List.mem_map.1 hxa
    obtain ⟨r', _, he⟩ := List.mem_map.1 hxb
    exact hne (h.item_unique ha hb (Prod.mk.inj he).1.symm)

theorem mem_filesOf {k : Nat} {f : FileRow} :
    (k, f) ∈ FileStateRepository.filesOf db scanId none ↔
      db.facts.files.get? k = some f ∧ f.scanId = scanId := by
  rw [FileStateRepository.filesOf, Keyed.mem_select, ← Keyed.get?_eq_some_iff]
  simp

theorem mem_lineRows {q : Nat} {l : LineRow} : (q, l) ∈ lineRows db scanId ↔
    db.facts.lines.get? q = some l ∧ ∃ f, db.facts.files.get? l.fileId = some f ∧
      f.scanId = scanId := by
  rw [lineRows, Keyed.mem_select, ← Keyed.get?_eq_some_iff, List.any_eq_true]
  refine and_congr_right fun _ => ⟨?_, ?_⟩
  · rintro ⟨⟨k, f⟩, hmem, heq⟩
    obtain ⟨hk, hs⟩ := mem_filesOf.1 hmem
    obtain rfl : k = l.fileId := by simpa using heq
    exact ⟨f, hk, hs⟩
  · rintro ⟨f, hk, hs⟩
    exact ⟨(l.fileId, f), mem_filesOf.2 ⟨hk, hs⟩, by simp⟩

theorem mem_importedLines {x : FileRow × LineFacts} : x ∈ importedLines db scanId ↔
    ∃ q l, db.facts.lines.get? q = some l ∧ db.facts.files.get? l.fileId = some x.1 ∧
      x.1.scanId = scanId ∧ l.facts = x.2 := by
  obtain ⟨f, facts⟩ := x
  simp only [importedLines, List.mem_filterMap, Prod.exists, mem_lineRows, Option.map_eq_some_iff,
    Prod.mk.injEq]
  constructor
  · rintro ⟨q, l, ⟨hq, f', hf', hs⟩, f'', hf'', rfl, rfl⟩
    obtain rfl : f' = f'' := Option.some.inj (hf'.symm.trans hf'')
    exact ⟨q, l, hq, hf', hs, rfl⟩
  · rintro ⟨q, l, hq, hf, hs, rfl⟩
    exact ⟨q, l, ⟨hq, f, hf, hs⟩, f, hf, rfl, rfl⟩

/-- The two views of the lines of a scan have one entry for each row. -/
theorem length_importedLines : (importedLines db scanId).length = (lineRows db scanId).length := by
  rw [importedLines]
  refine List.filterMap_length_eq_length.2 fun l hl => ?_
  obtain ⟨_, f, hf, _⟩ := mem_lineRows.1 hl
  simp [hf]

theorem nodup_importedFiles (h : FactsOk db) : (importedFiles db scanId).Nodup := by
  refine Keyed.nodup_column.2 fun k k' f f' hk hk' _ _ he => ?_
  exact h.file k k' f f' hk hk' (congrArg FileRow.key he)

theorem nodup_importedLines (h : FactsOk db) : (importedLines db scanId).Nodup := by
  have hrows : (lineRows db scanId).Nodup := (List.Nodup.of_map _ db.facts.lines.nodup).filter _
  refine List.pairwise_filterMap.2 (hrows.imp_of_mem ?_)
  rintro ⟨q, l⟩ ⟨q', l'⟩ hmem hmem' hne x hx x' hx' rfl
  obtain ⟨f, hf, rfl⟩ := Option.map_eq_some_iff.1 hx
  obtain ⟨f', hf', he⟩ := Option.map_eq_some_iff.1 hx'
  obtain ⟨rfl, hfacts⟩ := Prod.mk.inj he
  obtain ⟨hq, _⟩ := mem_lineRows.1 hmem
  obtain ⟨hq', _⟩ := mem_lineRows.1 hmem'
  have hid := h.file l.fileId l'.fileId f' f' hf hf' rfl
  obtain rfl := h.line q q' l l' hq hq' (by rw [LineRow.key, LineRow.key, hid, hfacts])
  exact hne (by rw [Option.some.inj (hq.symm.trans hq')])

/-- **A scan that has the input and nothing else has each file and each line of it once.** -/
theorem imported_perm (hok : FactsOk db) (hd : DistinctInput env files)
    (hw : Within env scanId files db) (hs : ∀ item ∈ files, Stores env scanId db item) :
    (importedFiles db scanId).Perm (inputFiles env scanId files) ∧
    (importedLines db scanId).Perm (inputLines env scanId files) := by
  refine ⟨(List.perm_ext_iff_of_nodup (nodup_importedFiles hok) hd.nodup_inputFiles).2 fun f => ?_,
    (List.perm_ext_iff_of_nodup (nodup_importedLines hok) hd.nodup_inputLines).2 fun x => ?_⟩
  · constructor
    · intro hf
      obtain ⟨⟨k, f⟩, hmem, rfl⟩ := List.mem_map.1 hf
      obtain ⟨hk, hscan⟩ := mem_filesOf.1 hmem
      obtain ⟨item, hitem, he⟩ := hw.file k f hk hscan
      exact List.mem_map.2 ⟨item, hitem, he.symm⟩
    · intro hf
      obtain ⟨item, hitem, rfl⟩ := List.mem_map.1 hf
      obtain ⟨k, hk, _⟩ := hs item hitem
      exact List.mem_map.2 ⟨(k, _), mem_filesOf.2 ⟨hk, rfl⟩, rfl⟩
  · obtain ⟨f, facts⟩ := x
    rw [mem_importedLines]
    simp only [inputLines, List.mem_flatMap, List.mem_map, Prod.mk.injEq]
    constructor
    · rintro ⟨q, l, hq, hf, hscan, rfl⟩
      obtain ⟨item, hitem, rfl, r, hr, hfacts⟩ := hw.line q l f hq hf hscan
      exact ⟨item, hitem, r, hr, rfl, hfacts.symm⟩
    · rintro ⟨item, hitem, r, hr, rfl, rfl⟩
      obtain ⟨k, hk, hlines⟩ := hs item hitem
      obtain ⟨q, hq⟩ := hlines r hr
      exact ⟨q, _, hq, hk, rfl, rfl⟩

end Input

end ProjectService

end FosCoverage
