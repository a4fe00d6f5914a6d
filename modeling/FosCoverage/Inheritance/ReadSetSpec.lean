import Mathlib.Algebra.Order.BigOperators.Group.List
import Mathlib.Algebra.Order.Group.Nat
import Mathlib.Data.List.Induction
import FosCoverage.Import.Facts
import FosCoverage.Import.Publication
import FosCoverage.Inheritance.PagedRun

/-!
# The read set is exact

A run records what it has read of the predecessor, file by file and page by page, and the
publication reads the recorded files again, path by path (`validateCompactReadSet`).  The two
enumerations agree on the database of the run, and the publication accepts another database exactly
when the recorded files have the same observations there (`read_set_validation_exact`).

* `relationRevisions` and `recordRevisions` are the two multisets of observations; a record that
  several relations share is observed once for each of them.
* `readPages` is the accumulator after an arbitrary enumeration of files and pages; it depends on
  the multiset of the relations and on the set of the files only (`toPayload_readPages`).
* `consultedFiles` are the files a run observes.  Their relations, by file id, are the relations of
  their paths (`consulted_perm`).

That the count, the sum and the exclusive or of the digests tell two multisets apart is a hypothesis
about these multisets (`Separates`): no function with finitely many values separates them all.
-/

set_option autoImplicit false

namespace FosCoverage

open Relational Outcome Fingerprint AnalysisDomainRepository

/-! ## Observations -/

/-- The observed relations: id and revision. -/
def relationRevisions (rs : List SourceRelation) : List (Nat × Nat) :=
  rs.map fun r => (r.id, r.link.relationRevision)

/-- The observed records: id and content revision, one for each relation that has a record. -/
def recordRevisions (rs : List SourceRelation) : List (Nat × Nat) :=
  rs.filterMap fun r => r.record.map fun record => (r.link.recordId, record.contentRevision)

/-- The fingerprint of observations. -/
def fingerprint (env : Env) (kind : String) (observations : List (Nat × Nat)) : DigestSum :=
  DigestSum.ofList 256 (observations.map fun o => env.itemDigest kind o.1 o.2)

/-- The fingerprint tells two multisets of observations apart. -/
def Separates (env : Env) (kind : String) (a b : List (Nat × Nat)) : Prop :=
  fingerprint env kind a = fingerprint env kind b → a.Perm b

theorem fingerprint_perm {env : Env} {kind : String} {a b : List (Nat × Nat)} (h : a.Perm b) :
    fingerprint env kind a = fingerprint env kind b :=
  DigestSum.ofList_perm (h.map _)

/-- **Equal fingerprints are equal multisets**, where the fingerprint separates them. -/
theorem Separates.iff {env : Env} {kind : String} {a b : List (Nat × Nat)}
    (h : Separates env kind a b) :
    fingerprint env kind a = fingerprint env kind b ↔ a.Perm b :=
  ⟨h, fingerprint_perm⟩

theorem relationRevisions_perm {rs rs' : List SourceRelation} (h : rs.Perm rs') :
    (relationRevisions rs).Perm (relationRevisions rs') := h.map _

theorem recordRevisions_perm {rs rs' : List SourceRelation} (h : rs.Perm rs') :
    (recordRevisions rs).Perm (recordRevisions rs') := h.filterMap _

namespace ReadSetAccumulator

variable {env : Env}

theorem observeAll_sourceFiles (acc : ReadSetAccumulator) (rs : List SourceRelation) :
    (acc.observeAll env rs).sourceFiles = acc.sourceFiles := by
  unfold observeAll
  induction rs generalizing acc with
  | nil => rfl
  | cons r rs ih =>
    rw [List.foldl_cons, ih]
    unfold observe
    split
    · rfl
    · rfl

theorem observeAll_relations (acc : ReadSetAccumulator) (rs : List SourceRelation) :
    (acc.observeAll env rs).relations =
      ((relationRevisions rs).map fun o => env.itemDigest "relation" o.1 o.2).foldl
        (DigestSum.add 256) acc.relations := by
  unfold observeAll
  induction rs generalizing acc with
  | nil => rfl
  | cons r rs ih =>
    rw [List.foldl_cons, ih]
    unfold observe
    cases r.record with
    | none => rfl
    | some record => rfl

theorem observeAll_records (acc : ReadSetAccumulator) (rs : List SourceRelation) :
    (acc.observeAll env rs).records =
      ((recordRevisions rs).map fun o => env.itemDigest "record" o.1 o.2).foldl
        (DigestSum.add 256) acc.records := by
  unfold observeAll
  induction rs generalizing acc with
  | nil => rfl
  | cons r rs ih =>
    rw [List.foldl_cons, ih]
    unfold observe recordRevisions
    cases hr : r.record with
    | none => simp [hr, addRelation]
    | some record => simp [hr, addRelation, addRecord]

/-! ## Enumerations -/

/-- The accumulator after files were read one after another, each in pages. -/
def readPages (env : Env) (files : List (SourceFile × List (List SourceRelation))) :
    ReadSetAccumulator :=
  files.foldl (fun acc f => f.2.foldl (observeAll env) (acc.addSourceFile f.1)) empty

theorem observePages_eq (acc : ReadSetAccumulator) (pages : List (List SourceRelation)) :
    pages.foldl (observeAll env) acc = acc.observeAll env pages.flatten := by
  induction pages generalizing acc with
  | nil => rfl
  | cons p pages ih =>
    rw [List.foldl_cons, ih, List.flatten_cons, InheritanceEngine.observeAll_append]

/-- The relations of an enumeration. -/
def enumerated (files : List (SourceFile × List (List SourceRelation))) : List SourceRelation :=
  files.flatMap fun f => f.2.flatten

theorem mem_addSourceFile {acc : ReadSetAccumulator} {source s : SourceFile} :
    s ∈ (acc.addSourceFile source).sourceFiles ↔ s ∈ acc.sourceFiles ∨ s = source := by
  unfold addSourceFile
  split
  · rename_i hmem
    exact ⟨.inl, fun h => h.elim id fun he => he ▸ hmem⟩
  · rw [List.mem_append, List.mem_singleton]

theorem nodup_addSourceFile {acc : ReadSetAccumulator} (source : SourceFile)
    (h : acc.sourceFiles.Nodup) : (acc.addSourceFile source).sourceFiles.Nodup := by
  unfold addSourceFile
  split
  · exact h
  · rename_i hmem
    rw [List.nodup_append]
    exact ⟨h, List.nodup_singleton source, fun a ha b hb he =>
      hmem (List.mem_singleton.1 hb ▸ he ▸ ha)⟩

/-- What the accumulator knows after an enumeration. -/
theorem readPages_eq (env : Env) (files : List (SourceFile × List (List SourceRelation))) :
    (readPages env files).relations =
        fingerprint env "relation" (relationRevisions (enumerated files)) ∧
      (readPages env files).records =
        fingerprint env "record" (recordRevisions (enumerated files)) ∧
      (readPages env files).sourceFiles.Nodup ∧
      ∀ s, s ∈ (readPages env files).sourceFiles ↔ s ∈ files.map Prod.fst := by
  -- the files are read front to back, so the induction is on what has been read
  induction files using List.reverseRecOn with
  | nil => exact ⟨rfl, rfl, List.nodup_nil, fun s => Iff.rfl⟩
  | append_singleton files f ih =>
    obtain ⟨hrel, hrec, hn, hmem⟩ := ih
    have hstep : readPages env (files ++ [f]) =
        ((readPages env files).addSourceFile f.1).observeAll env f.2.flatten := by
      rw [readPages, List.foldl_append, List.foldl_cons, List.foldl_nil, observePages_eq]
      rfl
    have hadd : ((readPages env files).addSourceFile f.1).relations =
          (readPages env files).relations ∧
        ((readPages env files).addSourceFile f.1).records = (readPages env files).records := by
      unfold addSourceFile
      split
      · exact ⟨rfl, rfl⟩
      · exact ⟨rfl, rfl⟩
    have henum : enumerated (files ++ [f]) = enumerated files ++ f.2.flatten := by
      rw [enumerated, List.flatMap_append, List.flatMap_singleton]
      rfl
    rw [hstep, henum]
    refine ⟨?_, ?_, ?_, fun s => ?_⟩
    · rw [observeAll_relations, hadd.1, hrel, relationRevisions, relationRevisions,
        relationRevisions, List.map_append, fingerprint, fingerprint, List.map_append]
      exact (List.foldl_append).symm
    · rw [observeAll_records, hadd.2, hrec, recordRevisions, recordRevisions,
        recordRevisions, List.filterMap_append, fingerprint, fingerprint, List.map_append]
      exact (List.foldl_append).symm
    · rw [observeAll_sourceFiles]
      exact nodup_addSourceFile f.1 hn
    · rw [observeAll_sourceFiles, mem_addSourceFile, hmem, List.map_append, List.mem_append]
      exact or_congr Iff.rfl List.mem_singleton.symm

/-! ## The order of the files -/

theorem sourceFileLe_iff {a b : SourceFile} : sourceFileLe a b = true ↔
    a.repositoryName < b.repositoryName ∨
      (a.repositoryName = b.repositoryName ∧ a.filePath ≤ b.filePath) := by
  rw [sourceFileLe, decide_eq_true_eq]

theorem sourceFileLe_total (a b : SourceFile) :
    sourceFileLe a b = true ∨ sourceFileLe b a = true := by
  rw [sourceFileLe_iff, sourceFileLe_iff]
  by_cases hab : a.repositoryName < b.repositoryName
  · exact .inl (.inl hab)
  · by_cases hba : b.repositoryName < a.repositoryName
    · exact .inr (.inl hba)
    · have he : a.repositoryName = b.repositoryName :=
        String.le_antisymm (String.not_lt.1 hba) (String.not_lt.1 hab)
      rcases String.le_total a.filePath b.filePath with h | h
      · exact .inl (.inr ⟨he, h⟩)
      · exact .inr (.inr ⟨he.symm, h⟩)

theorem sourceFileLe_trans {a b c : SourceFile} (hab : sourceFileLe a b = true)
    (hbc : sourceFileLe b c = true) : sourceFileLe a c = true := by
  rw [sourceFileLe_iff] at hab hbc ⊢
  rcases hab with hab | ⟨hab, hab'⟩
  · rcases hbc with hbc | ⟨hbc, _⟩
    · exact .inl (String.lt_trans hab hbc)
    · exact .inl (hbc ▸ hab)
  · rcases hbc with hbc | ⟨hbc, hbc'⟩
    · exact .inl (hab ▸ hbc)
    · exact .inr ⟨hab.trans hbc, String.le_trans hab' hbc'⟩

theorem sourceFileLe_antisymm {a b : SourceFile} (hab : sourceFileLe a b = true)
    (hba : sourceFileLe b a = true) : a = b := by
  rw [sourceFileLe_iff] at hab hba
  obtain ⟨aName, aPath⟩ := a
  obtain ⟨bName, bPath⟩ := b
  rcases hab with hab | ⟨rfl, hab⟩
  · rcases hba with hba | ⟨hba, _⟩
    · exact absurd (String.lt_trans hab hba) (String.lt_irrefl _)
    · obtain rfl : bName = aName := hba
      exact absurd hab (String.lt_irrefl _)
  · rcases hba with hba | ⟨_, hba⟩
    · exact absurd hba (String.lt_irrefl _)
    · obtain rfl : aPath = bPath := String.le_antisymm hab hba
      rfl

/-- The recorded files are in their order, whatever the order they were read in. -/
theorem pairwise_sorted_files (files : List SourceFile) :
    (files.insertionSort (sourceFileLe · ·)).Pairwise fun a b => sourceFileLe a b = true := by
  have : Std.Total fun a b : SourceFile => sourceFileLe a b = true := ⟨sourceFileLe_total⟩
  have : IsTrans SourceFile fun a b => sourceFileLe a b = true := ⟨fun _ _ _ => sourceFileLe_trans⟩
  exact List.pairwise_insertionSort _ files

theorem sorted_files_eq {files files' : List SourceFile} (h : files.Perm files') :
    files.insertionSort (sourceFileLe · ·) = files'.insertionSort (sourceFileLe · ·) := by
  refine List.Perm.eq_of_pairwise (fun a b _ _ => sourceFileLe_antisymm)
    (pairwise_sorted_files files) (pairwise_sorted_files files') ?_
  exact (List.perm_insertionSort _ _).trans (h.trans (List.perm_insertionSort _ _).symm)

theorem isMatch_iff {acc : ReadSetAccumulator} {payload : ReadSet} : acc.isMatch payload = true ↔
    payload.relations = acc.relations ∧ payload.records = acc.records ∧
      payload.sourceFiles = acc.sourceFiles.insertionSort (sourceFileLe · ·) := by
  rw [isMatch, decide_eq_true_eq]
  rfl

/-- **The payload depends on the multiset of the relations and on the set of the files only**. -/
theorem toPayload_readPages {files files' : List (SourceFile × List (List SourceRelation))}
    (hrel : (enumerated files).Perm (enumerated files'))
    (hfiles : ∀ s, s ∈ files.map Prod.fst ↔ s ∈ files'.map Prod.fst)
    (candidate predecessor : Option Nat) :
    (readPages env files).toPayload candidate predecessor =
      (readPages env files').toPayload candidate predecessor := by
  obtain ⟨h₁, h₂, hn, hmem⟩ := readPages_eq env files
  obtain ⟨h₁', h₂', hn', hmem'⟩ := readPages_eq env files'
  have hperm : (readPages env files).sourceFiles.Perm (readPages env files').sourceFiles :=
    (List.perm_ext_iff_of_nodup hn hn').2 fun s => by rw [hmem, hmem', hfiles]
  simp only [toPayload, h₁, h₂, h₁', h₂', sorted_files_eq hperm,
    fingerprint_perm (relationRevisions_perm hrel), fingerprint_perm (recordRevisions_perm hrel)]

end ReadSetAccumulator

/-! ## The files of a run -/

namespace InheritanceEngine

open ReadSetAccumulator

/-- The run observes the file: its repository is eligible, and the Candidate has it. -/
def consults (ctx : RunContext) (db : Db) (file : FileRow) : Bool :=
  eligible ctx.repositories file = true ∧
    (candidateFile ctx.env db ctx.candidateScanId file.repositoryName file.filePath).isSome = true

/-- It depends on the path of the file only. -/
theorem consults_congr {ctx : RunContext} {db : Db} {f g : FileRow} (h : f.source = g.source) :
    consults ctx db f = consults ctx db g := by
  obtain ⟨hname, hpath⟩ := SourceFile.mk.inj h
  refine decide_eq_decide.2 ?_
  rw [eligible, eligible, hname, hpath]

/-- The files a run observes. -/
def consultedFiles (ctx : RunContext) (db : Db) : List (Nat × FileRow) :=
  (relationFiles db ctx.predecessorScanId).filter fun f => consults ctx db f.2

/-- The enumeration of a run: the files by id, each in one page. -/
def consultedPages (ctx : RunContext) (db : Db) (files : List (Nat × FileRow)) :
    List (SourceFile × List (List SourceRelation)) :=
  files.map fun f => (f.2.source, [fileRelations db ctx.predecessorScanId f.1])

variable {ctx : RunContext} {db : Db} {st st' : RunState}

/-- A relation is observed before it is inherited. -/
theorem runRelation_readSet {source : SourceText} {targetFileId : Nat} {r : SourceRelation}
    (hc : CachesOk ctx st) (hok : runRelation ctx source targetFileId st r = .ok st') :
    st'.readSet = st.readSet := by
  unfold runRelation at hok
  split at hok
  · rw [← pure_eq_ok.1 hok]
  · split at hok
    · rw [← pure_eq_ok.1 hok]
    · exact (persist_ok hc hok).choose_spec.1

/-- **What one file adds to the read set.** -/
theorem runFile_readSet (hne : ctx.predecessorScanId ≠ ctx.candidateScanId)
    (h : SameSource ctx db st) {file : Nat × FileRow} (hok : runFile ctx st file = .ok st') :
    st'.readSet = if consults ctx db file.2 then (st.readSet.addSourceFile file.2.source).observeAll
      ctx.env (fileRelations db ctx.predecessorScanId file.1) else st.readSet := by
  have hcandidate : ∀ name path, candidateFile ctx.env st.db ctx.candidateScanId name path =
      candidateFile ctx.env db ctx.candidateScanId name path := fun name path => by
    simp only [candidateFile, h.facts]
  unfold runFile at hok
  rw [hcandidate, h.fileRelations_eq] at hok
  unfold consults
  by_cases helig : eligible ctx.repositories file.2 = true
  · rw [helig, Bool.not_true, if_neg Bool.false_ne_true] at hok
    cases hcand : candidateFile ctx.env db ctx.candidateScanId file.2.repositoryName file.2.filePath with
    | none =>
      rw [hcand] at hok
      rw [← pure_eq_ok.1 hok]
      simp
    | some target =>
      rw [hcand] at hok
      simp only [helig, Option.isSome_some, and_self, decide_true, if_true]
      dsimp only at hok
      split at hok
      · rw [← pure_eq_ok.1 hok]
        rfl
      · simp only [bind_eq_ok] at hok
        obtain ⟨snapshot, _, hok⟩ := hok
        split at hok
        · rw [← pure_eq_ok.1 hok]
          rfl
        · rename_i source
          refine (foldlM_inv (fun s : RunState => SameSource ctx db s ∧ s.readSet =
            (st.readSet.addSourceFile file.2.source).observeAll ctx.env
              (fileRelations db ctx.predecessorScanId file.1))
            (fun s r s' _ hs hr => ?_) ⟨h.read _, rfl⟩ hok).2
          exact ⟨hs.1.runRelation hne hr, (runRelation_readSet hs.1.caches hr).trans hs.2⟩
  · rw [Bool.not_eq_true] at helig
    rw [helig, Bool.not_false, if_pos rfl] at hok
    rw [← pure_eq_ok.1 hok]
    simp [helig]

/-- What the files of a run leave in the read set. -/
theorem runFiles_readSet (hne : ctx.predecessorScanId ≠ ctx.candidateScanId)
    (files : List (Nat × FileRow)) (h : SameSource ctx db st)
    (hok : files.foldlM (runFile ctx) st = .ok st') :
    st'.readSet = (consultedPages ctx db (files.filter fun f => consults ctx db f.2)).foldl
      (fun acc f => f.2.foldl (observeAll ctx.env) (acc.addSourceFile f.1)) st.readSet := by
  induction files generalizing st with
  | nil =>
    obtain rfl := pure_eq_ok.1 hok
    rfl
  | cons file files ih =>
    rw [List.foldlM_cons, bind_eq_ok] at hok
    obtain ⟨st₁, hfile, hok⟩ := hok
    rw [ih (h.runFile hne hfile) hok, runFile_readSet hne h hfile, List.filter_cons]
    by_cases hc : consults ctx db file.2 = true
    · rw [if_pos hc, if_pos hc]
      rfl
    · rw [if_neg hc, if_neg hc]

/-- **The recorded read set** is that of the consulted files, read by id. -/
theorem run_readSet {env : Env} {db' : Db} {c : Nat} {paths : List (String × String)}
    {readSet : ReadSet} (hl : LinksOk db) (hh : HistoryOk db)
    (hok : run env db c paths = .ok (db', some readSet)) :
    ∃ ctx, RunContext.Of env db c paths ctx ∧ ctx.env = env ∧
      readSet = (readPages env (consultedPages ctx db (consultedFiles ctx db))).toPayload (some c)
        (some ctx.predecessorScanId) := by
  simp only [run, bind_eq_ok] at hok
  obtain ⟨resolution, hres, hok⟩ := hok
  split at hok
  · simp only [pure_eq_ok, Prod.mk.injEq] at hok
    cases hok.2
  · rename_i predecessor hpred
    simp only [bind_eq_ok, pure_eq_ok, Prod.mk.injEq, Option.some.injEq] at hok
    obtain ⟨st, hfold, _, rfl⟩ := hok
    have hof : RunContext.Of env db c paths
        (contextOf env c predecessor resolution.repositories paths) :=
      ⟨resolution, predecessor, hres, hpred, rfl⟩
    refine ⟨_, hof, rfl, ?_⟩
    have hread := runFiles_readSet (hof.predecessor_ne hh) _ (SameSource.start hl) hfold
    rw [hread]
    rfl

/-! ## Relations by file and by path -/

/-- The active relations of the file with the given names. -/
def namedRelations (db : Db) (scanId : Nat) (source : SourceFile) : List SourceRelation :=
  (activeRelations db scanId).filter fun r => r.file.source = source

/-- **The relations of the consulted files are the relations of their names.** -/
theorem consulted_perm (hl : LinksOk db) {files : List SourceFile} (hn : files.Nodup)
    (hfiles : ∀ s, s ∈ files ↔ ∃ f ∈ consultedFiles ctx db, f.2.source = s) :
    ((consultedFiles ctx db).flatMap fun f => fileRelations db ctx.predecessorScanId f.1).Perm
      (files.flatMap (namedRelations db ctx.predecessorScanId)) := by
  let active := activeRelations db ctx.predecessorScanId
  let ids := (consultedFiles ctx db).map Prod.fst
  have hids : ids.Nodup :=
    db.facts.files.nodup.sublist ((List.filter_sublist.trans List.filter_sublist).map Prod.fst)
  have hbyId : ((consultedFiles ctx db).flatMap fun f =>
      fileRelations db ctx.predecessorScanId f.1).Perm
      (active.filter fun r => r.line.fileId ∈ ids) := by
    have := Paging.flatMap_filter_perm (fun r : SourceRelation => r.line.fileId) hids active
    rwa [List.flatMap_map] at this
  have hbyPath : (files.flatMap (namedRelations db ctx.predecessorScanId)).Perm
      (active.filter fun r => r.file.source ∈ files) :=
    Paging.flatMap_filter_perm (fun r : SourceRelation => r.file.source) hn active
  refine hbyId.trans (List.Perm.trans (List.Perm.of_eq ?_) hbyPath.symm)
  refine List.filter_congr fun r hr => decide_eq_decide.2 ?_
  obtain ⟨_, _, _, _, hfile⟩ := mem_activeRelations hr
  constructor
  · intro hid
    obtain ⟨f, hf, he⟩ := List.mem_map.1 hid
    have hget : db.facts.files.get? f.1 = some f.2 :=
      Keyed.get?_eq_some_iff.2 (Keyed.mem_select.1 (List.mem_filter.1 hf).1).1
    rw [he, hfile] at hget
    exact (hfiles _).2 ⟨f, hf, by rw [Option.some.inj hget]⟩
  · intro hpath
    obtain ⟨f, hf, he⟩ := (hfiles _).1 hpath
    refine List.mem_map.2 ⟨(r.line.fileId, r.file), List.mem_filter.2
      ⟨mem_relationFiles hl hr, ?_⟩, rfl⟩
    exact (consults_congr he).symm.trans (List.mem_filter.1 hf).2

/-- The consulted files have a path. -/
theorem consulted_path {env : Env} (h : Reachable env db) {f : Nat × FileRow}
    (hf : f ∈ consultedFiles ctx db) : f.2.filePath ≠ "" :=
  h.pathsOk f.1 f.2 (Keyed.get?_eq_some_iff.2 (Keyed.mem_select.1 (List.mem_filter.1 hf).1).1)

end InheritanceEngine

/-! ## The validation -/

namespace ScanPublicationService

open ReadSetAccumulator

/-- `_validate_compact_read_set` of a scan with a predecessor, with the rows of each query in an
arbitrary order. -/
def validateRows (env : Env) (rows : SourceFile → List SourceRelation) (readSet : ReadSet)
    (candidateScanId predecessor : Nat) : Except Failure Unit := do
  require .readSetChanged
    (readSet.candidateScanId = none ∨ readSet.candidateScanId = some candidateScanId)
  require .readSetChanged (readSet.predecessorScanId = some predecessor)
  require .readSetChanged
    (∀ source ∈ readSet.sourceFiles, source.repositoryName ≠ "" ∧ source.filePath ≠ "")
  require .readSetChanged ((readPages env (readSet.sourceFiles.map fun source =>
    (source, [rows source]))).isMatch readSet = true)

/-- The validation reads the relations of a path in the order of their ids. -/
theorem validate_eq (env : Env) (db : Db) (readSet : ReadSet) (candidateScanId predecessor : Nat) :
    validateCompactReadSet env db readSet candidateScanId (some predecessor) =
      validateRows env (pathRelations env db predecessor) readSet candidateScanId predecessor := by
  have hreplay : replay env db predecessor readSet.sourceFiles = readPages env
      (readSet.sourceFiles.map fun source => (source, [pathRelations env db predecessor source])) := by
    rw [replay, readPages, List.foldl_map]
    rfl
  rw [validateCompactReadSet, hreplay]
  rfl

/-- The active relations of the given files. -/
def consultedRelations (db : Db) (predecessor : Nat) (files : List SourceFile) :
    List SourceRelation :=
  files.flatMap (InheritanceEngine.namedRelations db predecessor)

/-- The active relations the queries for the given files return. -/
def countedRelations (env : Env) (db : Db) (predecessor : Nat) (files : List SourceFile) :
    List SourceRelation :=
  files.flatMap (pathRelations env db predecessor)

/-- **The validation compares fingerprints.** -/
theorem validateRows_eq_ok {env : Env} {db : Db} {rows : SourceFile → List SourceRelation}
    {readSet : ReadSet} {c predecessor : Nat} (hcandidate : readSet.candidateScanId = some c)
    (hpred : readSet.predecessorScanId = some predecessor)
    (hpaths : ∀ s ∈ readSet.sourceFiles, s.filePath ≠ "")
    (hn : readSet.sourceFiles.Nodup)
    (hsorted : readSet.sourceFiles.Pairwise fun a b => sourceFileLe a b = true)
    (hrows : ∀ s ∈ readSet.sourceFiles, (rows s).Perm (pathRelations env db predecessor s))
    {u : Unit} :
    validateRows env rows readSet c predecessor = .ok u ↔
      (∀ s ∈ readSet.sourceFiles, s.repositoryName ≠ "") ∧
      readSet.relations = fingerprint env "relation"
          (relationRevisions (countedRelations env db predecessor readSet.sourceFiles)) ∧
        readSet.records = fingerprint env "record"
          (recordRevisions (countedRelations env db predecessor readSet.sourceFiles)) := by
  let files := readSet.sourceFiles.map fun s => (s, [rows s])
  obtain ⟨hrel, hrec, hnodup, hmem⟩ := readPages_eq env files
  have henum : (enumerated files).Perm
      (countedRelations env db predecessor readSet.sourceFiles) := by
    rw [enumerated, List.flatMap_map, countedRelations]
    refine List.Perm.flatMap_left _ fun s hs => ?_
    simpa using hrows s hs
  have hfiles : (readPages env files).sourceFiles.insertionSort (sourceFileLe · ·) =
      readSet.sourceFiles := by
    have hperm : (readPages env files).sourceFiles.Perm readSet.sourceFiles :=
      (List.perm_ext_iff_of_nodup hnodup hn).2 fun s => by simp [hmem, files]
    rw [sorted_files_eq hperm]
    exact hsorted.insertionSort_eq
  simp only [validateRows, bind_eq_ok, require_eq_ok, isMatch_iff]
  rw [hfiles, hrel, hrec, fingerprint_perm (relationRevisions_perm henum),
    fingerprint_perm (recordRevisions_perm henum)]
  constructor
  · rintro ⟨_, _, _, _, _, hnamed, h₁, h₂, _⟩
    exact ⟨fun s hs => (hnamed s hs).1, h₁, h₂⟩
  · rintro ⟨hnamed, h₁, h₂⟩
    exact ⟨(), .inr hcandidate, (), hpred, (), fun s hs => ⟨hnamed s hs, hpaths s hs⟩, h₁, h₂, rfl⟩

/-- No active relation is found by the names of a recorded file and stands in another one. -/
def NoStrangers (env : Env) (db : Db) (predecessor : Nat) (files : List SourceFile) : Prop :=
  ∀ s ∈ files, ∀ r ∈ activeRelations db predecessor, env.sameSource r.file s = true →
    r.file.source = s

section Strangers

variable {env : Env} (hrefl : ∀ name, env.collates name name = true) {db : Db} {predecessor : Nat}
include hrefl

theorem sameSource_source (f : FileRow) : env.sameSource f f.source = true :=
  decide_eq_true ⟨hrefl _, hrefl _⟩

/-- The relations of a file are found by its names. -/
theorem namedRelations_sublist (s : SourceFile) :
    (InheritanceEngine.namedRelations db predecessor s).Sublist
      (pathRelations env db predecessor s) := by
  refine List.monotone_filter_right _ fun r hr => ?_
  obtain rfl := of_decide_eq_true hr
  exact sameSource_source hrefl r.file

/-- **Where there are no strangers the queries return the relations of the files.** -/
theorem counted_eq_consulted {files : List SourceFile}
    (h : NoStrangers env db predecessor files) :
    countedRelations env db predecessor files = consultedRelations db predecessor files := by
  refine List.flatMap_congr fun s hs => List.filter_congr fun r hr => ?_
  rw [Bool.eq_iff_iff, decide_eq_true_eq]
  constructor
  · exact h s hs r hr
  · rintro rfl
    exact sameSource_source hrefl r.file

/-- **Where there is a stranger they return more.** -/
theorem length_consulted_lt {files : List SourceFile}
    (h : ¬ NoStrangers env db predecessor files) :
    (consultedRelations db predecessor files).length <
      (countedRelations env db predecessor files).length := by
  have hall : ∀ s, (InheritanceEngine.namedRelations db predecessor s).length ≤
      (pathRelations env db predecessor s).length :=
    fun s => (namedRelations_sublist hrefl s).length_le
  unfold NoStrangers at h
  push Not at h
  obtain ⟨s, hs, r, hr, hfound, hother⟩ := h
  unfold consultedRelations countedRelations
  rw [List.length_flatMap, List.length_flatMap]
  refine List.sum_lt_sum _ _ (fun s' _ => hall s') ⟨s, hs, ?_⟩
  refine Nat.lt_of_le_of_ne (hall s) fun heq => ?_
  have hsublist : (InheritanceEngine.namedRelations db predecessor s).Sublist _ :=
    namedRelations_sublist hrefl s
  have hsame := hsublist.eq_of_length heq
  have hmem : r ∈ pathRelations env db predecessor s := List.mem_filter.2 ⟨hr, hfound⟩
  rw [← hsame] at hmem
  exact hother (of_decide_eq_true (List.mem_filter.1 hmem).2)

end Strangers

end ScanPublicationService

/-! ## The contract -/

/-- The relations with their revisions, and their records with theirs, are the same multisets. -/
def SameObservations (rs rs' : List SourceRelation) : Prop :=
  (relationRevisions rs).Perm (relationRevisions rs') ∧
    (recordRevisions rs).Perm (recordRevisions rs')

instance (rs rs' : List SourceRelation) : Decidable (SameObservations rs rs') :=
  inferInstanceAs (Decidable (_ ∧ _))

theorem SameObservations.length_eq {rs rs' : List SourceRelation} (h : SameObservations rs rs') :
    rs.length = rs'.length := by
  have := h.1.length_eq
  rwa [relationRevisions, relationRevisions, List.length_map, List.length_map] at this

open ScanPublicationService in
/-- The comparison with what the queries return is exact where there are no strangers, and where
both comparisons fail. -/
theorem comparison_exact_iff {env : Env} (hrefl : ∀ name, env.collates name name = true) {db : Db}
    {predecessor : Nat} {files : List SourceFile} {observed : List SourceRelation} {named : Prop} :
    ((named ∧ SameObservations observed (countedRelations env db predecessor files)) ↔
        SameObservations observed (consultedRelations db predecessor files)) ↔
      (named ∧ NoStrangers env db predecessor files) ∨
      (¬ SameObservations observed (consultedRelations db predecessor files) ∧
        ¬ (named ∧ SameObservations observed (countedRelations env db predecessor files))) := by
  constructor
  · intro hexact
    by_cases hsame : SameObservations observed (consultedRelations db predecessor files)
    · obtain ⟨hnamed, hcounted⟩ := hexact.2 hsame
      refine .inl ⟨hnamed, ?_⟩
      by_contra hstranger
      have hlt : (consultedRelations db predecessor files).length <
          (countedRelations env db predecessor files).length :=
        length_consulted_lt hrefl hstranger
      exact absurd (hsame.length_eq.symm.trans hcounted.length_eq) (Nat.ne_of_lt hlt)
    · exact .inr ⟨hsame, mt hexact.1 hsame⟩
  · rintro (⟨hnamed, hstrangers⟩ | ⟨hsame, hcounted⟩)
    · have hcounted : countedRelations env db predecessor files =
          consultedRelations db predecessor files :=
        counted_eq_consulted hrefl hstrangers
      rw [hcounted]
      exact ⟨fun h => h.2, fun h => ⟨hnamed, h⟩⟩
    · exact iff_of_false hcounted hsame

open InheritanceEngine ScanPublicationService ReadSetAccumulator in
/-- **When the validation is exact.**  A run in pages of any size records the same read set, which
is also that of every other enumeration of the consulted files and of their relations.  The
publication, whatever the order of the rows it reads, compares the observations of the run with
those the queries return; so it accepts a database exactly when the recorded files have the same
observations there, if every recorded file has a repository and no other file is found by its
names, or if both comparisons fail. -/
theorem read_set_validation_exact_iff {env : Env} {db db' later : Db}
    {c predecessor batchSize fuel : Nat} {paths : List (String × String)} {readSet : ReadSet}
    {rows : SourceFile → List SourceRelation} (h : Reachable env db)
    (hrefl : ∀ name, env.collates name name = true)
    (hfuel : db.domain.links.rows.length + db.facts.files.rows.length < fuel)
    (hrun : (runPaged env db c paths batchSize fuel).run = .ok (some (db', some readSet)))
    (hpred : readSet.predecessorScanId = some predecessor)
    (hrows : ∀ s ∈ readSet.sourceFiles, (rows s).Perm (pathRelations env later predecessor s))
    (hrelation : Separates env "relation"
      (relationRevisions (consultedRelations db predecessor readSet.sourceFiles))
      (relationRevisions (countedRelations env later predecessor readSet.sourceFiles)))
    (hrecord : Separates env "record"
      (recordRevisions (consultedRelations db predecessor readSet.sourceFiles))
      (recordRevisions (countedRelations env later predecessor readSet.sourceFiles))) :
    (∀ files : List (SourceFile × List (List SourceRelation)),
      (∀ s, s ∈ files.map Prod.fst ↔ s ∈ readSet.sourceFiles) →
      (enumerated files).Perm (consultedRelations db predecessor readSet.sourceFiles) →
      (readPages env files).toPayload (some c) (some predecessor) = readSet) ∧
    ((validateRows env rows readSet c predecessor = .ok () ↔
        SameObservations (consultedRelations db predecessor readSet.sourceFiles)
          (consultedRelations later predecessor readSet.sourceFiles)) ↔
      ((∀ s ∈ readSet.sourceFiles, s.repositoryName ≠ "") ∧
        NoStrangers env later predecessor readSet.sourceFiles) ∨
      (¬ SameObservations (consultedRelations db predecessor readSet.sourceFiles)
          (consultedRelations later predecessor readSet.sourceFiles) ∧
        ¬ ((∀ s ∈ readSet.sourceFiles, s.repositoryName ≠ "") ∧
          SameObservations (consultedRelations db predecessor readSet.sourceFiles)
            (countedRelations env later predecessor readSet.sourceFiles)))) := by
  have hl : LinksOk db := h.integrity.toLinksOk
  rw [runPaged_eq hl h.historyOk batchSize hfuel] at hrun
  have hok : run env db c paths = .ok (db', some readSet) := by
    cases hr : run env db c paths with
    | error e =>
      rw [hr] at hrun
      exact nomatch hrun
    | ok result =>
      rw [hr] at hrun
      rw [Option.some.inj (Except.ok.inj hrun)]
  obtain ⟨ctx, hof, _, rfl⟩ := run_readSet hl h.historyOk hok
  obtain rfl := Option.some.inj hpred
  let own := consultedPages ctx db (consultedFiles ctx db)
  obtain ⟨hrel, hrec, hnodup, hmem⟩ := readPages_eq env own
  let files := (readPages env own).sourceFiles.insertionSort (sourceFileLe · ·)
  have hperm : files.Perm (readPages env own).sourceFiles := List.perm_insertionSort _ _
  have hnames : ∀ s, s ∈ files ↔ ∃ f ∈ consultedFiles ctx db, f.2.source = s := fun s => by
    rw [hperm.mem_iff, hmem]
    simp [own, consultedPages]
  have hown : (enumerated own).Perm (consultedRelations db ctx.predecessorScanId files) := by
    refine List.Perm.trans (List.Perm.of_eq ?_)
      (consulted_perm hl (hperm.nodup_iff.2 hnodup) hnames)
    simp [own, consultedPages, enumerated, List.flatMap_map]
  refine ⟨fun reads hreads hreadRel => ?_, ?_⟩
  · refine toPayload_readPages (hreadRel.trans hown.symm) (fun s => ?_) _ _
    rw [hreads, ← hmem]
    exact hperm.mem_iff
  · have hpaths : ∀ s ∈ files, s.filePath ≠ "" := fun s hs => by
      obtain ⟨f, hf, rfl⟩ := (hnames s).1 hs
      exact consulted_path h hf
    -- the code compares with what the queries return
    have hok : validateRows env rows ((readPages env own).toPayload (some c)
        (some ctx.predecessorScanId)) c ctx.predecessorScanId = .ok () ↔
        (∀ s ∈ files, s.repositoryName ≠ "") ∧
          SameObservations (consultedRelations db ctx.predecessorScanId files)
            (countedRelations env later ctx.predecessorScanId files) := by
      rw [validateRows_eq_ok rfl rfl hpaths (hperm.nodup_iff.2 hnodup) (pairwise_sorted_files _)
        hrows]
      refine and_congr_right fun _ => ?_
      change (readPages env own).relations = _ ∧ (readPages env own).records = _ ↔ _
      rw [hrel, hrec, fingerprint_perm (relationRevisions_perm hown),
        fingerprint_perm (recordRevisions_perm hown)]
      exact and_congr hrelation.iff hrecord.iff
    rw [hok]
    exact comparison_exact_iff hrefl

/-! ### A run in pages of one row -/

namespace Sample

/-- The second scan before the engine runs. -/
def unread : List Action :=
  reviewed ++ [.registerResource 7, .create ⟨identity "sha2", [7], "sha2", 10⟩] ++
    (construct worker 2 [twoLines] 2).dropLast

/-- The database the engine reads. -/
def unreadDb : Db := Trace.run (Action.exec env) Db.empty unread

/-- The run, a row at a time. -/
def pagedRun : Except Failure (Option (Db × Option ReadSet)) :=
  (InheritanceEngine.runPaged env unreadDb 2 [("core", "/src/core")] 1 20).run

/-- The read set of a run. -/
def recordedIn : Except Failure (Option (Db × Option ReadSet)) → Option ReadSet
  | .ok (some (_, readSet)) => readSet
  | _ => none

theorem exists_of_recordedIn {x : Except Failure (Option (Db × Option ReadSet))} {r : ReadSet}
    (h : recordedIn x = some r) : ∃ db, x = .ok (some (db, some r)) := by
  match x, h with
  | .ok (some (db, some _)), rfl => exact ⟨db, rfl⟩

/-- The read set of the run. -/
def recordedSet : ReadSet := (recordedIn pagedRun).getD ⟨none, none, DigestSum.zero, DigestSum.zero, []⟩

/-- A line of the predecessor is concluded anew before the publication. -/
def changedDb : Db :=
  Trace.run (Action.exec env) unreadDb [.mutate (.save "fos" 1 [conclude 2 2 "可覆盖"] "bob" true)]

end Sample

/-- The collation of the samples says of every name that it is itself. -/
theorem Sample.collates_refl (name : String) : Sample.env.collates name name = true :=
  decide_eq_true rfl

open ScanPublicationService in
/-- The changed record of the predecessor is noticed. -/
theorem read_set_validation_exact_iff_sample :
    validateRows Sample.env (pathRelations Sample.env Sample.changedDb 1) Sample.recordedSet 2 1 ≠
      .ok () := by
  obtain ⟨db', hrun⟩ : ∃ db', Sample.pagedRun = .ok (some (db', some Sample.recordedSet)) :=
    Sample.exists_of_recordedIn (by decide +kernel)
  have hrows : ∀ s ∈ Sample.recordedSet.sourceFiles,
      (pathRelations Sample.env Sample.changedDb 1 s).Perm
        (pathRelations Sample.env Sample.changedDb 1 s) :=
    fun s _ => List.Perm.refl _
  have h := (read_set_validation_exact_iff ⟨Sample.unread, rfl⟩ Sample.collates_refl
    (by decide +kernel) hrun (by decide +kernel) hrows (show _ → _ by decide +kernel)
    (show _ → _ by decide +kernel)).2.2 (.inl ⟨by decide +kernel, ?_⟩)
  · rw [Ne, h]
    decide +kernel
  · unfold NoStrangers
    decide +kernel

/-! ### Two files that differ in case -/

namespace Sample

/-- The second scan before the engine runs, with conclusions on the lines of both files. -/
def unreadNamesakes : List Action :=
  [firstScan [upperTwoLines, twoLines],
    .mutate (.save "fos" 1 [conclude 1 2 "可覆盖",
      { conclude 1 2 "可覆盖" with filePath := "A.cpp" }] "ann" true), .registerResource 7,
    .create ⟨identity "sha2", [7], "sha2", 10⟩] ++
    (construct worker 2 [upperTwoLines, twoLines] 4).dropLast

/-- The database the engine reads. -/
def unreadNamesakesDb : Db := Trace.run (Action.exec env) Db.empty unreadNamesakes

/-- The read set of the run. -/
def namesakesSet : ReadSet :=
  (recordedIn (InheritanceEngine.runPaged env unreadNamesakesDb 2 [("core", "/src/core")] 1
    20).run).getD ⟨none, none, DigestSum.zero, DigestSum.zero, []⟩

end Sample

open ScanPublicationService in
/-- Nothing has changed, and the publication refuses: the query for either file returns the relations
of both. -/
theorem unchanged_read_set_refused :
    Reachable Sample.env Sample.unreadNamesakesDb ∧
    (∃ db', (InheritanceEngine.runPaged Sample.env Sample.unreadNamesakesDb 2
      [("core", "/src/core")] 1 20).run = .ok (some (db', some Sample.namesakesSet))) ∧
    SameObservations
      (consultedRelations Sample.unreadNamesakesDb 1 Sample.namesakesSet.sourceFiles)
      (consultedRelations Sample.unreadNamesakesDb 1 Sample.namesakesSet.sourceFiles) ∧
    validateCompactReadSet Sample.env Sample.unreadNamesakesDb Sample.namesakesSet 2 (some 1) =
      .error .readSetChanged :=
  ⟨⟨Sample.unreadNamesakes, rfl⟩, Sample.exists_of_recordedIn (by decide +kernel),
    ⟨List.Perm.refl _, List.Perm.refl _⟩, by decide +kernel⟩

end FosCoverage
