import FosCoverage.Import.BatchSpec
import FosCoverage.Import.ScanImport
import FosCoverage.Service.Acceptance

/-!
# One file, two computations of its identity

A file is stored under its repository and a hash.  The importer takes the hash of the repository
name, a NUL and the path (`ScanImportService.identityText`).  A save request names the file by
repository and path, and `compute_db_file_path_hash` takes the hash of a normal form of the two
(`scopedFileIdentity`): the blanks around both are stripped, slashes in front of the path are
dropped, and an empty repository leaves the path alone.

* `scopedFileIdentity_eq_identityText_iff` says for which pairs the two texts agree (`Readable`):
  the repository is named, and neither it nor the path has blanks around it.
* `identity_agrees_iff` carries that to the database: after any import, every stored line is found
  by its stored name, and no two stored names find one file, if and only if the stored pairs with
  lines are readable and no two pairs have one normal form that is stored (`Unmerged`).

MD5 is an injective function that never returns the empty text.
-/

set_option autoImplicit false

namespace FosCoverage

open Relational Outcome ScanImportService

namespace SourceReader

/-! ## The text of an identity -/

/-- `normalize_file_identity_path` -/
def normalizeFileIdentityPath (filePath : String) : String :=
  String.ofList ((Text.strip (forwardSlashes filePath).toList).dropWhile (· = '/'))

/-- `str.strip` of a repository name. -/
def strippedRepository (repositoryName : String) : String :=
  String.ofList (Text.strip repositoryName.toList)

/-- `_scoped_file_identity` -/
def scopedFileIdentity (filePath repositoryName : String) : String :=
  let normalized := normalizeFileIdentityPath filePath
  let repository := strippedRepository repositoryName
  if repository = "" then normalized else repository ++ "\x00" ++ normalized

/-- `compute_db_file_path_hash` -/
def computeDbFilePathHash (md5 : String → String) (filePath repositoryName : String) : String :=
  md5 (scopedFileIdentity filePath repositoryName)

/-- The two computations see one text: the repository is named, and neither it nor the path has
anything that is normalised away. -/
def Readable (repositoryName filePath : String) : Prop :=
  repositoryName ≠ "" ∧ strippedRepository repositoryName = repositoryName ∧
    normalizeFileIdentityPath filePath = filePath

instance (repositoryName filePath : String) : Decidable (Readable repositoryName filePath) :=
  inferInstanceAs (Decidable (_ ∧ _ ∧ _))

theorem strip_sublist (s : List Char) : (Text.strip s).Sublist s := by
  have hrstrip : ∀ t : List Char, (Text.rstrip t).Sublist t := by
    intro t
    rw [Text.rstrip, ← List.reverse_sublist, List.reverse_reverse]
    exact List.dropWhile_sublist _
  exact (hrstrip _).trans (List.dropWhile_sublist _)

theorem length_strippedRepository_le (s : String) :
    (strippedRepository s).toList.length ≤ s.toList.length := by
  rw [strippedRepository, String.toList_ofList]
  exact (strip_sublist _).length_le

theorem strippedRepository_eq_of_length {s : String}
    (h : (strippedRepository s).toList.length = s.toList.length) : strippedRepository s = s := by
  rw [strippedRepository, String.toList_ofList] at h
  rw [strippedRepository, (strip_sublist _).eq_of_length h, String.ofList_toList]

theorem length_normalizeFileIdentityPath_le (s : String) :
    (normalizeFileIdentityPath s).toList.length ≤ s.toList.length := by
  have h := ((List.dropWhile_sublist (· = '/')).trans
    (strip_sublist (forwardSlashes s).toList)).length_le
  rw [normalizeFileIdentityPath, String.toList_ofList]
  simpa [forwardSlashes] using h

/-- **Where the two texts agree.** -/
theorem scopedFileIdentity_eq_identityText_iff (repositoryName filePath : String) :
    scopedFileIdentity filePath repositoryName = identityText repositoryName filePath ↔
      Readable repositoryName filePath := by
  have hpath := length_normalizeFileIdentityPath_le filePath
  have hname := length_strippedRepository_le repositoryName
  have hnul : ("\x00" : String).toList.length = 1 := rfl
  simp only [scopedFileIdentity, identityText, Readable]
  by_cases hempty : strippedRepository repositoryName = ""
  · -- the reader's text is the path alone and cannot be as long as the importer's
    rw [if_pos hempty]
    constructor
    · intro h
      have hlength := congrArg (fun s => s.toList.length) h
      simp only [String.toList_append, List.length_append] at hlength
      omega
    · rintro ⟨hne, hstrip, _⟩
      exact absurd (hstrip ▸ hempty) hne
  · rw [if_neg hempty]
    constructor
    · intro h
      have hlength := congrArg (fun s => s.toList.length) h
      simp only [String.toList_append, List.length_append] at hlength
      have hstrip : strippedRepository repositoryName = repositoryName :=
        strippedRepository_eq_of_length (by omega)
      refine ⟨fun hnil => hempty (by rw [hstrip, hnil]), hstrip, ?_⟩
      rw [hstrip] at h
      have htext := congrArg String.toList h
      simp only [String.toList_append] at htext
      exact String.toList_inj.1 (List.append_cancel_left htext)
    · rintro ⟨_, hstrip, hnormal⟩
      rw [hstrip, hnormal]

end SourceReader

namespace AnalysisService

/-! ## A request for one stored line -/

/-- The record names the line by repository, path and number as they are stored. -/
structure NamesStored (item : Item) (file : FileRow) (line : LineRow) : Prop where
  /-- No id. -/
  lineId : item.lineId = 0
  /-- No hash. -/
  filePathHash : item.filePathHash = ""
  /-- No range. -/
  ranges : item.ranges = none
  /-- The stored number. -/
  lineNumber : item.lineNumber = some (line.facts.lineNumber : Int)
  /-- The stored repository. -/
  repositoryName : item.repositoryName = file.repositoryName
  /-- The stored path. -/
  filePath : item.filePath = file.filePath
  /-- The conclusion is one a client may send. -/
  status : item.status.getD "" ∈ validStatuses

/-- The record of a request that says nothing but which line it means. -/
def Item.naming (repositoryName filePath : String) (lineNumber : Nat) : Item :=
  { repositoryName := repositoryName, filePath := filePath, lineNumber := some lineNumber }

theorem namesStored_naming (file : FileRow) (line : LineRow) :
    NamesStored (.naming file.repositoryName file.filePath line.facts.lineNumber) file line :=
  ⟨rfl, rfl, rfl, rfl, rfl, rfl, List.mem_cons_self⟩

/-- The file a request finds for a repository and a path. -/
def fileNamed (env : Env) (db : Db) (scanId : Nat) (repositoryName filePath : String) :
    Option (Nat × FileRow) :=
  ProjectRepository.getFile db scanId repositoryName
    ((Item.naming repositoryName filePath 0).fileHash env)

variable {env : Env} {db : Db} {scanId : Nat}

theorem fileHash_of_namesStored {item : Item} {file : FileRow} {line : LineRow}
    (h : NamesStored item file line) :
    item.fileHash env = (Item.naming file.repositoryName file.filePath 0).fileHash env := by
  simp only [Item.fileHash, Item.naming, h.filePathHash, h.filePath, h.repositoryName]

/-- **A request for one line of a file that is found.** -/
theorem resolveRecords_single {item : Item} {reviewer : String} {k q n : Nat} {file : FileRow}
    {line : LineRow} (hid : item.lineId = 0) (hranges : item.ranges = none)
    (hnumber : item.lineNumber = some (n : Int)) (hpos : 0 < n)
    (hstatus : item.status.getD "" ∈ validStatuses)
    (hfile : ProjectRepository.getFile db scanId item.repositoryName (item.fileHash env) =
      some (k, file))
    (hline : LineIndexRepository.getLine db k n = some (q, line)) :
    ∃ r, resolveRecords env db scanId [item] reviewer = .ok [r] ∧ r.lineId = q := by
  have hexpand : expandItem [] (1, item) = .ok [⟨1, 0, n, n, some n, item⟩] := by
    simp only [expandItem, hranges, hnumber, expandRanges, List.zipIdx_cons, List.zipIdx_nil,
      List.foldlM_cons, List.foldlM_nil, expandRange, bind_eq_ok, require_eq_ok, pure_eq_ok]
    refine ⟨_, ⟨⟨⟩, ⟨by omega, by omega⟩, ⟨⟩, ?_, ⟨⟩, ?_, rfl⟩, ?_⟩
    · simp only [maxExpandedAnalysisLines]
      omega
    · have hone : n + 1 - n = 1 := by omega
      simp [hone, maxExpandedAnalysisLines]
    · have hone : n + 1 - n = 1 := by omega
      simp [hone]
  have hknown : ([⟨1, 0, n, n, some n, item⟩] : List Selected).forM
      (assertFileKnown env db scanId) = .ok ⟨⟩ := by
    refine forM_eq_ok.2 fun s hs => ?_
    obtain rfl := List.mem_singleton.1 hs
    simp only [assertFileKnown, hid, ne_eq, not_true_eq_false, if_false, hfile, orFail_some,
      ok_bind]
    rfl
  have hresolve : ∃ r, resolveLine env db scanId reviewer ⟨1, 0, n, n, some n, item⟩ = .ok r ∧
      r.lineId = q := by
    have hfind : findLine env db scanId ⟨1, 0, n, n, some n, item⟩ = .ok (q, line) := by
      simp only [findLine, hid, ne_eq, not_true_eq_false, if_false, hfile, orFail_some, ok_bind,
        Option.getD_some, hline]
    have hvalid : (if reviewer ≠ "" ∧ item.reviewer = "" then { item with reviewer := reviewer }
        else item).status.getD "" ∈ validStatuses := by
      split <;> exact hstatus
    simp only [resolveLine, hfind, ok_bind, bind_eq_ok, require_eq_ok, pure_eq_ok]
    exact ⟨_, ⟨⟨⟩, hvalid, rfl⟩, rfl⟩
  obtain ⟨r, hr, hq⟩ := hresolve
  refine ⟨r, ?_, hq⟩
  have hops : ([item].zipIdx.map fun r => (r.2 + 1, r.1)) = [(1, item)] := rfl
  rw [resolveRecords, hops, List.foldlM_cons, hexpand, ok_bind, List.foldlM_nil]
  simp only [pure_bind, hknown, ok_bind, List.mapM_cons, List.mapM_nil, hr]
  rfl

/-! ## Agreement of importer and reviewers -/

/-- Importer and reviewers mean the same files of a scan. -/
structure IdentityAgrees (env : Env) (db : Db) (scanId : Nat) : Prop where
  /-- **A request that names a stored line as it is stored resolves to that line.** -/
  resolves : ∀ q line k file, db.facts.lines.get? q = some line → line.fileId = k →
    db.facts.files.get? k = some file → file.scanId = scanId →
    ∀ item reviewer, NamesStored item file line →
      ∃ r, resolveRecords env db scanId [item] reviewer = .ok [r] ∧ r.lineId = q
  /-- **Different stored pairs never find one file.** -/
  apart : ∀ k file k' file', db.facts.files.get? k = some file → file.scanId = scanId →
    db.facts.files.get? k' = some file' → file'.scanId = scanId →
    (file.repositoryName, file.filePath) ≠ (file'.repositoryName, file'.filePath) →
    ∀ found, fileNamed env db scanId file.repositoryName file.filePath = some found →
      fileNamed env db scanId file'.repositoryName file'.filePath ≠ some found

end AnalysisService

namespace SourceReader

open AnalysisService ProjectService

/-- A part of a file that the importer built from one of the records, as a batch has it. -/
def ImportedPart (md5 : String → String) (repositories : List RepositoryInput)
    (records : List Lcov.InfoRecord) (part : CoverageItem) : Prop :=
  ∃ record ∈ records, ∃ item, buildFile md5 repositories record = .ok item ∧
    { item with lines := part.lines, chunk := part.chunk } = part ∧ part.lines ⊆ item.lines

/-- No two pairs of a repository have a normal form that is one stored pair. -/
def Unmerged (parts : List CoverageItem) : Prop :=
  ∀ p ∈ parts, ∀ p' ∈ parts, ∀ g ∈ parts,
    p.repositoryName = g.repositoryName → p'.repositoryName = g.repositoryName →
    scopedFileIdentity p.filePath p.repositoryName = identityText g.repositoryName g.filePath →
    scopedFileIdentity p'.filePath p'.repositoryName = identityText g.repositoryName g.filePath →
    p.filePath = p'.filePath

section Import

variable {md5 : String → String} {repositories : List RepositoryInput}
  {records : List Lcov.InfoRecord} {part : CoverageItem}

/-- A synchronous import feeds the files as they are built. -/
theorem importedPart_of_iterFiles {items : List CoverageItem}
    (h : iterFiles md5 repositories records = .ok items) :
    ∀ item ∈ items, ImportedPart md5 repositories records item := by
  intro item hitem
  obtain ⟨record, hrecord, hbuild⟩ := exists_of_mem_mapM h hitem
  exact ⟨record, hrecord, item, hbuild, rfl, List.Subset.refl _⟩

/-- A durable import feeds chunks of them. -/
theorem importedPart_of_iterCoverageBatches {env : Env} {items : List CoverageItem}
    (h : iterFiles md5 repositories records = .ok items) (maxFiles : Nat) (limits : BatchLimits) :
    ∀ c ∈ (ScanImportCoordinator.iterCoverageBatches env items maxFiles limits).flatten,
      ImportedPart md5 repositories records c := by
  intro c hc
  have hperm := ScanImportCoordinator.perm_flatten_iterCoverageBatches env limits items maxFiles
  obtain ⟨item, hitem, hchunk⟩ := List.mem_flatMap.1 (hperm.subset hc)
  obtain ⟨record, hrecord, hbuild⟩ := exists_of_mem_mapM h hitem
  refine ⟨record, hrecord, item, hbuild, (ScanImportCoordinator.chunkOf_of_mem hchunk).fields, ?_⟩
  intro r hr
  rw [← ScanImportCoordinator.flatMap_fileChunks_lines env limits item]
  exact List.mem_flatMap.2 ⟨c, hchunk, hr⟩

theorem ImportedPart.hash (h : ImportedPart md5 repositories records part) :
    part.filePathHash = md5 (identityText part.repositoryName part.filePath) := by
  obtain ⟨_, _, item, hbuild, hpart, _⟩ := h
  have hhash := (buildFile_ok hbuild).2.1
  rw [← hpart]
  exact hhash

/-- The row of a part has its pair, and the hash of its text. -/
theorem ImportedPart.row {env : Env} {scanId : Nat} (hne : ∀ s, md5 s ≠ "")
    (h : ImportedPart md5 repositories records part) :
    (itemRow env scanId part).repositoryName = part.repositoryName ∧
      (itemRow env scanId part).filePath = part.filePath ∧
      (itemRow env scanId part).filePathHash =
        md5 (identityText part.repositoryName part.filePath) := by
  refine ⟨rfl, rfl, ?_⟩
  have hhash : part.filePathHash ≠ "" := by
    rw [h.hash]
    exact hne _
  simp only [itemRow, normalizedItem, ProjectRepository.FileItem.row, if_pos hhash]
  exact h.hash

end Import

/-! ## Agreement after an import -/

section Agreement

variable {md5 : String → String} {env : Env} {db : Db} {scanId : Nat}

/-- The hash a request gives a pair with a path. -/
theorem fileHash_naming (henv : env.computeDbFilePathHash = computeDbFilePathHash md5)
    {repositoryName filePath : String} (hpath : filePath ≠ "") (n : Nat) :
    (Item.naming repositoryName filePath n).fileHash env =
      md5 (scopedFileIdentity filePath repositoryName) := by
  simp only [Item.fileHash, Item.naming, true_and, if_pos hpath, henv]
  rfl

/-- The file found for a pair is the one with the importer's text equal to the reader's. -/
theorem fileNamed_eq_some_iff (hok : FactsOk db)
    (henv : env.computeDbFilePathHash = computeDbFilePathHash md5)
    {repositoryName filePath : String} (hpath : filePath ≠ "") {k : Nat} {file : FileRow} :
    fileNamed env db scanId repositoryName filePath = some (k, file) ↔
      db.facts.files.get? k = some file ∧ file.scanId = scanId ∧
        file.repositoryName = repositoryName ∧
        file.filePathHash = md5 (scopedFileIdentity filePath repositoryName) := by
  rw [fileNamed, fileHash_naming henv hpath]
  constructor
  · intro h
    obtain ⟨hk, hkey⟩ := ProjectRepository.getFile_some h
    simp only [FileRow.key, Prod.mk.injEq] at hkey
    exact ⟨hk, hkey⟩
  · rintro ⟨hk, hscan, rfl, hhash⟩
    rw [← hhash]
    exact getFile_of_row hok hk hscan

variable {repositories : List RepositoryInput} {records : List Lcov.InfoRecord}

/-- **Importer and reviewers agree** after an import into a fresh scan, in any batches, if and only
if the pairs of the files with lines are readable and no two pairs are merged. -/
theorem identity_agrees_iff (md5 : String → String) (hinjective : Function.Injective md5)
    (hdigest : ∀ s, md5 s ≠ "") (env : Env)
    (henv : env.computeDbFilePathHash = computeDbFilePathHash md5)
    (repositories : List RepositoryInput) (records : List Lcov.InfoRecord) (db db' : Db)
    (scanId : Nat) (hfresh : Fresh db scanId) (batches : List (List CoverageItem))
    (hparts : ∀ part ∈ batches.flatten, ImportedPart md5 repositories records part)
    (hrun : ingestBatches env db scanId batches = .ok db') :
    IdentityAgrees env db' scanId ↔
      (∀ part ∈ batches.flatten, part.lines ≠ [] →
        Readable part.repositoryName part.filePath) ∧ Unmerged batches.flatten := by
  obtain ⟨hwithin, hstores⟩ := within_of_fresh hfresh hrun
  have hok : FactsOk db' := (ingestBatches_spec hfresh.ok hrun).ok
  have hcoherent := coherent_of_ingestBatches hfresh.ok hrun
  have hrow : ∀ part ∈ batches.flatten, (itemRow env scanId part).filePathHash =
      md5 (identityText part.repositoryName part.filePath) :=
    fun part hpart => ((hparts part hpart).row hdigest).2.2
  constructor
  · intro hagrees
    refine ⟨fun p hp hlines => ?_, fun p hp p' hp' g hg hr hr' ht ht' => ?_⟩
    · -- a stored line is found, so the two hashes of its file are one
      obtain ⟨r, rest, hcons⟩ := List.exists_cons_of_ne_nil hlines
      obtain ⟨k, hk, hstored⟩ := hstores p hp
      obtain ⟨q, hq⟩ := hstored r (by rw [hcons]; exact List.mem_cons_self)
      obtain ⟨resolved, hresolved, hid⟩ := hagrees.resolves q _ k _ hq rfl hk rfl
        (.naming p.repositoryName p.filePath r.lineNumber) ""
        (namesStored_naming (itemRow env scanId p) ⟨k, r.facts⟩)
      have hmem : q ∈ [resolved].map Resolved.lineId := by
        rw [List.map_singleton, hid]
        exact List.mem_singleton.2 rfl
      obtain ⟨item, hitem, line, file, hline, hfile, _, hnames⟩ :=
        ((resolution_of_ok hok hresolved).lines q).1 hmem
      obtain rfl := List.mem_singleton.1 hitem
      obtain rfl := Option.some.inj (hq.symm.trans hline)
      obtain rfl := Option.some.inj (hk.symm.trans hfile)
      rw [if_neg (by simp [Item.naming])] at hnames
      have hhash := hnames.2.1
      rw [hrow p hp, fileHash_naming henv (hcoherent.required p hp).2] at hhash
      exact (scopedFileIdentity_eq_identityText_iff _ _).1 (hinjective hhash).symm
    · by_contra hpath
      obtain ⟨k, hk, _⟩ := hstores p hp
      obtain ⟨k', hk', _⟩ := hstores p' hp'
      obtain ⟨kg, hkg, _⟩ := hstores g hg
      have hfound : ∀ x ∈ batches.flatten, x.repositoryName = g.repositoryName →
          scopedFileIdentity x.filePath x.repositoryName =
            identityText g.repositoryName g.filePath →
          fileNamed env db' scanId x.repositoryName x.filePath =
            some (kg, itemRow env scanId g) := by
        intro x hx hrepository htext
        rw [fileNamed_eq_some_iff hok henv (hcoherent.required x hx).2]
        exact ⟨hkg, rfl, hrepository.symm, by rw [hrow g hg, htext]⟩
      refine hagrees.apart k _ k' _ hk rfl hk' rfl ?_ _ (hfound p hp hr ht) (hfound p' hp' hr' ht')
      intro he
      exact hpath (Prod.mk.inj he).2
  · rintro ⟨hreadable, hunmerged⟩
    refine ⟨fun q line k file hq hk hfile hscan item reviewer hnames => ?_,
      fun k file k' file' hk hs hk' hs' hpair found hfound hfound' => ?_⟩
    · obtain ⟨p, hp, rfl, r, hr, hfacts⟩ := hwithin.line q line file hq (hk ▸ hfile) hscan
      have hpath := (hcoherent.required p hp).2
      have htext := (scopedFileIdentity_eq_identityText_iff p.repositoryName p.filePath).2
        (hreadable p hp (List.ne_nil_of_mem hr))
      have hget := getFile_of_row hok hfile hscan
      have hhash : item.fileHash env = (itemRow env scanId p).filePathHash := by
        rw [fileHash_of_namesStored hnames, hrow p hp, ← htext]
        exact fileHash_naming henv hpath 0
      rw [← hnames.repositoryName, ← hhash] at hget
      refine resolveRecords_single hnames.lineId hnames.ranges hnames.lineNumber ?_ hnames.status
        hget (hk ▸ getLine_of_row hok hq)
      rw [hfacts]
      exact hcoherent.positive p hp r hr
    · obtain ⟨kg, g⟩ := found
      obtain ⟨p, hp, rfl⟩ := hwithin.file k file hk hs
      obtain ⟨p', hp', rfl⟩ := hwithin.file k' file' hk' hs'
      have hfound := (fileNamed_eq_some_iff hok henv (hcoherent.required p hp).2).1 hfound
      have hfound' := (fileNamed_eq_some_iff hok henv (hcoherent.required p' hp').2).1 hfound'
      obtain ⟨hkg, hsg, hrepository, hhash⟩ := hfound
      obtain ⟨_, _, hrepository', hhash'⟩ := hfound'
      obtain ⟨x, hx, rfl⟩ := hwithin.file kg g hkg hsg
      rw [hrow x hx] at hhash hhash'
      refine hpair (Prod.ext (hrepository.symm.trans hrepository') ?_)
      exact hunmerged p hp p' hp' x hx hrepository.symm hrepository'.symm
        (hinjective hhash).symm (hinjective hhash').symm

end Agreement

/-! ## A repository with a name and one without -/

/-- A digest that shows the text it is taken of. -/
def Sample.digest (s : String) : String := "md5:" ++ s

theorem Sample.digest_injective : Function.Injective Sample.digest := fun a b h =>
  String.toList_inj.1 (by
    simpa [Sample.digest, String.toList_append] using congrArg String.toList h)

theorem Sample.digest_ne (s : String) : Sample.digest s ≠ "" := by
  intro h
  have := congrArg (fun t => t.toList.length) h
  simp [Sample.digest, String.toList_append] at this

/-- The reviewers' hash of that digest. -/
def Sample.reviewEnv : Env :=
  { Sample.env with computeDbFilePathHash := computeDbFilePathHash Sample.digest }

/-- A section with one line that was not executed. -/
def Sample.oneLineSection (path : String) : Lcov.InfoRecord :=
  ⟨path, Keyed.empty.put 1 0, [], false⟩

/-- The files of one section. -/
def Sample.built (repositories : List RepositoryInput) (path : String) : List CoverageItem :=
  ((iterFiles Sample.digest repositories [Sample.oneLineSection path]).toOption).getD []

theorem Sample.imported_built {repositories : List RepositoryInput} {path : String}
    (h : (iterFiles Sample.digest repositories [Sample.oneLineSection path]).isOk = true) :
    ∀ part ∈ [Sample.built repositories path].flatten,
      ImportedPart Sample.digest repositories [Sample.oneLineSection path] part := by
  obtain ⟨items, hitems⟩ := exists_of_isOk h
  have hbuilt : Sample.built repositories path = items := by
    rw [Sample.built, hitems]
    rfl
  rw [hbuilt, List.flatten_singleton]
  exact importedPart_of_iterFiles hitems

/-- A path below the root of the one repository. -/
theorem identity_agrees_core : ∃ db',
    ingestBatches Sample.reviewEnv Sample.openedDb 1 [Sample.built [Sample.repository]
      "/src/core/a.c"] = .ok db' ∧
    (IdentityAgrees Sample.reviewEnv db' 1 ↔
      (∀ part ∈ [Sample.built [Sample.repository] "/src/core/a.c"].flatten, part.lines ≠ [] →
        Readable part.repositoryName part.filePath) ∧
      Unmerged [Sample.built [Sample.repository] "/src/core/a.c"].flatten) := by
  obtain ⟨db', hrun⟩ := exists_of_isOk (show (ingestBatches Sample.reviewEnv Sample.openedDb 1
    [Sample.built [Sample.repository] "/src/core/a.c"]).isOk = true by decide +kernel)
  exact ⟨db', hrun, identity_agrees_iff Sample.digest Sample.digest_injective Sample.digest_ne
    Sample.reviewEnv rfl [Sample.repository] [Sample.oneLineSection "/src/core/a.c"]
    Sample.openedDb db' 1 Sample.fresh_openedDb _ (Sample.imported_built (by decide +kernel)) hrun⟩

/-- Without a repository no stored line is found. -/
theorem not_identity_agrees :
    ¬ ∀ (md5 : String → String), Function.Injective md5 → (∀ s, md5 s ≠ "") → ∀ (env : Env),
      env.computeDbFilePathHash = computeDbFilePathHash md5 →
      ∀ (repositories : List RepositoryInput) (records : List Lcov.InfoRecord) (db db' : Db)
        (scanId : Nat), Fresh db scanId → ∀ batches : List (List CoverageItem),
      (∀ part ∈ batches.flatten, ImportedPart md5 repositories records part) →
      ingestBatches env db scanId batches = .ok db' → IdentityAgrees env db' scanId := by
  intro h
  let run := ingestBatches Sample.reviewEnv Sample.openedDb 1 [Sample.built [] "a.c"]
  obtain ⟨db', hrun⟩ := exists_of_isOk (show run.isOk = true by decide +kernel)
  have hagrees := h Sample.digest Sample.digest_injective Sample.digest_ne Sample.reviewEnv rfl []
    [Sample.oneLineSection "a.c"] Sample.openedDb db' 1 Sample.fresh_openedDb _
    (Sample.imported_built (by decide +kernel)) hrun
  have hdb : db' = run.toOption.getD Db.empty := by
    rw [show run = .ok db' from hrun]
    rfl
  have hline : ((run.toOption.getD Db.empty).facts.lines.get? 1).map (fun l =>
      (l.fileId, l.facts.lineNumber)) = some (1, 1) := by decide +kernel
  have hfile : ((run.toOption.getD Db.empty).facts.files.get? 1).map (fun f =>
      (f.scanId, f.repositoryName, f.filePath)) = some (1, "", "a.c") := by decide +kernel
  rw [← hdb] at hline hfile
  obtain ⟨line, hline, hl⟩ := Option.map_eq_some_iff.1 hline
  obtain ⟨file, hfile, hf⟩ := Option.map_eq_some_iff.1 hfile
  simp only [Prod.mk.injEq] at hl hf
  obtain ⟨r, hr, _⟩ := hagrees.resolves 1 line 1 file hline hl.1 hfile hf.1
    (.naming file.repositoryName file.filePath line.facts.lineNumber) "" (namesStored_naming _ _)
  rw [hl.2, hf.2.1, hf.2.2, hdb] at hr
  have hfails : (resolveRecords Sample.reviewEnv (run.toOption.getD Db.empty) 1
      [.naming "" "a.c" 1] "").isOk = false := by decide +kernel
  rw [hr] at hfails
  cases hfails

end SourceReader

end FosCoverage
