import FosCoverage.Import.ScanImport
import FosCoverage.Service.Acceptance

/-!
# Two imports of one LCOV text

The streamed import feeds the files of all sections to the ingestion, the materialised one first
makes a dictionary of the sections by path, in which a later section of a path replaces an earlier
one.  Both read with the same generator, which never yields the section that is open at the end of
the text.

* `KeepsEveryFact` is what one expects of the two: they accept the same texts, store the same facts,
  and have a fact for every line some section declares (`Lcov.Declared`).
* `LastSectionsSuffice` is when that is so: whenever the last sections of the paths are accepted
  alone, they have the records of all sections already, and the lines of the section left open.
* `keeps_every_fact_iff` is exact.

That a replaced section changes nothing includes that the streamed import accepts it: the store
refuses a second record of a line that differs from the first.
-/

set_option autoImplicit false

namespace FosCoverage

open Relational Outcome Lcov ProjectService

namespace ScanImportService

/-! ## The two imports -/

/-- What an import raises. -/
inductive ImportFailure
  /-- The reader, or the assignment of a path. -/
  | reader (e : LcovError)
  /-- The ingestion. -/
  | store (e : Failure)
  deriving DecidableEq, Repr

variable (digits : DigitTable) (md5 : String → String) (env : Env)
  (repositories : List RepositoryInput) (db : Db) (scanId : Nat)

/-- The files of some records, ingested in one transaction. -/
def ingestRecords (records : List InfoRecord) : Except ImportFailure Db := do
  let items ← (iterFiles md5 repositories records).mapError .reader
  (ingestAll env db scanId items).mapError .store

/-- `iter_info_records` with `iter_files` -/
def streamedImport (text : List Char) : Except ImportFailure Db := do
  let records ← (iterInfoRecords digits text).mapError .reader
  ingestRecords md5 env repositories db scanId records

/-- `parse_info` with `build_files` -/
def materialisedImport (text : List Char) : Except ImportFailure Db := do
  let parsed ← (parseInfo digits text).mapError .reader
  ingestRecords md5 env repositories db scanId parsed

/-- A stored fact: repository, path, line number and coverage state. -/
abbrev Fact := String × String × Nat × String

/-- The fact of a line of a file. -/
def factOf (x : FileRow × LineFacts) : Fact :=
  (x.1.repositoryName, x.1.filePath, x.2.lineNumber, x.2.coverageState)

/-- The facts of a scan. -/
def storedFacts (db : Db) (scanId : Nat) : List Fact := (importedLines db scanId).map factOf

/-- **The two imports agree and lose nothing.** -/
structure KeepsEveryFact (text : List Char) : Prop where
  /-- One accepts what the other accepts. -/
  accepts : (∃ db', streamedImport digits md5 env repositories db scanId text = .ok db') ↔
    ∃ db', materialisedImport digits md5 env repositories db scanId text = .ok db'
  /-- They store the same facts. -/
  same : ∀ streamed materialised,
    streamedImport digits md5 env repositories db scanId text = .ok streamed →
    materialisedImport digits md5 env repositories db scanId text = .ok materialised →
    ∀ fact, fact ∈ storedFacts streamed scanId ↔ fact ∈ storedFacts materialised scanId
  /-- Every line that a section declares has a fact. -/
  complete : ∀ streamed, streamedImport digits md5 env repositories db scanId text = .ok streamed →
    ∀ path n, Declared digits (Text.splitLines (Text.newlines text)) path n →
      ∃ pair state, assigned repositories path = .ok pair ∧
        (pair.1, pair.2, n, state) ∈ storedFacts streamed scanId

/-- **The last section of every path says it all**, whenever these sections are accepted alone. -/
structure LastSectionsSuffice (text : List Char) : Prop where
  /-- Every record of every section is one of a last section of the same file. -/
  repeated : ∀ r items lastItems, readInfo digits text = .ok r →
    iterFiles md5 repositories r.records = .ok items →
    iterFiles md5 repositories (byPath r.records) = .ok lastItems → Coherent env lastItems →
    ∀ item ∈ items, ∀ line ∈ item.lines, ∃ last ∈ lastItems,
      last.repositoryName = item.repositoryName ∧ last.filePath = item.filePath ∧
        ∃ line' ∈ last.lines, line'.facts = line.facts
  /-- Every line of the section that is not closed is one of a last section of the same file. -/
  unclosed : ∀ r lastItems, readInfo digits text = .ok r →
    iterFiles md5 repositories (byPath r.records) = .ok lastItems → Coherent env lastItems →
    ∀ path n, r.Holds path n → ∃ last ∈ lastItems,
      assigned repositories path = .ok (last.repositoryName, last.filePath) ∧
        ∃ line ∈ last.lines, line.lineNumber = n

/-! ## Files of the last sections -/

section Last

variable {md5 env repositories}

theorem exists_mapM {α β ε : Type} {f : α → Except ε β} {l : List α}
    (h : ∀ a ∈ l, ∃ b, f a = .ok b) : ∃ bs, l.mapM f = .ok bs := by
  induction l with
  | nil => exact ⟨[], rfl⟩
  | cons a l ih =>
    obtain ⟨b, hb⟩ := h a List.mem_cons_self
    obtain ⟨bs, hbs⟩ := ih fun a ha => h a (List.mem_cons_of_mem _ ha)
    exact ⟨b :: bs, by rw [List.mapM_cons, hb, ok_bind, hbs, ok_bind]; rfl⟩

theorem mem_of_mem_byPath {records : List InfoRecord} {record : InfoRecord}
    (h : record ∈ byPath records) : record ∈ records := (LastWrite.mem_foldl_set.1 h).mem

/-- Every path has its last section in the dictionary. -/
theorem exists_mem_byPath {records : List InfoRecord} {record : InfoRecord}
    (h : record ∈ records) : ∃ last ∈ byPath records, last.filePath = record.filePath := by
  obtain ⟨last, hlast, hpath⟩ : ∃ last, LastWrite.IsLast InfoRecord.filePath records last ∧
      last.filePath = record.filePath := LastWrite.exists_isLast h
  exact ⟨last, LastWrite.mem_foldl_set.2 hlast, hpath⟩

/-- The files of two sections of one path are one file, up to the lines. -/
theorem sameFile_of_path {record record' : InfoRecord} {item item' : CoverageItem}
    (hpath : record.filePath = record'.filePath)
    (h : buildFile md5 repositories record = .ok item)
    (h' : buildFile md5 repositories record' = .ok item') :
    item.repositoryName = item'.repositoryName ∧ item.filePath = item'.filePath := by
  have hassigned := (buildFile_ok h).1
  rw [hpath, (buildFile_ok h').1, Except.ok.injEq, Prod.mk.injEq] at hassigned
  exact ⟨hassigned.1.symm, hassigned.2.symm⟩

/-- Files with one repository and one path have one identity. -/
theorem normalizedItem_eq {record record' : InfoRecord} {item item' : CoverageItem}
    (h : buildFile md5 repositories record = .ok item)
    (h' : buildFile md5 repositories record' = .ok item')
    (hrepository : item.repositoryName = item'.repositoryName)
    (hpath : item.filePath = item'.filePath) :
    normalizedItem env item = normalizedItem env item' := by
  obtain ⟨_, hhash, hname, _⟩ := buildFile_ok h
  obtain ⟨_, hhash', hname', _⟩ := buildFile_ok h'
  simp only [normalizedItem, hhash, hhash', hname, hname', hrepository, hpath]

/-- **The last sections can be built when all can**, and are some of them. -/
theorem exists_lastItems {records : List InfoRecord} {items : List CoverageItem}
    (h : iterFiles md5 repositories records = .ok items) :
    ∃ lastItems, iterFiles md5 repositories (byPath records) = .ok lastItems ∧
      lastItems ⊆ items := by
  have hbuild : ∀ record ∈ byPath records,
      ∃ item, buildFile md5 repositories record = .ok item := by
    intro record hrecord
    obtain ⟨item, _, hitem⟩ := mem_mapM_of_mem h (mem_of_mem_byPath hrecord)
    exact ⟨item, hitem⟩
  obtain ⟨lastItems, hlast⟩ := exists_mapM hbuild
  refine ⟨lastItems, hlast, fun last hmem => ?_⟩
  obtain ⟨record, hrecord, hbuilt⟩ := exists_of_mem_mapM hlast hmem
  obtain ⟨item, hitem, hbuilt'⟩ := mem_mapM_of_mem h (mem_of_mem_byPath hrecord)
  rw [hbuilt, Except.ok.injEq] at hbuilt'
  exact hbuilt' ▸ hitem

/-- **All sections can be built when the last ones can.** -/
theorem exists_items {records : List InfoRecord} {lastItems : List CoverageItem}
    (h : iterFiles md5 repositories (byPath records) = .ok lastItems) :
    ∃ items, iterFiles md5 repositories records = .ok items := by
  refine exists_mapM fun record hrecord => ?_
  obtain ⟨last, hlast, hpath⟩ := exists_mem_byPath hrecord
  obtain ⟨item, _, hitem⟩ := mem_mapM_of_mem h hlast
  exact exists_buildFile (hpath ▸ (buildFile_ok hitem).1)

/-- Every file has the file of the last section of its path. -/
theorem exists_lastItem {records : List InfoRecord} {items lastItems : List CoverageItem}
    (h : iterFiles md5 repositories records = .ok items)
    (hlast : iterFiles md5 repositories (byPath records) = .ok lastItems) {item : CoverageItem}
    (hitem : item ∈ items) : ∃ last ∈ lastItems,
      normalizedItem env item = normalizedItem env last := by
  obtain ⟨record, hrecord, hbuilt⟩ := exists_of_mem_mapM h hitem
  obtain ⟨record', hrecord', hpath⟩ := exists_mem_byPath hrecord
  obtain ⟨last, hmem, hbuilt'⟩ := mem_mapM_of_mem hlast hrecord'
  obtain ⟨hr, hp⟩ := sameFile_of_path hpath.symm hbuilt hbuilt'
  exact ⟨last, hmem, normalizedItem_eq hbuilt hbuilt' hr hp⟩

theorem nodup_of_mem_iterFiles {records : List InfoRecord} {items : List CoverageItem}
    (h : iterFiles md5 repositories records = .ok items) :
    ∀ item ∈ items, (item.lines.map LineRecord.lineNumber).Nodup := by
  intro item hitem
  obtain ⟨record, _, hbuilt⟩ := exists_of_mem_mapM h hitem
  exact nodup_of_buildFile hbuilt

end Last

/-! ## What the imports accept and store -/

section Accepted

variable {digits md5 env repositories db scanId}

theorem streamedImport_eq_ok {text : List Char} {db' : Db} :
    streamedImport digits md5 env repositories db scanId text = .ok db' ↔
      ∃ r items, readInfo digits text = .ok r ∧ iterFiles md5 repositories r.records = .ok items ∧
        ingestAll env db scanId items = .ok db' := by
  simp only [streamedImport, ingestRecords, iterInfoRecords, bind_eq_ok, mapError_eq_ok, map_eq_ok]
  constructor
  · rintro ⟨_, ⟨r, hr, rfl⟩, items, hitems, hrun⟩
    exact ⟨r, items, hr, hitems, hrun⟩
  · rintro ⟨r, items, hr, hitems, hrun⟩
    exact ⟨_, ⟨r, hr, rfl⟩, items, hitems, hrun⟩

theorem materialisedImport_eq_ok {text : List Char} {db' : Db} :
    materialisedImport digits md5 env repositories db scanId text = .ok db' ↔
      ∃ r items, readInfo digits text = .ok r ∧
        iterFiles md5 repositories (byPath r.records) = .ok items ∧
        ingestAll env db scanId items = .ok db' := by
  simp only [materialisedImport, ingestRecords, parseInfo, iterInfoRecords, bind_eq_ok,
    mapError_eq_ok, map_eq_ok]
  constructor
  · rintro ⟨_, ⟨_, ⟨r, hr, rfl⟩, rfl⟩, items, hitems, hrun⟩
    exact ⟨r, items, hr, hitems, hrun⟩
  · rintro ⟨r, items, hr, hitems, hrun⟩
    exact ⟨_, ⟨_, ⟨r, hr, rfl⟩, rfl⟩, items, hitems, hrun⟩

/-- The facts of a fresh scan are those of the files. -/
theorem mem_storedFacts (hfresh : Fresh db scanId) {items : List CoverageItem} {db' : Db}
    (hrun : ingestAll env db scanId items = .ok db') {fact : Fact} :
    fact ∈ storedFacts db' scanId ↔ ∃ item ∈ items, ∃ line ∈ item.lines,
      (item.repositoryName, item.filePath, line.lineNumber, line.facts.coverageState) = fact := by
  rw [storedFacts, List.mem_map]
  constructor
  · rintro ⟨x, hx, rfl⟩
    rw [mem_importedLines_of_fresh hfresh hrun, inputLines, List.mem_flatMap] at hx
    obtain ⟨item, hitem, hx⟩ := hx
    obtain ⟨line, hline, rfl⟩ := List.mem_map.1 hx
    exact ⟨item, hitem, line, hline, rfl⟩
  · rintro ⟨item, hitem, line, hline, rfl⟩
    refine ⟨(itemRow env scanId item, line.facts), ?_, rfl⟩
    rw [mem_importedLines_of_fresh hfresh hrun, inputLines, List.mem_flatMap]
    exact ⟨item, hitem, List.mem_map_of_mem hline⟩

/-- When the last sections have all records, all sections are coherent with them. -/
theorem coherent_of_last {records : List InfoRecord} {items lastItems : List CoverageItem}
    (h : iterFiles md5 repositories records = .ok items)
    (hlast : iterFiles md5 repositories (byPath records) = .ok lastItems)
    (hc : Coherent env lastItems)
    (hrepeated : ∀ item ∈ items, ∀ line ∈ item.lines, ∃ last ∈ lastItems,
      last.repositoryName = item.repositoryName ∧ last.filePath = item.filePath ∧
        ∃ line' ∈ last.lines, line'.facts = line.facts) : Coherent env items := by
  have hsame : ∀ item ∈ items, ∀ line ∈ item.lines, ∃ last ∈ lastItems,
      normalizedItem env item = normalizedItem env last ∧
        ∃ line' ∈ last.lines, line'.facts = line.facts := by
    intro item hitem line hline
    obtain ⟨last, hmem, hr, hp, hfacts⟩ := hrepeated item hitem line hline
    obtain ⟨record, _, hbuilt⟩ := exists_of_mem_mapM h hitem
    obtain ⟨record', _, hbuilt'⟩ := exists_of_mem_mapM hlast hmem
    exact ⟨last, hmem, normalizedItem_eq hbuilt hbuilt' hr.symm hp.symm, hfacts⟩
  have hitems : ∀ item ∈ items, ∃ last ∈ lastItems,
      normalizedItem env item = normalizedItem env last := fun _ => exists_lastItem h hlast
  have hnumber : ∀ {a b : LineRecord}, a.facts = b.facts → a.lineNumber = b.lineNumber :=
    fun h => congrArg LineFacts.lineNumber h
  refine ⟨fun item hitem => ?_, fun item hitem line hline => ?_, fun a ha b hb he => ?_,
    fun a ha b hb he r hr s hs hn => ?_⟩
  · obtain ⟨last, hmem, heq⟩ := hitems item hitem
    have hrequired := hc.required last hmem
    rw [← heq] at hrequired
    have hpath : item.filePath = last.filePath := congrArg ProjectRepository.FileItem.filePath heq
    rwa [hpath]
  · obtain ⟨last, hmem, _, line', hline', hfacts⟩ := hsame item hitem line hline
    rw [← hnumber hfacts]
    exact hc.positive last hmem line' hline'
  · obtain ⟨last, hmem, heq⟩ := hitems a ha
    obtain ⟨last', hmem', heq'⟩ := hitems b hb
    rw [heq, heq'] at he ⊢
    exact hc.file last hmem last' hmem' he
  · obtain ⟨last, hmem, heq, r', hr', hfacts⟩ := hsame a ha r hr
    obtain ⟨last', hmem', heq', s', hs', hfacts'⟩ := hsame b hb s hs
    rw [heq, heq'] at he
    rw [← hfacts, ← hfacts']
    exact hc.line last hmem last' hmem' he r' hr' s' hs'
      (((hnumber hfacts).trans hn).trans (hnumber hfacts').symm)

end Accepted

/-! ## Exactness -/

section Directions

variable {digits md5 env repositories db scanId} {text : List Char}

/-- When the last sections are accepted both imports run, so all sections are accepted. -/
theorem KeepsEveryFact.exists_imports (h : KeepsEveryFact digits md5 env repositories db scanId text)
    (hfresh : Fresh db scanId) {r : Reader} {lastItems : List CoverageItem}
    (hr : readInfo digits text = .ok r)
    (hlast : iterFiles md5 repositories (byPath r.records) = .ok lastItems)
    (hc : Coherent env lastItems) :
    ∃ items streamed materialised, iterFiles md5 repositories r.records = .ok items ∧
      ingestAll env db scanId items = .ok streamed ∧
      ingestAll env db scanId lastItems = .ok materialised ∧
      streamedImport digits md5 env repositories db scanId text = .ok streamed ∧
      materialisedImport digits md5 env repositories db scanId text = .ok materialised := by
  obtain ⟨materialised, hm⟩ := (ingestAll_isOk_iff hfresh (nodup_of_mem_iterFiles hlast)).2 hc
  have hmat := materialisedImport_eq_ok.2 ⟨r, lastItems, hr, hlast, hm⟩
  obtain ⟨streamed, hstr⟩ := h.accepts.2 ⟨materialised, hmat⟩
  obtain ⟨r', items, hr', hitems, hs⟩ := streamedImport_eq_ok.1 hstr
  obtain rfl := Except.ok.inj (hr.symm.trans hr')
  exact ⟨items, streamed, materialised, hitems, hs, hm, hstr, hmat⟩

/-- Imports that store the same take every record from a last section. -/
theorem KeepsEveryFact.repeated (h : KeepsEveryFact digits md5 env repositories db scanId text)
    (hfresh : Fresh db scanId) {r : Reader} {items lastItems : List CoverageItem}
    (hr : readInfo digits text = .ok r)
    (hitems : iterFiles md5 repositories r.records = .ok items)
    (hlast : iterFiles md5 repositories (byPath r.records) = .ok lastItems)
    (hc : Coherent env lastItems) {item : CoverageItem} (hitem : item ∈ items) {line : LineRecord}
    (hline : line ∈ item.lines) : ∃ last ∈ lastItems,
      last.repositoryName = item.repositoryName ∧ last.filePath = item.filePath ∧
        ∃ line' ∈ last.lines, line'.facts = line.facts := by
  obtain ⟨items', streamed, materialised, hitems', hs, hm, hstr, hmat⟩ :=
    h.exists_imports hfresh hr hlast hc
  obtain rfl := Except.ok.inj (hitems.symm.trans hitems')
  have hstored := (mem_storedFacts hfresh hs).2 ⟨item, hitem, line, hline, rfl⟩
  obtain ⟨last, hmem, line', hline', hfact⟩ :=
    (mem_storedFacts hfresh hm).1 ((h.same _ _ hstr hmat _).1 hstored)
  simp only [Prod.mk.injEq] at hfact
  obtain ⟨hr₁, hp₁, hn₁, _⟩ := hfact
  refine ⟨last, hmem, hr₁, hp₁, line', hline', ?_⟩
  -- the two are records of one line of one file, and all sections are accepted
  obtain ⟨lastItems', hlast', hsub⟩ := exists_lastItems hitems
  obtain rfl := Except.ok.inj (hlast.symm.trans hlast')
  obtain ⟨record, _, hbuilt⟩ := exists_of_mem_mapM hitems hitem
  obtain ⟨record', _, hbuilt'⟩ := exists_of_mem_mapM hlast hmem
  have hcoherent := (ingestAll_isOk_iff hfresh (nodup_of_mem_iterFiles hitems)).1 ⟨_, hs⟩
  have hidentity : (normalizedItem env last).identity = (normalizedItem env item).identity := by
    rw [normalizedItem_eq hbuilt' hbuilt hr₁ hp₁]
  exact hcoherent.line last (hsub hmem) item hitem hidentity line' hline' line hline hn₁

/-- Imports that lose nothing have the lines of the open section in a last one. -/
theorem KeepsEveryFact.unclosed (h : KeepsEveryFact digits md5 env repositories db scanId text)
    (hfresh : Fresh db scanId) {r : Reader} {lastItems : List CoverageItem}
    (hr : readInfo digits text = .ok r)
    (hlast : iterFiles md5 repositories (byPath r.records) = .ok lastItems)
    (hc : Coherent env lastItems) {path : String} {n : Nat} (hholds : r.Holds path n) :
    ∃ last ∈ lastItems, assigned repositories path = .ok (last.repositoryName, last.filePath) ∧
      ∃ line ∈ last.lines, line.lineNumber = n := by
  obtain ⟨items, streamed, materialised, hitems, hs, hm, hstr, hmat⟩ :=
    h.exists_imports hfresh hr hlast hc
  have hdeclared := ((foldlM_readLine_ok hr).2 path n).1 (.inr hholds)
  obtain ⟨pair, state, hassigned, hfact⟩ := h.complete streamed hstr path n hdeclared
  obtain ⟨last, hmem, line, hline, he⟩ :=
    (mem_storedFacts hfresh hm).1 ((h.same _ _ hstr hmat _).1 hfact)
  simp only [Prod.mk.injEq] at he
  exact ⟨last, hmem, by rw [hassigned, he.1, he.2.1], line, hline, he.2.2.1⟩

/-- A text whose sections are accepted has last sections that are. -/
theorem exists_last_coherent {r : Reader} {items : List CoverageItem}
    (hitems : iterFiles md5 repositories r.records = .ok items) (hc : Coherent env items) :
    ∃ lastItems, iterFiles md5 repositories (byPath r.records) = .ok lastItems ∧
      lastItems ⊆ items ∧ Coherent env lastItems := by
  obtain ⟨lastItems, hlast, hsub⟩ := exists_lastItems hitems
  exact ⟨lastItems, hlast, hsub, hc.subset hsub⟩

theorem LastSectionsSuffice.accepts (h : LastSectionsSuffice digits md5 env repositories text)
    (hfresh : Fresh db scanId) :
    (∃ db', streamedImport digits md5 env repositories db scanId text = .ok db') ↔
      ∃ db', materialisedImport digits md5 env repositories db scanId text = .ok db' := by
  constructor
  · rintro ⟨streamed, hstr⟩
    obtain ⟨r, items, hr, hitems, hs⟩ := streamedImport_eq_ok.1 hstr
    obtain ⟨lastItems, hlast, _, hc⟩ := exists_last_coherent hitems
      ((ingestAll_isOk_iff hfresh (nodup_of_mem_iterFiles hitems)).1 ⟨_, hs⟩)
    obtain ⟨materialised, hm⟩ := (ingestAll_isOk_iff hfresh (nodup_of_mem_iterFiles hlast)).2 hc
    exact ⟨materialised, materialisedImport_eq_ok.2 ⟨r, lastItems, hr, hlast, hm⟩⟩
  · rintro ⟨materialised, hmat⟩
    obtain ⟨r, lastItems, hr, hlast, hm⟩ := materialisedImport_eq_ok.1 hmat
    obtain ⟨items, hitems⟩ := exists_items hlast
    have hc := (ingestAll_isOk_iff hfresh (nodup_of_mem_iterFiles hlast)).1 ⟨_, hm⟩
    have hall := coherent_of_last hitems hlast hc (h.repeated r items lastItems hr hitems hlast hc)
    obtain ⟨streamed, hs⟩ := (ingestAll_isOk_iff hfresh (nodup_of_mem_iterFiles hitems)).2 hall
    exact ⟨streamed, streamedImport_eq_ok.2 ⟨r, items, hr, hitems, hs⟩⟩

theorem LastSectionsSuffice.same (h : LastSectionsSuffice digits md5 env repositories text)
    (hfresh : Fresh db scanId) {streamed materialised : Db}
    (hstr : streamedImport digits md5 env repositories db scanId text = .ok streamed)
    (hmat : materialisedImport digits md5 env repositories db scanId text = .ok materialised)
    (fact : Fact) : fact ∈ storedFacts streamed scanId ↔ fact ∈ storedFacts materialised scanId := by
  obtain ⟨r, items, hr, hitems, hs⟩ := streamedImport_eq_ok.1 hstr
  obtain ⟨r', lastItems, hr', hlast, hm⟩ := materialisedImport_eq_ok.1 hmat
  obtain rfl := Except.ok.inj (hr.symm.trans hr')
  obtain ⟨lastItems', hlast', hsub⟩ := exists_lastItems hitems
  obtain rfl := Except.ok.inj (hlast.symm.trans hlast')
  have hc := (ingestAll_isOk_iff hfresh (nodup_of_mem_iterFiles hlast)).1 ⟨_, hm⟩
  rw [mem_storedFacts hfresh hs, mem_storedFacts hfresh hm]
  constructor
  · rintro ⟨item, hitem, line, hline, rfl⟩
    obtain ⟨last, hmem, h₁, h₂, line', hline', hfacts⟩ :=
      h.repeated r items lastItems hr hitems hlast hc item hitem line hline
    refine ⟨last, hmem, line', hline', ?_⟩
    rw [h₁, h₂, hfacts, show line'.lineNumber = line.lineNumber from
      congrArg LineFacts.lineNumber hfacts]
  · rintro ⟨last, hmem, line, hline, rfl⟩
    exact ⟨last, hsub hmem, line, hline, rfl⟩

/-- A declared line is in a closed section, or in the open one and then in a last one too. -/
theorem LastSectionsSuffice.complete (h : LastSectionsSuffice digits md5 env repositories text)
    (hfresh : Fresh db scanId) {streamed : Db}
    (hstr : streamedImport digits md5 env repositories db scanId text = .ok streamed)
    {path : String} {n : Nat}
    (hdeclared : Declared digits (Text.splitLines (Text.newlines text)) path n) :
    ∃ pair state, assigned repositories path = .ok pair ∧
      (pair.1, pair.2, n, state) ∈ storedFacts streamed scanId := by
  obtain ⟨r, items, hr, hitems, hs⟩ := streamedImport_eq_ok.1 hstr
  rcases ((foldlM_readLine_ok hr).2 path n).2 hdeclared with ⟨record, hrecord, rfl, hn⟩ | hholds
  · obtain ⟨item, hitem, hbuilt⟩ := mem_mapM_of_mem hitems hrecord
    obtain ⟨line, hline, rfl⟩ := (exists_line_of_buildFile hbuilt).2 hn
    exact ⟨_, _, (buildFile_ok hbuilt).1,
      (mem_storedFacts hfresh hs).2 ⟨item, hitem, line, hline, rfl⟩⟩
  · obtain ⟨lastItems, hlast, hsub, hc⟩ := exists_last_coherent hitems
      ((ingestAll_isOk_iff hfresh (nodup_of_mem_iterFiles hitems)).1 ⟨_, hs⟩)
    obtain ⟨last, hmem, hassigned, line, hline, rfl⟩ :=
      h.unclosed r lastItems hr hlast hc path n hholds
    exact ⟨_, _, hassigned,
      (mem_storedFacts hfresh hs).2 ⟨last, hsub hmem, line, hline, rfl⟩⟩

end Directions

/-- **The two imports agree and lose nothing exactly when the last sections suffice.** -/
theorem keeps_every_fact_iff (digits : DigitTable) (md5 : String → String) (env : Env)
    (repositories : List RepositoryInput) (db : Db) (scanId : Nat) (hfresh : Fresh db scanId)
    (text : List Char) :
    KeepsEveryFact digits md5 env repositories db scanId text ↔
      LastSectionsSuffice digits md5 env repositories text := by
  constructor
  · intro hkeeps
    refine ⟨fun r items lastItems hr hitems hlast hc item hitem line hline => ?_,
      fun r lastItems hr hlast hc path n hholds => ?_⟩
    · exact hkeeps.repeated hfresh hr hitems hlast hc hitem hline
    · exact hkeeps.unclosed hfresh hr hlast hc hholds
  · intro hlasts
    refine ⟨hlasts.accepts hfresh, fun streamed materialised hstr hmat fact => ?_,
      fun streamed hstr path n hdeclared => ?_⟩
    · exact hlasts.same hfresh hstr hmat fact
    · exact hlasts.complete hfresh hstr hdeclared

/-- One closed section. -/
theorem keeps_every_fact_oneSection :
    KeepsEveryFact .asciiOnly ("md5:" ++ ·) Sample.env [] Sample.openedDb 1
        "SF:a.c\nDA:1,0\nend_of_record\n".toList ↔
      LastSectionsSuffice .asciiOnly ("md5:" ++ ·) Sample.env []
        "SF:a.c\nDA:1,0\nend_of_record\n".toList :=
  keeps_every_fact_iff .asciiOnly ("md5:" ++ ·) Sample.env [] Sample.openedDb 1
    Sample.fresh_openedDb _

/-- Two sections of one path: the materialised import has the lines of the second only. -/
theorem not_keeps_every_fact :
    ¬ ∀ (digits : DigitTable) (md5 : String → String) (env : Env)
      (repositories : List RepositoryInput) (db : Db) (scanId : Nat), Fresh db scanId →
      ∀ text, KeepsEveryFact digits md5 env repositories db scanId text := by
  intro h
  let text := "SF:a.c\nDA:1,0\nend_of_record\nSF:a.c\nDA:2,0\nend_of_record\n".toList
  have hkeeps := h .asciiOnly ("md5:" ++ ·) Sample.env [] Sample.openedDb 1 Sample.fresh_openedDb
    text
  let streamed := streamedImport .asciiOnly ("md5:" ++ ·) Sample.env [] Sample.openedDb 1 text
  let materialised :=
    materialisedImport .asciiOnly ("md5:" ++ ·) Sample.env [] Sample.openedDb 1 text
  obtain ⟨ds, hs⟩ := exists_of_isOk (show streamed.isOk = true by decide +kernel)
  obtain ⟨dm, hm⟩ := exists_of_isOk (show materialised.isOk = true by decide +kernel)
  have hsame := hkeeps.same ds dm hs hm ("", "a.c", 1, "uncovered")
  have hds : ds = streamed.toOption.getD Db.empty := by rw [hs]; rfl
  have hdm : dm = materialised.toOption.getD Db.empty := by rw [hm]; rfl
  rw [hds, hdm] at hsame
  revert hsame
  decide +kernel

end ScanImportService

end FosCoverage
