import FosCoverage.Inheritance.Relations
import FosCoverage.Lib.Paging

/-!
# The engine reads in pages

The engine holds neither the files nor the relations of the predecessor: it fetches `batch_size` of
them at a time, behind the id of the last one it has treated, and between two pages it writes
(`runPaged`).  A page is read from the database as it is at that moment.

* A page of relations is observed by the read set, and then its relations are inherited one by one
  (`runPage`); what is read of the two versions of a file is read for its first page.
* What a run writes belongs to the Candidate, so every page reads of the predecessor what the run
  has found (`SameSource`).

`runPaged_eq` is the result: for every batch size the paged run ends and is the run of
`InheritanceEngine.run`.
-/

set_option autoImplicit false

namespace FosCoverage

open Relational Outcome AnalysisDomainRepository

namespace InheritanceEngine

/-! ## The paged run -/

/-- A computation that is given up after a number of pages. -/
abbrev Paged := OptionT (Except Failure)

/-- `source_snapshot`: the two versions of the file, read for its first relation. -/
def sourceSnapshot (ctx : RunContext) (db : Db) (page : List SourceRelation) :
    Option (Except String SourceText) → Except Failure (Option (Except String SourceText))
  | some snapshot => pure (some snapshot)
  | none => match page.head? with
    | none => pure none
    | some first => some <$> snapshotForRelation ctx db first

/-- One page of the relations of a file.  The state carries the two versions of the file from the
first page on. -/
def runPage (ctx : RunContext) (targetFileId : Nat)
    (s : RunState × Option (Except String SourceText)) (page : List SourceRelation) :
    Except Failure (RunState × Option (Except String SourceText)) := do
  let st := { s.1 with readSet := s.1.readSet.observeAll ctx.env page }
  let snapshot ← sourceSnapshot ctx st.db page s.2
  match snapshot with
  | some (.ok source) => do
    let st ← page.foldlM (runRelation ctx source targetFileId) st
    pure (st, snapshot)
  | _ => pure (st, snapshot)

/-- One file, its relations in pages of at most `limit`. -/
def runFilePaged (ctx : RunContext) (limit fuel : Nat) (st : RunState) (file : Nat × FileRow) :
    Paged RunState :=
  if !eligible ctx.repositories file.2 then pure st
  else match candidateFile ctx.env st.db ctx.candidateScanId file.2.repositoryName file.2.filePath with
    | none => pure st
    | some (targetFileId, _) => do
      let st := { st with
        readSet := st.readSet.addSourceFile ⟨file.2.repositoryName, file.2.filePath⟩ }
      let s ← Paging.foldPages SourceRelation.id limit
        (fun s => fileRelations s.1.db ctx.predecessorScanId file.1)
        (fun s page => OptionT.lift (runPage ctx targetFileId s page)) fuel 0 (st, none)
      pure s.1

/-- `run` with pages of `batchSize` files and relations, for at most `fuel` pages of each. -/
def runPaged (env : Env) (db : Db) (candidateScanId : Nat)
    (repositoryPaths : List (String × String)) (batchSize fuel : Nat) :
    Paged (Db × Option ReadSet) := do
  let resolution ← OptionT.lift (PredecessorResolver.resolve env db candidateScanId)
  match resolution.predecessorScanId with
  | none =>
    pure (decideRemaining db (env.decisionRunId candidateScanId none) candidateScanId
      fun _ => "NO_PREDECESSOR", none)
  | some predecessorScanId => do
    let ctx := contextOf env candidateScanId predecessorScanId resolution.repositories
      repositoryPaths
    let limit := max 1 batchSize
    let st ← Paging.foldPages Prod.fst limit (fun st => relationFiles st.db predecessorScanId)
      (fun st page => page.foldlM (runFilePaged ctx limit fuel) st) fuel 0 (RunState.start db)
    let db := decideRemaining st.db ctx.runId candidateScanId (lineReason resolution.repositories)
    pure (db, some (st.readSet.toPayload (some candidateScanId) (some predecessorScanId)))

/-! ## What is read of the predecessor -/

/-- The state of a run reads of the predecessor what the database `db` does. -/
structure SameSource (ctx : RunContext) (db : Db) (st : RunState) : Prop where
  /-- The physical side is the same. -/
  facts : st.db.facts = db.facts
  /-- The relations are sound. -/
  links : LinksOk st.db
  /-- The caches name rows that exist. -/
  caches : CachesOk ctx st
  /-- The active relations of the predecessor are the same. -/
  select : (st.db.domain.links.select fun _ q =>
      decide (q.scanId = ctx.predecessorScanId ∧ q.isActive = true)) =
    db.domain.links.select fun _ q =>
      decide (q.scanId = ctx.predecessorScanId ∧ q.isActive = true)
  /-- They are joined with the same rows. -/
  relations : activeRelations st.db ctx.predecessorScanId = activeRelations db ctx.predecessorScanId

variable {ctx : RunContext} {db : Db} {st st' : RunState}

theorem SameSource.start (hl : LinksOk db) : SameSource ctx db (RunState.start db) := by
  constructor
  case facts => rfl
  case links => exact hl
  case caches => exact ⟨fun _ _ h => absurd h List.not_mem_nil, fun _ _ h => absurd h List.not_mem_nil⟩
  case select => rfl
  case relations => rfl

/-- The read set is no part of it. -/
theorem SameSource.read (h : SameSource ctx db st) (readSet : ReadSetAccumulator) :
    SameSource ctx db { st with readSet := readSet } :=
  ⟨h.facts, h.links, ⟨h.caches.record, h.caches.block⟩, h.select, h.relations⟩

/-- What is written for one relation of the predecessor leaves the others as they are. -/
theorem SameSource.persist (hne : ctx.predecessorScanId ≠ ctx.candidateScanId)
    (h : SameSource ctx db st) {source : SourceText} {r : SourceRelation} {lineId : Nat}
    {line : LineRow} {newLineNumber : Nat}
    (hok : persistRelationDecision ctx source st r lineId line newLineNumber = .ok st') :
    SameSource ctx db st' := by
  obtain ⟨rows, _, hcaches, hdb | ⟨_, i, hi, hdb⟩⟩ := persist_ok h.caches hok
  · constructor
    case caches => exact hcaches
    all_goals rw [hdb]
    case facts => exact h.facts
    case links => exact h.links.congr rfl rfl rfl rfl
    case select => exact h.select
    case relations => exact h.relations
  · have hlinks : LinksOk { st.db with
        domain.decisions := st.db.domain.decisions.insertMany rows } :=
      h.links.congr rfl rfl rfl rfl
    constructor
    case caches => exact hcaches
    all_goals rw [hdb]
    case facts => exact h.facts
    case links => exact hi.linksOk hlinks
    case select => exact (i.select_after _ hne).trans h.select
    case relations => exact (i.activeRelations_after hlinks hne).trans h.relations

/-- **One relation of the predecessor leaves the others as they are.** -/
theorem SameSource.runRelation (hne : ctx.predecessorScanId ≠ ctx.candidateScanId)
    (h : SameSource ctx db st) {source : SourceText} {targetFileId : Nat} {r : SourceRelation}
    (hok : runRelation ctx source targetFileId st r = .ok st') : SameSource ctx db st' := by
  unfold InheritanceEngine.runRelation at hok
  split at hok
  · obtain rfl := pure_eq_ok.1 hok
    exact h
  · split at hok
    · obtain rfl := pure_eq_ok.1 hok
      exact h
    · exact h.persist hne hok

/-- The files and the relations read are those of the database at the start. -/
theorem SameSource.relationFiles_eq (h : SameSource ctx db st) :
    relationFiles st.db ctx.predecessorScanId = relationFiles db ctx.predecessorScanId := by
  have hany : ∀ (d : Db) (lineId : Nat), (d.domain.links.rows.any fun q =>
      decide (q.2.lineId = lineId ∧ q.2.scanId = ctx.predecessorScanId ∧ q.2.isActive = true)) =
      (d.domain.links.select fun _ q => decide (q.scanId = ctx.predecessorScanId ∧
        q.isActive = true)).any fun q => q.2.lineId = lineId := by
    intro d lineId
    rw [Keyed.select, List.any_filter]
    congr 1
    funext q
    simp [and_comm]
  unfold relationFiles
  simp only [h.facts, hany, h.select]

theorem SameSource.fileRelations_eq (h : SameSource ctx db st) (fileId : Nat) :
    fileRelations st.db ctx.predecessorScanId fileId =
      fileRelations db ctx.predecessorScanId fileId := by
  unfold fileRelations
  rw [h.relations]

/-! ## The read set is not looked at -/

theorem cloneRecord_read (st : RunState) (readSet : ReadSetAccumulator) (source : Nat) :
    cloneRecord { st with readSet := readSet } source =
      (cloneRecord st source).map fun p => ({ p.1 with readSet := readSet }, p.2) := by
  simp only [cloneRecord]
  cases st.candidateRecordCache.lookup source with
  | some clone => rfl
  | none =>
    cases st.db.domain.records.get? source with
    | none => rfl
    | some record => rfl

theorem candidateBlock_read (mapping : LineMapping) (st : RunState) (readSet : ReadSetAccumulator)
    (r : SourceRelation) (line : LineRow) (recordId : Nat) :
    candidateBlockForRelation ctx mapping { st with readSet := readSet } r line recordId =
      (candidateBlockForRelation ctx mapping st r line recordId).map
        fun p => ({ p.1 with readSet := readSet }, p.2) := by
  simp only [candidateBlockForRelation]
  by_cases hblock : r.link.blockId.getD 0 ≠ 0
  · rw [(require_eq_ok (u := ())).2 hblock, ok_bind, ok_bind]
    generalize sourceRange r = range
    split
    · rfl
    · generalize createBlock st.db _ = created
      cases created with
      | error e => rfl
      | ok p => rfl
  · rw [require_of_not hblock]
    rfl

theorem inheritRelation_read (mapping : LineMapping) (st : RunState) (readSet : ReadSetAccumulator)
    (r : SourceRelation) (lineId : Nat) (line : LineRow) :
    inheritRelation ctx mapping { st with readSet := readSet } r lineId line =
      (inheritRelation ctx mapping st r lineId line).map fun s => { s with readSet := readSet } := by
  simp only [inheritRelation, cloneRecord_read]
  cases cloneRecord st r.link.recordId with
  | error e => rfl
  | ok p =>
    simp only [Except.map, ok_bind, candidateBlock_read]
    cases candidateBlockForRelation ctx mapping p.1 r line p.2 with
    | error e => rfl
    | ok b =>
      simp only [ok_bind]
      generalize createLink _ _ _ = linked
      cases linked with
      | error e => rfl
      | ok db => rfl

/-- What a relation leads to does not depend on the read set. -/
theorem runRelation_read (source : SourceText) (targetFileId : Nat) (st : RunState)
    (readSet : ReadSetAccumulator) (r : SourceRelation) :
    runRelation ctx source targetFileId { st with readSet := readSet } r =
      (runRelation ctx source targetFileId st r).map fun s => { s with readSet := readSet } := by
  simp only [runRelation]
  split
  · rfl
  · split
    · rfl
    · simp only [persistRelationDecision]
      split
      · rfl
      · split
        · rfl
        · exact inheritRelation_read _ { st with db := _ } readSet r _ _

theorem runRelations_read (source : SourceText) (targetFileId : Nat) (rs : List SourceRelation)
    (st : RunState) (readSet : ReadSetAccumulator) :
    rs.foldlM (runRelation ctx source targetFileId) { st with readSet := readSet } =
      (rs.foldlM (runRelation ctx source targetFileId) st).map
        fun s => { s with readSet := readSet } := by
  induction rs generalizing st with
  | nil => rfl
  | cons r rs ih =>
    rw [List.foldlM_cons, List.foldlM_cons, runRelation_read]
    cases runRelation ctx source targetFileId st r with
    | error e => rfl
    | ok s => exact ih s

/-! ## One file -/

theorem SameSource.runPage (hne : ctx.predecessorScanId ≠ ctx.candidateScanId)
    {s s' : RunState × Option (Except String SourceText)} (h : SameSource ctx db s.1)
    {targetFileId : Nat} {page : List SourceRelation}
    (hok : runPage ctx targetFileId s page = .ok s') : SameSource ctx db s'.1 := by
  simp only [InheritanceEngine.runPage, bind_eq_ok] at hok
  obtain ⟨snapshot, _, hok⟩ := hok
  split at hok
  · simp only [bind_eq_ok, pure_eq_ok] at hok
    obtain ⟨st, hfold, rfl⟩ := hok
    exact foldlM_inv (SameSource ctx db) (fun _ _ _ _ hs hr => hs.runRelation hne hr) (h.read _) hfold
  · obtain rfl := pure_eq_ok.1 hok
    exact h.read _

theorem observeAll_append (env : Env) (acc : ReadSetAccumulator) (as bs : List SourceRelation) :
    acc.observeAll env (as ++ bs) = (acc.observeAll env as).observeAll env bs :=
  List.foldl_append

/-- The pages of a file that is refused are only observed. -/
theorem runPages_error (targetFileId : Nat) (reason : String) (ps : List (List SourceRelation))
    (st : RunState) :
    ps.foldlM (InheritanceEngine.runPage ctx targetFileId) (st, some (.error reason)) =
      .ok ({ st with readSet := st.readSet.observeAll ctx.env ps.flatten },
        some (.error reason)) := by
  induction ps generalizing st with
  | nil => rfl
  | cons p ps ih =>
    rw [List.foldlM_cons, List.flatten_cons, observeAll_append]
    exact ih _

/-- The pages of a file whose two versions are known are observed and inherited. -/
theorem runPages_ok (targetFileId : Nat) (source : SourceText) (ps : List (List SourceRelation))
    (st : RunState) :
    ps.foldlM (InheritanceEngine.runPage ctx targetFileId) (st, some (.ok source)) =
      (ps.flatten.foldlM (runRelation ctx source targetFileId)
        { st with readSet := st.readSet.observeAll ctx.env ps.flatten }).map
          fun s => (s, some (.ok source)) := by
  induction ps generalizing st with
  | nil => rfl
  | cons p ps ih =>
    have hpage : InheritanceEngine.runPage ctx targetFileId (st, some (.ok source)) p =
        (p.foldlM (runRelation ctx source targetFileId)
          { st with readSet := st.readSet.observeAll ctx.env p }).map
            fun s => (s, some (.ok source)) := by
      simp only [InheritanceEngine.runPage, sourceSnapshot, pure_bind]
      cases p.foldlM (runRelation ctx source targetFileId)
          { st with readSet := st.readSet.observeAll ctx.env p } with
      | error e => rfl
      | ok s => rfl
    rw [List.foldlM_cons, hpage, List.flatten_cons, List.foldlM_append, observeAll_append,
      runRelations_read source targetFileId p st (st.readSet.observeAll ctx.env p),
      runRelations_read source targetFileId p st
        ((st.readSet.observeAll ctx.env p).observeAll ctx.env ps.flatten)]
    cases p.foldlM (runRelation ctx source targetFileId) st with
    | error e => rfl
    | ok s =>
      simp only [Except.map, ok_bind, ih]

/-- **The pages of a file are its relations**, whatever the pages are. -/
theorem runPages_eq (targetFileId : Nat) (ps : List (List SourceRelation)) (hps : ∀ p ∈ ps, p ≠ [])
    (st : RunState) :
    (ps.foldlM (InheritanceEngine.runPage ctx targetFileId) (st, none)).map Prod.fst =
      (match ps.flatten.head? with
      | none => .ok st
      | some first => do
        let snapshot ← snapshotForRelation ctx st.db first
        let st := { st with readSet := st.readSet.observeAll ctx.env ps.flatten }
        match snapshot with
        | .error _ => pure st
        | .ok source => ps.flatten.foldlM (runRelation ctx source targetFileId) st) := by
  cases ps with
  | nil => rfl
  | cons p ps =>
    obtain ⟨first, rest, rfl⟩ := List.exists_cons_of_ne_nil (hps p List.mem_cons_self)
    have hstart : ((first :: rest) :: ps).foldlM (InheritanceEngine.runPage ctx targetFileId)
        (st, none) = snapshotForRelation ctx st.db first >>= fun snapshot =>
          ((first :: rest) :: ps).foldlM (InheritanceEngine.runPage ctx targetFileId)
            (st, some snapshot) := by
      simp only [List.foldlM_cons, InheritanceEngine.runPage, sourceSnapshot, List.head?_cons]
      cases snapshotForRelation ctx st.db first with
      | error e => rfl
      | ok snapshot => rfl
    rw [hstart]
    simp only [List.flatten_cons, List.cons_append, List.head?_cons]
    cases snapshotForRelation ctx st.db first with
    | error e => rfl
    | ok snapshot =>
      simp only [ok_bind]
      cases snapshot with
      | error reason =>
        rw [runPages_error]
        rfl
      | ok source =>
        rw [runPages_ok]
        simp only [List.flatten_cons, List.cons_append]
        generalize (first :: (rest ++ ps.flatten)).foldlM (runRelation ctx source targetFileId) _ =
          result
        cases result with
        | error e => rfl
        | ok s => rfl

/-- The ids of the relations of a file ascend. -/
theorem fileRelations_ascending (db : Db) (scanId fileId : Nat) :
    ((fileRelations db scanId fileId).map SourceRelation.id).Pairwise (· < ·) ∧
      ∀ r ∈ fileRelations db scanId fileId, 0 < r.id := by
  have hid : ∀ q r, joinRelation db q = some r → r.id = q.1 := by
    intro q r h
    simp only [joinRelation, Option.pure_def, Option.bind_eq_bind, Option.bind_eq_some_iff,
      Option.some.injEq] at h
    obtain ⟨_, _, _, _, rfl⟩ := h
    rfl
  constructor
  · have hlinks : db.domain.links.rows.Pairwise fun a b => a.1 < b.1 :=
      List.pairwise_map.1 db.domain.links.ordered
    rw [List.pairwise_map, fileRelations, activeRelations]
    refine List.Pairwise.filter _ (List.Pairwise.filterMap _ ?_ (hlinks.filter _))
    intro q q' hlt r hr r' hr'
    rw [hid q r hr, hid q' r' hr']
    exact hlt
  · intro r hr
    obtain ⟨q, hq, hjoin⟩ := List.mem_filterMap.1 (List.mem_of_mem_filter hr)
    rw [hid q r hjoin]
    exact (db.domain.links.issued q.1
      (List.mem_map_of_mem (f := Prod.fst) (Keyed.mem_select.1 hq).1)).1

theorem length_fileRelations_le (db : Db) (scanId fileId : Nat) :
    (fileRelations db scanId fileId).length ≤ db.domain.links.rows.length :=
  (List.length_filter_le _ _).trans ((List.length_filterMap_le _ _).trans
    (List.length_filter_le _ _))

/-- **A file read in pages** is the file read at once. -/
theorem runFilePaged_eq (hne : ctx.predecessorScanId ≠ ctx.candidateScanId)
    (h : SameSource ctx db st) {limit fuel : Nat} (hlimit : 0 < limit)
    (hfuel : db.domain.links.rows.length < fuel) (file : Nat × FileRow) :
    runFilePaged ctx limit fuel st file = OptionT.lift (runFile ctx st file) := by
  unfold runFilePaged runFile
  split
  · rfl
  · cases candidateFile ctx.env st.db ctx.candidateScanId file.2.repositoryName file.2.filePath with
    | none => rfl
    | some target =>
      let start : RunState := { st with
        readSet := st.readSet.addSourceFile ⟨file.2.repositoryName, file.2.filePath⟩ }
      let relations := fileRelations st.db ctx.predecessorScanId file.1
      let pages := Paging.pages SourceRelation.id limit relations 0
      obtain ⟨hasc, hpos⟩ := fileRelations_ascending st.db ctx.predecessorScanId file.1
      have hflat : pages.flatten = relations := Paging.flatten_pages_eq hasc hpos hlimit
      have hshort : (Paging.behind SourceRelation.id relations 0).length < fuel := by
        have hlen : relations.length ≤ db.domain.links.rows.length := by
          have := length_fileRelations_le db ctx.predecessorScanId file.1
          rwa [← h.fileRelations_eq] at this
        exact lt_of_le_of_lt ((List.length_filter_le _ _).trans hlen) hfuel
      have hloop : Paging.foldPages SourceRelation.id limit
          (fun s => fileRelations s.1.db ctx.predecessorScanId file.1)
          (fun s page => OptionT.lift (InheritanceEngine.runPage ctx target.1 s page)) fuel 0
          (start, none) =
          OptionT.lift (pages.foldlM (InheritanceEngine.runPage ctx target.1) (start, none)) :=
        Paging.foldPages_eq (I := fun s => SameSource ctx db s.1) (fun _ _ _ => rfl)
          (fun s page s' hs hok => ⟨hs.runPage hne hok, by
            rw [(hs.runPage hne hok).fileRelations_eq, hs.fileRelations_eq]⟩)
          (h.read _) hshort
      have hpages := @runPages_eq ctx target.1 pages
        (fun p hp => Paging.ne_nil_of_mem_pages hp) start
      rw [hflat] at hpages
      have hlift : ∀ x : Except Failure (RunState × Option (Except String SourceText)),
          (OptionT.lift x >>= fun s => (pure s.1 : Paged RunState)) =
            OptionT.lift (x.map Prod.fst) := by
        intro x
        cases x with
        | error e => rfl
        | ok s => rfl
      refine Eq.trans ?_ ((congrArg OptionT.lift hpages).trans ?_)
      · rw [← hlift, ← hloop]
      · refine congrArg OptionT.lift ?_
        dsimp only
        change _ = match relations.head? with
          | none => pure { start with readSet := start.readSet.observeAll ctx.env relations }
          | some first => _
        cases hhead : relations.head? with
        | none => rw [List.head?_eq_none_iff.1 hhead]; rfl
        | some first => rfl

/-- The ids of the files ascend. -/
theorem relationFiles_ascending (db : Db) (scanId : Nat) :
    ((relationFiles db scanId).map Prod.fst).Pairwise (· < ·) ∧
      ∀ f ∈ relationFiles db scanId, 0 < f.1 := by
  constructor
  · exact db.facts.files.ordered.sublist (List.filter_sublist.map Prod.fst)
  · exact fun f hf => (db.facts.files.issued f.1
      (List.mem_map_of_mem (f := Prod.fst) (Keyed.mem_select.1 hf).1)).1

theorem SameSource.runFile (hne : ctx.predecessorScanId ≠ ctx.candidateScanId)
    (h : SameSource ctx db st) {file : Nat × FileRow} (hok : runFile ctx st file = .ok st') :
    SameSource ctx db st' := by
  unfold InheritanceEngine.runFile at hok
  split at hok
  · obtain rfl := pure_eq_ok.1 hok
    exact h
  · split at hok
    · obtain rfl := pure_eq_ok.1 hok
      exact h
    · dsimp only at hok
      split at hok
      · obtain rfl := pure_eq_ok.1 hok
        exact h.read _
      · simp only [bind_eq_ok] at hok
        obtain ⟨snapshot, _, hok⟩ := hok
        split at hok
        · obtain rfl := pure_eq_ok.1 hok
          exact h.read _
        · exact foldlM_inv (SameSource ctx db) (fun _ _ _ _ hs hr => hs.runRelation hne hr)
            (h.read _) hok

/-! ## The run -/

/-- The files of one page, one after another. -/
theorem runFilesPaged_eq (hne : ctx.predecessorScanId ≠ ctx.candidateScanId)
    (h : SameSource ctx db st) {limit fuel : Nat} (hlimit : 0 < limit)
    (hfuel : db.domain.links.rows.length < fuel) (files : List (Nat × FileRow)) :
    files.foldlM (runFilePaged ctx limit fuel) st = OptionT.lift (files.foldlM (runFile ctx) st) := by
  induction files generalizing st with
  | nil => rfl
  | cons file files ih =>
    rw [List.foldlM_cons, List.foldlM_cons, runFilePaged_eq hne h hlimit hfuel]
    cases hfile : runFile ctx st file with
    | error e => rfl
    | ok s => exact ih (h.runFile hne hfile)

/-- **All files in pages** are the files one after another. -/
theorem filesPaged_eq (ctx : RunContext) {db : Db}
    (hne : ctx.predecessorScanId ≠ ctx.candidateScanId) (hl : LinksOk db)
    {limit fuel : Nat} (hlimit : 0 < limit)
    (hfuel : db.domain.links.rows.length + db.facts.files.rows.length < fuel) :
    Paging.foldPages Prod.fst limit
      (fun st : RunState => relationFiles st.db ctx.predecessorScanId)
      (fun st page => page.foldlM (runFilePaged ctx limit fuel) st) fuel 0 (RunState.start db) =
    OptionT.lift ((relationFiles db ctx.predecessorScanId).foldlM (runFile ctx)
      (RunState.start db)) := by
  have hstart : SameSource ctx db (RunState.start db) := SameSource.start hl
  obtain ⟨hasc, hpos⟩ := relationFiles_ascending db ctx.predecessorScanId
  have hshort : (Paging.behind Prod.fst (relationFiles db ctx.predecessorScanId) 0).length <
      fuel := by
    have h₁ : (Paging.behind Prod.fst (relationFiles db ctx.predecessorScanId) 0).length ≤
        (relationFiles db ctx.predecessorScanId).length := List.length_filter_le _ _
    have h₂ : (relationFiles db ctx.predecessorScanId).length ≤ db.facts.files.rows.length :=
      List.length_filter_le _ _
    omega
  have hloop : Paging.foldPages Prod.fst limit
      (fun st : RunState => relationFiles st.db ctx.predecessorScanId)
      (fun st page => page.foldlM (runFilePaged ctx limit fuel) st) fuel 0 (RunState.start db) =
      OptionT.lift ((Paging.pages Prod.fst limit
        (relationFiles db ctx.predecessorScanId) 0).foldlM
          (fun st page => page.foldlM (runFile ctx) st) (RunState.start db)) :=
    Paging.foldPages_eq (I := SameSource ctx db)
      (fun st page hs => runFilesPaged_eq hne hs hlimit (by omega) page)
      (fun st page st' hs hok => by
        have hs' : SameSource ctx db st' :=
          foldlM_inv (SameSource ctx db) (fun _ _ _ _ h hr => h.runFile hne hr) hs hok
        exact ⟨hs', hs'.relationFiles_eq.trans hs.relationFiles_eq.symm⟩)
      hstart hshort
  rw [hloop, ← foldlM_flatten, Paging.flatten_pages_eq hasc hpos hlimit]

/-- **A run in pages ends, and is the run** without them, for every batch size. -/
theorem runPaged_eq {env : Env} {candidateScanId : Nat} {repositoryPaths : List (String × String)}
    (hl : LinksOk db) (hh : HistoryOk db) (batchSize : Nat) {fuel : Nat}
    (hfuel : db.domain.links.rows.length + db.facts.files.rows.length < fuel) :
    runPaged env db candidateScanId repositoryPaths batchSize fuel =
      OptionT.lift (run env db candidateScanId repositoryPaths) := by
  unfold runPaged run
  cases hres : PredecessorResolver.resolve env db candidateScanId with
  | error e => rfl
  | ok resolution =>
    obtain ⟨predecessor, repositories⟩ := resolution
    cases predecessor with
    | none => rfl
    | some predecessor =>
      let ctx := contextOf env candidateScanId predecessor repositories repositoryPaths
      have hne : ctx.predecessorScanId ≠ ctx.candidateScanId :=
        RunContext.Of.predecessor_ne ⟨_, _, hres, rfl, rfl⟩ hh
      have hlimit : 0 < max 1 batchSize := Nat.lt_of_lt_of_le Nat.one_pos (Nat.le_max_left _ _)
      have hloop := filesPaged_eq ctx hne hl hlimit hfuel
      let finish := fun st : RunState =>
        (decideRemaining st.db ctx.runId candidateScanId (lineReason repositories),
          some (st.readSet.toPayload (some candidateScanId) (some predecessor)))
      calc
        _ = (Paging.foldPages Prod.fst (max 1 batchSize)
              (fun st : RunState => relationFiles st.db ctx.predecessorScanId)
              (fun st page => page.foldlM (runFilePaged ctx (max 1 batchSize) fuel) st) fuel 0
              (RunState.start db) >>= fun st => pure (finish st)) := rfl
        _ = OptionT.lift ((relationFiles db ctx.predecessorScanId).foldlM (runFile ctx)
              (RunState.start db) >>= fun st => pure (finish st)) := by
            rw [hloop]
            cases (relationFiles db ctx.predecessorScanId).foldlM (runFile ctx)
              (RunState.start db) with
            | error e => rfl
            | ok st => rfl

end InheritanceEngine

end FosCoverage
