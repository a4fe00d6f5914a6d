import FosCoverage.Inheritance.PagedRun

/-!
# The lines no relation reached, in pages

After the files a run decides the lines of the Candidate it has not decided yet.  It does not hold
them either: `_iter_candidate_lines` fetches `batch_size` lines behind the last id, and while the
run writes decisions, the next page is fetched from lines that are joined against the decisions as
they are by then (`iterCandidateLines`).

* A page concerns lines up to its last one, so what is behind it is read as before
  (`behind_foldl_decideLine`).
* The lines the join leaves out have a decision, and writing one for them again would do nothing
  (`foldl_undecided`).

`runBatched` is the run with everything in pages, and `runBatched_eq` the result: for every batch
size it ends and is the run of `InheritanceEngine.run`.
-/

set_option autoImplicit false

namespace FosCoverage

open Relational Outcome AnalysisDomainRepository

namespace InheritanceEngine

/-! ## The pages -/

/-- `_iter_candidate_lines`, the rows it pages through: with a run id the lines that have no
decision of the run, in the state the database is in. -/
def iterCandidateLines (db : Db) (scanId : Nat) : Option String → List (Nat × LineRow × FileRow)
  | none => candidateLines db scanId
  | some runId => (candidateLines db scanId).filter fun l => (findDecision db runId l.1).isNone

/-- What is done for one line. -/
def decideLine (runId : String) (candidateScanId : Nat) (reason : FileRow → String) (db : Db)
    (l : Nat × LineRow × FileRow) : Db :=
  if isUncovered l.2.1.facts.coverageState then
    writeDecision db runId candidateScanId l.1 none (reason l.2.2)
  else db

/-- The last loop of `run`, with pages of at most `limit` lines; `joined` is the run id of the
join. -/
def decideRemainingPaged (joined : Option String) (runId : String) (candidateScanId : Nat)
    (reason : FileRow → String) (limit fuel : Nat) (db : Db) : Paged Db :=
  Paging.foldPages Prod.fst limit (fun db => iterCandidateLines db candidateScanId joined)
    (fun db page => pure (page.foldl (decideLine runId candidateScanId reason) db)) fuel 0 db

/-- `run` with pages of `batchSize` files, relations and lines, for at most `fuel` pages of each. -/
def runBatched (env : Env) (db : Db) (candidateScanId : Nat)
    (repositoryPaths : List (String × String)) (batchSize fuel : Nat) :
    Paged (Db × Option ReadSet) := do
  let resolution ← OptionT.lift (PredecessorResolver.resolve env db candidateScanId)
  let limit := max 1 batchSize
  match resolution.predecessorScanId with
  | none => do
    let db ← decideRemainingPaged none (env.decisionRunId candidateScanId none) candidateScanId
      (fun _ => "NO_PREDECESSOR") limit fuel db
    pure (db, none)
  | some predecessorScanId => do
    let ctx := contextOf env candidateScanId predecessorScanId resolution.repositories
      repositoryPaths
    let st ← Paging.foldPages Prod.fst limit (fun st => relationFiles st.db predecessorScanId)
      (fun st page => page.foldlM (runFilePaged ctx limit fuel) st) fuel 0 (RunState.start db)
    let db ← decideRemainingPaged (some ctx.runId) ctx.runId candidateScanId
      (lineReason resolution.repositories) limit fuel st.db
    pure (db, some (st.readSet.toPayload (some candidateScanId) (some predecessorScanId)))

/-! ## A decision -/

section Decision

variable {db : Db} {runId : String} {candidateScanId lineId : Nat}
  {relation : Option SourceRelation} {reason : String}

@[simp] theorem facts_writeDecision :
    (writeDecision db runId candidateScanId lineId relation reason).facts = db.facts := by
  unfold writeDecision
  split
  · rfl
  · rfl

@[simp] theorem links_writeDecision :
    (writeDecision db runId candidateScanId lineId relation reason).domain.links =
      db.domain.links := by
  unfold writeDecision
  split
  · rfl
  · rfl

/-- The first decision stands. -/
theorem writeDecision_of_some (h : (findDecision db runId lineId).isSome) :
    writeDecision db runId candidateScanId lineId relation reason = db := if_pos h

/-- Other lines are decided as before. -/
theorem findDecision_writeDecision_of_ne {l : Nat} (hne : l ≠ lineId) (id : String) :
    findDecision (writeDecision db runId candidateScanId lineId relation reason) id l =
      findDecision db id l := by
  unfold writeDecision
  split
  · rfl
  · refine Table.find?_insert (decide_eq_false ?_)
    exact fun h => hne h.2.symm

/-- What a line without a decision is decided to be. -/
theorem findDecision_writeDecision_of_none (candidateScanId : Nat)
    (relation : Option SourceRelation) (reason : String)
    (h : findDecision db runId lineId = none) :
    ∃ d, findDecision (writeDecision db runId candidateScanId lineId relation reason) runId lineId =
        some d ∧ d.2.inherited = decide (reason = "INHERITED") := by
  let source := (relation.map fun r : SourceRelation =>
    (⟨some r.link.scanId, some r.link.lineId, some r.id⟩ : SourceTriple)).getD SourceTriple.none
  refine ⟨(db.domain.decisions.next,
    ⟨runId, candidateScanId, lineId, source, reason = "INHERITED", reason⟩), ?_, rfl⟩
  have hrows : db.domain.decisions.rows.find? (fun d =>
      d.2.decisionRunId = runId ∧ d.2.candidateLineId = lineId) = none := h
  simp only [writeDecision, h]
  simp only [findDecision, Option.isSome_none, Bool.false_eq_true, if_false, Table.rows_insert,
    List.find?_append, hrows, Option.none_or]
  rw [List.find?_cons_of_pos]
  simp

/-- After a write the line has a decision. -/
theorem isSome_findDecision_writeDecision :
    (findDecision (writeDecision db runId candidateScanId lineId relation reason) runId
      lineId).isSome := by
  cases h : findDecision db runId lineId with
  | none =>
    obtain ⟨d, hd, _⟩ := findDecision_writeDecision_of_none candidateScanId relation reason h
    rw [hd]
    rfl
  | some d =>
    rw [writeDecision_of_some (by rw [h]; rfl), h]
    rfl

/-- A line that has a decision keeps it. -/
theorem findDecision_writeDecision_of_some {l : Nat} (h : (findDecision db runId l).isSome) :
    findDecision (writeDecision db runId candidateScanId lineId relation reason) runId l =
      findDecision db runId l := by
  by_cases hl : l = lineId
  · subst hl
    rw [writeDecision_of_some h]
  · exact findDecision_writeDecision_of_ne hl runId

end Decision

/-! ## A page -/

section Lines

variable {db : Db} {runId : String} {candidateScanId : Nat} {reason : FileRow → String}

@[simp] theorem facts_decideLine (l : Nat × LineRow × FileRow) :
    (decideLine runId candidateScanId reason db l).facts = db.facts := by
  unfold decideLine
  split
  · exact facts_writeDecision
  · rfl

theorem findDecision_decideLine_of_ne {l : Nat × LineRow × FileRow} {k : Nat} (hne : k ≠ l.1)
    (id : String) : findDecision (decideLine runId candidateScanId reason db l) id k =
      findDecision db id k := by
  unfold decideLine
  split
  · exact findDecision_writeDecision_of_ne hne id
  · rfl

/-- A decided line is left alone. -/
theorem decideLine_of_some {l : Nat × LineRow × FileRow} (h : (findDecision db runId l.1).isSome) :
    decideLine runId candidateScanId reason db l = db := by
  unfold decideLine
  split
  · exact writeDecision_of_some h
  · rfl

theorem findDecision_decideLine_of_some {l : Nat × LineRow × FileRow} {k : Nat}
    (h : (findDecision db runId k).isSome) :
    findDecision (decideLine runId candidateScanId reason db l) runId k =
      findDecision db runId k := by
  unfold decideLine
  split
  · exact findDecision_writeDecision_of_some h
  · rfl

theorem candidateLines_congr {db' : Db} (h : db'.facts = db.facts) (scanId : Nat) :
    candidateLines db' scanId = candidateLines db scanId := by
  unfold candidateLines
  rw [h]

/-- A line keeps its id when it is joined with its file. -/
theorem id_of_joined {db : Db} {scanId : Nat} {q : Nat × LineRow} {l : Nat × LineRow × FileRow}
    (h : (match db.facts.files.get? q.2.fileId with
      | some f => if f.scanId = scanId then some (q.1, q.2, f) else none
      | none => none) = some l) : l.1 = q.1 := by
  split at h
  · split at h
    · obtain rfl := Option.some.inj h
      rfl
    · cases h
  · cases h

/-- The ids of the lines ascend. -/
theorem candidateLines_ascending (db : Db) (scanId : Nat) :
    ((candidateLines db scanId).map Prod.fst).Pairwise (· < ·) ∧
      ∀ l ∈ candidateLines db scanId, 0 < l.1 := by
  constructor
  · rw [List.pairwise_map]
    refine List.Pairwise.filterMap _ ?_ (List.pairwise_map.1 db.facts.lines.ordered)
    intro q q' hlt l hl l' hl'
    rw [id_of_joined hl, id_of_joined hl']
    exact hlt
  · intro l hl
    obtain ⟨q, hq, h⟩ := List.mem_filterMap.1 hl
    rw [id_of_joined h]
    exact (db.facts.lines.issued q.1 (List.mem_map_of_mem (f := Prod.fst) hq)).1

theorem iterCandidateLines_sublist (db : Db) (scanId : Nat) (joined : Option String) :
    (iterCandidateLines db scanId joined).Sublist (candidateLines db scanId) := by
  cases joined with
  | none => exact List.Sublist.refl _
  | some runId => exact List.filter_sublist

theorem behind_decideLine {l : Nat × LineRow × FileRow} {k : Nat} (hk : l.1 ≤ k) (scanId : Nat)
    (joined : Option String) :
    Paging.behind Prod.fst
      (iterCandidateLines (decideLine runId candidateScanId reason db l) scanId joined) k =
    Paging.behind Prod.fst (iterCandidateLines db scanId joined) k := by
  have hlines : candidateLines (decideLine runId candidateScanId reason db l) scanId =
      candidateLines db scanId := candidateLines_congr (facts_decideLine l) scanId
  cases joined with
  | none => simp only [iterCandidateLines, hlines]
  | some id =>
    simp only [iterCandidateLines, hlines, Paging.behind, List.filter_filter]
    refine List.filter_congr fun l' _ => ?_
    by_cases hlt : k < l'.1
    · rw [findDecision_decideLine_of_ne (by omega)]
    · simp [hlt]

/-- **Deciding a page does not change what is behind it.** -/
theorem behind_foldl_decideLine {page : List (Nat × LineRow × FileRow)} {k : Nat}
    (hk : ∀ l ∈ page, l.1 ≤ k) (scanId : Nat) (joined : Option String) :
    Paging.behind Prod.fst (iterCandidateLines
      (page.foldl (decideLine runId candidateScanId reason) db) scanId joined) k =
    Paging.behind Prod.fst (iterCandidateLines db scanId joined) k := by
  induction page generalizing db with
  | nil => rfl
  | cons l page ih =>
    rw [List.foldl_cons, ih fun l' hl' => hk l' (List.mem_cons_of_mem _ hl'),
      behind_decideLine (hk l List.mem_cons_self)]

theorem facts_foldl_decideLine (page : List (Nat × LineRow × FileRow)) :
    (page.foldl (decideLine runId candidateScanId reason) db).facts = db.facts := by
  induction page generalizing db with
  | nil => rfl
  | cons l page ih => rw [List.foldl_cons, ih, facts_decideLine]

/-- **Lines that had a decision from the start need not be visited.** -/
theorem foldl_undecided {db₀ : Db} (lines : List (Nat × LineRow × FileRow))
    (h : ∀ k, (findDecision db₀ runId k).isSome → (findDecision db runId k).isSome) :
    (lines.filter fun l => (findDecision db₀ runId l.1).isNone).foldl
      (decideLine runId candidateScanId reason) db =
    lines.foldl (decideLine runId candidateScanId reason) db := by
  induction lines generalizing db with
  | nil => rfl
  | cons l lines ih =>
    cases hl : findDecision db₀ runId l.1 with
    | some d =>
      rw [List.filter_cons_of_neg (by simp [hl]), List.foldl_cons,
        decideLine_of_some (h l.1 (by rw [hl]; rfl)), ih h]
    | none =>
      rw [List.filter_cons_of_pos (by simp [hl]), List.foldl_cons, List.foldl_cons]
      refine ih fun k hk => ?_
      rw [findDecision_decideLine_of_some (h k hk)]
      exact h k hk

/-- The rows paged through lead to the decisions of the run. -/
theorem foldl_iterCandidateLines {joined : Option String}
    (hj : joined = none ∨ joined = some runId) :
    (iterCandidateLines db candidateScanId joined).foldl
      (decideLine runId candidateScanId reason) db =
    decideRemaining db runId candidateScanId reason := by
  rcases hj with rfl | rfl
  · rfl
  · exact foldl_undecided (candidateLines db candidateScanId) fun _ h => h

/-- **The remaining lines in pages** are the remaining lines. -/
theorem decideRemainingPaged_eq (db : Db) (runId : String) (candidateScanId : Nat)
    (reason : FileRow → String) {joined : Option String}
    (hj : joined = none ∨ joined = some runId) {limit fuel : Nat} (hlimit : 0 < limit)
    (hfuel : db.facts.lines.rows.length < fuel) :
    decideRemainingPaged joined runId candidateScanId reason limit fuel db =
      OptionT.lift (.ok (decideRemaining db runId candidateScanId reason)) := by
  let lines := iterCandidateLines db candidateScanId joined
  obtain ⟨hasc, hpos⟩ := candidateLines_ascending db candidateScanId
  have hsub := iterCandidateLines_sublist db candidateScanId joined
  have hlines : (lines.map Prod.fst).Pairwise (· < ·) := hasc.sublist (hsub.map Prod.fst)
  have hshort : (Paging.behind Prod.fst lines 0).length < fuel := by
    have h₁ : (Paging.behind Prod.fst lines 0).length ≤ lines.length := List.length_filter_le _ _
    have h₂ : (candidateLines db candidateScanId).length ≤ db.facts.lines.rows.length :=
      List.length_filterMap_le _ _
    have h₃ : lines.length ≤ (candidateLines db candidateScanId).length := hsub.length_le
    omega
  have hloop : decideRemainingPaged joined runId candidateScanId reason limit fuel db =
      OptionT.lift ((Paging.pages Prod.fst limit lines 0).foldlM (fun db page =>
        Except.ok (page.foldl (decideLine runId candidateScanId reason) db)) db) := by
    have hkeep : ∀ (d : Db) (page : List (Nat × LineRow × FileRow)) (last : Nat) r d',
        d.facts = db.facts →
        Paging.page Prod.fst limit (iterCandidateLines d candidateScanId joined) last = page →
        page.getLast? = some r →
        Except.ok (page.foldl (decideLine runId candidateScanId reason) d) =
          (Except.ok d' : Except Failure Db) →
        d'.facts = db.facts ∧
          Paging.behind Prod.fst (iterCandidateLines d' candidateScanId joined) r.1 =
            Paging.behind Prod.fst (iterCandidateLines d candidateScanId joined) r.1 := by
      intro d page last r d' hd hpage hr hok
      obtain rfl := Except.ok.inj hok
      refine ⟨(facts_foldl_decideLine page).trans hd, behind_foldl_decideLine ?_ _ _⟩
      have hn : ((iterCandidateLines d candidateScanId joined).map Prod.fst).Nodup := by
        have hasc' := (candidateLines_ascending d candidateScanId).1
        exact (hasc'.sublist ((iterCandidateLines_sublist d _ joined).map Prod.fst)).imp
          fun h => ne_of_lt h
      subst hpage
      exact fun l hl => Paging.le_getLast hn hr hl
    exact Paging.foldPages_eq_of_behind (I := fun d : Db => d.facts = db.facts)
      (fun _ _ _ => rfl) hkeep rfl hshort
  have hflat : (Paging.pages Prod.fst limit lines 0).flatten = lines :=
    Paging.flatten_pages_eq hlines (fun l hl => hpos l (hsub.subset hl)) hlimit
  rw [hloop, ← foldl_iterCandidateLines hj]
  refine congrArg OptionT.lift ?_
  calc
    _ = Except.ok ((Paging.pages Prod.fst limit lines 0).foldl
          (fun db page => page.foldl (decideLine runId candidateScanId reason) db) db) :=
        List.foldlM_pure
    _ = Except.ok (lines.foldl (decideLine runId candidateScanId reason) db) := by
        rw [← List.foldl_flatten, hflat]

end Lines

/-! ## The run -/

/-- **A run with everything in pages ends, and is the run** without them, for every batch size. -/
theorem runBatched_eq {env : Env} {db : Db} {candidateScanId : Nat}
    {repositoryPaths : List (String × String)} (hl : LinksOk db) (hh : HistoryOk db)
    (batchSize : Nat) {fuel : Nat}
    (hfuel : db.domain.links.rows.length + db.facts.files.rows.length +
      db.facts.lines.rows.length < fuel) :
    runBatched env db candidateScanId repositoryPaths batchSize fuel =
      OptionT.lift (run env db candidateScanId repositoryPaths) := by
  have hlimit : 0 < max 1 batchSize := Nat.lt_of_lt_of_le Nat.one_pos (Nat.le_max_left _ _)
  unfold runBatched run
  cases hres : PredecessorResolver.resolve env db candidateScanId with
  | error e => rfl
  | ok resolution =>
    obtain ⟨predecessor, repositories⟩ := resolution
    cases predecessor with
    | none =>
      have hlines := decideRemainingPaged_eq db (env.decisionRunId candidateScanId none)
        candidateScanId (fun _ => "NO_PREDECESSOR") (.inl rfl) hlimit
        (show db.facts.lines.rows.length < fuel by omega)
      exact congrArg (fun x : Paged Db => x >>= fun d => pure (d, (none : Option ReadSet))) hlines
    | some predecessor =>
      let ctx := contextOf env candidateScanId predecessor repositories repositoryPaths
      have hne : ctx.predecessorScanId ≠ ctx.candidateScanId :=
        RunContext.Of.predecessor_ne ⟨_, _, hres, rfl, rfl⟩ hh
      have hloop := filesPaged_eq ctx hne hl hlimit
        (show db.domain.links.rows.length + db.facts.files.rows.length < fuel by omega)
      let payload := fun st : RunState =>
        some (st.readSet.toPayload (some candidateScanId) (some predecessor))
      let finish := fun st : RunState => (do
        let d ← decideRemainingPaged (some ctx.runId) ctx.runId candidateScanId
          (lineReason repositories) (max 1 batchSize) fuel st.db
        pure (d, payload st) : Paged (Db × Option ReadSet))
      calc
        _ = (Paging.foldPages Prod.fst (max 1 batchSize)
              (fun st : RunState => relationFiles st.db ctx.predecessorScanId)
              (fun st page => page.foldlM (runFilePaged ctx (max 1 batchSize) fuel) st) fuel 0
              (RunState.start db) >>= finish) := rfl
        _ = OptionT.lift ((relationFiles db ctx.predecessorScanId).foldlM (runFile ctx)
              (RunState.start db) >>= fun st => pure (decideRemaining st.db ctx.runId
                candidateScanId (lineReason repositories), payload st)) := by
            rw [hloop]
            cases hfiles : (relationFiles db ctx.predecessorScanId).foldlM (runFile ctx)
              (RunState.start db) with
            | error e => rfl
            | ok st =>
              have hst : SameSource ctx db st := foldlM_inv (SameSource ctx db)
                (fun _ _ _ _ h hr => h.runFile hne hr) (SameSource.start hl) hfiles
              have hlines := decideRemainingPaged_eq st.db ctx.runId candidateScanId
                (lineReason repositories) (.inr rfl) hlimit
                (show st.db.facts.lines.rows.length < fuel by rw [hst.facts]; omega)
              exact congrArg (fun x : Paged Db => x >>= fun d => pure (d, payload st)) hlines

end InheritanceEngine

end FosCoverage
