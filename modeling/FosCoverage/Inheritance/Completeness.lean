import FosCoverage.Inheritance.RemainingLines

/-!
# When a run is complete

What a run should leave behind: one decision for every uncovered line of the Candidate, an
INHERITED one exactly for the lines that have a relation, and nothing for a second run to do
(`CompleteRun`).

* `reached` lists the relations of the predecessor that are mapped to a line of the Candidate, in
  the order the run takes them.  A run is one pass over this list (`runFile_eq`), and `Treated` says
  what it has done after a part of it.
* The decision of a line is the first one that is written: the one the run id has from before, or
  that of the first relation that reaches the line (`firstWord`).  A relation is inherited whenever
  it is accepted, which may come later than the decision.

So a run is complete exactly when the first word about every line is the last (`Consistent`,
`completeRun_iff`).  A run id is a function of the two scans and the algorithm, and a first run that
could not see the working copies leaves refusals under it; the run that can see them then writes
relations beside these refusals.
-/

set_option autoImplicit false

namespace FosCoverage

open Relational Outcome AnalysisDomainRepository

namespace InheritanceEngine

/-! ## The relations that reach a line -/

/-- A relation of the predecessor and the line of the Candidate it is mapped to. -/
structure Reached where
  /-- The two versions of the file. -/
  source : SourceText
  /-- The relation. -/
  relation : SourceRelation
  /-- The line of the Candidate. -/
  lineId : Nat
  /-- Its row. -/
  line : LineRow
  /-- The number the line is mapped to. -/
  newLineNumber : Nat

namespace Reached

/-- The relation is inherited: nothing speaks against it. -/
def accepted (x : Reached) : Bool :=
  (compareRelation x.source x.relation x.line x.newLineNumber).isNone

/-- The decision that is written for it, when it is the first. -/
def word (x : Reached) : Bool :=
  (compareRelation x.source x.relation x.line x.newLineNumber).getD "INHERITED" = "INHERITED"

end Reached

/-- The line a relation is mapped to. -/
def reach (source : SourceText) (db : Db) (targetFileId : Nat) (r : SourceRelation) :
    Option Reached := do
  let n ← source.mapping.get r.line.facts.lineNumber
  let l ← LineIndexRepository.getLine db targetFileId n
  pure ⟨source, r, l.1, l.2, n⟩

/-- The two versions of a file and the file of the Candidate, unless the file is skipped. -/
def fileSource (ctx : RunContext) (db : Db) (file : Nat × FileRow) :
    Except Failure (Option (SourceText × Nat)) :=
  if !eligible ctx.repositories file.2 then pure none
  else match candidateFile ctx.env db ctx.candidateScanId file.2.repositoryName file.2.filePath with
    | none => pure none
    | some (targetFileId, _) =>
      match (fileRelations db ctx.predecessorScanId file.1).head? with
      | none => pure none
      | some first => do
        match ← snapshotForRelation ctx db first with
        | .error _ => pure none
        | .ok source => pure (some (source, targetFileId))

/-- The relations of one file that reach a line. -/
def fileReached (ctx : RunContext) (db : Db) (file : Nat × FileRow) : List Reached :=
  match fileSource ctx db file with
  | .ok (some (source, targetFileId)) =>
    (fileRelations db ctx.predecessorScanId file.1).filterMap (reach source db targetFileId)
  | _ => []

/-- The relations that reach a line during a run on `db`, in the order of the run. -/
def reached (env : Env) (db : Db) (candidateScanId : Nat)
    (repositoryPaths : List (String × String)) : List Reached :=
  match PredecessorResolver.resolve env db candidateScanId with
  | .ok ⟨some predecessorScanId, repositories⟩ =>
    let ctx := contextOf env candidateScanId predecessorScanId repositories repositoryPaths
    (relationFiles db predecessorScanId).flatMap (fileReached ctx db)
  | _ => []

/-- The run id of a run on `db`. -/
def runIdOf (env : Env) (db : Db) (candidateScanId : Nat) : String :=
  env.decisionRunId candidateScanId
    ((ProjectRepository.getScan db candidateScanId).bind Scan.predecessorScanId)

/-- The decision of a line before the last loop: the one there was, else that of the first relation
that reaches the line. -/
def firstWord (db : Db) (runId : String) (done : List Reached) (lineId : Nat) : Option Bool :=
  ((findDecision db runId lineId).map fun d => d.2.inherited).or
    ((done.find? fun x => x.lineId = lineId).map Reached.word)

/-! ## A run is a pass over them -/

/-- `persistRelationDecision` of a relation that reaches a line. -/
def persistReached (ctx : RunContext) (st : RunState) (x : Reached) : Except Failure RunState :=
  persistRelationDecision ctx x.source st x.relation x.lineId x.line x.newLineNumber

/-- What the read set observes of one file. -/
def fileReads (ctx : RunContext) (db : Db) (acc : ReadSetAccumulator) (file : Nat × FileRow) :
    ReadSetAccumulator :=
  if eligible ctx.repositories file.2 ∧ (candidateFile ctx.env db ctx.candidateScanId
      file.2.repositoryName file.2.filePath).isSome then
    (acc.addSourceFile ⟨file.2.repositoryName, file.2.filePath⟩).observeAll ctx.env
      (fileRelations db ctx.predecessorScanId file.1)
  else acc

variable {ctx : RunContext} {db : Db} {st st' : RunState}

theorem reach_congr {d : Db} (hf : d.facts = db.facts) (source : SourceText) (targetFileId : Nat)
    (r : SourceRelation) : reach source d targetFileId r = reach source db targetFileId r := by
  unfold reach LineIndexRepository.getLine
  rw [hf]

theorem runRelation_eq (source : SourceText) (targetFileId : Nat) (st : RunState)
    (r : SourceRelation) : runRelation ctx source targetFileId st r =
      match reach source st.db targetFileId r with
      | none => pure st
      | some x => persistReached ctx st x := by
  unfold runRelation reach
  cases source.mapping.get r.line.facts.lineNumber with
  | none => rfl
  | some n =>
    simp only [Option.bind_eq_bind, Option.bind_some]
    cases LineIndexRepository.getLine st.db targetFileId n with
    | none => rfl
    | some l => rfl

/-- The relations of a file that reach no line do nothing. -/
theorem runRelations_eq (hne : ctx.predecessorScanId ≠ ctx.candidateScanId)
    (hs : SameSource ctx db st) (source : SourceText) (targetFileId : Nat)
    (rs : List SourceRelation) :
    rs.foldlM (runRelation ctx source targetFileId) st =
      (rs.filterMap (reach source db targetFileId)).foldlM (persistReached ctx) st := by
  induction rs generalizing st with
  | nil => rfl
  | cons r rs ih =>
    have hrun : runRelation ctx source targetFileId st r =
        match reach source db targetFileId r with
        | none => pure st
        | some x => persistReached ctx st x := by
      rw [runRelation_eq, reach_congr hs.facts]
    rw [List.foldlM_cons]
    cases hr : reach source db targetFileId r with
    | none =>
      rw [List.filterMap_cons_none hr, hrun, hr]
      exact ih hs
    | some x =>
      rw [List.filterMap_cons_some hr, List.foldlM_cons]
      have hstep : runRelation ctx source targetFileId st r = persistReached ctx st x := by
        rw [hrun, hr]
      cases hok : runRelation ctx source targetFileId st r with
      | error e =>
        rw [← hstep, hok]
        rfl
      | ok s =>
        rw [← hstep, hok]
        exact ih (hs.runRelation hne hok)

/-- **A file is a pass over the relations that reach a line.** -/
theorem runFile_eq (hne : ctx.predecessorScanId ≠ ctx.candidateScanId)
    (hs : SameSource ctx db st) (file : Nat × FileRow) :
    runFile ctx st file = fileSource ctx db file >>= fun _ =>
      (fileReached ctx db file).foldlM (persistReached ctx)
        { st with readSet := fileReads ctx db st.readSet file } := by
  have htarget : candidateFile ctx.env st.db ctx.candidateScanId file.2.repositoryName file.2.filePath =
      candidateFile ctx.env db ctx.candidateScanId file.2.repositoryName file.2.filePath := by
    unfold candidateFile
    rw [hs.facts]
  have hsnap : ∀ r, snapshotForRelation ctx st.db r = snapshotForRelation ctx db r := by
    intro r
    unfold snapshotForRelation PredecessorResolver.repositorySnapshot
      ProjectRepository.listRepositorySnapshots
    rw [hs.facts]
  unfold runFile fileReached fileSource fileReads
  by_cases he : eligible ctx.repositories file.2 = true
  · simp only [he, Bool.not_true, Bool.false_eq_true, if_false, htarget, hs.fileRelations_eq]
    cases candidateFile ctx.env db ctx.candidateScanId file.2.repositoryName file.2.filePath with
    | none => rfl
    | some target =>
      simp only [Option.isSome_some, and_self, if_true]
      cases hhead : (fileRelations db ctx.predecessorScanId file.1).head? with
      | none => rfl
      | some first =>
        simp only [hsnap]
        cases snapshotForRelation ctx db first with
        | error e => rfl
        | ok snapshot =>
          cases snapshot with
          | error reason => rfl
          | ok source => exact runRelations_eq hne (hs.read _) source target.1 _
  · simp only [he, Bool.not_false, if_true]
    rfl

/-! ## The decisions of a line -/

/-- The key of a decision. -/
def decisionKey (d : Decision) : String × Nat := (d.decisionRunId, d.candidateLineId)

/-- The decisions of a run about a line. -/
def decisionsOf (db : Db) (runId : String) (lineId : Nat) : List (Nat × Decision) :=
  db.domain.decisions.select fun _ d => d.decisionRunId = runId ∧ d.candidateLineId = lineId

/-- With the key of the table there is one decision at most. -/
theorem decisionsOf_eq (hu : db.domain.decisions.UniqueOn decisionKey) (runId : String)
    (lineId : Nat) : decisionsOf db runId lineId = (findDecision db runId lineId).toList := by
  have hfind : findDecision db runId lineId = (decisionsOf db runId lineId).head? :=
    List.head?_filter.symm
  rw [hfind]
  have hmem : ∀ r ∈ decisionsOf db runId lineId, db.domain.decisions.get? r.1 = some r.2 ∧
      decisionKey r.2 = (runId, lineId) := by
    intro r hr
    obtain ⟨hrow, hkey⟩ := Keyed.mem_select.1 hr
    rw [decide_eq_true_eq] at hkey
    exact ⟨Keyed.get?_eq_some_iff.2 hrow, Prod.ext hkey.1 hkey.2⟩
  have hkeys : ((decisionsOf db runId lineId).map Prod.fst).Pairwise (· < ·) :=
    db.domain.decisions.ordered.sublist (List.filter_sublist.map Prod.fst)
  cases hrows : decisionsOf db runId lineId with
  | nil => rfl
  | cons r rest =>
    cases rest with
    | nil => rfl
    | cons r' rest =>
      rw [hrows] at hmem hkeys
      obtain ⟨hr, hkr⟩ := hmem r List.mem_cons_self
      obtain ⟨hr', hkr'⟩ := hmem r' (List.mem_cons_of_mem _ List.mem_cons_self)
      have heq := hu r.1 r'.1 r.2 r'.2 hr hr' (hkr.trans hkr'.symm)
      have hlt : r.1 < r'.1 := by
        rw [List.map_cons, List.pairwise_cons] at hkeys
        exact hkeys.1 r'.1 (List.mem_map_of_mem List.mem_cons_self)
      omega

/-- A decision is written for a line that has none. -/
theorem uniqueOn_writeDecision (hu : db.domain.decisions.UniqueOn decisionKey) (runId : String)
    (candidateScanId lineId : Nat) (relation : Option SourceRelation) (reason : String) :
    (writeDecision db runId candidateScanId lineId relation
      reason).domain.decisions.UniqueOn decisionKey := by
  unfold writeDecision
  split
  · exact hu
  · rename_i hnone
    refine hu.insert fun k b hk hkey => ?_
    refine hnone (List.find?_isSome.2 ⟨(k, b), Keyed.get?_eq_some_iff.1 hk, ?_⟩)
    obtain ⟨hrun, hline⟩ := Prod.mk.inj hkey
    simp [hrun, hline]

/-- The decision of a line after a write. -/
theorem word_writeDecision (db : Db) (runId : String) (candidateScanId lineId : Nat)
    (relation : Option SourceRelation) (reason : String) (l : Nat) :
    (findDecision (writeDecision db runId candidateScanId lineId relation reason) runId l).map
      (fun d => d.2.inherited) =
    ((findDecision db runId l).map fun d => d.2.inherited).or
      (if lineId = l then some (decide (reason = "INHERITED")) else none) := by
  by_cases hl : lineId = l
  · subst hl
    rw [if_pos rfl]
    cases h : findDecision db runId lineId with
    | none =>
      obtain ⟨d, hd, hword⟩ :=
        findDecision_writeDecision_of_none candidateScanId relation reason h
      rw [hd, Option.map_some, hword]
      rfl
    | some d =>
      rw [writeDecision_of_some (by rw [h]; rfl), h]
      rfl
  · rw [findDecision_writeDecision_of_ne (Ne.symm hl), if_neg hl, Option.or_none]

/-- A line that is reached has a first word. -/
theorem isSome_firstWord (db : Db) {done : List Reached} {x : Reached} (hx : x ∈ done)
    (runId : String) :
    (firstWord db runId done x.lineId).isSome := by
  unfold firstWord
  rw [Option.isSome_or, Option.isSome_map, Option.isSome_map, Bool.or_eq_true]
  exact .inr (List.find?_isSome.2 ⟨x, hx, by simp⟩)

/-- One more relation has a say about its line only, and only when the line has no word yet. -/
theorem firstWord_append (db : Db) (runId : String) (done : List Reached) (x : Reached) (l : Nat) :
    firstWord db runId (done ++ [x]) l =
      (firstWord db runId done l).or (if x.lineId = l then some x.word else none) := by
  have hlast : (([x] : List Reached).find? fun y => y.lineId = l).map Reached.word =
      if x.lineId = l then some x.word else none := by
    by_cases hl : x.lineId = l
    · rw [List.find?_cons_of_pos (by simpa using hl), if_pos hl, Option.map_some]
    · rw [List.find?_cons_of_neg (by simpa using hl), if_neg hl, List.find?_nil, Option.map_none]
  unfold firstWord
  rw [List.find?_append, Option.map_or, hlast, Option.or_assoc]

/-- Behind a relation that reaches the line the word stands. -/
theorem firstWord_append_of_mem (db : Db) (runId : String) {done : List Reached} {y : Reached}
    (hy : y ∈ done) (x : Reached) :
    firstWord db runId (done ++ [x]) y.lineId = firstWord db runId done y.lineId := by
  rw [firstWord_append, Option.or_of_isSome (isSome_firstWord db hy runId)]

/-- The first accepted relation that reaches the line. -/
def firstAccepted (done : List Reached) (lineId : Nat) : Option Reached :=
  done.find? fun x => x.lineId = lineId ∧ x.accepted = true

theorem isSome_firstAccepted {done : List Reached} {y : Reached} (hy : y ∈ done)
    (hacc : y.accepted = true) : (firstAccepted done y.lineId).isSome :=
  List.find?_isSome.2 ⟨y, hy, decide_eq_true ⟨rfl, hacc⟩⟩

theorem mem_of_firstAccepted {done : List Reached} {l : Nat} {y : Reached} (h : firstAccepted done l = some y) :
    y ∈ done ∧ y.lineId = l ∧ y.accepted = true := by
  have hy := List.find?_some h
  rw [decide_eq_true_eq] at hy
  exact ⟨List.mem_of_find?_eq_some h, hy⟩

theorem firstAccepted_append (done xs : List Reached) (l : Nat) :
    firstAccepted (done ++ xs) l = (firstAccepted done l).or (firstAccepted xs l) :=
  List.find?_append

/-! ## What a part of a run has done -/

/-- The relation of the predecessor a relation that reaches a line is inherited from. -/
def Reached.triple (ctx : RunContext) (x : Reached) : SourceTriple :=
  ⟨some ctx.predecessorScanId, some x.relation.link.lineId, some x.relation.id⟩

/-- The database after the relations `done` of a run that started from `db`. -/
structure Treated (ctx : RunContext) (db : Db) (done : List Reached) (d : Db) : Prop where
  /-- A line has one decision. -/
  unique : d.domain.decisions.UniqueOn decisionKey
  /-- It is the first word about the line. -/
  decision : ∀ l, (findDecision d ctx.runId l).map (fun q => q.2.inherited) =
    firstWord db ctx.runId done l
  /-- Accepted relations are inherited. -/
  linked : ∀ x ∈ done, x.accepted = true →
    (d.activeLink ctx.candidateScanId x.lineId).isSome
  /-- Nothing else is. -/
  source : ∀ l q, d.activeLink ctx.candidateScanId l = some q →
    ∃ x ∈ done, x.lineId = l ∧ x.accepted = true ∧ q.2.relationOrigin = .inheritance ∧
      q.2.source = x.triple ctx
  /-- Behind an INHERITED first word the first accepted relation stays. -/
  first : ∀ l q, firstWord db ctx.runId done l = some true →
    d.activeLink ctx.candidateScanId l = some q →
    ∃ x, firstAccepted done l = some x ∧ q.2.source = x.triple ctx

/-- At the start of a run on a Candidate without relations. -/
theorem Treated.start (hu : db.domain.decisions.UniqueOn decisionKey)
    (hfree : ∀ k q, db.domain.links.get? k = some q → q.scanId ≠ ctx.candidateScanId) :
    Treated ctx db [] db := by
  constructor
  case unique => exact hu
  case decision => exact fun l => (Option.or_none).symm
  case linked => exact fun x hx => absurd hx List.not_mem_nil
  case source =>
    intro l q hq
    obtain ⟨hk, hs, _⟩ := activeLink_some hq
    exact absurd hs (hfree _ _ hk)
  case first =>
    intro l q _ hq
    obtain ⟨hk, hs, _⟩ := activeLink_some hq
    exact absurd hs (hfree _ _ hk)

theorem activeLink_congr {d : Db} (h : d.domain.links = db.domain.links) (scanId lineId : Nat) :
    d.activeLink scanId lineId = db.activeLink scanId lineId := by
  unfold Db.activeLink
  rw [h]

/-- The line has the written relation. -/
theorem Inherits.activeLink_self {r : SourceRelation} {lineId : Nat} {line : LineRow}
    {i : Inheritance} (hi : Inherits ctx db r lineId line i)
    (hl : LinksOk (i.after db ctx.candidateScanId)) :
    ∃ q, (i.after db ctx.candidateScanId).activeLink ctx.candidateScanId lineId = some q ∧
      q.2.relationOrigin = .inheritance ∧ q.2.source =
        ⟨some ctx.predecessorScanId, some r.link.lineId, some r.id⟩ := by
  obtain ⟨blockId, groupId, hitem⟩ := hi.item
  obtain ⟨k, rev, hfind⟩ := findLink_writeLink db.domain.links ctx.candidateScanId i.item
  obtain ⟨hk, _, _⟩ := findLink_some hfind
  have hactive := hl.activeLink_eq hk rfl
  have hline : i.item.lineId = lineId := by rw [hitem]; rfl
  refine ⟨_, by rw [← hline]; exact hactive, ?_, ?_⟩
  · change i.item.relationOrigin = .inheritance
    rw [hitem]
    rfl
  · change i.item.source = _
    rw [hitem]
    rfl

/-- The other lines have the relations they had. -/
theorem Inherits.activeLink_of_ne {r : SourceRelation} {lineId : Nat} {line : LineRow}
    {i : Inheritance} (hi : Inherits ctx db r lineId line i) {l : Nat} (hne : l ≠ lineId) :
    (i.after db ctx.candidateScanId).activeLink ctx.candidateScanId l =
      db.activeLink ctx.candidateScanId l := by
  obtain ⟨blockId, groupId, hitem⟩ := hi.item
  have hline : i.item.lineId = lineId := by rw [hitem]; rfl
  refine find?_writeLink_of_ne fun q hq hsame => hne ?_
  rw [decide_eq_true_eq] at hq
  exact hq.2.1.symm.trans (hsame.2.trans hline)

/-- A relation that stays is the first accepted one still. -/
theorem Treated.first_append {done : List Reached} {d : Db} (ht : Treated ctx db done d)
    (x : Reached) {l : Nat} {q : Nat × Link}
    (hword : firstWord db ctx.runId (done ++ [x]) l = some true)
    (hq : d.activeLink ctx.candidateScanId l = some q) :
    ∃ y, firstAccepted (done ++ [x]) l = some y ∧ q.2.source = y.triple ctx := by
  obtain ⟨y, hy, rfl, hacc, _⟩ := ht.source l q hq
  rw [firstWord_append_of_mem db ctx.runId hy] at hword
  rw [firstAccepted_append, Option.or_of_isSome (isSome_firstAccepted hy hacc)]
  exact ht.first y.lineId q hword hq

/-- A relation that is inherited although its line has the INHERITED word is the first accepted
one. -/
theorem Treated.first_of_open {done : List Reached} {d : Db} (ht : Treated ctx db done d)
    {x : Reached} (hacc : x.accepted = true)
    (hword : firstWord db ctx.runId (done ++ [x]) x.lineId = some true)
    (hopen : ¬ (((findDecision d ctx.runId x.lineId).any fun q => q.2.inherited) = true ∧
      (d.activeLink ctx.candidateScanId x.lineId).isSome)) :
    firstAccepted (done ++ [x]) x.lineId = some x := by
  have hnone : firstAccepted done x.lineId = none := by
    cases hy : firstAccepted done x.lineId with
    | none => rfl
    | some y =>
      obtain ⟨hmem, hline, hyacc⟩ := mem_of_firstAccepted hy
      have hlinked := ht.linked y hmem hyacc
      rw [← hline, firstWord_append_of_mem db ctx.runId hmem, ← ht.decision] at hword
      rw [← hline] at hopen
      obtain ⟨p, hp, hinherited⟩ := Option.map_eq_some_iff.1 hword
      exact absurd ⟨by rw [hp]; exact hinherited, hlinked⟩ hopen
  rw [firstAccepted_append, hnone, Option.none_or]
  exact List.find?_cons_of_pos (decide_eq_true ⟨rfl, hacc⟩)

/-- **One more relation.** -/
theorem Treated.persist {done : List Reached} {x : Reached} (ht : Treated ctx db done st.db)
    (hs : SameSource ctx db st) (hs' : SameSource ctx db st')
    (hok : persistReached ctx st x = .ok st') :
    Treated ctx db (done ++ [x]) st'.db ∧ st'.readSet = st.readSet := by
  obtain ⟨hread, _, hcases⟩ := persist_cases hs.caches hok
  refine ⟨?_, hread⟩
  let written := decided ctx x.source st.db x.relation x.lineId x.line x.newLineNumber
  -- the decision is written in every case
  have hunique : written.domain.decisions.UniqueOn decisionKey :=
    uniqueOn_writeDecision ht.unique _ _ _ _ _
  have hword : ∀ l, (findDecision written ctx.runId l).map (fun q => q.2.inherited) =
      firstWord db ctx.runId (done ++ [x]) l := by
    intro l
    rw [firstWord_append, ← ht.decision l]
    exact word_writeDecision st.db ctx.runId ctx.candidateScanId x.lineId (some x.relation) _ l
  have hlink : ∀ l, written.activeLink ctx.candidateScanId l =
      st.db.activeLink ctx.candidateScanId l :=
    fun l => activeLink_congr links_writeDecision _ l
  have hold : ∀ l q, st.db.activeLink ctx.candidateScanId l = some q →
      ∃ y ∈ done ++ [x], y.lineId = l ∧ y.accepted = true ∧ q.2.relationOrigin = .inheritance ∧
        q.2.source = y.triple ctx := by
    intro l q hq
    obtain ⟨y, hy, hrest⟩ := ht.source l q hq
    exact ⟨y, List.mem_append_left _ hy, hrest⟩
  rcases hcases with ⟨hrefused, hdb⟩ | ⟨_, _, hactive, hdb⟩ | ⟨hcmp, hopen, i, hi, hdb⟩
  · have hdb' : st'.db = written := hdb
    rw [hdb']
    refine ⟨hunique, hword, ?_, fun l q hq => hold l q ((hlink l).symm.trans hq),
      fun l q hl hq => ht.first_append x hl ((hlink l).symm.trans hq)⟩
    intro y hy hacc
    rw [hlink]
    rcases List.mem_append.1 hy with hy | hy
    · exact ht.linked y hy hacc
    · obtain rfl := List.mem_singleton.1 hy
      exact absurd (Option.isNone_iff_eq_none.1 hacc) hrefused
  · have hdb' : st'.db = written := hdb
    rw [hdb']
    refine ⟨hunique, hword, ?_, fun l q hq => hold l q ((hlink l).symm.trans hq),
      fun l q hl hq => ht.first_append x hl ((hlink l).symm.trans hq)⟩
    intro y hy hacc
    rcases List.mem_append.1 hy with hy | hy
    · rw [hlink]
      exact ht.linked y hy hacc
    · obtain rfl := List.mem_singleton.1 hy
      exact hactive
  · have hdb' : st'.db = i.after written ctx.candidateScanId := hdb
    have hlinks := hs'.links
    rw [hdb'] at hlinks ⊢
    obtain ⟨q₀, hq₀, horigin, hsource⟩ := hi.activeLink_self hlinks
    have haccepted : x.accepted = true := Option.isNone_iff_eq_none.2 hcmp
    refine ⟨hunique, hword, ?_, ?_, ?_⟩
    · intro y hy hacc
      by_cases hyx : y.lineId = x.lineId
      · rw [hyx, hq₀]
        rfl
      · rw [hi.activeLink_of_ne hyx, hlink]
        rcases List.mem_append.1 hy with hy | hy
        · exact ht.linked y hy hacc
        · exact absurd (congrArg Reached.lineId (List.mem_singleton.1 hy)) hyx
    · intro l q hq
      by_cases hl : l = x.lineId
      · subst hl
        obtain rfl := Option.some.inj (hq₀.symm.trans hq)
        exact ⟨x, List.mem_append_right _ (List.mem_singleton_self x), rfl, haccepted, horigin,
          hsource⟩
      · rw [hi.activeLink_of_ne hl, hlink] at hq
        exact hold l q hq
    · intro l q hl hq
      by_cases hlx : l = x.lineId
      · subst hlx
        obtain rfl := Option.some.inj (hq₀.symm.trans hq)
        refine ⟨x, ht.first_of_open haccepted hl ?_, hsource⟩
        rwa [← hlink]
      · rw [hi.activeLink_of_ne hlx, hlink] at hq
        exact ht.first_append x hl hq

/-! ## The files -/

/-- The relations of one file. -/
theorem Treated.foldl (hne : ctx.predecessorScanId ≠ ctx.candidateScanId)
    {done xs : List Reached} (ht : Treated ctx db done st.db) (hs : SameSource ctx db st)
    (hok : xs.foldlM (persistReached ctx) st = .ok st') :
    Treated ctx db (done ++ xs) st'.db ∧ st'.readSet = st.readSet ∧ SameSource ctx db st' := by
  induction xs generalizing st done with
  | nil =>
    obtain rfl := pure_eq_ok.1 hok
    exact ⟨by rwa [List.append_nil], rfl, hs⟩
  | cons x xs ih =>
    rw [List.foldlM_cons, bind_eq_ok] at hok
    obtain ⟨s, hx, hok⟩ := hok
    have hs₁ : SameSource ctx db s := hs.persist hne hx
    obtain ⟨ht₁, hread₁⟩ := ht.persist hs hs₁ hx
    obtain ⟨ht₂, hread₂, hs₂⟩ := ih ht₁ hs₁ hok
    refine ⟨?_, hread₂.trans hread₁, hs₂⟩
    rwa [List.append_assoc] at ht₂

/-- **All files.**  Their versions could be read, and the read set is what they were read for. -/
theorem Treated.files (hne : ctx.predecessorScanId ≠ ctx.candidateScanId) {done : List Reached}
    {files : List (Nat × FileRow)} (ht : Treated ctx db done st.db) (hs : SameSource ctx db st)
    (hok : files.foldlM (runFile ctx) st = .ok st') :
    Treated ctx db (done ++ files.flatMap (fileReached ctx db)) st'.db ∧ SameSource ctx db st' ∧
      st'.readSet = files.foldl (fileReads ctx db) st.readSet ∧
      ∀ file ∈ files, ∃ o, fileSource ctx db file = .ok o := by
  induction files generalizing st done with
  | nil =>
    obtain rfl := pure_eq_ok.1 hok
    exact ⟨by rwa [List.flatMap_nil, List.append_nil], hs, rfl,
      fun _ h => absurd h List.not_mem_nil⟩
  | cons file files ih =>
    rw [List.foldlM_cons, bind_eq_ok] at hok
    obtain ⟨s, hfile, hok⟩ := hok
    rw [runFile_eq hne hs, bind_eq_ok] at hfile
    obtain ⟨o, ho, hfile⟩ := hfile
    let start : RunState := { st with readSet := fileReads ctx db st.readSet file }
    have ht₀ : Treated ctx db done start.db := ht
    obtain ⟨ht₁, hread₁, hs₁⟩ := ht₀.foldl hne (hs.read _) hfile
    obtain ⟨ht₂, hs₂, hread₂, hsources⟩ := ih ht₁ hs₁ hok
    refine ⟨?_, hs₂, ?_, ?_⟩
    · rwa [List.append_assoc, ← List.flatMap_cons] at ht₂
    · rw [hread₂, hread₁]
      rfl
    · intro f hf
      rcases List.mem_cons.1 hf with rfl | hf
      · exact ⟨o, ho⟩
      · exact hsources f hf

/-! ## A run with nothing to do -/

/-- The line has its decision, and its relation when the relation is accepted. -/
def Settled (ctx : RunContext) (d : Db) (x : Reached) : Prop :=
  (findDecision d ctx.runId x.lineId).isSome ∧ (x.accepted = true →
    ((findDecision d ctx.runId x.lineId).any fun q => q.2.inherited) = true ∧
      (d.activeLink ctx.candidateScanId x.lineId).isSome)

theorem persistReached_of_settled {x : Reached} (h : Settled ctx st.db x) :
    persistReached ctx st x = .ok st := by
  unfold persistReached persistRelationDecision
  dsimp only
  rw [writeDecision_of_some h.1]
  split
  · rfl
  · rename_i hcmp
    obtain ⟨hword, hlink⟩ := h.2 (Option.isNone_iff_eq_none.2 hcmp)
    rw [if_pos ⟨hword, hlink⟩]
    rfl

theorem foldl_of_settled {xs : List Reached} (h : ∀ x ∈ xs, Settled ctx st.db x) :
    xs.foldlM (persistReached ctx) st = .ok st := by
  induction xs with
  | nil => rfl
  | cons x xs ih =>
    rw [List.foldlM_cons, persistReached_of_settled (h x List.mem_cons_self)]
    exact ih fun y hy => h y (List.mem_cons_of_mem _ hy)

/-- **When every line is settled the files are only read.** -/
theorem files_of_settled (hne : ctx.predecessorScanId ≠ ctx.candidateScanId)
    {files : List (Nat × FileRow)} (hs : SameSource ctx db st)
    (hsource : ∀ file ∈ files, ∃ o, fileSource ctx db file = .ok o)
    (h : ∀ x ∈ files.flatMap (fileReached ctx db), Settled ctx st.db x) :
    files.foldlM (runFile ctx) st =
      .ok { st with readSet := files.foldl (fileReads ctx db) st.readSet } := by
  induction files generalizing st with
  | nil => rfl
  | cons file files ih =>
    obtain ⟨o, ho⟩ := hsource file List.mem_cons_self
    have hfile : runFile ctx st file =
        .ok { st with readSet := fileReads ctx db st.readSet file } := by
      let start : RunState := { st with readSet := fileReads ctx db st.readSet file }
      have hall : ∀ x ∈ fileReached ctx db file, Settled ctx start.db x :=
        fun x hx => h x (List.mem_flatMap.2 ⟨file, List.mem_cons_self, hx⟩)
      rw [runFile_eq hne hs, ho]
      exact foldl_of_settled hall
    rw [List.foldlM_cons, hfile]
    refine ih (hs.read _) (fun f hf => hsource f (List.mem_cons_of_mem _ hf)) fun x hx => h x ?_
    rw [List.flatMap_cons]
    exact List.mem_append_right _ hx

/-! ## The last loop -/

section Remaining

variable {d : Db} {runId : String} {candidateScanId : Nat} {reason : FileRow → String}

theorem decideRemaining_eq_foldl : decideRemaining d runId candidateScanId reason =
    (candidateLines d candidateScanId).foldl (decideLine runId candidateScanId reason) d := rfl

/-- The last loop writes decisions only. -/
theorem decideRemaining_frame :
    ∃ t, decideRemaining d runId candidateScanId reason = { d with domain.decisions := t } := by
  have hdecision : DecisionInv d.facts fun d' => ∃ t, d' = { d with domain.decisions := t } := by
    rintro d' rows _ ⟨t, rfl⟩
    exact ⟨_, rfl⟩
  exact (decideRemaining_inv hdecision rfl ⟨_, rfl⟩).2

theorem word_decideLine {l : Nat × LineRow × FileRow} (hreason : reason l.2.2 ≠ "INHERITED")
    (k : Nat) :
    (findDecision (decideLine runId candidateScanId reason d l) runId k).map
      (fun q => q.2.inherited) = some true ↔
    (findDecision d runId k).map (fun q => q.2.inherited) = some true := by
  unfold decideLine
  split
  · rw [word_writeDecision]
    cases findDecision d runId k with
    | some q => simp
    | none => simp [hreason]
  · exact Iff.rfl

/-- The last loop inherits nothing. -/
theorem word_decideRemaining (hreason : ∀ f, reason f ≠ "INHERITED") (k : Nat) :
    (findDecision (decideRemaining d runId candidateScanId reason) runId k).map
      (fun q => q.2.inherited) = some true ↔
    (findDecision d runId k).map (fun q => q.2.inherited) = some true := by
  rw [decideRemaining_eq_foldl]
  generalize candidateLines d candidateScanId = lines
  induction lines generalizing d with
  | nil => exact Iff.rfl
  | cons l lines ih => exact ih.trans (word_decideLine (hreason l.2.2) k)

theorem uniqueOn_decideRemaining (hu : d.domain.decisions.UniqueOn decisionKey) :
    (decideRemaining d runId candidateScanId reason).domain.decisions.UniqueOn decisionKey := by
  rw [decideRemaining_eq_foldl]
  generalize candidateLines d candidateScanId = lines
  induction lines generalizing d with
  | nil => exact hu
  | cons l lines ih =>
    refine ih ?_
    unfold decideLine
    split
    · exact uniqueOn_writeDecision hu _ _ _ _ _
    · exact hu

theorem findDecision_foldl_of_some {lines : List (Nat × LineRow × FileRow)} {k : Nat}
    (h : (findDecision d runId k).isSome) :
    (findDecision (lines.foldl (decideLine runId candidateScanId reason) d) runId k).isSome := by
  induction lines generalizing d with
  | nil => exact h
  | cons l lines ih =>
    refine ih ?_
    rw [findDecision_decideLine_of_some h]
    exact h

/-- The rows paged through are the lines of the scan. -/
theorem exists_mem_candidateLines {l : Nat} {line : LineRow}
    (h : lineOfScan d candidateScanId l = some line) :
    ∃ f, (l, line, f) ∈ candidateLines d candidateScanId := by
  obtain ⟨hline, f, hf, hs⟩ := AnalysisService.lineOfScan_eq_some.1 h
  refine ⟨f, List.mem_filterMap.2 ⟨(l, line), Keyed.get?_eq_some_iff.1 hline, ?_⟩⟩
  simp only [hf, hs, if_true]

theorem lineOfScan_of_mem {l : Nat × LineRow × FileRow} (h : l ∈ candidateLines d candidateScanId) :
    lineOfScan d candidateScanId l.1 = some l.2.1 := by
  obtain ⟨q, hq, hl⟩ := List.mem_filterMap.1 h
  split at hl
  · rename_i f hf
    split at hl
    · rename_i hs
      obtain rfl := Option.some.inj hl
      exact AnalysisService.lineOfScan_eq_some.2 ⟨Keyed.get?_eq_some_iff.2 hq, f, hf, hs⟩
    · cases hl
  · cases hl

/-- **Every uncovered line is decided.** -/
theorem isSome_decideRemaining {l : Nat} {line : LineRow}
    (h : lineOfScan d candidateScanId l = some line)
    (hu : isUncovered line.facts.coverageState = true) :
    (findDecision (decideRemaining d runId candidateScanId reason) runId l).isSome := by
  obtain ⟨f, hmem⟩ := exists_mem_candidateLines h
  rw [decideRemaining_eq_foldl]
  generalize candidateLines d candidateScanId = lines at hmem
  clear h
  induction lines generalizing d with
  | nil => exact absurd hmem List.not_mem_nil
  | cons x lines ih =>
    rw [List.foldl_cons]
    rcases List.mem_cons.1 hmem with rfl | hmem
    · refine findDecision_foldl_of_some ?_
      unfold decideLine
      rw [if_pos hu]
      exact isSome_findDecision_writeDecision
    · exact ih hmem

/-- When every uncovered line is decided there is nothing left. -/
theorem decideRemaining_of_decided
    (h : ∀ l line, lineOfScan d candidateScanId l = some line →
      isUncovered line.facts.coverageState = true → (findDecision d runId l).isSome) :
    decideRemaining d runId candidateScanId reason = d := by
  rw [decideRemaining_eq_foldl]
  have hall : ∀ l ∈ candidateLines d candidateScanId,
      decideLine runId candidateScanId reason d l = d := by
    intro l hl
    unfold decideLine
    split
    · rename_i hu
      exact writeDecision_of_some (h l.1 l.2.1 (lineOfScan_of_mem hl) hu)
    · rfl
  generalize candidateLines d candidateScanId = lines at hall
  induction lines with
  | nil => rfl
  | cons l lines ih =>
    rw [List.foldl_cons, hall l List.mem_cons_self]
    exact ih fun l' hl' => hall l' (List.mem_cons_of_mem _ hl')

end Remaining

/-- No reason of the last loop is INHERITED. -/
theorem lineReason_ne {env : Env} {candidateScanId : Nat} {resolution : Resolution}
    (h : PredecessorResolver.resolve env db candidateScanId = .ok resolution) (file : FileRow) :
    lineReason resolution.repositories file ≠ "INHERITED" := by
  have hcode : ∀ c p, PredecessorResolver.reasonCode c p ≠ "INHERITED" := by
    intro c p
    unfold PredecessorResolver.reasonCode
    split
    · decide
    · split
      · decide
      · split
        · decide
        · decide
  have hall : ∀ q ∈ resolution.repositories, q.2 ≠ "INHERITED" := by
    simp only [PredecessorResolver.resolve, bind_eq_ok, orFail_eq_ok] at h
    obtain ⟨scan, _, h⟩ := h
    split at h
    · obtain rfl := pure_eq_ok.1 h
      exact fun q hq => absurd hq List.not_mem_nil
    · split at h
      · obtain rfl := pure_eq_ok.1 h
        exact fun q hq => absurd hq List.not_mem_nil
      · split at h
        · obtain rfl := pure_eq_ok.1 h
          exact fun q hq => absurd hq List.not_mem_nil
        · obtain rfl := pure_eq_ok.1 h
          intro q hq
          obtain ⟨c, _, rfl⟩ := List.mem_map.1 hq
          exact hcode _ _
  unfold lineReason
  split
  · decide
  · rename_i reason hlookup
    exact hall _ (mem_of_lookup hlookup)
  · decide

/-! ## What a run leaves behind -/

/-- The database after a run on `db` whose relations were `done`. -/
structure Finished (ctx : RunContext) (db : Db) (done : List Reached) (db' : Db) : Prop where
  /-- The facts are untouched. -/
  facts : db'.facts = db.facts
  /-- A line has one decision. -/
  unique : db'.domain.decisions.UniqueOn decisionKey
  /-- An uncovered line has one. -/
  decided : ∀ l line, lineOfScan db ctx.candidateScanId l = some line →
    isUncovered line.facts.coverageState = true → (findDecision db' ctx.runId l).isSome
  /-- It is INHERITED when the first word about the line is. -/
  inherited : ∀ l, (findDecision db' ctx.runId l).map (fun q => q.2.inherited) = some true ↔
    firstWord db ctx.runId done l = some true
  /-- The line a relation reaches has a decision. -/
  reached : ∀ x ∈ done, (findDecision db' ctx.runId x.lineId).isSome
  /-- Accepted relations are inherited. -/
  linked : ∀ x ∈ done, x.accepted = true → (db'.activeLink ctx.candidateScanId x.lineId).isSome
  /-- Nothing else is. -/
  source : ∀ l q, db'.activeLink ctx.candidateScanId l = some q →
    ∃ x ∈ done, x.lineId = l ∧ x.accepted = true ∧ q.2.relationOrigin = .inheritance ∧
      q.2.source = x.triple ctx
  /-- Behind an INHERITED first word it is the first accepted one. -/
  first : ∀ l q, firstWord db ctx.runId done l = some true →
    db'.activeLink ctx.candidateScanId l = some q →
    ∃ x, firstAccepted done l = some x ∧ q.2.source = x.triple ctx

theorem lineOfScan_congr {d : Db} (h : d.facts = db.facts) (scanId lineId : Nat) :
    lineOfScan d scanId lineId = lineOfScan db scanId lineId := by
  unfold lineOfScan
  rw [h]

/-- **The last loop completes a run.** -/
theorem Treated.finish {done : List Reached} {d : Db} {reason : FileRow → String}
    (ht : Treated ctx db done d) (hf : d.facts = db.facts)
    (hreason : ∀ f, reason f ≠ "INHERITED") :
    Finished ctx db done (decideRemaining d ctx.runId ctx.candidateScanId reason) := by
  obtain ⟨t, hframe⟩ := @decideRemaining_frame d ctx.runId ctx.candidateScanId reason
  have hlinks : (decideRemaining d ctx.runId ctx.candidateScanId reason).domain.links =
      d.domain.links := by rw [hframe]
  constructor
  case facts => rw [hframe, ← hf]
  case unique => exact uniqueOn_decideRemaining ht.unique
  case decided =>
    intro l line hl hu
    exact isSome_decideRemaining ((lineOfScan_congr hf _ _).trans hl) hu
  case inherited =>
    intro l
    rw [← ht.decision l]
    exact word_decideRemaining hreason l
  case reached =>
    intro x hx
    rw [decideRemaining_eq_foldl]
    refine findDecision_foldl_of_some ?_
    have hsome := isSome_firstWord db hx ctx.runId
    rwa [← ht.decision, Option.isSome_map] at hsome
  case linked =>
    intro x hx hacc
    rw [activeLink_congr hlinks]
    exact ht.linked x hx hacc
  case source =>
    intro l q hq
    rw [activeLink_congr hlinks] at hq
    exact ht.source l q hq
  case first =>
    intro l q hl hq
    rw [activeLink_congr hlinks] at hq
    exact ht.first l q hl hq

/-- Nothing is left for the last loop. -/
theorem Finished.decideRemaining_eq {done : List Reached} {db' : Db} {reason : FileRow → String}
    (h : Finished ctx db done db') :
    decideRemaining db' ctx.runId ctx.candidateScanId reason = db' := by
  refine decideRemaining_of_decided fun l line hline => h.decided l line ?_
  rwa [lineOfScan_congr h.facts] at hline

/-- A new run on a database that differs in its decisions reads the same of the predecessor. -/
theorem SameSource.frame (h : SameSource ctx db st) {d : Db} {t : Table Decision}
    (hd : d = { st.db with domain.decisions := t }) : SameSource ctx db (RunState.start d) := by
  constructor
  case caches =>
    exact ⟨fun _ _ h => absurd h List.not_mem_nil, fun _ _ h => absurd h List.not_mem_nil⟩
  all_goals subst hd
  case facts => exact h.facts
  case links => exact h.links.congr rfl rfl rfl rfl
  case select => exact h.select
  case relations => exact h.relations

/-! ## The runs on a database -/

/-- The run id is that of the two scans. -/
theorem runIdOf_eq (env : Env) {candidateScanId : Nat} {resolution : Resolution}
    (h : PredecessorResolver.resolve env db candidateScanId = .ok resolution) :
    runIdOf env db candidateScanId =
      env.decisionRunId candidateScanId resolution.predecessorScanId := by
  unfold runIdOf
  simp only [PredecessorResolver.resolve, bind_eq_ok, orFail_eq_ok] at h
  obtain ⟨scan, hscan, h⟩ := h
  rw [hscan, Option.bind_some]
  split at h
  · rename_i hp
    obtain rfl := pure_eq_ok.1 h
    rw [hp]
  · rename_i p hp
    rw [hp]
    split at h
    · obtain rfl := pure_eq_ok.1 h
      rfl
    · split at h
      · obtain rfl := pure_eq_ok.1 h
        rfl
      · obtain rfl := pure_eq_ok.1 h
        rfl

/-- A relation that reaches a line comes from a file that is not skipped. -/
theorem mem_fileReached {file : Nat × FileRow} {x : Reached} (h : x ∈ fileReached ctx db file) :
    ∃ target first source r n l, eligible ctx.repositories file.2 = true ∧
      candidateFile ctx.env db ctx.candidateScanId file.2.repositoryName file.2.filePath = some target ∧
      (fileRelations db ctx.predecessorScanId file.1).head? = some first ∧
      snapshotForRelation ctx db first = .ok (.ok source) ∧
      r ∈ fileRelations db ctx.predecessorScanId file.1 ∧
      source.mapping.get r.line.facts.lineNumber = some n ∧
      LineIndexRepository.getLine db target.1 n = some l ∧ x = ⟨source, r, l.1, l.2, n⟩ := by
  unfold fileReached fileSource at h
  by_cases he : eligible ctx.repositories file.2 = true
  · simp only [he, Bool.not_true, Bool.false_eq_true, if_false] at h
    cases htarget : candidateFile ctx.env db ctx.candidateScanId file.2.repositoryName
        file.2.filePath with
    | none =>
      rw [htarget] at h
      exact absurd h List.not_mem_nil
    | some target =>
      simp only [htarget] at h
      cases hhead : (fileRelations db ctx.predecessorScanId file.1).head? with
      | none =>
        rw [hhead] at h
        exact absurd h List.not_mem_nil
      | some first =>
        simp only [hhead] at h
        cases hsnap : snapshotForRelation ctx db first with
        | error e =>
          rw [hsnap] at h
          exact absurd h List.not_mem_nil
        | ok snapshot =>
          rw [hsnap] at h
          cases snapshot with
          | error reason => exact absurd h List.not_mem_nil
          | ok source =>
            obtain ⟨r, hr, hx⟩ := List.mem_filterMap.1 h
            simp only [reach, Option.bind_eq_bind, Option.bind_eq_some_iff, Option.pure_def,
              Option.some.injEq] at hx
            obtain ⟨n, hn, l, hl, hx⟩ := hx
            exact ⟨target, first, source, r, n, l, he, rfl, rfl, hsnap, hr, hn, hl, hx.symm⟩
  · simp only [he, Bool.not_false, if_true] at h
    exact absurd h List.not_mem_nil

/-- An accepted one is mapped. -/
theorem mapped_of_fileReached {file : Nat × FileRow} {x : Reached}
    (hfile : db.facts.files.get? file.1 = some file.2) (h : x ∈ fileReached ctx db file)
    (hacc : x.accepted = true) :
    Mapped ctx db x.relation x.lineId x.line := by
  obtain ⟨target, first, source, r, n, l, he, htarget, hhead, hsnap, hr, hn, hl, rfl⟩ :=
    mem_fileReached h
  exact ⟨file.1, file.2, target, first, source, n, hfile, he, htarget, hr, hhead, hsnap, hn, hl,
    Option.isNone_iff_eq_none.1 hacc⟩

/-- The line is one of the Candidate. -/
theorem lineOfScan_of_fileReached {file : Nat × FileRow} {x : Reached}
    (h : x ∈ fileReached ctx db file) :
    lineOfScan db ctx.candidateScanId x.lineId = some x.line := by
  obtain ⟨target, first, source, r, n, l, _, htarget, _, _, _, _, hl, rfl⟩ := mem_fileReached h
  have hfile := List.find?_some hl
  have hscan := List.find?_some htarget
  rw [decide_eq_true_eq] at hfile hscan
  refine AnalysisService.lineOfScan_eq_some.2
    ⟨Keyed.get?_eq_some_iff.2 (List.mem_of_find?_eq_some hl), target.2, ?_, hscan.1⟩
  rw [hfile.1]
  exact Keyed.get?_eq_some_iff.2 (List.mem_of_find?_eq_some htarget)

section Run

variable {env : Env} {db db' : Db} {candidateScanId : Nat} {paths : List (String × String)}
  {readSet : Option ReadSet}

/-- The resolution depends on the facts. -/
theorem resolve_congr {d : Db} (h : d.facts = db.facts) (scanId : Nat) :
    PredecessorResolver.resolve env d scanId = PredecessorResolver.resolve env db scanId := by
  unfold PredecessorResolver.resolve PredecessorResolver.repositorySnapshot
    ProjectRepository.listRepositorySnapshots ProjectRepository.getScan
  rw [h]

/-- **What a run does**, and what it takes for a second one to do nothing. -/
theorem run_finished (hl : LinksOk db) (hh : HistoryOk db)
    (hu : db.domain.decisions.UniqueOn decisionKey)
    (hfree : ∀ k q, db.domain.links.get? k = some q → q.scanId ≠ candidateScanId)
    (h : run env db candidateScanId paths = .ok (db', readSet)) :
    ∃ ctx : RunContext, ctx.candidateScanId = candidateScanId ∧
      ctx.runId = runIdOf env db candidateScanId ∧
      Finished ctx db (reached env db candidateScanId paths) db' ∧
      (∀ x ∈ reached env db candidateScanId paths,
        lineOfScan db candidateScanId x.lineId = some x.line ∧
        (x.accepted = true → RunContext.Of env db candidateScanId paths ctx ∧
          Mapped ctx db x.relation x.lineId x.line)) ∧
      ((∀ x ∈ reached env db candidateScanId paths, Settled ctx db' x) →
        run env db' candidateScanId paths = .ok (db', readSet)) := by
  simp only [run, bind_eq_ok] at h
  obtain ⟨resolution, hresolve, h⟩ := h
  have hid := runIdOf_eq env hresolve
  have hreasons := lineReason_ne hresolve
  obtain ⟨predecessor, repositories⟩ := resolution
  cases predecessor with
  | none =>
    have hreached : reached env db candidateScanId paths = [] := by
      unfold reached
      rw [hresolve]
    simp only [pure_eq_ok, Prod.mk.injEq] at h
    obtain ⟨hd, rfl⟩ := h
    let ctx : RunContext := ⟨env, env.decisionRunId candidateScanId none, candidateScanId, 0, [],
      paths⟩
    have hfin : Finished ctx db [] db' := by
      rw [← hd]
      exact (Treated.start hu hfree).finish rfl fun _ => by decide
    rw [hreached]
    refine ⟨ctx, rfl, hid.symm, hfin, fun x hx => absurd hx List.not_mem_nil, fun _ => ?_⟩
    simp only [run, resolve_congr hfin.facts, hresolve, ok_bind]
    exact congrArg (fun d => Except.ok (d, none)) hfin.decideRemaining_eq
  | some predecessor =>
    let ctx := contextOf env candidateScanId predecessor repositories paths
    let files := relationFiles db predecessor
    have hreached : reached env db candidateScanId paths =
        files.flatMap (fileReached ctx db) := by
      unfold reached
      rw [hresolve]
    simp only [bind_eq_ok, pure_eq_ok, Prod.mk.injEq] at h
    obtain ⟨st, hfold, hd, rfl⟩ := h
    have hof : RunContext.Of env db candidateScanId paths ctx :=
      ⟨_, predecessor, hresolve, rfl, rfl⟩
    have hne : ctx.predecessorScanId ≠ ctx.candidateScanId := hof.predecessor_ne hh
    have h₀ : Treated ctx db [] (RunState.start db).db := Treated.start hu hfree
    obtain ⟨ht, hs, hread, hsources⟩ := h₀.files hne (SameSource.start hl) hfold
    rw [List.nil_append] at ht
    have hfin : Finished ctx db (files.flatMap (fileReached ctx db)) db' := by
      rw [← hd]
      exact ht.finish hs.facts hreasons
    rw [hreached]
    refine ⟨ctx, rfl, hid.symm, hfin, ?_, fun hsettled => ?_⟩
    · intro x hx
      obtain ⟨file, hfile, hx⟩ := List.mem_flatMap.1 hx
      have hget := Keyed.get?_eq_some_iff.2 (Keyed.mem_select.1 hfile).1
      exact ⟨lineOfScan_of_fileReached hx, fun hacc => ⟨hof, mapped_of_fileReached hget hx hacc⟩⟩
    · have hs' : SameSource ctx db (RunState.start db') := by
        obtain ⟨t, hframe⟩ := @decideRemaining_frame st.db ctx.runId candidateScanId
          (lineReason repositories)
        rw [← hd]
        exact hs.frame hframe
      have hfiles : relationFiles db' predecessor = files := hs'.relationFiles_eq
      have hagain := files_of_settled hne hs' hsources hsettled
      simp only [run, resolve_congr hfin.facts, hresolve, ok_bind, hfiles]
      change files.foldlM (runFile ctx) (RunState.start db') >>= _ = _
      rw [hagain, ok_bind]
      refine congrArg Except.ok (Prod.ext ?_ ?_)
      · exact hfin.decideRemaining_eq
      · rw [hread]
        rfl

end Run

/-! ## A complete run -/

/-- What a run on `db` should leave behind in `db'`. -/
structure CompleteRun (env : Env) (db db' : Db) (candidateScanId : Nat)
    (paths : List (String × String)) (readSet : Option ReadSet) : Prop where
  /-- Every uncovered line has exactly one decision of the run. -/
  decided : ∀ l line, lineOfScan db candidateScanId l = some line →
    isUncovered line.facts.coverageState = true →
    (decisionsOf db' (runIdOf env db candidateScanId) l).length = 1
  /-- A line has an INHERITED decision exactly when it has an inherited relation. -/
  linked : ∀ l line, lineOfScan db candidateScanId l = some line →
    ((∃ d ∈ decisionsOf db' (runIdOf env db candidateScanId) l, d.2.inherited = true) ↔
      ∃ q, db'.activeLink candidateScanId l = some q ∧ q.2.relationOrigin = .inheritance)
  /-- The relation is that of the line of the predecessor which is mapped to the line, a line of the
  same file. -/
  source : ∀ l q, db'.activeLink candidateScanId l = some q → q.2.relationOrigin = .inheritance →
    ∃ ctx r line, RunContext.Of env db candidateScanId paths ctx ∧ Mapped ctx db r l line ∧
      SameFile db r line ∧ q.2.source = ⟨some ctx.predecessorScanId, some r.link.lineId, some r.id⟩
  /-- A second run changes nothing. -/
  again : run env db' candidateScanId paths = .ok (db', readSet)
  /-- The size of the pages does not matter. -/
  pages : ∃ bound, ∀ batchSize fuel, bound < fuel →
    runBatched env db candidateScanId paths batchSize fuel = OptionT.lift (.ok (db', readSet))

/-- The first word about a line is INHERITED exactly when a relation that reaches the line is
accepted. -/
def Consistent (env : Env) (db : Db) (candidateScanId : Nat) (paths : List (String × String)) :
    Prop :=
  ∀ l line, lineOfScan db candidateScanId l = some line →
    (firstWord db (runIdOf env db candidateScanId) (reached env db candidateScanId paths) l =
        some true ↔
      ∃ x ∈ reached env db candidateScanId paths, x.lineId = l ∧ x.accepted = true)

/-- The first accepted relation that reaches a line is one of the same file. -/
def AtHome (env : Env) (db : Db) (candidateScanId : Nat) (paths : List (String × String)) : Prop :=
  ∀ l x, firstAccepted (reached env db candidateScanId paths) l = some x → SameFile db x.relation x.line

section Complete

variable {env : Env} {db db' : Db} {candidateScanId : Nat} {paths : List (String × String)}
  {readSet : Option ReadSet}

/-- An accepted relation would be recorded as such. -/
theorem Reached.word_of_accepted {x : Reached} (h : x.accepted = true) : x.word = true := by
  unfold Reached.word
  rw [Option.isNone_iff_eq_none.1 h]
  rfl

/-- The first run under a run id is consistent when no two relations reach one line and no refusal
is spelled INHERITED. -/
theorem consistent_of_fresh
    (hfresh : ∀ l, findDecision db (runIdOf env db candidateScanId) l = none)
    (hone : ((reached env db candidateScanId paths).map Reached.lineId).Nodup)
    (hrefused : ∀ x ∈ reached env db candidateScanId paths, x.word = true → x.accepted = true) :
    Consistent env db candidateScanId paths := by
  intro l line _
  unfold firstWord
  rw [hfresh l, Option.map_none, Option.none_or]
  constructor
  · intro h
    obtain ⟨x, hx, hword⟩ := Option.map_eq_some_iff.1 h
    have hmem := List.mem_of_find?_eq_some hx
    exact ⟨x, hmem, by simpa using List.find?_some hx, hrefused x hmem hword⟩
  · rintro ⟨x, hx, hline, hacc⟩
    cases hfind : (reached env db candidateScanId paths).find? fun y => y.lineId = l with
    | none => exact absurd (decide_eq_true hline) (List.find?_eq_none.1 hfind x hx)
    | some y =>
      have hy : y.lineId = l := by simpa using List.find?_some hfind
      obtain rfl : x = y := List.inj_on_of_nodup_map hone hx (List.mem_of_find?_eq_some hfind)
        (hline.trans hy.symm)
      rw [Option.map_some, Reached.word_of_accepted hacc]

/-- The INHERITED decisions of a finished run are the first words. -/
theorem Finished.inherited_iff {ctx : RunContext} {done : List Reached}
    (h : Finished ctx db done db') (l : Nat) :
    (∃ d ∈ decisionsOf db' ctx.runId l, d.2.inherited = true) ↔
      firstWord db ctx.runId done l = some true := by
  rw [← h.inherited l, decisionsOf_eq h.unique]
  simp [Option.map_eq_some_iff]

/-- The inherited relations of a finished run are those of accepted relations. -/
theorem Finished.linked_iff {ctx : RunContext} {done : List Reached}
    (h : Finished ctx db done db') (l : Nat) :
    (∃ q, db'.activeLink ctx.candidateScanId l = some q ∧
        q.2.relationOrigin = .inheritance) ↔
      ∃ x ∈ done, x.lineId = l ∧ x.accepted = true := by
  constructor
  · rintro ⟨q, hq, _⟩
    obtain ⟨x, hx, hline, hacc, _⟩ := h.source l q hq
    exact ⟨x, hx, hline, hacc⟩
  · rintro ⟨x, hx, rfl, hacc⟩
    obtain ⟨q, hq⟩ := Option.isSome_iff_exists.1 (h.linked x hx hacc)
    obtain ⟨_, _, _, _, horigin, _⟩ := h.source x.lineId q hq
    exact ⟨q, hq, horigin⟩

/-- **A run on a Candidate without relations is complete exactly when the first word about every
line is INHERITED just in case a relation that reaches it is accepted**, and the first accepted one
is of the same file. -/
theorem completeRun_iff (hl : LinksOk db) (hh : HistoryOk db)
    (hu : db.domain.decisions.UniqueOn decisionKey)
    (hfree : ∀ k q, db.domain.links.get? k = some q → q.scanId ≠ candidateScanId)
    (h : run env db candidateScanId paths = .ok (db', readSet)) :
    CompleteRun env db db' candidateScanId paths readSet ↔
      Consistent env db candidateScanId paths ∧ AtHome env db candidateScanId paths := by
  obtain ⟨ctx, hcand, hid, hfin, hreach, hagain⟩ := run_finished hl hh hu hfree h
  have hwords := hfin.inherited_iff
  have hlinks := hfin.linked_iff
  rw [hcand] at hlinks
  rw [hid] at hwords
  constructor
  · intro hc
    have hcons : Consistent env db candidateScanId paths := fun l line hline => by
      rw [← hwords, hc.linked l line hline, hlinks]
    refine ⟨hcons, fun l x hx => ?_⟩
    -- the relation of the line is its first accepted one, and the claimed source has the same id
    obtain ⟨hmem, rfl, hacc⟩ := mem_of_firstAccepted hx
    obtain ⟨hline, hmapped⟩ := hreach x hmem
    obtain ⟨q, hq, horigin⟩ := (hlinks x.lineId).2 ⟨x, hmem, rfl, hacc⟩
    have hword := (hcons x.lineId x.line hline).2 ⟨x, hmem, rfl, hacc⟩
    obtain ⟨y, hy, hsource⟩ := hfin.first x.lineId q (by rwa [hid]) (by rwa [hcand])
    obtain rfl : x = y := Option.some.inj (hx.symm.trans hy)
    obtain ⟨ctx', r, line, _, hmapped', hsame, hsource'⟩ := hc.source x.lineId q hq horigin
    have hids := hsource.symm.trans hsource'
    obtain rfl : x.relation = r := eq_of_mem_activeRelations (hmapped hacc).2.mem_activeRelations
      hmapped'.mem_activeRelations (by simpa [Reached.triple] using congrArg SourceTriple.relationId hids)
    obtain rfl : x.line = line :=
      Option.some.inj ((hmapped hacc).2.line.symm.trans hmapped'.line)
    exact hsame
  · rintro ⟨hcons, hhome⟩
    constructor
    case decided =>
      intro l line hline hun
      obtain ⟨d, hd⟩ := Option.isSome_iff_exists.1
        (hfin.decided l line (by rw [hcand]; exact hline) hun)
      rw [← hid, decisionsOf_eq hfin.unique, hd]
      rfl
    case linked =>
      intro l line hline
      rw [hwords, hlinks]
      exact hcons l line hline
    case source =>
      intro l q hq _
      rw [← hcand] at hq
      obtain ⟨x, hx, rfl, hacc, _, _⟩ := hfin.source l q hq
      have hword := (hcons x.lineId x.line (hreach x hx).1).2 ⟨x, hx, rfl, hacc⟩
      rw [← hid] at hword
      obtain ⟨y, hy, hsource⟩ := hfin.first x.lineId q hword hq
      obtain ⟨hmem, hline, hyacc⟩ := mem_of_firstAccepted hy
      obtain ⟨hof, hmapped⟩ := (hreach y hmem).2 hyacc
      rw [hline] at hmapped
      exact ⟨ctx, y.relation, y.line, hof, hmapped, hhome _ y hy, hsource⟩
    case again =>
      refine hagain fun x hx => ⟨hfin.reached x hx, fun hacc => ⟨?_, hfin.linked x hx hacc⟩⟩
      have hword := (hcons x.lineId x.line (hreach x hx).1).2 ⟨x, hx, rfl, hacc⟩
      rw [← hid, ← hfin.inherited] at hword
      obtain ⟨d, hd, hinh⟩ := Option.map_eq_some_iff.1 hword
      rw [hd]
      exact hinh
    case pages =>
      exact ⟨_, fun batchSize fuel hfuel => by rw [runBatched_eq hl hh batchSize hfuel, h]⟩

end Complete

/-! ## The key of the decisions -/

/-- A run keeps the key, whatever the Candidate has already. -/
theorem uniqueOn_run {env : Env} {db db' : Db} {candidateScanId : Nat}
    {paths : List (String × String)} {readSet : Option ReadSet}
    (hu : db.domain.decisions.UniqueOn decisionKey)
    (h : run env db candidateScanId paths = .ok (db', readSet)) :
    db'.domain.decisions.UniqueOn decisionKey := by
  have hrelation : ∀ (ctx : RunContext) source target st r st',
      CachesOk ctx st ∧ st.db.domain.decisions.UniqueOn decisionKey →
      runRelation ctx source target st r = .ok st' →
      CachesOk ctx st' ∧ st'.db.domain.decisions.UniqueOn decisionKey := by
    intro ctx source target st r st' hst hok
    rw [runRelation_eq] at hok
    split at hok
    · obtain rfl := pure_eq_ok.1 hok
      exact hst
    · rename_i x _
      obtain ⟨_, hcaches, hcases⟩ := persist_cases hst.1 hok
      have hwritten : (decided ctx x.source st.db x.relation x.lineId x.line
          x.newLineNumber).domain.decisions.UniqueOn decisionKey :=
        uniqueOn_writeDecision hst.2 _ _ _ _ _
      refine ⟨hcaches, ?_⟩
      rcases hcases with ⟨_, hdb⟩ | ⟨_, _, _, hdb⟩ | ⟨_, _, i, _, hdb⟩
      · rwa [hdb]
      · rwa [hdb]
      · rw [hdb]
        exact hwritten
  have hfile : ∀ (ctx : RunContext) st file st',
      CachesOk ctx st ∧ st.db.domain.decisions.UniqueOn decisionKey →
      runFile ctx st file = .ok st' →
      CachesOk ctx st' ∧ st'.db.domain.decisions.UniqueOn decisionKey := by
    intro ctx st file st' hst hok
    have hread : ∀ readSet : ReadSetAccumulator,
        CachesOk ctx { st with readSet := readSet } ∧
          st.db.domain.decisions.UniqueOn decisionKey :=
      fun _ => ⟨⟨hst.1.record, hst.1.block⟩, hst.2⟩
    unfold runFile at hok
    split at hok
    · obtain rfl := pure_eq_ok.1 hok
      exact hst
    · split at hok
      · obtain rfl := pure_eq_ok.1 hok
        exact hst
      · dsimp only at hok
        split at hok
        · obtain rfl := pure_eq_ok.1 hok
          exact hread _
        · simp only [bind_eq_ok] at hok
          obtain ⟨snapshot, _, hok⟩ := hok
          split at hok
          · obtain rfl := pure_eq_ok.1 hok
            exact hread _
          · refine foldlM_inv (fun st : RunState => CachesOk ctx st ∧
              st.db.domain.decisions.UniqueOn decisionKey) ?_ ?_ hok
            · exact fun s r s' _ hs hr => hrelation ctx _ _ s r s' hs hr
            · exact hread _
  simp only [run, bind_eq_ok] at h
  obtain ⟨resolution, _, h⟩ := h
  split at h
  · obtain ⟨rfl, _⟩ := Prod.mk.inj (pure_eq_ok.1 h)
    exact uniqueOn_decideRemaining hu
  · simp only [bind_eq_ok, pure_eq_ok, Prod.mk.injEq] at h
    obtain ⟨st, hfold, rfl, _⟩ := h
    refine uniqueOn_decideRemaining (foldlM_inv (fun st : RunState => CachesOk _ st ∧
      st.db.domain.decisions.UniqueOn decisionKey)
      (fun _ _ _ _ hs hr => hfile _ _ _ _ hs hr) ⟨?_, hu⟩ hfold).2
    exact ⟨fun _ _ h => absurd h List.not_mem_nil, fun _ _ h => absurd h List.not_mem_nil⟩

end InheritanceEngine

open InheritanceEngine

/-- An analysis operation decides nothing. -/
theorem Mutation.decisions_eq {env : Env} {db db' : Db} {m : Mutation}
    (h : m.apply env db = .ok db') : db'.domain.decisions = db.domain.decisions := by
  have hsave : ∀ {projectName reviewer scanId} {records : List AnalysisService.Item}
      {enforceCurrent}, AnalysisService.save env db projectName scanId records reviewer
        enforceCurrent = .ok db' → db'.domain.decisions = db.domain.decisions := by
    intro projectName reviewer scanId records enforceCurrent hok
    by_cases hne : records = []
    · subst hne
      obtain ⟨p, rfl⟩ := AnalysisService.save_nil hok
      rw [ProjectStateRepository.domain_ensure]
    · obtain ⟨_, _, _, _, _, hdom, _⟩ := AnalysisService.saved_of_ok hne hok
      rw [hdom]
      rfl
  cases m with
  | save => exact hsave h
  | editConfirm => exact hsave h
  | confirm =>
    refine (InheritanceReviewService.confirm_inv h
      (fun d => d.decisions = db.domain.decisions) ?_ rfl).1
    rintro d lineId d' _ _ hd ⟨_, _, _, _, rfl⟩
    exact hd
  | reject =>
    obtain ⟨_, _, _, _, hdom, _⟩ := InheritanceReviewService.reject_ok h
    rw [hdom]
  | undo =>
    obtain ⟨_, _, _, _, _, _, _, _, hdom, _⟩ := InheritanceReviewService.undo_ok h
    rw [hdom]

/-- A migration decides nothing. -/
theorem decisions_backfillLegacy {db db' : Db} {scanId : Nat}
    (h : backfillLegacy db scanId = .ok db') : db'.domain.decisions = db.domain.decisions := by
  refine foldlM_inv (fun d : Db => d.domain.decisions = db.domain.decisions) ?_ rfl h
  intro d row d' _ hd hstep
  dsimp only at hstep
  split at hstep
  · obtain ⟨rfl, _⟩ := AnalysisService.createLinksMany_ok hstep
    refine Eq.trans ?_ hd
    unfold legacyRecord
    split
    · rfl
    · rfl
  · obtain rfl := pure_eq_ok.1 hstep
    exact hd

/-- **In every reachable state a run has one decision for a line.** -/
theorem Reachable.uniqueDecisions {env : Env} {db : Db} (h : Reachable env db) :
    db.domain.decisions.UniqueOn decisionKey := by
  refine (h.inv (P := fun d => HistoryOk d ∧ d.domain.decisions.UniqueOn decisionKey)
    ⟨HistoryOk.empty, fun k => by simp [Db.empty]⟩ ?_).2
  rintro d a d' ⟨hh, hd⟩ ha
  refine ⟨hh.step ha, ?_⟩
  cases Action.domainEffect hh.current ha with
  | none _ hdom => rwa [hdom]
  | mutate hm hdom =>
    rw [hdom, Mutation.decisions_eq hm]
    exact hd
  | backfill hb hdom =>
    rw [hdom, decisions_backfillLegacy hb]
    exact hd
  | engine _ hr hdom =>
    rw [hdom]
    exact uniqueOn_run hd hr

/-! ## Two runs under one run id -/

namespace Sample

/-- The transactions of the second import up to the engine run. -/
def imported : List Action :=
  reviewed ++ [.registerResource 7, .create ⟨identity "sha2", [7], "sha2", 10⟩] ++
    (construct worker 2 [twoLines] 2).dropLast

/-- The Candidate has its lines and no relation yet. -/
def importedDb : Db := Trace.run (Action.exec env) Db.empty imported

theorem reachable_importedDb : Reachable env importedDb := ⟨imported, rfl⟩

/-- A run on it is complete. -/
theorem completeRun_importedDb : ∃ db' readSet,
    run env importedDb 2 [("core", "/src/core")] = .ok (db', readSet) ∧
      CompleteRun env importedDb db' 2 [("core", "/src/core")] readSet := by
  have hok : (run env importedDb 2 [("core", "/src/core")]).isOk = true := by decide +kernel
  obtain ⟨⟨db', readSet⟩, hrun⟩ := exists_of_isOk hok
  refine ⟨db', readSet, hrun, (completeRun_iff reachable_importedDb.integrity.toLinksOk
    reachable_importedDb.historyOk reachable_importedDb.uniqueDecisions ?_ hrun).2
    ⟨consistent_of_fresh ?_ ?_ ?_, ?_⟩⟩
  · have hrows : ∀ q ∈ importedDb.domain.links.rows, q.2.scanId ≠ 2 := by decide +kernel
    exact fun k q hk => hrows (k, q) (Keyed.get?_eq_some_iff.1 hk)
  · have hrows : importedDb.domain.decisions.rows = [] := by decide +kernel
    intro l
    unfold findDecision
    rw [hrows]
    rfl
  · decide +kernel
  · have hall : (reached env importedDb 2 [("core", "/src/core")]).all
        (fun x => !x.word || x.accepted) = true := by decide +kernel
    intro x hx hword
    simpa [hword] using List.all_eq_true.1 hall x hx
  · have hall : ∀ x ∈ reached env importedDb 2 [("core", "/src/core")],
        SameFile importedDb x.relation x.line := by decide +kernel
    exact fun l x hx => hall x (mem_of_firstAccepted hx).1

/-- The Candidate after a run that knew no working copy. -/
def refusedDb : Db :=
  Trace.run (Action.exec env) Db.empty (imported ++ [.runEngine 2 []])

/-- **A run after one that refused everything** is not complete: a line has a relation beside its
refusal. -/
theorem not_completeRun_refusedDb : Reachable env refusedDb ∧
    (∀ k q, refusedDb.domain.links.get? k = some q → q.scanId ≠ 2) ∧
    ∃ db' readSet, run env refusedDb 2 [("core", "/src/core")] = .ok (db', readSet) ∧
      ¬ CompleteRun env refusedDb db' 2 [("core", "/src/core")] readSet := by
  have hok : (run env refusedDb 2 [("core", "/src/core")]).isOk = true := by decide +kernel
  obtain ⟨⟨db', readSet⟩, hrun⟩ := exists_of_isOk hok
  have hline : (lineOfScan refusedDb 2 3).isSome = true := by decide +kernel
  obtain ⟨line, hline⟩ := Option.isSome_iff_exists.1 hline
  have hleft : (match run env refusedDb 2 [("core", "/src/core")] with
      | .ok r => (decisionsOf r.1 (runIdOf env refusedDb 2) 3).all (fun d => !d.2.inherited) &&
          (r.1.activeLink 2 3).any fun q => q.2.relationOrigin = .inheritance
      | .error _ => false) = true := by decide +kernel
  rw [hrun] at hleft
  simp only [Bool.and_eq_true, List.all_eq_true, Bool.not_eq_true', Option.any_eq_true,
    decide_eq_true_eq] at hleft
  obtain ⟨hrefused, q, hq, horigin⟩ := hleft
  have hrows : ∀ q ∈ refusedDb.domain.links.rows, q.2.scanId ≠ 2 := by decide +kernel
  refine ⟨⟨_, rfl⟩, fun k q hk => hrows (k, q) (Keyed.get?_eq_some_iff.1 hk), db', readSet, hrun,
    fun hc => ?_⟩
  obtain ⟨d, hd, hinh⟩ := (hc.linked 3 line hline).2 ⟨q, hq, horigin⟩
  exact Bool.false_ne_true ((hrefused d hd).symm.trans hinh)

end Sample

end FosCoverage
