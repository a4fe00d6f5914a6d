import FosCoverage.Analysis.Integrity

/-!
# The predecessor during a run

An engine run writes relations of the Candidate only.  As long as the Candidate is not its own
predecessor, the relations the engine enumerates file by file are those of the database it started
from (`Inheritance.activeRelations_after`), and what it maps to a line of the Candidate can be said in
terms of that database (`run_inv_mapped`).
-/

set_option autoImplicit false

namespace FosCoverage

open Relational Outcome AnalysisDomainRepository

/-- A selection of relations of other lines does not see the write. -/
theorem select_writeLink_of_ne {links : Table Link} {scanId : Nat} {item : LinkItem}
    {p : Nat → Link → Bool}
    (hp : ∀ k q, p k q = true → ¬ (q.scanId = scanId ∧ q.lineId = item.lineId)) :
    (writeLink links scanId item).select p = links.select p := by
  have hnew : ∀ k rev, p k (item.link scanId rev) = false := by
    intro k rev
    rw [Bool.eq_false_iff]
    exact fun h => hp _ _ h ⟨rfl, rfl⟩
  cases hf : findLink links scanId item.lineId with
  | none => rw [writeLink_of_none hf, Table.select_insert (hnew _ _)]
  | some r =>
    rw [writeLink_of_some hf]
    refine Keyed.select_updateWhere fun r _ hs => ⟨?_, hnew _ _⟩
    rw [Bool.eq_false_iff]
    exact fun h => hp r.1 r.2 h (sameLine_iff.1 hs)

/-- A relation joins to the same row while no record and no block is lost. -/
theorem joinRelation_eq {db db' : Db} (hf : db'.facts = db.facts) {k : Nat} {q : Link}
    (hb : ∀ b ∈ q.blockId, db'.domain.blocks.get? b = db.domain.blocks.get? b)
    (hr : db'.domain.records.get? q.recordId = db.domain.records.get? q.recordId) :
    joinRelation db' (k, q) = joinRelation db (k, q) := by
  have hblock : q.blockId.bind db'.domain.blocks.get? = q.blockId.bind db.domain.blocks.get? := by
    cases hq : q.blockId with
    | none => rfl
    | some b => exact hb b hq
  unfold joinRelation
  simp only [hf, hr, hblock]

theorem get?_insertMany_of_isSome {α : Type} {t : Table α} {as : List α} {k : Nat}
    (h : (t.get? k).isSome) : (t.insertMany as).get? k = t.get? k := by
  obtain ⟨a, ha⟩ := Option.isSome_iff_exists.1 h
  rw [Table.get?_insertMany_of_some ha, ha]

/-! ## The relations of a scan -/

section Joined

variable {db : Db} {scanId : Nat}

/-- The rows an active relation is joined with. -/
theorem mem_activeRelations {r : SourceRelation} (h : r ∈ activeRelations db scanId) :
    db.domain.links.get? r.id = some r.link ∧ r.link.scanId = scanId ∧ r.link.isActive = true ∧
      db.facts.lines.get? r.link.lineId = some r.line ∧
      db.facts.files.get? r.line.fileId = some r.file := by
  obtain ⟨q, hq, hjoin⟩ := List.mem_filterMap.1 h
  obtain ⟨hmem, hp⟩ := Keyed.mem_select.1 hq
  rw [decide_eq_true_eq] at hp
  simp only [joinRelation, Option.pure_def, Option.bind_eq_bind, Option.bind_eq_some_iff,
    Option.some.injEq] at hjoin
  obtain ⟨line, hline, file, hfile, rfl⟩ := hjoin
  exact ⟨Keyed.get?_eq_some_iff.2 hmem, hp.1, hp.2, hline, hfile⟩

/-- The id of a relation names its row. -/
theorem eq_of_mem_activeRelations {scanId' : Nat} {r r' : SourceRelation}
    (h : r ∈ activeRelations db scanId) (h' : r' ∈ activeRelations db scanId')
    (hid : r.id = r'.id) : r = r' := by
  obtain ⟨q, _, hjoin⟩ := List.mem_filterMap.1 h
  obtain ⟨q', _, hjoin'⟩ := List.mem_filterMap.1 h'
  obtain ⟨hlink, _⟩ := mem_activeRelations h
  obtain ⟨hlink', _⟩ := mem_activeRelations h'
  have hsame : r.link = r'.link := by
    rw [hid, hlink'] at hlink
    exact (Option.some.inj hlink).symm
  have own : ∀ {q : Nat × Link} {r : SourceRelation}, joinRelation db q = some r →
      q = (r.id, r.link) := by
    intro q r hq
    simp only [joinRelation, Option.pure_def, Option.bind_eq_bind, Option.bind_eq_some_iff,
      Option.some.injEq] at hq
    obtain ⟨_, _, _, _, rfl⟩ := hq
    rfl
  rw [own hjoin, hid, hsame, ← own hjoin', hjoin'] at hjoin
  exact (Option.some.inj hjoin).symm

end Joined

namespace InheritanceEngine

variable {ctx : RunContext}

/-- The file of an active relation is one of the files the engine enumerates. -/
theorem mem_relationFiles {db : Db} (hl : LinksOk db) {scanId : Nat} {r : SourceRelation}
    (h : r ∈ activeRelations db scanId) : (r.line.fileId, r.file) ∈ relationFiles db scanId := by
  obtain ⟨hlink, hscan, hactive, hline, hfile⟩ := mem_activeRelations h
  have hof : r.file.scanId = scanId := by
    obtain ⟨line, hsome⟩ := Option.isSome_iff_exists.1 (hl.line r.id r.link hlink)
    rw [AnalysisService.lineOfScan_eq_some] at hsome
    obtain ⟨hline', file, hfile', hs⟩ := hsome
    obtain rfl : r.line = line := Option.some.inj (hline.symm.trans hline')
    obtain rfl : r.file = file := Option.some.inj (hfile.symm.trans hfile')
    exact hs.trans hscan
  refine Keyed.mem_select.2 ⟨Keyed.get?_eq_some_iff.1 hfile, ?_⟩
  rw [decide_eq_true_eq]
  refine ⟨hof, ?_⟩
  rw [List.any_eq_true]
  refine ⟨(r.link.lineId, r.line), Keyed.get?_eq_some_iff.1 hline, ?_⟩
  rw [decide_eq_true_eq]
  refine ⟨rfl, ?_⟩
  rw [List.any_eq_true]
  refine ⟨(r.id, r.link), Keyed.get?_eq_some_iff.1 hlink, ?_⟩
  rw [decide_eq_true_eq]
  exact ⟨rfl, hscan, hactive⟩

/-! ## The file a relation is mapped to -/

/-- The line stands in a file with the names of the file the relation is in. -/
def SameFile (db : Db) (r : SourceRelation) (line : LineRow) : Prop :=
  (db.facts.files.get? line.fileId).map FileRow.source = some r.file.source

instance (db : Db) (r : SourceRelation) (line : LineRow) : Decidable (SameFile db r line) :=
  inferInstanceAs (Decidable (_ = _))

/-- `g` is the first file of the Candidate a query for the names of `f` finds. -/
structure FirstNamesake (env : Env) (db : Db) (candidateScanId : Nat) (f : FileRow) (id : Nat)
    (g : FileRow) : Prop where
  /-- It is a file. -/
  file : db.facts.files.get? id = some g
  /-- Of the Candidate. -/
  scan : g.scanId = candidateScanId
  /-- Its names are those of `f` in a query. -/
  names : env.sameSource g f.source = true
  /-- Every other one has a larger id. -/
  first : ∀ id' g', db.facts.files.get? id' = some g' → g'.scanId = candidateScanId →
    env.sameSource g' f.source = true → id ≤ id'

/-- The first file of the Candidate that is found by the names of a file with active relations has
these names. -/
def NamesApart (env : Env) (db : Db) (candidateScanId predecessorScanId : Nat) : Prop :=
  ∀ f ∈ relationFiles db predecessorScanId, ∀ id g,
    FirstNamesake env db candidateScanId f.2 id g → g.source = f.2.source

/-- **`_candidate_file` finds the first namesake.** -/
theorem firstNamesake_of_candidateFile {env : Env} {db : Db} {candidateScanId : Nat} {f : FileRow}
    {target : Nat × FileRow}
    (h : candidateFile env db candidateScanId f.repositoryName f.filePath = some target) :
    FirstNamesake env db candidateScanId f target.1 target.2 := by
  obtain ⟨hp, before, after, hrows, hbefore⟩ := List.find?_eq_some_iff_append.1 h
  obtain ⟨hscan, hnames⟩ := of_decide_eq_true hp
  refine ⟨Keyed.get?_eq_some_iff.2 (List.mem_of_find?_eq_some h), hscan, hnames, ?_⟩
  intro id' g' hget hscan' hnames'
  have hmem := Keyed.get?_eq_some_iff.1 hget
  have hsorted := db.facts.files.ordered
  rw [hrows] at hmem hsorted
  rcases List.mem_append.1 hmem with hmem | hmem
  · have hnot := hbefore _ hmem
    rw [Bool.not_eq_true', decide_eq_false_iff_not] at hnot
    exact absurd ⟨hscan', hnames'⟩ hnot
  · rcases List.mem_cons.1 hmem with heq | hmem
    · rw [← heq]
    · rw [List.map_append, List.map_cons, List.pairwise_append, List.pairwise_cons] at hsorted
      exact Nat.le_of_lt (hsorted.2.1.1 id' (List.mem_map_of_mem hmem))

theorem candidateFile_of_firstNamesake {env : Env} {db : Db} {candidateScanId : Nat} {f : FileRow}
    {id : Nat} {g : FileRow} (h : FirstNamesake env db candidateScanId f id g) :
    candidateFile env db candidateScanId f.repositoryName f.filePath = some (id, g) := by
  cases hfind : candidateFile env db candidateScanId f.repositoryName f.filePath with
  | none =>
    have hnot := List.find?_eq_none.1 hfind (id, g) (Keyed.get?_eq_some_iff.1 h.file)
    exact absurd (decide_eq_true ⟨h.scan, h.names⟩) hnot
  | some target =>
    have hfirst := firstNamesake_of_candidateFile hfind
    have hid : target.1 = id := Nat.le_antisymm (hfirst.first id g h.file h.scan h.names)
      (h.first target.1 target.2 hfirst.file hfirst.scan hfirst.names)
    have hrow := hfirst.file
    rw [hid, h.file] at hrow
    rw [← hid, Option.some.inj hrow]

/-- The first namesakes are found by a query for each file. -/
theorem namesApart_iff {env : Env} {db : Db} {candidateScanId predecessorScanId : Nat} :
    NamesApart env db candidateScanId predecessorScanId ↔
      ∀ f ∈ relationFiles db predecessorScanId,
        (candidateFile env db candidateScanId f.2.repositoryName f.2.filePath).all
          (fun target => target.2.source = f.2.source) = true := by
  refine forall₂_congr fun f _ => ?_
  rw [Option.all_eq_true]
  constructor
  · exact fun h target htarget =>
      decide_eq_true (h target.1 target.2 (firstNamesake_of_candidateFile htarget))
  · exact fun h id g hg => of_decide_eq_true (h (id, g) (candidateFile_of_firstNamesake hg))

instance (env : Env) (db : Db) (candidateScanId predecessorScanId : Nat) :
    Decidable (NamesApart env db candidateScanId predecessorScanId) :=
  decidable_of_iff _ namesApart_iff.symm

theorem Inheritance.select_after (i : Inheritance) (db : Db) {c s : Nat} (hs : s ≠ c) :
    ((i.after db c).domain.links.select fun _ q => decide (q.scanId = s ∧ q.isActive = true)) =
      db.domain.links.select fun _ q => decide (q.scanId = s ∧ q.isActive = true) :=
  select_writeLink_of_ne fun k q hq hsame => hs (by
    rw [decide_eq_true_eq] at hq
    exact hq.1.symm.trans hsame.1)

/-- **The relations of another scan are as before.** -/
theorem Inheritance.activeRelations_after {db : Db} (i : Inheritance) (hl : LinksOk db) {c s : Nat}
    (hs : s ≠ c) : activeRelations (i.after db c) s = activeRelations db s := by
  unfold activeRelations
  rw [i.select_after db hs]
  refine List.filterMap_congr fun kq hkq => ?_
  obtain ⟨k, q⟩ := kq
  have hk := Keyed.get?_eq_some_iff.2 (Keyed.mem_select.1 hkq).1
  have hb : ∀ b ∈ q.blockId, (i.after db c).domain.blocks.get? b = db.domain.blocks.get? b :=
    fun b hb => get?_insertMany_of_isSome (hl.block k q hk b hb)
  have hr : (i.after db c).domain.records.get? q.recordId = db.domain.records.get? q.recordId :=
    get?_insertMany_of_isSome (hl.record k q hk)
  exact joinRelation_eq (show (i.after db c).facts = db.facts from rfl) hb hr

/-- What is mapped depends on the facts and the relations of the predecessor. -/
theorem Mapped.congr {db db' : Db} {r : SourceRelation} {lineId : Nat} {line : LineRow}
    (h : Mapped ctx db r lineId line) (hf : db'.facts = db.facts)
    (hr : activeRelations db' ctx.predecessorScanId = activeRelations db ctx.predecessorScanId) :
    Mapped ctx db' r lineId line := by
  have hrel : ∀ f, fileRelations db' ctx.predecessorScanId f =
      fileRelations db ctx.predecessorScanId f := fun f => by
    unfold fileRelations
    rw [hr]
  obtain ⟨fileId, file, target, first, source, n, h₀, h₁, h₂, h₃, h₄, h₅, h₆, h₇, h₈⟩ := h
  refine ⟨fileId, file, target, first, source, n, by rw [hf]; exact h₀, h₁, ?_,
    by rw [hrel]; exact h₃, by rw [hrel]; exact h₄, ?_, h₆, ?_, h₈⟩
  · rw [← h₂]
    simp only [candidateFile, hf]
  · have hsnap : ∀ s name, PredecessorResolver.repositorySnapshot ctx.env db' s name =
        PredecessorResolver.repositorySnapshot ctx.env db s name := fun s name => by
      unfold PredecessorResolver.repositorySnapshot ProjectRepository.listRepositorySnapshots
      rw [hf]
    rw [← h₅]
    unfold snapshotForRelation
    rw [hsnap, hsnap]
  · rw [← h₇]
    simp only [LineIndexRepository.getLine, hf]

/-- A mapped relation is an active one of the predecessor. -/
theorem Mapped.mem_activeRelations {db : Db} {r : SourceRelation} {lineId : Nat} {line : LineRow}
    (h : Mapped ctx db r lineId line) : r ∈ activeRelations db ctx.predecessorScanId := by
  obtain ⟨_, _, _, _, _, _, _, _, _, hr, _⟩ := h
  exact (List.mem_filter.1 hr).1

theorem Mapped.line {db : Db} {r : SourceRelation} {lineId : Nat} {line : LineRow}
    (h : Mapped ctx db r lineId line) : db.facts.lines.get? lineId = some line := by
  obtain ⟨_, _, _, _, _, _, _, _, _, _, _, _, _, hline, _⟩ := h
  exact Keyed.get?_eq_some_iff.2 (List.mem_of_find?_eq_some hline)

/-- **Where the names are apart a relation is mapped to a line of a file with its names.** -/
theorem Mapped.sameFile {db : Db} {r : SourceRelation} {lineId : Nat} {line : LineRow}
    (h : Mapped ctx db r lineId line) (hl : LinksOk db)
    (hapart : NamesApart ctx.env db ctx.candidateScanId ctx.predecessorScanId) :
    SameFile db r line := by
  have hmem := h.mem_activeRelations
  obtain ⟨fileId, file, target, _, _, _, hfile, _, htarget, hr, _, _, _, hline, _⟩ := h
  obtain ⟨_, _, _, _, hown⟩ := FosCoverage.mem_activeRelations hmem
  obtain rfl : r.line.fileId = fileId := of_decide_eq_true (List.mem_filter.1 hr).2
  obtain rfl : r.file = file := Option.some.inj (hown.symm.trans hfile)
  have hfirst := firstNamesake_of_candidateFile htarget
  have hin := List.find?_some hline
  rw [decide_eq_true_eq] at hin
  rw [SameFile, hin.1, hfirst.file, Option.map_some,
    hapart _ (mem_relationFiles hl hmem) _ _ hfirst]

theorem RunContext.Of.candidate {env : Env} {db : Db} {c : Nat} {paths : List (String × String)}
    (h : RunContext.Of env db c paths ctx) : ctx.candidateScanId = c := by
  obtain ⟨_, _, _, _, rfl⟩ := h
  rfl

theorem RunContext.Of.env {env : Env} {db : Db} {c : Nat} {paths : List (String × String)}
    (h : RunContext.Of env db c paths ctx) : ctx.env = env := by
  obtain ⟨_, _, _, _, rfl⟩ := h
  rfl

/-- The predecessor of a run is the one the scan names. -/
theorem RunContext.Of.predecessor_eq {env : Env} {db : Db} {scanId : Nat}
    {paths : List (String × String)} (h : RunContext.Of env db scanId paths ctx) :
    (ProjectRepository.getScan db scanId).bind Scan.predecessorScanId =
      some ctx.predecessorScanId := by
  obtain ⟨resolution, p, hres, hp, rfl⟩ := h
  simp only [PredecessorResolver.resolve, bind_eq_ok, orFail_eq_ok] at hres
  obtain ⟨scan, hscan, hres⟩ := hres
  rw [hscan, Option.bind_some]
  split at hres
  · obtain rfl := pure_eq_ok.1 hres
    cases hp
  · rename_i q hq
    rw [hq]
    split at hres
    · obtain rfl := pure_eq_ok.1 hres
      exact hp
    · split at hres
      · obtain rfl := pure_eq_ok.1 hres
        exact hp
      · obtain rfl := pure_eq_ok.1 hres
        exact hp

/-- In a sound history the Candidate is not its own predecessor. -/
theorem RunContext.Of.predecessor_ne {env : Env} {db : Db} {c : Nat}
    {paths : List (String × String)} (h : RunContext.Of env db c paths ctx) (hh : HistoryOk db) :
    ctx.predecessorScanId ≠ c := by
  obtain ⟨scan, hscan, hpred⟩ := Option.bind_eq_some_iff.1 h.predecessor_eq
  exact Nat.ne_of_lt (hh.older c scan hscan _ hpred)

/-- **The invariant rule for runs on a Candidate that is not its own predecessor**: every relation is
inherited as the database at the start of the run maps it. -/
theorem run_inv_mapped {env : Env} {db db' : Db} {c : Nat} {paths : List (String × String)}
    {readSet : Option ReadSet} {P : Db → Prop} (h : run env db c paths = .ok (db', readSet))
    (hl : LinksOk db)
    (hne : ∀ ctx, RunContext.Of env db c paths ctx → ctx.predecessorScanId ≠ c)
    (decision : DecisionInv db.facts P)
    (inherit : ∀ ctx, RunContext.Of env db c paths ctx → ∀ d r lineId line i,
      d.facts = db.facts → LinksOk d → P d → Mapped ctx db r lineId line →
      Inherits ctx d r lineId line i → P (i.after d c))
    (h₀ : P db) : LinksOk db' ∧ P db' := by
  -- the relations of every possible predecessor stay what they are
  let I := fun d : Db => LinksOk d ∧ P d ∧ ∀ ctx, RunContext.Of env db c paths ctx →
    activeRelations d ctx.predecessorScanId = activeRelations db ctx.predecessorScanId
  have hrun := run_inv (P := I) h ?_ ?_ ⟨hl, h₀, fun _ _ => rfl⟩
  · exact ⟨hrun.2.1, hrun.2.2.1⟩
  · intro d rows hf hd
    exact ⟨hd.1.congr rfl rfl rfl rfl, decision d rows hf hd.2.1, hd.2.2⟩
  · intro ctx hc hctx d₀ d r lineId line i hf₀ hP₀ hmap hf hP hi
    subst hc
    have hmap' : Mapped ctx db r lineId line :=
      hmap.congr hf₀.symm (hP₀.2.2 ctx hctx).symm
    refine ⟨hi.linksOk hP.1, inherit ctx hctx d r lineId line i hf hP.1 hP.2.1 hmap' hi, ?_⟩
    intro ctx' hctx'
    rw [← hP.2.2 ctx' hctx']
    exact i.activeRelations_after hP.1 (hne ctx' hctx')

/-- The run inherits a relation for the line, if nothing raises before. -/
def Reaches (env : Env) (db : Db) (scanId : Nat) (paths : List (String × String)) (lineId : Nat) :
    Prop :=
  ∃ ctx r line, RunContext.Of env db scanId paths ctx ∧ Mapped ctx db r lineId line

end InheritanceEngine

end FosCoverage
