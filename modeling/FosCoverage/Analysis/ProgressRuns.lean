import FosCoverage.Analysis.Progress

/-!
# What counts as analysed, over histories

Engine runs and whole histories for `ProgressInv`.  A run keeps the invariant unless it links a line
that already counts: its relation would become pending, and the legacy row of the earlier save would
show through once the new relation is rejected (`EngineSpares`).

`progress_counts_last_operation` is the result for histories from an empty database, of any length
and in any order, whose steps meet `CountsHuman`.
-/

set_option autoImplicit false

namespace FosCoverage

open Relational Outcome AnalysisDomainRepository

/-! ## Migrations and engine runs -/

theorem not_covered_of_uncovered {state : String} (h : isUncovered state = true) :
    isCovered state = false := by
  simp only [isUncovered, List.contains_eq_mem, List.mem_cons, List.not_mem_nil, or_false,
    decide_eq_true_eq] at h
  unfold isCovered
  rcases h with h | h | h | h | h <;> rw [h] <;> decide

/-- A run links no line that already counts. -/
def EngineSpares (env : Env) (db : Db) (scanId : Nat) (paths : List (String × String)) : Prop :=
  ∀ l line, InheritanceEngine.Reaches env db scanId paths l → lineOfScan db scanId l = some line →
    (db.lineReview scanId l line).countedConfirmed = false

section Engine

variable {env : Env} {db : Db} {analysed : Nat → Nat → Bool} {scanId : Nat}
  {paths : List (String × String)}

open InheritanceEngine

/-- The invariant of a run: relations are old ones, or pending ones of reached lines. -/
structure RunProgress (env : Env) (db : Db) (scanId : Nat) (paths : List (String × String))
    (d : Db) : Prop where
  /-- A relation is an old one or was inherited. -/
  links : ∀ k q, d.domain.links.get? k = some q → db.domain.links.get? k = some q ∨
    (q.scanId = scanId ∧ Reaches env db scanId paths q.lineId ∧
      (UncoveredLine db scanId q.lineId → q.reviewState = .inheritedPending))
  /-- Lines the run does not reach keep their active relation. -/
  others : ∀ s l, ¬ (s = scanId ∧ Reaches env db scanId paths l) →
    d.activeLink s l = db.activeLink s l
  /-- Relations keep their line. -/
  sameLines : SameLines db.domain.links d.domain.links
  /-- No record changes. -/
  records : ∀ k c, db.domain.records.get? k = some c → d.domain.records.get? k = some c
  /-- The legacy rows are untouched. -/
  analyses : d.domain.analyses = db.domain.analyses

theorem RunProgress.inherit {d : Db} (h : RunProgress env db scanId paths d) {ctx : RunContext}
    (hctx : RunContext.Of env db scanId paths ctx) {r : SourceRelation} {lineId : Nat}
    {line : LineRow} {i : Inheritance} (hmap : Mapped ctx db r lineId line)
    (hi : Inherits ctx d r lineId line i) :
    RunProgress env db scanId paths (i.after d scanId) := by
  obtain rfl := hctx.candidate
  obtain ⟨blockId, groupId, hitem⟩ := hi.item
  have hline : i.item.lineId = lineId := by rw [hitem]; rfl
  have hreach : Reaches env db ctx.candidateScanId paths i.item.lineId := by
    rw [hline]
    exact ⟨ctx, r, line, hctx, hmap⟩
  have written : ∀ rev, UncoveredLine db ctx.candidateScanId i.item.lineId →
      (i.item.link ctx.candidateScanId rev).reviewState = .inheritedPending := by
    rintro rev ⟨line', hl', hu⟩
    have hrow := hmap.line
    rw [AnalysisService.lineOfScan_eq_some, hline] at hl'
    obtain rfl := Option.some.inj (hrow.symm.trans hl'.1)
    rw [hitem]
    simp [LinkItem.link, inheritedLink, inheritedState, not_covered_of_uncovered hu]
  constructor
  case links =>
    intro k q hk
    rcases get?_writeLink hk with ⟨hold, _⟩ | ⟨q₀, _, _, _, rfl⟩ | ⟨_, _, rfl⟩
    · exact h.links k q hold
    · exact .inr ⟨rfl, hreach, written _⟩
    · exact .inr ⟨rfl, hreach, written _⟩
  case others =>
    intro s l hout
    rw [← h.others s l hout]
    refine find?_writeLink_of_ne fun x hx hsame => hout ?_
    simp only [decide_eq_true_eq] at hx
    refine ⟨hx.1.symm.trans hsame.1, ?_⟩
    rw [← hx.2.1, hsame.2]
    exact hreach
  case sameLines =>
    intro k q hk
    obtain ⟨q₁, hq₁, hs₁, hl₁⟩ := h.sameLines k q hk
    obtain ⟨q₂, hq₂, hs₂, hl₂⟩ := SameLines.writeLinks ctx.candidateScanId [i.item] k q₁ hq₁
    exact ⟨q₂, hq₂, hs₂.trans hs₁, hl₂.trans hl₁⟩
  case records => exact fun k c hk => Table.get?_insertMany_of_some (h.records k c hk)
  case analyses => exact h.analyses

/-- A line that the run does not reach counts as before. -/
theorem RunProgress.confirmedLine_of_not_reached {db' : Db} (hp : RunProgress env db scanId paths db')
    (hl : LinksOk db) {s l : Nat} (hout : ¬ (s = scanId ∧ Reaches env db scanId paths l)) :
    db'.confirmedLine s l = db.confirmedLine s l :=
  confirmedLine_congr hl (hp.others s l hout) (fun _ _ c _ hc => ⟨c, hp.records _ c hc, rfl⟩)
    fun _ => by rw [hp.analyses]

/-- A line that a sparing run reaches does not count before the run, -/
theorem EngineSpares.not_confirmed (hspare : EngineSpares env db scanId paths) {l : Nat}
    (hr : Reaches env db scanId paths l) (hu : UncoveredLine db scanId l) :
    db.confirmedLine scanId l = false := by
  obtain ⟨line, hli, hu⟩ := hu
  have := hspare l line hr hli
  rwa [LineReview.countedConfirmed, show (db.lineReview scanId l line).uncovered = true from hu,
    Bool.true_and, lineReview_confirmed] at this

/-- and not behind it either: a new relation waits for its confirmation, and a legacy row that would
count is hidden by a relation that counts. -/
theorem RunProgress.confirmedLine_of_reached {db' : Db} (hp : RunProgress env db scanId paths db')
    (h : ProgressInv db analysed) (hl : LinksOk db) {l : Nat} (hu : UncoveredLine db scanId l)
    (hold : db.confirmedLine scanId l = false) : db'.confirmedLine scanId l = false := by
  cases hact : db'.activeLink scanId l with
  | some x =>
    obtain ⟨k, q⟩ := x
    obtain ⟨hk, rfl, rfl, ha⟩ := activeLink_some hact
    rcases hp.links k q hk with hk₀ | ⟨_, _, hst⟩
    · obtain ⟨c, hc⟩ := Option.isSome_iff_exists.1 (hl.record k q hk₀)
      rw [confirmedLine_of_link hact (hp.records _ c hc)]
      rwa [confirmedLine_of_link (hl.activeLink_eq hk₀ ha) hc] at hold
    · simp [Db.confirmedLine, hact, Link.settled, hst hu]
  | none =>
    unfold Db.confirmedLine
    rw [hact, hp.analyses]
    cases hrow : db.domain.analyses.get? l with
    | none => rfl
    | some a =>
      cases hc : a.concluded with
      | false => simp [hc]
      | true =>
        obtain ⟨k, q, hk, rfl, himp⟩ := h.legacy l a hrow
        have hs : q.scanId = scanId := by
          obtain ⟨line, hli, _⟩ := hu
          exact scan_of_line (hl.line k q hk) (by rw [hli]; rfl)
        have := (himp (by rw [hs]; exact hu) hc).2.2
        rw [hs, hold] at this
        cases this

/-- **A run that spares the lines that count keeps the count and the verdicts together.** -/
theorem ProgressInv.engine {db' : Db} {readSet : Option ReadSet} (h : ProgressInv db analysed)
    (hl : LinksOk db) (hh : HistoryOk db) (hspare : EngineSpares env db scanId paths)
    (hok : InheritanceEngine.run env db scanId paths = .ok (db', readSet)) :
    ProgressInv db' analysed := by
  have hne : ∀ ctx, RunContext.Of env db scanId paths ctx → ctx.predecessorScanId ≠ scanId :=
    fun ctx hctx => hctx.predecessor_ne hh
  obtain ⟨_, hp⟩ := run_inv_mapped (P := RunProgress env db scanId paths) hok hl hne
    (fun d rows _ hd => ⟨hd.links, hd.others, hd.sameLines, hd.records, hd.analyses⟩)
    (fun ctx hctx d r lineId line i _ _ hd hmap hi => hd.inherit hctx hmap hi)
    ⟨fun k q hk => .inl hk, fun _ _ _ => rfl, fun k q hk => ⟨q, hk, rfl, rfl⟩, fun _ _ hc => hc,
      rfl⟩
  have hline : ∀ s l, lineOfScan db' s l = lineOfScan db s l := fun s l => by
    unfold lineOfScan
    rw [run_frame hok]
  have hun : ∀ s l, UncoveredLine db' s l = UncoveredLine db s l := fun s l => by
    unfold UncoveredLine
    rw [hline]
  constructor
  case line => simp only [hline]; exact h.line
  case counted =>
    intro s l hu
    rw [hun] at hu
    rw [← h.counted s l hu]
    by_cases hin : s = scanId ∧ Reaches env db scanId paths l
    · obtain ⟨rfl, hr⟩ := hin
      have hold := hspare.not_confirmed hr hu
      rw [hp.confirmedLine_of_reached h hl hu hold, hold]
    · exact hp.confirmedLine_of_not_reached hl hin
  case legacy =>
    intro l a ha
    rw [hp.analyses] at ha
    obtain ⟨k, q, hk, rfl, himp⟩ := h.legacy l a ha
    obtain ⟨q', hq', hs, hli⟩ := hp.sameLines k q hk
    refine ⟨k, q', hq', hli, fun hu hc => ?_⟩
    rw [hs, hun] at hu
    obtain ⟨hact, hst, hcf⟩ := himp hu hc
    have hout : ¬ (q.scanId = scanId ∧ Reaches env db scanId paths q.lineId) := by
      rintro ⟨rfl, hr⟩
      rw [hspare.not_confirmed hr hu] at hcf
      cases hcf
    have hk' := (activeLink_some ((hp.others _ _ hout).trans (hl.activeLink_eq hk hact))).1
    obtain rfl := Option.some.inj (hk'.symm.trans hq')
    exact ⟨hact, hst, by rw [hp.confirmedLine_of_not_reached hl hout]; exact hcf⟩

end Engine

/-- In a system without foreign legacy rows a migration finds nothing to do. -/
theorem ProgressInv.backfill_eq {db db' : Db} {analysed : Nat → Nat → Bool} {scanId : Nat}
    (h : ProgressInv db analysed) (hl : LinksOk db) (hok : backfillLegacy db scanId = .ok db') :
    db' = db := by
  refine foldlM_inv (fun d => d = db) ?_ rfl hok
  rintro d ⟨l, a⟩ d' hrow rfl hstep
  split at hstep
  · rename_i hc
    obtain ⟨k, q, hk, hline, _⟩ := h.legacy l a (Keyed.get?_eq_some_iff.2 hrow)
    have hs : q.scanId = scanId := by
      refine scan_of_line (hl.line k q hk) ?_
      rw [hline]
      exact hc.1
    have hnone : findLink d.domain.links scanId l = none := by
      simpa [getLink] using hc.2
    exact absurd ⟨hs, hline⟩ (findLink_none hnone hk)
  · exact (pure_eq_ok.1 hstep).symm

/-! ## Every history -/

/-- What a step must meet: its conclusions agree, and its engine run spares the lines that count. -/
structure CountsHuman (env : Env) (db : Db) (a : Action) : Prop where
  /-- A save that edits in place leaves the status it was accepted with. -/
  save : ∀ m records reviewer, a = .mutate m → m.request = some (records, reviewer) →
    SaveAgrees env db m.scanId records reviewer
  /-- The engine links no line that counts. -/
  engine : ∀ c paths, a.engineRun db = some (c, paths) → EngineSpares env db c paths

/-- How the lines of a scan are counted, given the last verdict on each. -/
structure Counted (db : Db) (analysed : Nat → Nat → Bool) : Prop where
  /-- Confirmed exactly when the last operation was a human conclusion. -/
  confirmed : ∀ s l line, lineOfScan db s l = some line →
    (db.lineReview s l line).uncovered = true →
    (db.lineReview s l line).countedConfirmed = analysed s l
  /-- Else pending, of exactly one kind. -/
  pending : ∀ s l line, lineOfScan db s l = some line →
    (db.lineReview s l line).uncovered = true → analysed s l = false →
    (db.lineReview s l line).countedPending = true ∧
    [(db.lineReview s l line).ordinaryPending, (db.lineReview s l line).inheritedPending,
      (db.lineReview s l line).manualDraftPending].count true = 1
  /-- The two totals of a file. -/
  totals : ∀ s f file, db.facts.files.get? f = some file → file.scanId = s →
    let totals := Totals.count (FileStateRepository.fileReviews db s f)
    let lines := db.facts.lines.select fun _ l => l.fileId = f
    totals.confirmedTotal =
      lines.countP (fun l => isUncovered l.2.facts.coverageState && analysed s l.1) ∧
    totals.pendingTotal =
      lines.countP fun l => isUncovered l.2.facts.coverageState && !analysed s l.1

theorem ProgressInv.counted_of {db : Db} {analysed : Nat → Nat → Bool}
    (h : ProgressInv db analysed) : Counted db analysed := by
  have key : ∀ s l line, lineOfScan db s l = some line →
      isUncovered line.facts.coverageState = true →
      (db.lineReview s l line).confirmed = analysed s l := by
    intro s l line hl hu
    rw [lineReview_confirmed]
    exact h.counted s l ⟨line, hl, hu⟩
  constructor
  case confirmed =>
    intro s l line hl hu
    rw [LineReview.countedConfirmed, hu, Bool.true_and, key s l line hl hu]
  case pending =>
    intro s l line hl hu ha
    have hp : (db.lineReview s l line).countedPending = true := by
      rw [LineReview.countedPending, hu, key s l line hl hu, ha]
      rfl
    refine ⟨hp, ?_⟩
    rcases LineReview.pending_partition _ hp with ⟨h₁, h₂, h₃⟩ | ⟨h₁, h₂, h₃⟩ | ⟨h₁, h₂, h₃⟩ <;>
      rw [h₁, h₂, h₃] <;> rfl
  case totals =>
    intro s f file hf hs
    have hrow : ∀ x ∈ db.facts.lines.select (fun _ l => decide (l.fileId = f)),
        isUncovered x.2.facts.coverageState = true →
        (db.lineReview s x.1 x.2).confirmed = analysed s x.1 := by
      intro x hx hu
      obtain ⟨hmem, hfile⟩ := Keyed.mem_select.1 hx
      refine key s x.1 x.2 ?_ hu
      rw [AnalysisService.lineOfScan_eq_some, of_decide_eq_true hfile]
      exact ⟨Keyed.get?_eq_some_iff.2 hmem, file, hf, hs⟩
    constructor
    · simp only [Totals.count, FileStateRepository.fileReviews, List.countP_map]
      refine List.countP_congr fun x hx => ?_
      simp only [Function.comp, LineReview.countedConfirmed, Bool.and_eq_true]
      exact and_congr_right fun hu => by rw [hrow x hx hu]
    · simp only [Totals.count, FileStateRepository.fileReviews, List.countP_map]
      refine List.countP_congr fun x hx => ?_
      simp only [Function.comp, LineReview.countedPending, Bool.and_eq_true]
      exact and_congr_right fun hu => by rw [hrow x hx hu]

/-- The verdict of an accepted save is that of its resolved lines. -/
theorem ProgressInv.save {env : Env} {db db' : Db} {analysed : Nat → Nat → Bool}
    {projectName reviewer : String} {scanId : Nat} {records : List AnalysisService.Item}
    {enforceCurrent : Bool} (h : ProgressInv db analysed) (hi : Integrity db)
    (hagree : SaveAgrees env db scanId records reviewer)
    (hok : AnalysisService.save env db projectName scanId records reviewer enforceCurrent =
      .ok db') :
    ProgressInv db' fun s l => ((Mutation.save projectName scanId records reviewer
      enforceCurrent).verdict env db s l).getD (analysed s l) := by
  by_cases hne : records = []
  · subst hne
    obtain ⟨p, rfl⟩ := AnalysisService.save_nil hok
    have hv : ∀ s l, (Mutation.save projectName scanId [] reviewer enforceCurrent).verdict env db
        s l = none := by
      intro s l
      simp only [Mutation.verdict]
      split <;> rfl
    simp only [hv]
    exact h.congr (by simp) (by simp) (by simp) (by simp)
  · obtain ⟨p, tr, _, hres, hsaved, hdom, hmut⟩ := AnalysisService.saved_of_ok hne hok
    have := h.saved hi.toLinksOk (hi.save hok).toLinksOk hsaved hmut.facts hdom (hagree _ hres)
    simpa only [Mutation.verdict, hres] using this

theorem ProgressInv.mutate {env : Env} {db db' : Db} {analysed : Nat → Nat → Bool} {m : Mutation}
    (h : ProgressInv db analysed) (hi : Integrity db) (hc : CountsHuman env db (.mutate m))
    (hok : m.apply env db = .ok db') :
    ProgressInv db' fun s l => (m.verdict env db s l).getD (analysed s l) := by
  cases m with
  | save projectName scanId records reviewer enforceCurrent =>
    have hagree : SaveAgrees env db scanId records reviewer :=
      hc.save (.save projectName scanId records reviewer enforceCurrent) _ _ rfl rfl
    exact h.save hi hagree hok
  | editConfirm projectName scanId records reviewer =>
    have hagree : SaveAgrees env db scanId records reviewer :=
      hc.save (.editConfirm projectName scanId records reviewer) _ _ rfl rfl
    exact h.save hi hagree hok
  | confirm => exact h.confirm hi hok
  | reject => exact h.reject hi.toLinksOk hok
  | undo => exact h.undo hi hok

/-- The verdict of an action that is not an accepted operation. -/
theorem Action.verdict_eq_none {env : Env} {db : Db} {a : Action}
    (h : ∀ m, a = .mutate m → (m.apply env db).isOk = false) (s l : Nat) :
    a.verdict env db s l = none := by
  cases a with
  | mutate m => simp [Action.verdict, h m rfl]
  | _ => rfl

/-- One step of a watched history. -/
theorem ProgressInv.step {env : Env} {db : Db} {analysed : Nat → Nat → Bool} {a : Action}
    (h : ProgressInv db analysed) (hi : Integrity db) (hh : HistoryOk db)
    (hc : CountsHuman env db a) :
    ProgressInv (watch env (db, analysed) a).1 (watch env (db, analysed) a).2 := by
  simp only [watch]
  cases hok : a.apply env db with
  | error e =>
    rw [Action.exec_of_error hok]
    have hv : ∀ s l, a.verdict env db s l = none := by
      refine Action.verdict_eq_none ?_
      rintro m rfl
      rw [show m.apply env db = .error e from hok]
      rfl
    simpa only [hv, Option.getD_none] using h
  | ok db' =>
    rw [Action.exec_of_ok hok]
    by_cases hm : ∃ m, a = .mutate m
    · obtain ⟨m, rfl⟩ := hm
      have hv : ∀ s l, Action.verdict env db (.mutate m) s l = m.verdict env db s l := by
        intro s l
        simp [Action.verdict, show m.apply env db = .ok db' from hok, Except.isOk, Except.toBool]
      simpa only [hv] using h.mutate hi hc hok
    · have hv : ∀ s l, a.verdict env db s l = none :=
        Action.verdict_eq_none fun m hm' => absurd ⟨m, hm'⟩ hm
      simp only [hv, Option.getD_none]
      obtain ⟨hfile, hline⟩ := Action.grows hh.current hok
      cases Action.domainEffect hh.current hok with
      | none _ hd => exact h.grow hi.toLinksOk hfile hline hd
      | mutate => exact absurd ⟨_, rfl⟩ hm
      | backfill hb hd =>
        obtain rfl := h.backfill_eq hi.toLinksOk hb
        exact h.grow hi.toLinksOk hfile hline hd
      | engine hrun hr hd =>
        have h₁ := h.engine hi.toLinksOk hh (hc.engine _ _ hrun) hr
        have hf := InheritanceEngine.run_frame hr
        have hfacts := congrArg Db.facts hf
        have h₂ := h₁.congr (show ({ db with domain := db'.domain } : Db).facts = _ from hfacts.symm)
          (by rw [hd]) (by rw [hd]) (by rw [hd])
        have hlinks : LinksOk { db with domain := db'.domain } :=
          (hi.engine hr).toLinksOk.congr (by rw [hf]) (by rw [hd]) (by rw [hd]) (by rw [hd])
        exact h₂.grow hlinks hfile hline rfl

/-- The watched run is the run. -/
theorem run_watch (env : Env) (st : Db × (Nat → Nat → Bool)) (actions : List Action) :
    (Trace.run (watch env) st actions).1 = Trace.run (Action.exec env) st.1 actions := by
  induction actions generalizing st with
  | nil => rfl
  | cons a actions ih => exact ih (watch env st a)

/-- **A line counts exactly when the last operation on it was a human conclusion**, in every state of
a history whose steps meet the condition. -/
theorem progress_counts_last_operation {env : Env} {actions : List Action}
    (h : Trace.Along (watch env) (fun st a => CountsHuman env st.1 a)
      (Db.empty, fun _ _ => false) actions) :
    Counted (Trace.run (Action.exec env) Db.empty actions)
      (Trace.run (watch env) (Db.empty, fun _ _ => false) actions).2 := by
  have hinv := Trace.run_inv_along
    (I := fun st : Db × (Nat → Nat → Bool) =>
      ProgressInv st.1 st.2 ∧ Integrity st.1 ∧ HistoryOk st.1)
    (P := fun st a => CountsHuman env st.1 a) ?_ ⟨ProgressInv.empty, Integrity.empty,
      HistoryOk.empty⟩ h
  · rw [← run_watch env (Db.empty, fun _ _ => false)]
    exact hinv.1.counted_of
  · rintro ⟨db, analysed⟩ a ⟨hp, hi, hh⟩ hc
    refine ⟨hp.step hi hh hc, ?_⟩
    exact Action.exec_inv (P := fun d => Integrity d ∧ HistoryOk d) ⟨hi, hh⟩
      (fun a db' ha => ⟨hi.step hh.current ha, hh.step ha⟩) a

/-! ### On the sample -/

/-- A condition that can be evaluated: no operation names a record, and no line of the Candidate of
an engine run counts. -/
def Sample.countsHuman (db : Db) (a : Action) : Bool :=
  (match a with
    | .mutate m => m.request.all fun r => r.1.all fun i => i.requestedRecordId = 0
    | _ => true) &&
  (a.engineRun db).all fun run => db.facts.lines.rows.all fun l =>
    (lineOfScan db run.1 l.1).all fun line => !(db.lineReview run.1 l.1 line).countedConfirmed

theorem Sample.countsHuman_sound {env : Env} {db : Db} {a : Action}
    (h : Sample.countsHuman db a = true) : CountsHuman env db a := by
  simp only [Sample.countsHuman, Bool.and_eq_true] at h
  constructor
  · rintro m records reviewer rfl hreq resolved hres r hr he _
    refine absurd ?_ he.1
    obtain ⟨i, hi, hitem⟩ := ((AnalysisService.resolveRecords_ok hres).lineOk r hr).item
    have hzero := h.1
    simp only [hreq, Option.all_some, List.all_eq_true, decide_eq_true_eq] at hzero
    rw [hitem, AnalysisService.Item.withReviewer]
    have := hzero i (AnalysisService.mem_of_mem_operations hi)
    split <;> exact this
  · intro c paths hrun l line _ hline
    have hrows := h.2
    rw [hrun] at hrows
    simp only [Option.all_some, List.all_eq_true] at hrows
    have hmem := (AnalysisService.lineOfScan_eq_some.1 hline).1
    simpa [hline] using hrows (l, line) (Keyed.get?_eq_some_iff.1 hmem)

theorem progress_counts_last_operation_sample :
    Counted (Trace.run (Action.exec Sample.env) Db.empty
        (Sample.inherited ++ [.mutate (.confirm 1 2 [3] [] (some 1) "bob")]))
      (Trace.run (watch Sample.env) (Db.empty, fun _ _ => false)
        (Sample.inherited ++ [.mutate (.confirm 1 2 [3] [] (some 1) "bob")])).2 := by
  have halong : Trace.Along (watch Sample.env) (fun st a => Sample.countsHuman st.1 a = true)
      (Db.empty, fun _ _ => false)
      (Sample.inherited ++ [.mutate (.confirm 1 2 [3] [] (some 1) "bob")]) := by decide +kernel
  exact progress_counts_last_operation
    (halong.mono fun st a ha => Sample.countsHuman_sound ha)

/-- The two lines of the first scan, concluded once more under their record with two spellings of the
status. -/
def Sample.twoStatuses : Action :=
  .mutate (.save "fos" 1 [{ Sample.conclude 1 2 "可覆盖" with
    conclusionStatus := some "未确认", recordId := 1, expectedRecordRevision := some 1 }] "ann" true)

/-- The last operation on the line is a non-draft save with a confirmed status, and the line is
counted as pending. -/
theorem saved_conclusion_counts_as_pending :
    ∃ line, lineOfScan (Trace.run (Action.exec Sample.env) Db.empty
        (Sample.reviewed ++ [Sample.twoStatuses])) 1 1 = some line ∧
      ((Trace.run (Action.exec Sample.env) Db.empty
        (Sample.reviewed ++ [Sample.twoStatuses])).lineReview 1 1 line).uncovered = true ∧
      (Trace.run (watch Sample.env) (Db.empty, fun _ _ => false)
        (Sample.reviewed ++ [Sample.twoStatuses])).2 1 1 = true ∧
      ((Trace.run (Action.exec Sample.env) Db.empty
        (Sample.reviewed ++ [Sample.twoStatuses])).lineReview 1 1 line).countedConfirmed = false := by
  have hsome : ((lineOfScan (Trace.run (Action.exec Sample.env) Db.empty
      (Sample.reviewed ++ [Sample.twoStatuses])) 1 1).any fun line =>
        ((Trace.run (Action.exec Sample.env) Db.empty
          (Sample.reviewed ++ [Sample.twoStatuses])).lineReview 1 1 line).uncovered &&
        !((Trace.run (Action.exec Sample.env) Db.empty
          (Sample.reviewed ++ [Sample.twoStatuses])).lineReview 1 1 line).countedConfirmed) =
      true := by decide +kernel
  obtain ⟨line, hl, hline⟩ := (Option.any_eq_true _ _).1 hsome
  rw [Bool.and_eq_true, Bool.not_eq_true'] at hline
  exact ⟨line, hl, hline.1, by decide +kernel, hline.2⟩

end FosCoverage
