import FosCoverage.Analysis.AuditInvariant

/-!
# The audit over sequences of operations

The engine re-links lines of the Candidate.  There are two ways in which a run breaks the audit: a
line it links again held the last reference to its record, or the relation of the line is rejected
and becomes active under an active rejection.  `EngineKeeps` excludes these in terms of the state
before the run, and `audit_invariant` puts saves, reviews and engine runs together.
-/

set_option autoImplicit false

namespace FosCoverage

open Relational Outcome AnalysisDomainRepository AnalysisDomainService

/-! ## Engine runs -/

/-- A run on a Candidate that is not its own predecessor links no line with an active rejection, and
no record loses its last reference. -/
structure EngineKeeps (env : Env) (db : Db) (scanId : Nat) (paths : List (String × String)) :
    Prop where
  /-- The Candidate is not its own predecessor. -/
  predecessor : ∀ ctx, InheritanceEngine.RunContext.Of env db scanId paths ctx →
    ctx.predecessorScanId ≠ scanId
  /-- No line the engine links is rejected. -/
  rejection : ∀ k x, db.domain.rejections.get? k = some x → x.isActive = true →
    ¬ (x.scanId = scanId ∧ InheritanceEngine.Reaches env db scanId paths x.lineId)
  /-- The record of a line the engine links again has another reference. -/
  record : ∀ k q, db.domain.links.get? k = some q →
    (q.scanId = scanId ∧ InheritanceEngine.Reaches env db scanId paths q.lineId) →
    db.domain.KeepsReference (fun q => q.scanId = scanId ∧
      InheritanceEngine.Reaches env db scanId paths q.lineId) q.recordId

section Engine

variable {env : Env} {db : Db} {scanId : Nat} {paths : List (String × String)}

open InheritanceEngine

theorem InheritanceEngine.Inherits.auditStep {ctx : RunContext} {d : Db} {r : SourceRelation}
    {lineId : Nat} {line : LineRow} {i : Inheritance} (hi : Inherits ctx d r lineId line i) :
    AuditStep d (i.after d ctx.candidateScanId) := by
  constructor
  case facts => rfl
  case blocks =>
    refine ⟨i.newBlocks, rfl, fun b hb => ?_⟩
    obtain ⟨_, _, _, _, file, hfile, hscan⟩ := hi.newBlock b hb
    simp [AnalysisDomainService.blockBound, hfile, hscan]
  case groups => exact fun g row hg => Table.get?_insertMany_of_some hg
  case sameLines => exact SameLines.writeLinks ctx.candidateScanId [i.item]
  case links =>
    intro k q hk
    have written : ∀ rev,
        linkFits (i.after d ctx.candidateScanId) (i.item.link ctx.candidateScanId rev) = true ∧
        sourceFits (i.after d ctx.candidateScanId) (i.item.link ctx.candidateScanId rev) =
          true := by
      intro rev
      constructor
      · refine linkFits_of_valid hi.valid rfl rfl rfl fun b hb row hrow => ?_
        obtain ⟨blockId, hblock, row', hrow', _, h₁, h₂⟩ := hi.hasBlock
        obtain rfl := Option.some.inj (hblock.symm.trans hb)
        obtain rfl := Option.some.inj (hrow'.symm.trans hrow)
        exact ⟨h₁, h₂⟩
      · have hvalid := hi.valid
        obtain ⟨blockId, groupId, hitem⟩ := hi.item
        simp only [validateLink, bind_eq_ok] at hvalid
        obtain ⟨_, _, _, _, _, _, _, _, _, hsource, _⟩ := hvalid
        rw [hitem] at hsource
        simp only [inheritedLink, validateSource, bind_eq_ok, orFail_eq_ok,
          require_eq_ok] at hsource
        obtain ⟨q', hq', hs, hl⟩ := hsource
        obtain ⟨q'', hq'', hs', hl'⟩ := SameLines.writeLinks ctx.candidateScanId [i.item] _ q' hq'
        have hq₂ : (i.after d ctx.candidateScanId).domain.links.get? r.id = some q'' := hq''
        rw [hitem]
        refine (Option.any_eq_true _ _).2 ⟨q'', hq₂, ?_⟩
        rw [decide_eq_true_eq]
        exact ⟨hs'.trans hs, hl'.trans hl⟩
    rcases get?_writeLink hk with ⟨hold, _⟩ | ⟨q₀, _, _, _, rfl⟩ | ⟨_, _, rfl⟩
    · exact .inl ⟨q, hold, SameIdentity.refl q⟩
    · exact .inr (written _)
    · exact .inr (written _)

/-- The invariant of a run: what was not reached is untouched, and what was written is anchored. -/
structure RunAudit (env : Env) (db : Db) (scanId : Nat) (paths : List (String × String))
    (d : Db) : Prop where
  /-- The audit passes. -/
  audit : AuditInv d
  /-- No rejection changes. -/
  rejections : d.domain.rejections = db.domain.rejections
  /-- No block is lost. -/
  blocks : ∀ k b, db.domain.blocks.get? k = some b → d.domain.blocks.get? k = some b
  /-- A relation is an old one, or the block made for its record keeps the record. -/
  links : ∀ k q, d.domain.links.get? k = some q →
    db.domain.links.get? k = some q ∨ d.domain.Anchored q.recordId
  /-- The relations of the lines that no relation of the predecessor is mapped to. -/
  others : ∀ k q, db.domain.links.get? k = some q →
    ¬ (q.scanId = scanId ∧ Reaches env db scanId paths q.lineId) →
    d.domain.links.get? k = some q

theorem RunAudit.anchored {d : Db} (h : RunAudit env db scanId paths d) {recordId : Nat}
    (ha : db.domain.Anchored recordId) : d.domain.Anchored recordId := by
  rcases ha with ⟨k, b, hk, hb⟩ | hx
  · exact .inl ⟨k, b, h.blocks k b hk, hb⟩
  · exact .inr (by rw [h.rejections]; exact hx)

theorem InheritanceEngine.Inheritance.anchored_after {d : Db} (i : Inheritance) (c : Nat)
    {recordId : Nat} (h : d.domain.Anchored recordId) :
    (i.after d c).domain.Anchored recordId := by
  rcases h with ⟨k, b, hk, hb⟩ | hx
  · exact .inl ⟨k, b, Table.get?_insertMany_of_some hk, hb⟩
  · exact .inr hx

/-- One inherited relation keeps the invariant of the run. -/
theorem RunAudit.inherit {d : Db} (h : RunAudit env db scanId paths d)
    (hkeep : EngineKeeps env db scanId paths) {ctx : RunContext}
    (hctx : RunContext.Of env db scanId paths ctx) {r : SourceRelation} {lineId : Nat}
    {line : LineRow} {i : Inheritance} (hmap : Mapped ctx db r lineId line)
    (hi : Inherits ctx d r lineId line i) : RunAudit env db scanId paths (i.after d scanId) := by
  obtain rfl := hctx.candidate
  have hstep := hi.auditStep
  have hline : i.item.lineId = lineId := by
    obtain ⟨_, _, hitem⟩ := hi.item
    rw [hitem]
    rfl
  have hreach : Reaches env db ctx.candidateScanId paths i.item.lineId := by
    rw [hline]
    exact ⟨ctx, r, line, hctx, hmap⟩
  -- the written relation, and the block that keeps its record
  have written : (i.after d ctx.candidateScanId).domain.Linked i.item.recordId := by
    obtain ⟨k, rev, hf⟩ := findLink_writeLink d.domain.links ctx.candidateScanId i.item
    exact ⟨k, _, (findLink_some hf).1, rfl⟩
  have made : (i.after d ctx.candidateScanId).domain.Anchored i.item.recordId := by
    obtain ⟨blockId, _, row, hrow, hrec, _⟩ := hi.hasBlock
    exact .inl ⟨blockId, row, hrow, hrec⟩
  have stay : ∀ {k q}, d.domain.links.get? k = some q →
      ¬ (q.scanId = ctx.candidateScanId ∧ q.lineId = i.item.lineId) →
      (i.after d ctx.candidateScanId).domain.links.get? k = some q :=
    fun hk hne => get?_writeLink_of_ne hk hne
  constructor
  case audit =>
    constructor
    case toLinksOk => exact hi.linksOk h.audit.toLinksOk
    case fits => exact fun k q hk => hstep.fits h.audit hk
    case bound => exact fun k b hk => hstep.blockBound h.audit hk
    case source => exact fun k q hk => hstep.sourceFits h.audit hk
    case referenced =>
      intro k c hk
      rcases Table.get?_insertMany_cases hk with hold | ⟨hnew, hmem⟩
      · rcases h.audit.referenced k c hold with ⟨j, q, hq, rfl⟩ | hanch
        · by_cases hsame : q.scanId = ctx.candidateScanId ∧ q.lineId = i.item.lineId
          · -- the relation is replaced: an old one has another reference, a written one a block
            rcases h.links j q hq with hq₀ | hanch
            · rcases hkeep.record j q hq₀ ⟨hsame.1, by rw [hsame.2]; exact hreach⟩ with
                hanch | ⟨j', q', hq', hrec, hout⟩
              · exact .inr (i.anchored_after _ (h.anchored hanch))
              · refine .inl ⟨j', q', stay (h.others j' q' hq' hout) fun hs => hout ?_, hrec⟩
                exact ⟨hs.1, by rw [hs.2]; exact hreach⟩
            · exact .inr (i.anchored_after _ hanch)
          · exact .inl ⟨j, q, stay hq hsame, rfl⟩
        · exact .inr (i.anchored_after _ hanch)
      · rcases hi.recordId with ⟨hnil, _⟩ | ⟨c', hone, hid⟩
        · rw [hnil] at hmem
          cases hmem
        · have hlt : k < (d.domain.records.insertMany i.newRecords).next :=
            (Table.get?_issued hk).2
          rw [hone] at hlt
          simp only [Table.next_insertMany, List.length_singleton] at hlt
          obtain rfl : k = i.item.recordId := by omega
          exact .inl written
    case rejection =>
      intro k x hx hxa
      have hx₀ : d.domain.rejections.get? k = some x := hx
      obtain ⟨q, hq, hs, hl, _⟩ := h.audit.rejected_link hx₀ hxa
      refine h.audit.rejectionFits_of_eq hx₀ hxa ?_
      rw [hq]
      refine stay hq fun hsame => ?_
      rw [h.rejections] at hx₀
      refine hkeep.rejection k x hx₀ hxa ⟨hs.symm.trans hsame.1, ?_⟩
      rw [← hl, hsame.2]
      exact hreach
    case uniqueRejection => exact h.audit.uniqueRejection
  case rejections => exact h.rejections
  case blocks => exact fun k b hk => Table.get?_insertMany_of_some (h.blocks k b hk)
  case links =>
    intro k q hk
    rcases get?_writeLink hk with ⟨hold, _⟩ | ⟨q₀, _, _, _, rfl⟩ | ⟨_, _, rfl⟩
    · rcases h.links k q hold with hq | hanch
      · exact .inl hq
      · exact .inr (i.anchored_after _ hanch)
    · exact .inr made
    · exact .inr made
  case others =>
    intro k q hk hout
    refine stay (h.others k q hk hout) fun hsame => hout ⟨hsame.1, ?_⟩
    rw [hsame.2]
    exact hreach

/-- **A run that keeps references keeps the audit.** -/
theorem AuditInv.engine {db' : Db} {readSet : Option ReadSet} (h : AuditInv db)
    (hkeep : EngineKeeps env db scanId paths)
    (hok : InheritanceEngine.run env db scanId paths = .ok (db', readSet)) : AuditInv db' := by
  refine (run_inv_mapped (P := RunAudit env db scanId paths) hok h.toLinksOk hkeep.predecessor
    ?_ ?_ ?_).2.audit
  · intro d rows _ hd
    exact ⟨hd.audit.of_decisions _, hd.rejections, hd.blocks, hd.links, hd.others⟩
  · intro ctx hctx d r lineId line i _ _ hd hmap hi
    exact hd.inherit hkeep hctx hmap hi
  · exact ⟨h, rfl, fun _ _ hk => hk, fun _ _ hk => .inl hk, fun _ _ hk _ => hk⟩

end Engine

/-! ## Sequences of operations -/

/-- An analysis operation or an engine run. -/
def Action.analyses : Action → Bool
  | .mutate _ | .runEngine _ _ => true
  | _ => false

/-- No record loses its last reference, and no rejected line is linked by the engine. -/
def KeepsReferences (env : Env) (db : Db) : Action → Prop
  | .mutate (.save _ scanId records reviewer _) => SaveKeeps env db scanId records reviewer
  | .mutate (.editConfirm _ scanId records reviewer) => SaveKeeps env db scanId records reviewer
  | .runEngine scanId paths => EngineKeeps env db scanId paths
  | _ => True

theorem AuditInv.save {env : Env} {db db' : Db} {projectName reviewer : String} {scanId : Nat}
    {records : List AnalysisService.Item} {enforceCurrent : Bool} (h : AuditInv db)
    (hkeep : SaveKeeps env db scanId records reviewer)
    (hok : AnalysisService.save env db projectName scanId records reviewer enforceCurrent =
      .ok db') : AuditInv db' := by
  by_cases hne : records = []
  · subst hne
    obtain ⟨p, rfl⟩ := AnalysisService.save_nil hok
    exact h.congr (by simp) (by simp)
  · obtain ⟨p, tr, _, hres, hsaved, hdom, hmut⟩ := AnalysisService.saved_of_ok hne hok
    exact h.saved hsaved hmut.facts hdom (hkeep _ hres)

/-- One step of a sequence. -/
theorem AuditInv.step {env : Env} {db db' : Db} {a : Action} (h : AuditInv db)
    (ha : a.analyses = true) (hkeep : KeepsReferences env db a) (hok : a.apply env db = .ok db') :
    AuditInv db' := by
  cases a with
  | mutate m =>
    cases m with
    | save => exact h.save hkeep hok
    | editConfirm => exact h.save hkeep hok
    | confirm => exact h.confirm hok
    | reject => exact h.reject hok
    | undo => exact h.undo hok
  | runEngine scanId paths =>
    obtain ⟨_, hrun⟩ := map_fst_eq_ok hok
    exact h.engine hkeep hrun
  | _ => cases ha

/-- **The audit is an invariant of every sequence of operations that keeps references.** -/
theorem audit_invariant {env : Env} {db : Db} {actions : List Action}
    (h : auditConsistency db none = true) (hb : BlocksExist db)
    (ha : ∀ a ∈ actions, a.analyses = true)
    (hkeep : Trace.Along (Action.exec env) (KeepsReferences env) db actions) :
    auditConsistency (Trace.run (Action.exec env) db actions) none = true := by
  have hinv : AuditInv (Trace.run (Action.exec env) db actions) := by
    have h₀ := auditInv_iff.2 ⟨h, hb⟩
    clear h hb
    induction actions generalizing db with
    | nil => exact h₀
    | cons a actions ih =>
      refine ih (fun b hb => ha b (List.mem_cons_of_mem _ hb)) hkeep.2 ?_
      unfold Action.exec
      split
      · exact h₀.step (ha a List.mem_cons_self) hkeep.1 ‹_›
      · exact h₀
  exact (auditInv_iff.1 hinv).1

/-- A save keeps references when every linked record has a block. -/
theorem SaveKeeps.of_blocks {env : Env} {db : Db} {scanId : Nat}
    {records : List AnalysisService.Item} {reviewer : String}
    (h : (db.domain.links.rows.all fun q => db.domain.blocks.rows.any fun b =>
      b.2.originatingRecordId = some q.2.recordId) = true) :
    SaveKeeps env db scanId records reviewer := by
  intro resolved _ k q hk _
  have hq := List.all_eq_true.1 h (k, q) (Keyed.get?_eq_some_iff.1 hk)
  obtain ⟨j, b, hb, hrec⟩ := (any_rows_iff (t := db.domain.blocks.toKeyed)
    (p := fun b => decide (b.originatingRecordId = some q.recordId))).1 hq
  exact .inl (.inl (.inl ⟨j, b, hb, by simpa using hrec⟩))

theorem blocksExist_of_rows {db : Db} (h : (db.domain.links.rows.all fun q =>
    q.2.blockId.all fun b => (db.domain.blocks.get? b).isSome) = true) : BlocksExist db := by
  intro k q hk b hb
  have hq := List.all_eq_true.1 h (k, q) (Keyed.get?_eq_some_iff.1 hk)
  rw [show q.blockId = some b from hb] at hq
  exact hq

theorem audit_invariant_sample :
    auditConsistency (Trace.run (Action.exec Sample.env) Sample.inheritedDb
      [.mutate (.reject 1 2 3 "ann" 1),
        .mutate (.save "fos" 2 [Sample.conclude 1 2 "无法覆盖"] "bob" true)]) none = true := by
  refine audit_invariant (by decide +kernel) (blocksExist_of_rows (by decide +kernel))
    (by simp [Action.analyses]) ?_
  refine ⟨trivial, ?_, trivial⟩
  exact SaveKeeps.of_blocks (by decide +kernel)

/-- The first scan with a conclusion from before the analysis domain, migrated. -/
def Sample.migratedDb : Db :=
  let db := Action.exec Sample.env Db.empty (Sample.firstScan [Sample.twoLines])
  Action.exec Sample.env
    { db with domain.analyses := Keyed.empty.put 1 ⟨"可覆盖", false, "ann", "", "", ""⟩ }
    (.backfill 1)

/-- A new conclusion for a migrated line leaves the migrated record without a reference. -/
theorem audit_fails_after_save_of_migrated_line :
    auditConsistency Sample.migratedDb none = true ∧ BlocksExist Sample.migratedDb ∧
    ∃ db', AnalysisService.save Sample.env Sample.migratedDb "fos" 1
        [Sample.conclude 1 1 "无法覆盖"] "bob" true = .ok db' ∧
      auditConsistency db' none = false := by
  have hsave := Mutation.apply_eq_ok (show ((Mutation.save "fos" 1
    [Sample.conclude 1 1 "无法覆盖"] "bob" true).apply Sample.env Sample.migratedDb).isOk = true by
      decide +kernel)
  exact ⟨by decide +kernel, blocksExist_of_rows (by decide +kernel), _, hsave, by decide +kernel⟩

end FosCoverage
