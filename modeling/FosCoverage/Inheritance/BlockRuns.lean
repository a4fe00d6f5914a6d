import FosCoverage.Inheritance.LineMap
import FosCoverage.Inheritance.EngineSpec
import FosCoverage.Lib.MaximalRun
import FosCoverage.System

/-!
# The blocks of inherited relations

A block of the predecessor is carried over as the maximal runs of candidate lines that its lines
are mapped to.  `candidateBlockForRelation` makes the block of the run that contains the target
line of a relation, and remembers it for the other relations of the source block.

* `BlockCall` is a call of it, as `runRelation` makes it (`blockCall`).
* `BlockHistory` are the states of a run between two relations, with the calls made so far for one
  source block.
* What is remembered is a maximal run that contains the targets of all these calls (`BlocksOk`).

The key under which a block is remembered says nothing of the run.  So a call gets the right block
exactly when the targets of the earlier calls with its key are in its own run
(`candidate_block_iff`).
-/

set_option autoImplicit false

namespace FosCoverage

open Relational Outcome

namespace InheritanceEngine

open AnalysisDomainRepository

/-! ## Calls -/

/-- A call of `_candidate_block_for_relation`. -/
structure BlockCall where
  /-- The state of the run. -/
  state : RunState
  /-- The id of the target line. -/
  lineId : Nat
  /-- The target line. -/
  line : LineRow
  /-- The cloned record. -/
  recordId : Nat

/-- `target_number` -/
def BlockCall.target (c : BlockCall) : Nat := c.line.facts.lineNumber

/-- `cache_key` -/
def BlockCall.key (c : BlockCall) (mapping : LineMapping) (r : SourceRelation) : BlockCacheKey :=
  ⟨r.link.blockId.getD 0, c.line.fileId, mapping.fingerprint, (sourceRange r).1, (sourceRange r).2,
    c.recordId⟩

/-- The call `runRelation` makes for a relation, if any. -/
def blockCall (ctx : RunContext) (source : SourceText) (targetFileId : Nat) (st : RunState)
    (r : SourceRelation) : Option BlockCall :=
  match source.mapping.get r.line.facts.lineNumber with
  | none => none
  | some newLineNumber =>
    match LineIndexRepository.getLine st.db targetFileId newLineNumber with
    | none => none
    | some (lineId, line) =>
      match compareRelation source r line newLineNumber with
      | some _ => none
      | none =>
        let db := writeDecision st.db ctx.runId ctx.candidateScanId lineId (some r) "INHERITED"
        if ((findDecision st.db ctx.runId lineId).any fun d => d.2.inherited) ∧
            (db.activeLink ctx.candidateScanId lineId).isSome then none
        else match cloneRecord { st with db := db } r.link.recordId with
          | .ok (state, clone) => some ⟨state, lineId, line, clone⟩
          | .error _ => none

/-- What `runRelation` does with the block: the group and the relation. -/
def linkBlock (ctx : RunContext) (mapping : LineMapping) (r : SourceRelation) (c : BlockCall)
    (st : RunState) (blockId : Nat) : Except Failure RunState := do
  let (db, groupId) := ensureGroup ctx mapping st.db r c.line
  let db ← createLink db ctx.candidateScanId
    (inheritedLink ctx r c.lineId c.recordId blockId groupId c.line)
  pure { st with db := db }

section Calls

variable {ctx : RunContext} {source : SourceText} {targetFileId : Nat} {st st' : RunState}
  {r : SourceRelation} {c : BlockCall}

theorem writeDecision_blocks (db : Db) (runId : String) (candidateScanId lineId : Nat)
    (relation : Option SourceRelation) (reason : String) :
    (writeDecision db runId candidateScanId lineId relation reason).domain.blocks =
        db.domain.blocks ∧
      (writeDecision db runId candidateScanId lineId relation reason).facts = db.facts := by
  obtain ⟨rows, hrows⟩ := writeDecision_eq db runId candidateScanId lineId relation reason
  rw [hrows]
  exact ⟨rfl, rfl⟩

theorem cloneRecord_blocks {recordId clone : Nat} (h : cloneRecord st recordId = .ok (st', clone)) :
    st'.candidateBlockCache = st.candidateBlockCache ∧ st'.db.domain.blocks = st.db.domain.blocks ∧
      st'.db.facts = st.db.facts := by
  unfold cloneRecord at h
  split at h
  · obtain ⟨rfl, -⟩ := Prod.mk.inj (pure_eq_ok.1 h)
    exact ⟨rfl, rfl, rfl⟩
  · simp only [bind_eq_ok, createRecord, pure_eq_ok, Prod.mk.injEq] at h
    obtain ⟨_, _, rfl, -⟩ := h
    exact ⟨rfl, rfl, rfl⟩

/-- A relation is only inherited with a block. -/
theorem blockId_of_compareRelation {line : LineRow} {newLineNumber : Nat}
    (h : compareRelation source r line newLineNumber = none) : r.link.blockId.getD 0 ≠ 0 := by
  unfold compareRelation at h
  dsimp only at h
  split at h
  · cases h
  · split at h
    · rename_i hverified
      rw [blockVerified, decide_eq_true_iff] at hverified
      exact hverified.1
    · cases h

/-- What a call is about. -/
theorem blockCall_spec (h : blockCall ctx source targetFileId st r = some c) :
    source.mapping.get r.line.facts.lineNumber = some c.target ∧ r.link.blockId.getD 0 ≠ 0 ∧
      c.state.db.facts.lines.get? c.lineId = some c.line ∧
      c.state.candidateBlockCache = st.candidateBlockCache ∧
      c.state.db.domain.blocks = st.db.domain.blocks := by
  unfold blockCall at h
  split at h
  · cases h
  rename_i newLineNumber hmap
  split at h
  · cases h
  rename_i lineId line hline
  split at h
  · cases h
  rename_i hcmp
  dsimp only at h
  split at h
  · cases h
  split at h
  · rename_i state clone hclone
    obtain rfl := Option.some.inj h
    obtain ⟨hcache, hblocks, hfacts⟩ := cloneRecord_blocks hclone
    obtain ⟨hblocks', hfacts'⟩ := writeDecision_blocks st.db ctx.runId ctx.candidateScanId lineId
      (some r) "INHERITED"
    have hfound := List.find?_some hline
    simp only [decide_eq_true_eq] at hfound
    refine ⟨hmap.trans (congrArg some hfound.2.symm), blockId_of_compareRelation hcmp, ?_, hcache,
      hblocks.trans hblocks'⟩
    rw [hfacts, hfacts']
    exact Keyed.get?_eq_some_iff.2 (List.mem_of_find?_eq_some hline)
  · cases h

/-- A relation with a call gets its block, and is then linked to it. -/
theorem runRelation_of_call (h : blockCall ctx source targetFileId st r = some c) :
    runRelation ctx source targetFileId st r =
      (candidateBlockForRelation ctx source.mapping c.state r c.line c.recordId >>= fun p =>
        linkBlock ctx source.mapping r c p.1 p.2) := by
  unfold blockCall at h
  unfold runRelation
  cases hmap : source.mapping.get r.line.facts.lineNumber with
  | none =>
    rw [hmap] at h
    cases h
  | some newLineNumber =>
    rw [hmap] at h
    dsimp only at h ⊢
    rcases hline : LineIndexRepository.getLine st.db targetFileId newLineNumber with _ | ⟨lineId, line⟩
    · rw [hline] at h
      cases h
    · rw [hline] at h
      dsimp only at h ⊢
      rw [persistRelationDecision]
      cases hcmp : compareRelation source r line newLineNumber with
      | some reason =>
        rw [hcmp] at h
        cases h
      | none =>
        rw [hcmp] at h
        dsimp only [Option.getD] at h ⊢
        split at h
        · cases h
        · rename_i hno
          rw [if_neg hno, inheritRelation]
          split at h
          · rename_i state clone hclone
            obtain rfl := Option.some.inj h
            rw [hclone]
            rfl
          · cases h

/-- A relation without a call leaves the blocks alone. -/
theorem runRelation_of_no_call (h : blockCall ctx source targetFileId st r = none)
    (hok : runRelation ctx source targetFileId st r = .ok st') :
    st'.candidateBlockCache = st.candidateBlockCache ∧
      st'.db.domain.blocks = st.db.domain.blocks := by
  unfold blockCall at h
  unfold runRelation at hok
  cases hmap : source.mapping.get r.line.facts.lineNumber with
  | none =>
    rw [hmap] at hok
    obtain rfl := pure_eq_ok.1 hok
    exact ⟨rfl, rfl⟩
  | some newLineNumber =>
    rw [hmap] at h hok
    dsimp only at h hok
    rcases hline : LineIndexRepository.getLine st.db targetFileId newLineNumber with _ | ⟨lineId, line⟩
    · rw [hline] at hok
      obtain rfl := pure_eq_ok.1 hok
      exact ⟨rfl, rfl⟩
    · rw [hline] at h hok
      dsimp only at h hok
      rw [persistRelationDecision] at hok
      have hblocks := fun reason => (writeDecision_blocks st.db ctx.runId ctx.candidateScanId lineId
        (some r) reason).1
      cases hcmp : compareRelation source r line newLineNumber with
      | some reason =>
        rw [hcmp] at hok
        obtain rfl := pure_eq_ok.1 hok
        exact ⟨rfl, hblocks _⟩
      | none =>
        rw [hcmp] at h hok
        dsimp only [Option.getD] at h hok
        split at h
        · rename_i hdone
          rw [if_pos hdone] at hok
          obtain rfl := pure_eq_ok.1 hok
          exact ⟨rfl, hblocks _⟩
        · rename_i hno
          rw [if_neg hno, inheritRelation] at hok
          split at h
          · cases h
          · rename_i e hclone
            rw [hclone] at hok
            cases hok

end Calls

/-! ## The selected run -/

/-- A relation of a source block of at most 20000 lines, whose line is one of the block. -/
structure OfBlock (sourceBlockId : Nat) (r : SourceRelation) (block : Block) : Prop where
  /-- The block's id. -/
  blockId : r.link.blockId = some sourceBlockId
  /-- The block. -/
  row : r.block = some block
  /-- It starts at a line. -/
  start : 0 < block.startLine
  /-- The relation's line is not before it, -/
  after : block.startLine ≤ r.line.facts.lineNumber
  /-- nor behind it. -/
  before : r.line.facts.lineNumber ≤ block.endLine
  /-- It is not too long. -/
  span : block.endLine - block.startLine + 1 ≤ 20000

/-- The candidate lines that the lines of a source range are mapped to. -/
def Image (mapping : LineMapping) (sourceStart sourceEnd n : Nat) : Prop :=
  ∃ k, sourceStart ≤ k ∧ k ≤ sourceEnd ∧ mapping.get k = some n

section Selected

variable {sourceBlockId : Nat} {r : SourceRelation} {block : Block} {mapping : LineMapping}

theorem OfBlock.sourceRange (h : OfBlock sourceBlockId r block) :
    sourceRange r = (block.startLine, block.endLine) := by
  have hstart := h.start
  have hend : block.endLine ≠ 0 := by
    have := h.after
    have := h.before
    omega
  rw [InheritanceEngine.sourceRange, h.row]
  simp [hend, Nat.ne_of_gt hstart]

theorem pairwise_mapped (hinc : mapping.Increasing) (first length : Nat) :
    ((List.range' first length).filterMap mapping.get).Pairwise (· < ·) := by
  rw [List.pairwise_filterMap]
  exact (List.pairwise_lt_range' ..).imp fun hlt _ hi _ hj => hinc _ _ _ _ hi hj hlt

/-- **The selected run is the maximal run of the block's image around the target line.** -/
theorem selectedRun_spec (hinc : mapping.Increasing) (hr : OfBlock sourceBlockId r block) {t : Nat}
    (ht : mapping.get r.line.facts.lineNumber = some t) :
    (∀ n, n ∈ selectedRun mapping r t ↔
        (selectedRun mapping r t).headD 0 ≤ n ∧ n ≤ (selectedRun mapping r t).getLastD 0) ∧
      t ∈ selectedRun mapping r t ∧
      MaximalRun (Image mapping block.startLine block.endLine) ((selectedRun mapping r t).headD 0)
        ((selectedRun mapping r t).getLastD 0) := by
  have hrange := hr.sourceRange
  have hle : block.startLine ≤ block.endLine := Nat.le_trans hr.after hr.before
  obtain ⟨numbers, hnumbers⟩ : ∃ l, l = (List.range' block.startLine
    (block.endLine - block.startLine + 1)).filterMap mapping.get := ⟨_, rfl⟩
  have hmem : ∀ n, n ∈ numbers ↔ Image mapping block.startLine block.endLine n := by
    intro n
    rw [hnumbers, List.mem_filterMap]
    refine exists_congr fun k => ?_
    rw [List.mem_range'_1, and_assoc]
    refine and_congr_right fun _ => and_congr_left fun _ => ?_
    omega
  have hin : t ∈ (Grouping.groups Grouping.gap numbers).flatten := by
    rw [Grouping.flatten_groups, hmem]
    exact ⟨_, hr.after, hr.before, ht⟩
  obtain ⟨run, hrun, htrun⟩ := List.mem_flatten.1 hin
  have hselected : ∃ g ∈ Grouping.groups Grouping.gap numbers, t ∈ g ∧ selectedRun mapping r t = g := by
    cases hfind : (Grouping.groups Grouping.gap numbers).find? fun g => g.contains t with
    | none =>
      have := List.find?_eq_none.1 hfind run hrun
      rw [List.contains_iff_mem] at this
      exact absurd htrun this
    | some g =>
      have htg := List.find?_some hfind
      rw [List.contains_iff_mem] at htg
      refine ⟨g, List.mem_of_find?_eq_some hfind, htg, ?_⟩
      have hspan := hr.span
      have hstart := hr.start
      have hcontiguous : contiguousRuns numbers = Grouping.groups Grouping.gap numbers := rfl
      rw [selectedRun, hrange]
      dsimp only
      rw [if_neg (by omega), ← hnumbers, hcontiguous, hfind]
  obtain ⟨g, hg, htg, heq⟩ := hselected
  obtain ⟨a, b, ha, hb, hmemg, hmax⟩ := Grouping.runs_spec
    (hnumbers ▸ pairwise_mapped hinc _ _) hg
  have hhead : g.headD 0 = a := by rw [List.headD_eq_head?_getD, ha]; rfl
  have hlast : g.getLastD 0 = b := by rw [List.getLastD_eq_getLast?, hb]; rfl
  rw [heq, hhead, hlast]
  refine ⟨hmemg, htg, fun n hn hn' => (hmem n).1 (hmax.mem n hn hn'), fun n hn h => ?_, fun h => ?_⟩
  · exact hmax.before n hn ((hmem n).2 h)
  · exact hmax.behind ((hmem _).2 h)

end Selected

/-! ## Getting the block, and linking to it -/

section Block

variable {ctx : RunContext} {mapping : LineMapping} {st st' st'' : RunState} {r : SourceRelation}
  {c : BlockCall} {blockId : Nat}

/-- The block is the remembered one, or a new one for the selected run. -/
theorem candidateBlock_cases
    (h : candidateBlockForRelation ctx mapping st r c.line c.recordId = .ok (st', blockId)) :
    r.link.blockId.getD 0 ≠ 0 ∧ st'.db.facts = st.db.facts ∧
      ((st.candidateBlockCache.lookup (c.key mapping r) = some blockId ∧ st' = st) ∨
        (st.candidateBlockCache.lookup (c.key mapping r) = none ∧
          st'.candidateBlockCache = (c.key mapping r, blockId) :: st.candidateBlockCache ∧
          blockId = st.db.domain.blocks.next ∧
          ∃ row, st'.db.domain.blocks = st.db.domain.blocks.insert row ∧
            row.startLine = (selectedRun mapping r c.target).headD 0 ∧
            row.endLine = (selectedRun mapping r c.target).getLastD 0)) := by
  have hkey : c.key mapping r = ⟨r.link.blockId.getD 0, c.line.fileId, mapping.fingerprint,
      (sourceRange r).1, (sourceRange r).2, c.recordId⟩ := rfl
  simp only [candidateBlockForRelation, bind_eq_ok, require_eq_ok] at h
  obtain ⟨_, hne, h⟩ := h
  rw [hkey]
  generalize sourceRange r = range at h
  obtain ⟨sourceStart, sourceEnd⟩ := range
  dsimp only at h ⊢
  split at h
  · rename_i id hlook
    obtain ⟨rfl, rfl⟩ := Prod.mk.inj (pure_eq_ok.1 h)
    exact ⟨hne, rfl, .inl ⟨hlook, rfl⟩⟩
  · rename_i hlook
    simp only [bind_eq_ok, pure_eq_ok, Prod.mk.injEq, Prod.exists] at h
    obtain ⟨db, id, hb, rfl, rfl⟩ := h
    obtain ⟨rfl, rfl, -, -, -⟩ := createBlock_ok hb
    exact ⟨hne, rfl, .inr ⟨hlook, rfl, rfl, _, rfl, rfl, rfl⟩⟩

/-- A remembered block is returned. -/
theorem candidateBlock_of_lookup (hne : r.link.blockId.getD 0 ≠ 0)
    (h : st.candidateBlockCache.lookup (c.key mapping r) = some blockId) :
    candidateBlockForRelation ctx mapping st r c.line c.recordId = .ok (st, blockId) := by
  have hkey : c.key mapping r = ⟨r.link.blockId.getD 0, c.line.fileId, mapping.fingerprint,
      (sourceRange r).1, (sourceRange r).2, c.recordId⟩ := rfl
  rw [hkey] at h
  rw [candidateBlockForRelation, require, if_pos hne]
  generalize sourceRange r = range at h
  obtain ⟨sourceStart, sourceEnd⟩ := range
  dsimp only at h ⊢
  rw [h]
  rfl

theorem createLink_eq_ok {db db' : Db} {scanId : Nat} {item : LinkItem}
    (h : createLink db scanId item = .ok db') :
    validateLink db scanId .blockIdentityMismatch item = .ok () ∧
      db' = { db with domain.links := writeLink db.domain.links scanId item } := by
  simp only [createLink, bind_eq_ok, pure_eq_ok] at h
  obtain ⟨_, hvalid, rfl⟩ := h
  exact ⟨hvalid, rfl⟩

theorem linkBlock_ok (hline : st'.db.facts.lines.get? c.lineId = some c.line)
    (h : linkBlock ctx mapping r c st' blockId = .ok st'') :
    st''.candidateBlockCache = st'.candidateBlockCache ∧
      st''.db.domain.blocks = st'.db.domain.blocks ∧
      ∃ row, st'.db.domain.blocks.get? blockId = some row ∧ row.startLine ≤ c.target ∧
        c.target ≤ row.endLine := by
  obtain ⟨new, hgroup⟩ := ensureGroup_eq ctx mapping st'.db r c.line
  rw [linkBlock] at h
  generalize ensureGroup ctx mapping st'.db r c.line = pair at h hgroup
  obtain ⟨db, groupId⟩ := pair
  dsimp only at h hgroup
  subst hgroup
  obtain ⟨db', hlink, h⟩ := bind_eq_ok.1 h
  obtain ⟨hvalid, rfl⟩ := createLink_eq_ok hlink
  obtain rfl := pure_eq_ok.1 h
  simp only [validateLink, inheritedLink, bind_eq_ok, orFail_eq_ok, validateBlock, require_eq_ok]
    at hvalid
  obtain ⟨line, hl, _, _, _, ⟨row, hrow, _, _, hrange⟩, _⟩ := hvalid
  obtain rfl := Option.some.inj (hline.symm.trans (AnalysisService.lineOfScan_eq_some.1 hl).1)
  exact ⟨rfl, rfl, row, hrow, hrange⟩

/-- The failure of a line outside its block. -/
def rangeMismatch (f : Failure) : Bool := f = .blockLineRangeMismatch

/-- Linking to a block that contains the line does not fail for its range. -/
theorem linkBlock_range {row : Block} (hline : st'.db.facts.lines.get? c.lineId = some c.line)
    (hrow : st'.db.domain.blocks.get? blockId = some row)
    (hrange : row.startLine ≤ c.target ∧ c.target ≤ row.endLine) :
    Avoids rangeMismatch (linkBlock ctx mapping r c st' blockId) := by
  obtain ⟨new, hgroup⟩ := ensureGroup_eq ctx mapping st'.db r c.line
  rw [linkBlock]
  generalize ensureGroup ctx mapping st'.db r c.line = pair at hgroup
  obtain ⟨db, groupId⟩ := pair
  dsimp only at hgroup ⊢
  subst hgroup
  refine .bind (.bind ?_ fun _ => .pure _) fun _ => .pure _
  refine .bind_ok (.orFail rfl) fun line hl => .bind (.orFail rfl) fun _ => .bind ?_ fun _ =>
    .bind ?_ fun _ => .bind ?_ fun _ => ?_
  · obtain rfl := Option.some.inj (hline.symm.trans (AnalysisService.lineOfScan_eq_some.1 (orFail_eq_ok.1 hl)).1)
    refine .bind_ok (.orFail rfl) fun row' hrow' => .bind (.require rfl) fun _ => ?_
    obtain rfl : row = row' := Option.some.inj (hrow.symm.trans (orFail_eq_ok.1 hrow'))
    rw [BlockCall.target] at hrange
    rw [require, if_pos hrange]
    exact .ok _
  · unfold validateGroup
    split
    · exact .pure _
    · exact .bind (.orFail rfl) fun _ => .require rfl
  · unfold validateSource
    split
    · exact .pure _
    · exact .bind (.orFail rfl) fun _ => .require rfl
    · exact .error rfl
  · unfold validateRevision
    split
    · exact .pure _
    · exact .require rfl

end Block

/-! ## Runs -/

/-- The calls made so far for a source block: their keys and targets. -/
abbrev CallLog := List (BlockCacheKey × Nat)

/-- The entry of the log for one relation, if it makes a call. -/
def logEntry (ctx : RunContext) (source : SourceText) (targetFileId : Nat) (st : RunState)
    (r : SourceRelation) : CallLog :=
  ((blockCall ctx source targetFileId st r).map fun c =>
    (c.key source.mapping r, c.target)).toList

/-- The states of an engine run between two relations, with the calls made for one source block.
Relations of the block are those of one file; between them the run may treat any relations of other
blocks, and read on. -/
inductive BlockHistory (ctx : RunContext) (source : SourceText) (targetFileId sourceBlockId : Nat)
    (db : Db) : RunState → CallLog → Prop
  | start : BlockHistory ctx source targetFileId sourceBlockId db (RunState.start db) []
  | observe {st : RunState} {log : CallLog} (readSet : ReadSetAccumulator) :
    BlockHistory ctx source targetFileId sourceBlockId db st log →
    BlockHistory ctx source targetFileId sourceBlockId db { st with readSet := readSet } log
  | own {st st' : RunState} {log : CallLog} {r : SourceRelation} {block : Block} :
    BlockHistory ctx source targetFileId sourceBlockId db st log → OfBlock sourceBlockId r block →
    runRelation ctx source targetFileId st r = .ok st' →
    BlockHistory ctx source targetFileId sourceBlockId db st'
      (log ++ logEntry ctx source targetFileId st r)
  | other {st st' : RunState} {log : CallLog} {r : SourceRelation} {source' : SourceText}
      {targetFileId' : Nat} :
    BlockHistory ctx source targetFileId sourceBlockId db st log →
    r.link.blockId ≠ some sourceBlockId → runRelation ctx source' targetFileId' st r = .ok st' →
    BlockHistory ctx source targetFileId sourceBlockId db st' log

/-- What is remembered for a source block: under every key a maximal run of its image that contains
the targets of the calls with this key. -/
structure BlocksOk (mapping : LineMapping) (sourceBlockId : Nat) (log : CallLog) (st : RunState) :
    Prop where
  /-- A remembered block. -/
  remembered : ∀ key id, st.candidateBlockCache.lookup key = some id →
    key.sourceBlockId = sourceBlockId → ∃ row, st.db.domain.blocks.get? id = some row ∧
      MaximalRun (Image mapping key.sourceStart key.sourceEnd) row.startLine row.endLine ∧
      (∃ t, (key, t) ∈ log) ∧ ∀ t, (key, t) ∈ log → row.startLine ≤ t ∧ t ≤ row.endLine
  /-- Every call is remembered. -/
  called : ∀ key t, (key, t) ∈ log →
    key.sourceBlockId = sourceBlockId ∧ (st.candidateBlockCache.lookup key).isSome = true

section Runs

variable {ctx : RunContext} {source : SourceText} {targetFileId sourceBlockId : Nat} {db : Db}
  {st st' : RunState} {log : CallLog} {r : SourceRelation} {block : Block} {c : BlockCall}

/-- The relations of a run keep the remembered blocks. -/
theorem BlocksOk.mono {mapping : LineMapping} (h : BlocksOk mapping sourceBlockId log st)
    (hcache : ∀ key, key.sourceBlockId = sourceBlockId →
      st'.candidateBlockCache.lookup key = st.candidateBlockCache.lookup key)
    (hblocks : ∀ id row, st.db.domain.blocks.get? id = some row →
      st'.db.domain.blocks.get? id = some row) : BlocksOk mapping sourceBlockId log st' := by
  constructor
  · intro key id hlook hkey
    rw [hcache key hkey] at hlook
    obtain ⟨row, hrow, hrest⟩ := h.remembered key id hlook hkey
    exact ⟨row, hblocks id row hrow, hrest⟩
  · intro key t ht
    obtain ⟨hkey, hsome⟩ := h.called key t ht
    exact ⟨hkey, by rw [hcache key hkey]; exact hsome⟩

/-- What a relation with a call did. -/
theorem call_ok (hc : blockCall ctx source targetFileId st r = some c)
    (hok : runRelation ctx source targetFileId st r = .ok st') :
    ∃ st₁ id, candidateBlockForRelation ctx source.mapping c.state r c.line c.recordId =
        .ok (st₁, id) ∧
      st'.candidateBlockCache = st₁.candidateBlockCache ∧
      st'.db.domain.blocks = st₁.db.domain.blocks ∧
      ∃ row, st₁.db.domain.blocks.get? id = some row ∧ row.startLine ≤ c.target ∧
        c.target ≤ row.endLine := by
  obtain ⟨-, -, hline, -, -⟩ := blockCall_spec hc
  rw [runRelation_of_call hc] at hok
  obtain ⟨⟨st₁, id⟩, hblock, hlink⟩ := bind_eq_ok.1 hok
  have hfacts := (candidateBlock_cases (c := c) hblock).2.1
  obtain ⟨hcache, hblocks, hrow⟩ := linkBlock_ok (hfacts ▸ hline) hlink
  exact ⟨st₁, id, hblock, hcache, hblocks, hrow⟩

/-- A call that is answered by a remembered block. -/
theorem BlocksOk.recalled {mapping : LineMapping} {key₀ : BlockCacheKey} {id target : Nat}
    {row : Block} (h : BlocksOk mapping sourceBlockId log st)
    (hkey : key₀.sourceBlockId = sourceBlockId)
    (hlook : st.candidateBlockCache.lookup key₀ = some id)
    (hrow : st.db.domain.blocks.get? id = some row)
    (hrange : row.startLine ≤ target ∧ target ≤ row.endLine)
    (hcache : st'.candidateBlockCache = st.candidateBlockCache)
    (hblocks : st'.db.domain.blocks = st.db.domain.blocks) :
    BlocksOk mapping sourceBlockId (log ++ [(key₀, target)]) st' := by
  constructor
  · intro key id' hlook' hkey'
    rw [hcache] at hlook'
    obtain ⟨row', hrow', hmax, ⟨t, ht⟩, hall⟩ := h.remembered key id' hlook' hkey'
    refine ⟨row', by rw [hblocks]; exact hrow', hmax, ⟨t, List.mem_append_left _ ht⟩, ?_⟩
    intro t' ht'
    rcases List.mem_append.1 ht' with ht' | ht'
    · exact hall t' ht'
    · obtain ⟨rfl, rfl⟩ := Prod.mk.inj (List.mem_singleton.1 ht')
      obtain rfl := Option.some.inj (hlook.symm.trans hlook')
      obtain rfl := Option.some.inj (hrow.symm.trans hrow')
      exact hrange
  · intro key t ht
    rw [hcache]
    rcases List.mem_append.1 ht with ht | ht
    · exact h.called key t ht
    · obtain ⟨rfl, rfl⟩ := Prod.mk.inj (List.mem_singleton.1 ht)
      exact ⟨hkey, by rw [hlook]; rfl⟩

/-- A call that is answered by a new block. -/
theorem BlocksOk.created {mapping : LineMapping} {key₀ : BlockCacheKey} {target : Nat} {row : Block}
    (h : BlocksOk mapping sourceBlockId log st) (hkey : key₀.sourceBlockId = sourceBlockId)
    (hlook : st.candidateBlockCache.lookup key₀ = none)
    (hmax : MaximalRun (Image mapping key₀.sourceStart key₀.sourceEnd) row.startLine row.endLine)
    (hrange : row.startLine ≤ target ∧ target ≤ row.endLine)
    (hcache : st'.candidateBlockCache =
      (key₀, st.db.domain.blocks.next) :: st.candidateBlockCache)
    (hblocks : st'.db.domain.blocks = st.db.domain.blocks.insert row) :
    BlocksOk mapping sourceBlockId (log ++ [(key₀, target)]) st' := by
  constructor
  · intro key id hlook' hkey'
    rw [hcache, List.lookup_cons] at hlook'
    rw [hblocks]
    split at hlook'
    · rename_i heq
      obtain rfl : key = key₀ := by simpa using heq
      obtain rfl := Option.some.inj hlook'
      refine ⟨row, by rw [Table.get?_insert, if_pos rfl], hmax, ⟨target, by simp⟩, fun t ht => ?_⟩
      rcases List.mem_append.1 ht with ht | ht
      · -- no call before had this key
        have := (h.called _ t ht).2
        rw [hlook] at this
        cases this
      · obtain ⟨-, rfl⟩ := Prod.mk.inj (List.mem_singleton.1 ht)
        exact hrange
    · rename_i hne
      obtain ⟨row', hrow', hmax', ⟨t, ht⟩, hall⟩ := h.remembered key id hlook' hkey'
      refine ⟨row', Table.get?_insert_of_some hrow', hmax', ⟨t, List.mem_append_left _ ht⟩,
        fun t' ht' => ?_⟩
      rcases List.mem_append.1 ht' with ht' | ht'
      · exact hall t' ht'
      · obtain ⟨rfl, -⟩ := Prod.mk.inj (List.mem_singleton.1 ht')
        simp at hne
  · intro key t ht
    rw [hcache, List.lookup_cons]
    rcases List.mem_append.1 ht with ht | ht
    · obtain ⟨hkey', hsome⟩ := h.called key t ht
      refine ⟨hkey', ?_⟩
      split
      · rfl
      · exact hsome
    · obtain ⟨rfl, -⟩ := Prod.mk.inj (List.mem_singleton.1 ht)
      exact ⟨hkey, by simp⟩

/-- **The step lemma for the block's own relations.** -/
theorem BlocksOk.own (hinc : source.mapping.Increasing)
    (h : BlocksOk source.mapping sourceBlockId log st) (hr : OfBlock sourceBlockId r block)
    (hok : runRelation ctx source targetFileId st r = .ok st') :
    BlocksOk source.mapping sourceBlockId (log ++ logEntry ctx source targetFileId st r) st' := by
  cases hc : blockCall ctx source targetFileId st r with
  | none =>
    obtain ⟨hcache, hblocks⟩ := runRelation_of_no_call hc hok
    have hlog : logEntry ctx source targetFileId st r = [] := by rw [logEntry, hc]; rfl
    rw [hlog, List.append_nil]
    exact h.mono (fun _ _ => by rw [hcache]) fun _ _ hrow => by rw [hblocks]; exact hrow
  | some c =>
    have hlog : logEntry ctx source targetFileId st r = [(c.key source.mapping r, c.target)] := by
      rw [logEntry, hc]
      rfl
    obtain ⟨hmap, -, -, hcache₀, hblocks₀⟩ := blockCall_spec hc
    obtain ⟨st₁, id, hblock, hcache, hblocks, row, hrow, hrange⟩ := call_ok hc hok
    obtain ⟨-, -, hcases⟩ := candidateBlock_cases hblock
    have hkey : (c.key source.mapping r).sourceBlockId = sourceBlockId := by
      show r.link.blockId.getD 0 = sourceBlockId
      rw [hr.blockId]
      rfl
    rw [hlog]
    rcases hcases with ⟨hlook, rfl⟩ | ⟨hlook, hcache₁, hid, new, hblocks₁, hstart, hend⟩
    · -- the block was remembered, and the relation was linked to it
      rw [hcache₀] at hlook hcache
      rw [hblocks₀] at hrow hblocks
      exact h.recalled hkey hlook hrow hrange hcache hblocks
    · -- the block is new
      rw [hcache₀] at hlook hcache₁
      rw [hblocks₀] at hblocks₁ hid
      rw [hcache₁, hid] at hcache
      rw [hblocks₁] at hblocks hrow
      obtain rfl : new = row := by
        rw [hid, Table.get?_insert, if_pos rfl] at hrow
        exact Option.some.inj hrow
      refine h.created hkey hlook ?_ hrange hcache hblocks
      obtain ⟨-, -, hmax⟩ := selectedRun_spec hinc hr hmap
      rw [← hstart, ← hend] at hmax
      have hsource : (c.key source.mapping r).sourceStart = block.startLine ∧
          (c.key source.mapping r).sourceEnd = block.endLine := by
        have := hr.sourceRange
        exact ⟨congrArg Prod.fst this, congrArg Prod.snd this⟩
      rw [hsource.1, hsource.2]
      exact hmax

/-- **The step lemma for other relations.** -/
theorem BlocksOk.other {source' : SourceText} {targetFileId' : Nat}
    (h : BlocksOk source.mapping sourceBlockId log st) (hr : r.link.blockId ≠ some sourceBlockId)
    (hok : runRelation ctx source' targetFileId' st r = .ok st') :
    BlocksOk source.mapping sourceBlockId log st' := by
  cases hc : blockCall ctx source' targetFileId' st r with
  | none =>
    obtain ⟨hcache, hblocks⟩ := runRelation_of_no_call hc hok
    exact h.mono (fun _ _ => by rw [hcache]) fun _ _ hrow => by rw [hblocks]; exact hrow
  | some c =>
    obtain ⟨-, -, -, hcache₀, hblocks₀⟩ := blockCall_spec hc
    obtain ⟨st₁, id, hblock, hcache, hblocks, -⟩ := call_ok hc hok
    obtain ⟨hne, -, hcases⟩ := candidateBlock_cases hblock
    rcases hcases with ⟨-, rfl⟩ | ⟨-, hcache₁, -, new, hblocks₁, -, -⟩
    · exact h.mono (fun _ _ => by rw [hcache, hcache₀])
        fun _ _ hrow => by rw [hblocks, hblocks₀]; exact hrow
    · refine h.mono (fun key hkey => ?_) fun id row hrow => ?_
      · rw [hcache, hcache₁, hcache₀, List.lookup_cons]
        split
        · rename_i heq
          obtain rfl : key = c.key source'.mapping r := by simpa using heq
          have hid : r.link.blockId.getD 0 = sourceBlockId := hkey
          cases hb : r.link.blockId with
          | none => exact absurd (by rw [hb]; rfl) hne
          | some b =>
            rw [hb] at hid hr
            exact absurd (congrArg some hid) hr
        · rfl
      · rw [hblocks, hblocks₁, hblocks₀]
        exact Table.get?_insert_of_some hrow

theorem BlockHistory.blocksOk (hinc : source.mapping.Increasing)
    (h : BlockHistory ctx source targetFileId sourceBlockId db st log) :
    BlocksOk source.mapping sourceBlockId log st := by
  induction h with
  | start => exact ⟨fun _ _ h => (nomatch h), fun _ _ h => (nomatch h)⟩
  | observe readSet _ ih => exact ⟨ih.remembered, ih.called⟩
  | own _ hr hok ih => exact ih.own hinc hr hok
  | other _ hr hok ih => exact ih.other hr hok

/-- The loop of `runFile` over the relations of a file leads from one such state to another. -/
theorem BlockHistory.relations {rs : List SourceRelation}
    (h : BlockHistory ctx source targetFileId sourceBlockId db st log)
    (hrs : ∀ r ∈ rs, (∃ block, OfBlock sourceBlockId r block) ∨
      r.link.blockId ≠ some sourceBlockId)
    (hok : rs.foldlM (runRelation ctx source targetFileId) st = .ok st') :
    ∃ log', BlockHistory ctx source targetFileId sourceBlockId db st' log' := by
  refine foldlM_inv (fun st => ∃ log, BlockHistory ctx source targetFileId sourceBlockId db st log)
    (fun st₁ r st₂ hr hst hstep => ?_) ⟨log, h⟩ hok
  obtain ⟨log₁, h₁⟩ := hst
  rcases hrs r hr with ⟨block, hblock⟩ | hother
  · exact ⟨_, h₁.own hblock hstep⟩
  · exact ⟨_, h₁.other hother hstep⟩

end Runs

/-! ## The block of a call -/

/-- What is promised of a call for a relation of a source block: the block that is returned is the
maximal run of the block's image around the target line, and linking the line to it does not fail
for its range. -/
structure OwnRun (ctx : RunContext) (mapping : LineMapping) (r : SourceRelation) (block : Block)
    (c : BlockCall) : Prop where
  /-- The block. -/
  spans : ∀ st' id,
    candidateBlockForRelation ctx mapping c.state r c.line c.recordId = .ok (st', id) →
    ∃ row, st'.db.domain.blocks.get? id = some row ∧
      MaximalRun (Image mapping block.startLine block.endLine) row.startLine row.endLine ∧
      row.startLine ≤ c.target ∧ c.target ≤ row.endLine
  /-- The link. -/
  links : ∀ st' id,
    candidateBlockForRelation ctx mapping c.state r c.line c.recordId = .ok (st', id) →
    Avoids rangeMismatch (linkBlock ctx mapping r c st' id)

/-- **A call gets the block of its own run exactly when the targets of all earlier calls with its
key are in that run.** -/
theorem candidate_block_iff {ctx : RunContext} {source : SourceText}
    {targetFileId sourceBlockId : Nat} {db : Db} {st : RunState} {log : CallLog}
    {r : SourceRelation} {block : Block} {c : BlockCall}
    (hreach : BlockHistory ctx source targetFileId sourceBlockId db st log)
    (hinc : source.mapping.Increasing) (hr : OfBlock sourceBlockId r block)
    (hc : blockCall ctx source targetFileId st r = some c) :
    OwnRun ctx source.mapping r block c ↔
      ∀ t, (c.key source.mapping r, t) ∈ log → t ∈ selectedRun source.mapping r c.target := by
  have hok := hreach.blocksOk hinc
  obtain ⟨hmap, hne, hline, hcache, hblocks⟩ := blockCall_spec hc
  obtain ⟨hmem, htarget, hmax⟩ := selectedRun_spec hinc hr hmap
  have hkey : (c.key source.mapping r).sourceBlockId = sourceBlockId := by
    show r.link.blockId.getD 0 = sourceBlockId
    rw [hr.blockId]
    rfl
  have hsource : (c.key source.mapping r).sourceStart = block.startLine ∧
      (c.key source.mapping r).sourceEnd = block.endLine :=
    ⟨congrArg Prod.fst hr.sourceRange, congrArg Prod.snd hr.sourceRange⟩
  constructor
  · intro hown t ht
    obtain ⟨id, hlook⟩ := Option.isSome_iff_exists.1 (hok.called _ t ht).2
    obtain ⟨row, hrow, -, -, hall⟩ := hok.remembered _ id hlook hkey
    rw [← hcache] at hlook
    rw [← hblocks] at hrow
    obtain ⟨row', hrow', hmax', hrange⟩ := hown.spans _ id (candidateBlock_of_lookup hne hlook)
    obtain rfl := Option.some.inj (hrow.symm.trans hrow')
    obtain ⟨hstart, hend⟩ := hmax'.unique hmax hrange ((hmem _).1 htarget)
    rw [hmem, ← hstart, ← hend]
    exact hall t ht
  · intro hsame
    have hspans : ∀ st' id,
        candidateBlockForRelation ctx source.mapping c.state r c.line c.recordId = .ok (st', id) →
        ∃ row, st'.db.domain.blocks.get? id = some row ∧
          MaximalRun (Image source.mapping block.startLine block.endLine) row.startLine
            row.endLine ∧ row.startLine ≤ c.target ∧ c.target ≤ row.endLine := by
      intro st' id h
      obtain ⟨-, -, ⟨hlook, rfl⟩ | ⟨-, -, hid, row, hrow, hstart, hend⟩⟩ := candidateBlock_cases h
      · -- a target of an earlier call is in both runs
        rw [hcache] at hlook
        obtain ⟨row, hrow, hmax', ⟨t, ht⟩, hall⟩ := hok.remembered _ id hlook hkey
        rw [hsource.1, hsource.2] at hmax'
        obtain ⟨hstart, hend⟩ := hmax'.unique hmax (hall t ht) ((hmem t).1 (hsame t ht))
        refine ⟨row, by rw [hblocks]; exact hrow, hmax', ?_⟩
        rw [hstart, hend]
        exact (hmem _).1 htarget
      · refine ⟨row, by rw [hrow, hid, Table.get?_insert, if_pos rfl], ?_⟩
        rw [hstart, hend]
        exact ⟨hmax, (hmem _).1 htarget⟩
    refine ⟨hspans, fun st' id h => ?_⟩
    obtain ⟨row, hrow, -, hrange⟩ := hspans st' id h
    exact linkBlock_range ((candidateBlock_cases h).2.1 ▸ hline) hrow hrange

end InheritanceEngine

/-! ## A block that falls into two runs -/

namespace Sample

/-- The second version of the file has a new line between the two. -/
def threeLines : CoverageItem :=
  file "a.cpp" [uncovered 1 "a();", uncovered 2 "x();", uncovered 3 "b();"]

/-- The two versions, compared. -/
def withInsertion : SourceText :=
  ⟨["a();", "b();"], ["a();", "x();", "b();"],
    ⟨fun n => if n = 1 then some 1 else if n = 2 then some 3 else none, fun _ => false, "insertion"⟩,
    fun old new _ _ => if old = new then none else some "TEXT_CHANGED"⟩

/-- Git finds them. -/
def insertionEnv : Env := { env with snapshot := fun _ _ _ _ => .ok (.ok withInsertion) }

/-- Both lines of the first scan were concluded at once; the second scan has the new version. -/
def insertionDb : Db :=
  Trace.run (Action.exec env) Db.empty (reviewed ++
    [.registerResource 7, .create ⟨identity "sha2", [7], "sha2", 10⟩] ++
    (construct worker 2 [threeLines] 3).dropLast)

/-- A relation of the first scan. -/
def concluded (n : Nat) (text : String) : SourceRelation where
  id := n
  link := ⟨1, n, 1, some 1, .manualConfirmed, .manual, none, true, "ann", SourceTriple.none, 1⟩
  line := ⟨1, ⟨n, text, "uncovered", n, n, "single", "", "", "", 1, ""⟩⟩
  file := ⟨1, "core", "core/a.cpp", "a.cpp", "a.cpp"⟩
  block := some ⟨1, 1, 1, 2, .manual, true, some 1, "ann"⟩
  record := some ⟨⟨"可覆盖", "", "", ""⟩, 1, .manual, none⟩

/-- The context of the run. -/
def insertionContext : InheritanceEngine.RunContext :=
  InheritanceEngine.contextOf insertionEnv 2 1 [("core", "READY")] [("core", "/src/core")]

/-- The run between the two relations. -/
def betweenRelations : Except Failure InheritanceEngine.RunState :=
  InheritanceEngine.runRelation insertionContext withInsertion 2
    (InheritanceEngine.RunState.start insertionDb) (concluded 1 "a();")

/-- The call for the second relation. -/
def secondCall : Option InheritanceEngine.BlockCall :=
  betweenRelations.toOption.bind fun st =>
    InheritanceEngine.blockCall insertionContext withInsertion 2 st (concluded 2 "b();")

/-- First and last line of the block it gets, and its target. -/
def secondBlock : Option (Nat × Nat × Nat) := do
  let c ← secondCall
  let (st, id) ← (InheritanceEngine.candidateBlockForRelation insertionContext
    withInsertion.mapping c.state (concluded 2 "b();") c.line c.recordId).toOption
  let row ← st.db.domain.blocks.get? id
  pure (row.startLine, row.endLine, c.target)

/-- The file has the two relations, both of lines of one block. -/
example : fileRelations insertionDb 1 1 = [concluded 1 "a();", concluded 2 "b();"] := by
  decide +kernel

end Sample

namespace InheritanceEngine

open Sample

theorem withInsertion_increasing : withInsertion.mapping.Increasing := by
  intro i j i' j' h h' hlt
  simp only [withInsertion] at h h'
  split at h <;> split at h' <;> simp_all
  all_goals omega

theorem concluded_ofBlock (n : Nat) (text : String) (h : 1 ≤ n ∧ n ≤ 2) :
    OfBlock 1 (concluded n text) ⟨1, 1, 1, 2, .manual, true, some 1, "ann"⟩ :=
  ⟨rfl, rfl, by decide, h.1, h.2, by decide⟩

/-- The first relation gets the block of its line. -/
theorem first_call_ownRun : ∃ c,
    blockCall insertionContext withInsertion 2 (RunState.start insertionDb) (concluded 1 "a();") =
        some c ∧
      OwnRun insertionContext withInsertion.mapping (concluded 1 "a();")
        ⟨1, 1, 1, 2, .manual, true, some 1, "ann"⟩ c := by
  have hsome : (blockCall insertionContext withInsertion 2 (RunState.start insertionDb)
      (concluded 1 "a();")).isSome = true := by decide +kernel
  obtain ⟨c, hc⟩ := Option.isSome_iff_exists.1 hsome
  exact ⟨c, hc, (candidate_block_iff BlockHistory.start withInsertion_increasing
    (concluded_ofBlock 1 "a();" (by decide)) hc).2 nofun⟩

/-- The second one gets it too, although its line is in another run, and the engine fails. -/
theorem second_call_not_ownRun :
    (∃ st log c,
      BlockHistory insertionContext withInsertion 2 1 insertionDb st log ∧
        blockCall insertionContext withInsertion 2 st (concluded 2 "b();") = some c ∧
        ¬ OwnRun insertionContext withInsertion.mapping (concluded 2 "b();")
          ⟨1, 1, 1, 2, .manual, true, some 1, "ann"⟩ c) ∧
      ∀ x, run insertionEnv insertionDb 2 [("core", "/src/core")] ≠ .ok x := by
  have hblock : secondBlock = some (1, 1, 3) := by decide +kernel
  simp only [secondBlock, secondCall, bind, pure, Option.bind_eq_some_iff] at hblock
  obtain ⟨c, ⟨st, hst, hc⟩, ⟨st', id⟩, hcall, row, hrow, hvalues⟩ := hblock
  have hrun : betweenRelations = .ok st := by
    cases h : betweenRelations with
    | error e => rw [h] at hst; cases hst
    | ok st' => rw [h] at hst; exact congrArg Except.ok (Option.some.inj hst)
  have hok : candidateBlockForRelation insertionContext withInsertion.mapping c.state
      (concluded 2 "b();") c.line c.recordId = .ok (st', id) := by
    cases h : candidateBlockForRelation insertionContext withInsertion.mapping c.state
        (concluded 2 "b();") c.line c.recordId with
    | error e => rw [h] at hcall; cases hcall
    | ok x => rw [h] at hcall; exact congrArg Except.ok (Option.some.inj hcall)
  refine ⟨⟨st, _, c, .own .start (concluded_ofBlock 1 "a();" (by decide)) hrun, hc, fun hown => ?_⟩,
    ?_⟩
  · obtain ⟨row', hrow', -, -, hle⟩ := hown.spans st' id hok
    obtain rfl := Option.some.inj (hrow.symm.trans hrow')
    simp only [Option.some.injEq, Prod.mk.injEq] at hvalues
    omega
  · have hfails : (run insertionEnv insertionDb 2 [("core", "/src/core")]).toOption.isNone = true := by
      decide +kernel
    intro x hx
    rw [hx] at hfails
    cases hfails

end InheritanceEngine

end FosCoverage
