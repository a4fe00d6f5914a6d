import FosCoverage.Service.ReviewSpec
import FosCoverage.Inheritance.Engine

/-!
# What an engine run does

A run of the inheritance engine is a sequence of two kinds of steps on the analysis domain: it adds
a decision, or it inherits one relation (`Inherits`), which may add a cloned record, a block and a
group and then writes the relation of one line of the Candidate.  `run_inv` carries a property
through a run; whatever it keeps, no row of the predecessor is touched.
-/

set_option autoImplicit false

namespace FosCoverage

open Relational Outcome

namespace InheritanceEngine

open AnalysisDomainRepository

/-! ## One inherited relation -/

/-- What the inheritance of one relation adds, and the relation it writes. -/
structure Inheritance where
  /-- The cloned record, when it is new. -/
  newRecords : List Record
  /-- The block, when it is new. -/
  newBlocks : List Block
  /-- The group, when it is new. -/
  newGroups : List Group
  /-- The written relation. -/
  item : LinkItem

/-- The domain with the additions, against which the relation is validated. -/
def Inheritance.beforeLink (i : Inheritance) (db : Db) : Db :=
  { db with
    domain.records := db.domain.records.insertMany i.newRecords
    domain.blocks := db.domain.blocks.insertMany i.newBlocks
    domain.groups := db.domain.groups.insertMany i.newGroups }

/-- The domain after the relation is written. -/
def Inheritance.after (i : Inheritance) (db : Db) (scanId : Nat) : Db :=
  { i.beforeLink db with domain.links := writeLink db.domain.links scanId i.item }

/-- A block that was made for a record. -/
def BlockOk (blocks : Table Block) (recordId blockId : Nat) : Prop :=
  ∃ b, blocks.get? blockId = some b ∧ b.originatingRecordId = some recordId ∧
    0 < b.startLine ∧ b.startLine ≤ b.endLine

/-- The caches of a run name rows that exist: every clone has the content of its source, every
block belongs to its clone. -/
structure CachesOk (ctx : RunContext) (st : RunState) : Prop where
  /-- The clone of a source record. -/
  record : ∀ source clone, (source, clone) ∈ st.candidateRecordCache →
    ∃ s c, st.db.domain.records.get? source = some s ∧ st.db.domain.records.get? clone = some c ∧
      c.content = s.content
  /-- The block of a clone. -/
  block : ∀ key blockId, (key, blockId) ∈ st.candidateBlockCache →
    BlockOk st.db.domain.blocks key.recordId blockId

/-- The inheritance of one relation by a line of the Candidate. -/
structure Inherits (ctx : RunContext) (db : Db) (r : SourceRelation) (lineId : Nat)
    (line : LineRow) (i : Inheritance) : Prop where
  /-- The new record is a copy of the source. -/
  newRecord : ∀ c ∈ i.newRecords, ∃ s, db.domain.records.get? r.link.recordId = some s ∧
    c = ⟨s.content, 1, .inherited, none⟩
  /-- The new block is a range of the line's file, made for the written record. -/
  newBlock : ∀ b ∈ i.newBlocks, b.originatingRecordId = some i.item.recordId ∧
    b.scanId = ctx.candidateScanId ∧ 0 < b.startLine ∧ b.startLine ≤ b.endLine ∧
    ∃ file, db.facts.files.get? b.fileId = some file ∧ file.scanId = b.scanId
  /-- The block of the written relation was made for its record. -/
  hasBlock : ∃ blockId, i.item.blockId = some blockId ∧
    BlockOk (db.domain.blocks.insertMany i.newBlocks) i.item.recordId blockId
  /-- A new record is the written one, else the written one existed. -/
  recordId : (i.newRecords = [] ∧ (db.domain.records.get? i.item.recordId).isSome) ∨
    (∃ c, i.newRecords = [c] ∧ i.item.recordId = db.domain.records.next)
  /-- The written record has the source's content. -/
  content : ∃ s c, db.domain.records.get? r.link.recordId = some s ∧
    (db.domain.records.insertMany i.newRecords).get? i.item.recordId = some c ∧
    c.content = s.content
  /-- The written relation. -/
  item : ∃ blockId groupId, i.item = inheritedLink ctx r lineId i.item.recordId blockId groupId line
  /-- It is valid. -/
  valid : validateLink (i.beforeLink db) ctx.candidateScanId .blockIdentityMismatch i.item = .ok ()

theorem cloneRecord_ok {ctx : RunContext} {st st' : RunState} {source clone : Nat}
    (hc : CachesOk ctx st) (h : cloneRecord st source = .ok (st', clone)) :
    ∃ new s c, st.db.domain.records.get? source = some s ∧
      (st.db.domain.records.insertMany new).get? clone = some c ∧ c.content = s.content ∧
      (∀ c ∈ new, c = ⟨s.content, 1, .inherited, none⟩) ∧
      ((new = [] ∧ (st.db.domain.records.get? clone).isSome) ∨
        (∃ c, new = [c] ∧ clone = st.db.domain.records.next)) ∧
      st'.db = { st.db with domain.records := st.db.domain.records.insertMany new } ∧
      st'.readSet = st.readSet ∧ st'.candidateBlockCache = st.candidateBlockCache ∧
      (st'.candidateRecordCache = st.candidateRecordCache ∨
        st'.candidateRecordCache = (source, clone) :: st.candidateRecordCache) := by
  unfold cloneRecord at h
  split at h
  · rename_i clone' hlook
    simp only [pure_eq_ok, Prod.mk.injEq] at h
    obtain ⟨rfl, rfl⟩ := h
    obtain ⟨s, c, hs, hcl, hcont⟩ := hc.record _ _ (mem_of_lookup hlook)
    exact ⟨[], s, c, hs, by simpa using hcl, hcont, by simp, .inl ⟨rfl, by simp [hcl]⟩, rfl, rfl,
      rfl, .inl rfl⟩
  · simp only [bind_eq_ok, orFail_eq_ok, createRecord, pure_eq_ok, Prod.mk.injEq] at h
    obtain ⟨s, hs, rfl, rfl⟩ := h
    refine ⟨[⟨s.content, 1, .inherited, none⟩], s, ⟨s.content, 1, .inherited, none⟩, hs, ?_, rfl,
      by simp, .inr ⟨_, rfl, rfl⟩, rfl, rfl, rfl, .inr rfl⟩
    simp

theorem createBlock_ok {db db' : Db} {block : Block} {blockId : Nat}
    (h : createBlock db block = .ok (db', blockId)) :
    blockId = db.domain.blocks.next ∧
    db' = { db with domain.blocks := db.domain.blocks.insert block } ∧
    0 < block.startLine ∧ block.startLine ≤ block.endLine ∧
    ∃ file, db.facts.files.get? block.fileId = some file ∧ file.scanId = block.scanId := by
  simp only [createBlock, assertBlockRange, assertBlockFile, bind_eq_ok, require_eq_ok,
    orFail_eq_ok, pure_eq_ok, Prod.mk.injEq] at h
  obtain ⟨_, ⟨h₁, h₂⟩, _, ⟨file, hf, hs⟩, rfl, rfl⟩ := h
  exact ⟨rfl, rfl, h₁, h₂, file, hf, hs⟩

theorem candidateBlock_ok {ctx : RunContext} {mapping : LineMapping} {st st' : RunState}
    {r : SourceRelation} {line : LineRow} {clone blockId : Nat}
    (hc : ∀ key blockId, (key, blockId) ∈ st.candidateBlockCache →
      BlockOk st.db.domain.blocks key.recordId blockId)
    (h : candidateBlockForRelation ctx mapping st r line clone = .ok (st', blockId)) :
    ∃ new, (∀ b ∈ new, b.originatingRecordId = some clone ∧ b.scanId = ctx.candidateScanId ∧
        0 < b.startLine ∧ b.startLine ≤ b.endLine ∧
        ∃ file, st.db.facts.files.get? b.fileId = some file ∧ file.scanId = b.scanId) ∧
      BlockOk (st.db.domain.blocks.insertMany new) clone blockId ∧
      st'.db = { st.db with domain.blocks := st.db.domain.blocks.insertMany new } ∧
      st'.readSet = st.readSet ∧ st'.candidateRecordCache = st.candidateRecordCache ∧
      (∀ key id, (key, id) ∈ st'.candidateBlockCache →
        BlockOk st'.db.domain.blocks key.recordId id) := by
  simp only [candidateBlockForRelation, bind_eq_ok, require_eq_ok] at h
  obtain ⟨_, _, h⟩ := h
  generalize sourceRange r = range at h
  obtain ⟨sourceStart, sourceEnd⟩ := range
  dsimp only at h
  split at h
  · rename_i id hlook
    simp only [pure_eq_ok, Prod.mk.injEq] at h
    obtain ⟨rfl, rfl⟩ := h
    exact ⟨[], by simp, hc _ _ (mem_of_lookup hlook), rfl, rfl, rfl, hc⟩
  · simp only [bind_eq_ok, pure_eq_ok, Prod.mk.injEq, Prod.exists] at h
    obtain ⟨db₁, id, hb, rfl, rfl⟩ := h
    obtain ⟨rfl, rfl, h₁, h₂, hfile⟩ := createBlock_ok hb
    have hnew := fun b => (Table.get?_insert st.db.domain.blocks b _).trans (if_pos rfl)
    refine ⟨[_], ?_, ⟨_, hnew _, rfl, h₁, h₂⟩, rfl, rfl, rfl, ?_⟩
    · intro b hb
      obtain rfl := List.mem_singleton.1 hb
      exact ⟨rfl, rfl, h₁, h₂, hfile⟩
    intro key id hmem
    rcases List.mem_cons.1 hmem with heq | hmem
    · obtain ⟨rfl, rfl⟩ := Prod.mk.inj heq
      exact ⟨_, hnew _, rfl, h₁, h₂⟩
    · obtain ⟨b, hb, hor⟩ := hc key id hmem
      refine ⟨b, ?_, hor⟩
      have := Table.get?_issued hb
      simp only [Table.get?_insert]
      rw [if_neg (by omega), hb]

theorem ensureGroup_eq (ctx : RunContext) (mapping : LineMapping) (db : Db) (r : SourceRelation)
    (line : LineRow) :
    ∃ new, (ensureGroup ctx mapping db r line).1 =
      { db with domain.groups := db.domain.groups.insertMany new } := by
  unfold ensureGroup
  dsimp only
  split
  · exact ⟨[], rfl⟩
  · split
    · exact ⟨[], rfl⟩
    · exact ⟨[_], rfl⟩

/-- **What inheriting one relation does.** -/
theorem inherits_of_ok {ctx : RunContext} {mapping : LineMapping} {st st' : RunState}
    {r : SourceRelation} {lineId : Nat} {line : LineRow} (hc : CachesOk ctx st)
    (h : inheritRelation ctx mapping st r lineId line = .ok st') :
    ∃ i, Inherits ctx st.db r lineId line i ∧ st'.db = i.after st.db ctx.candidateScanId ∧
      st'.readSet = st.readSet ∧ CachesOk ctx st' := by
  simp only [inheritRelation, bind_eq_ok, pure_eq_ok, Prod.exists] at h
  obtain ⟨st₁, clone, hclone, st₂, blockId, hblock, db₃, hlink, rfl⟩ := h
  obtain ⟨newR, s, c, hs, hcl, hcont, hnewR, hrid, hdb₁, hrs₁, hbc₁, hrc₁⟩ := cloneRecord_ok hc hclone
  have hbc : ∀ key blockId, (key, blockId) ∈ st₁.candidateBlockCache →
      BlockOk st₁.db.domain.blocks key.recordId blockId := by
    rw [hbc₁, hdb₁]
    exact hc.block
  obtain ⟨newB, hnewB, hhas, hdb₂, hrs₂, hrc₂, hbc₂⟩ := candidateBlock_ok hbc hblock
  rw [hdb₁] at hnewB hhas hdb₂
  obtain ⟨newG, hG⟩ := ensureGroup_eq ctx mapping st₂.db r line
  generalize hgrp : ensureGroup ctx mapping st₂.db r line = pair at hG hlink
  obtain ⟨db₄, groupId⟩ := pair
  dsimp only at hG hlink
  subst hG
  simp only [createLink, bind_eq_ok, pure_eq_ok] at hlink
  obtain ⟨_, hvalid, rfl⟩ := hlink
  rw [hdb₂] at hvalid
  refine ⟨⟨newR, newB, newG, inheritedLink ctx r lineId clone blockId groupId line⟩, ?_, ?_, ?_, ?_⟩
  · constructor
    case newRecord => exact fun c hc => ⟨s, hs, hnewR c hc⟩
    case newBlock => exact hnewB
    case hasBlock => exact ⟨blockId, rfl, hhas⟩
    case recordId => exact hrid
    case content => exact ⟨s, c, hs, hcl, hcont⟩
    case item => exact ⟨blockId, groupId, rfl⟩
    case valid => exact hvalid
  · rw [hdb₂]
    rfl
  · rw [hrs₂, hrs₁]
  · constructor
    · intro source cl hmem
      have hrecs : (st₂.db.domain.records) = st.db.domain.records.insertMany newR := by rw [hdb₂]
      rw [hrc₂] at hmem
      have old : (source, cl) ∈ st.candidateRecordCache →
          ∃ s c, (st₂.db.domain.records).get? source = some s ∧
            (st₂.db.domain.records).get? cl = some c ∧ c.content = s.content := by
        intro hmem
        obtain ⟨s', c', hs', hc', hcont'⟩ := hc.record _ _ hmem
        rw [hrecs]
        exact ⟨s', c', Table.get?_insertMany_of_some hs', Table.get?_insertMany_of_some hc', hcont'⟩
      rcases hrc₁ with hrc₁ | hrc₁
      · rw [hrc₁] at hmem
        exact old hmem
      · rw [hrc₁] at hmem
        rcases List.mem_cons.1 hmem with heq | hmem
        · obtain ⟨rfl, rfl⟩ := Prod.mk.inj heq
          refine ⟨s, c, ?_, ?_, hcont⟩
          · rw [hrecs]
            exact Table.get?_insertMany_of_some hs
          · rw [hrecs]
            exact hcl
        · exact old hmem
    · exact hbc₂

/-! ## A whole run -/

/-- A decision is added, or there was one. -/
theorem writeDecision_eq (db : Db) (runId : String) (candidateScanId lineId : Nat)
    (relation : Option SourceRelation) (reason : String) :
    ∃ rows, writeDecision db runId candidateScanId lineId relation reason =
      { db with domain.decisions := db.domain.decisions.insertMany rows } := by
  unfold writeDecision
  split
  · exact ⟨[], rfl⟩
  · exact ⟨[_], rfl⟩

/-- The decision a step of a run on a relation writes. -/
def decided (ctx : RunContext) (source : SourceText) (db : Db) (r : SourceRelation) (lineId : Nat)
    (line : LineRow) (newLineNumber : Nat) : Db :=
  writeDecision db ctx.runId ctx.candidateScanId lineId (some r)
    ((compareRelation source r line newLineNumber).getD "INHERITED")

/-- **What a step on a relation does**: it writes a decision, and unless the relation is refused or
the line has been settled before, it inherits the relation. -/
theorem persist_cases {ctx : RunContext} {source : SourceText} {st st' : RunState}
    {r : SourceRelation} {lineId newLineNumber : Nat} {line : LineRow} (hc : CachesOk ctx st)
    (h : persistRelationDecision ctx source st r lineId line newLineNumber = .ok st') :
    st'.readSet = st.readSet ∧ CachesOk ctx st' ∧
      ((compareRelation source r line newLineNumber ≠ none ∧
        st'.db = decided ctx source st.db r lineId line newLineNumber) ∨
      (compareRelation source r line newLineNumber = none ∧
        ((findDecision st.db ctx.runId lineId).any fun d => d.2.inherited) = true ∧
        ((decided ctx source st.db r lineId line newLineNumber).activeLink ctx.candidateScanId
          lineId).isSome ∧
        st'.db = decided ctx source st.db r lineId line newLineNumber) ∨
      (compareRelation source r line newLineNumber = none ∧
        ¬ (((findDecision st.db ctx.runId lineId).any fun d => d.2.inherited) = true ∧
          ((decided ctx source st.db r lineId line newLineNumber).activeLink ctx.candidateScanId
            lineId).isSome) ∧
        ∃ i, Inherits ctx (decided ctx source st.db r lineId line newLineNumber) r lineId line i ∧
          st'.db = i.after (decided ctx source st.db r lineId line newLineNumber)
            ctx.candidateScanId)) := by
  unfold persistRelationDecision at h
  dsimp only at h
  obtain ⟨rows, hrows⟩ := writeDecision_eq st.db ctx.runId ctx.candidateScanId lineId (some r)
    ((compareRelation source r line newLineNumber).getD "INHERITED")
  have hc' : CachesOk ctx { st with
      db := decided ctx source st.db r lineId line newLineNumber } := by
    unfold decided
    rw [hrows]
    exact ⟨hc.record, hc.block⟩
  split at h
  · rename_i reason hcmp
    obtain rfl := pure_eq_ok.1 h
    exact ⟨rfl, hc', .inl ⟨by rw [hcmp]; exact Option.some_ne_none reason, rfl⟩⟩
  · rename_i hcmp
    split at h
    · rename_i hsettled
      obtain rfl := pure_eq_ok.1 h
      exact ⟨rfl, hc', .inr (.inl ⟨hcmp, hsettled.1, hsettled.2, rfl⟩)⟩
    · rename_i hopen
      obtain ⟨i, hi, hdb, hrs, hc''⟩ := inherits_of_ok hc' h
      exact ⟨hrs, hc'', .inr (.inr ⟨hcmp, hopen, i, hi, hdb⟩)⟩

/-- A step of a run on a relation that maps to the line `lineId`: a decision, and perhaps an
inheritance. -/
theorem persist_ok {ctx : RunContext} {source : SourceText} {st st' : RunState}
    {r : SourceRelation} {lineId newLineNumber : Nat} {line : LineRow} (hc : CachesOk ctx st)
    (h : persistRelationDecision ctx source st r lineId line newLineNumber = .ok st') :
    ∃ rows, st'.readSet = st.readSet ∧ CachesOk ctx st' ∧
      (st'.db = { st.db with domain.decisions := st.db.domain.decisions.insertMany rows } ∨
      (compareRelation source r line newLineNumber = none ∧
        ∃ i, Inherits ctx { st.db with domain.decisions := st.db.domain.decisions.insertMany rows }
          r lineId line i ∧
        st'.db = i.after { st.db with domain.decisions := st.db.domain.decisions.insertMany rows }
          ctx.candidateScanId)) := by
  obtain ⟨rows, hrows⟩ := writeDecision_eq st.db ctx.runId ctx.candidateScanId lineId (some r)
    ((compareRelation source r line newLineNumber).getD "INHERITED")
  obtain ⟨hread, hcaches, h⟩ := persist_cases hc h
  unfold decided at h
  rw [hrows] at h
  refine ⟨rows, hread, hcaches, ?_⟩
  rcases h with ⟨_, hdb⟩ | ⟨_, _, _, hdb⟩ | ⟨hcmp, _, hi⟩
  · exact .inl hdb
  · exact .inl hdb
  · exact .inr ⟨hcmp, hi⟩

/-- The engine maps the relation `r` of the predecessor to a line of the Candidate, and nothing
speaks against the line inheriting it. -/
def Mapped (ctx : RunContext) (db : Db) (r : SourceRelation) (lineId : Nat) (line : LineRow) :
    Prop :=
  ∃ fileId file target first source newLineNumber, db.facts.files.get? fileId = some file ∧
    eligible ctx.repositories file = true ∧
    candidateFile ctx.env db ctx.candidateScanId file.repositoryName file.filePath = some target ∧
    r ∈ fileRelations db ctx.predecessorScanId fileId ∧
    (fileRelations db ctx.predecessorScanId fileId).head? = some first ∧
    snapshotForRelation ctx db first = .ok (.ok source) ∧
    source.mapping.get r.line.facts.lineNumber = some newLineNumber ∧
    LineIndexRepository.getLine db target.1 newLineNumber = some (lineId, line) ∧
    compareRelation source r line newLineNumber = none

/-- `ctx` is what a run on `db` works with. -/
def RunContext.Of (env : Env) (db : Db) (candidateScanId : Nat)
    (repositoryPaths : List (String × String)) (ctx : RunContext) : Prop :=
  ∃ resolution predecessorScanId, PredecessorResolver.resolve env db candidateScanId = .ok resolution ∧
    resolution.predecessorScanId = some predecessorScanId ∧
    ctx = contextOf env candidateScanId predecessorScanId resolution.repositories repositoryPaths

/-- A decision keeps the property. -/
def DecisionInv (facts : Facts) (P : Db → Prop) : Prop :=
  ∀ db rows, db.facts = facts → P db →
    P { db with domain.decisions := db.domain.decisions.insertMany rows }

/-- An inheritance keeps the property.  The relation was mapped in an earlier state of the run,
which had the property too. -/
def InheritInv (ctx : RunContext) (facts : Facts) (P : Db → Prop) : Prop :=
  ∀ db₀ db r lineId line i, db₀.facts = facts → P db₀ → Mapped ctx db₀ r lineId line →
    db.facts = facts → P db → Inherits ctx db r lineId line i → P (i.after db ctx.candidateScanId)

section Invariant

variable {ctx : RunContext} {facts : Facts} {P : Db → Prop} (decision : DecisionInv facts P)
include decision

theorem decideRemaining_inv {db : Db} {runId : String} {candidateScanId : Nat}
    {reason : FileRow → String} (hf : db.facts = facts) (hP : P db) :
    (decideRemaining db runId candidateScanId reason).facts = facts ∧
      P (decideRemaining db runId candidateScanId reason) := by
  unfold decideRemaining
  generalize candidateLines db candidateScanId = lines
  induction lines generalizing db with
  | nil => exact ⟨hf, hP⟩
  | cons l lines ih =>
    rw [List.foldl_cons]
    split
    · obtain ⟨rows, hrows⟩ := writeDecision_eq db runId candidateScanId l.1 none (reason l.2.2)
      rw [hrows]
      exact ih hf (decision db rows hf hP)
    · exact ih hf hP

variable (inherit : InheritInv ctx facts P)
include inherit

theorem runRelation_inv {source : SourceText} {targetFileId : Nat} {st st' : RunState}
    {r : SourceRelation} (h : runRelation ctx source targetFileId st r = .ok st') {db₀ : Db}
    (hf₀ : db₀.facts = facts) (hP₀ : P db₀)
    (hmap : ∀ n lineId line, source.mapping.get r.line.facts.lineNumber = some n →
      LineIndexRepository.getLine db₀ targetFileId n = some (lineId, line) →
      compareRelation source r line n = none → Mapped ctx db₀ r lineId line)
    (hs : st.db.facts = facts ∧ CachesOk ctx st ∧ P st.db) :
    st'.db.facts = facts ∧ CachesOk ctx st' ∧ P st'.db := by
  obtain ⟨hf, hc, hP⟩ := hs
  unfold runRelation at h
  split at h
  · obtain rfl := pure_eq_ok.1 h
    exact ⟨hf, hc, hP⟩
  · rename_i n hn
    split at h
    · obtain rfl := pure_eq_ok.1 h
      exact ⟨hf, hc, hP⟩
    · rename_i lineId line hline
      have hline₀ : LineIndexRepository.getLine db₀ targetFileId n = some (lineId, line) := by
        rw [← hline]
        simp only [LineIndexRepository.getLine, hf₀, hf]
      obtain ⟨rows, _, hc', hdb | ⟨hcmp, i, hi, hdb⟩⟩ := persist_ok hc h
      · exact ⟨by rw [hdb, ← hf], hc', by rw [hdb]; exact decision _ rows hf hP⟩
      · refine ⟨by rw [hdb, ← hf]; rfl, hc', ?_⟩
        rw [hdb]
        exact inherit db₀ _ r _ _ i hf₀ hP₀ (hmap n lineId line hn hline₀ hcmp) hf
          (decision _ rows hf hP) hi

theorem runFile_inv {st st' : RunState} {file : Nat × FileRow}
    (h : runFile ctx st file = .ok st') (hfile : facts.files.get? file.1 = some file.2)
    (hs : st.db.facts = facts ∧ CachesOk ctx st ∧ P st.db) :
    st'.db.facts = facts ∧ CachesOk ctx st' ∧ P st'.db := by
  have read : ∀ readSet : ReadSetAccumulator,
      CachesOk ctx { st with readSet := readSet } := fun _ => ⟨hs.2.1.record, hs.2.1.block⟩
  unfold runFile at h
  split at h
  · obtain rfl := pure_eq_ok.1 h
    exact hs
  · rename_i heligible
    split at h
    · obtain rfl := pure_eq_ok.1 h
      exact hs
    · rename_i target row htarget
      dsimp only at h
      split at h
      · obtain rfl := pure_eq_ok.1 h
        exact ⟨hs.1, read _, hs.2.2⟩
      · rename_i first hfirst
        simp only [bind_eq_ok] at h
        obtain ⟨snapshot, hsnap, h⟩ := h
        split at h
        · obtain rfl := pure_eq_ok.1 h
          exact ⟨hs.1, read _, hs.2.2⟩
        · rename_i source
          refine foldlM_inv
            (fun st : RunState => st.db.facts = facts ∧ CachesOk ctx st ∧ P st.db) ?_ ?_ h
          · intro st₁ r st₂ hr hs₁ hok
            refine runRelation_inv decision inherit hok hs.1 hs.2.2 ?_ hs₁
            exact fun n lineId line hn hline hcmp => ⟨file.1, file.2, (target, row), first, source,
              n, by rw [hs.1]; exact hfile, by simpa using heligible, htarget, hr, hfirst, hsnap, hn, hline, hcmp⟩
          · exact ⟨hs.1, read _, hs.2.2⟩

end Invariant

/-- **The invariant rule for engine runs.** -/
theorem run_inv {env : Env} {db db' : Db} {candidateScanId : Nat}
    {repositoryPaths : List (String × String)} {readSet : Option ReadSet} {P : Db → Prop}
    (h : run env db candidateScanId repositoryPaths = .ok (db', readSet))
    (decision : DecisionInv db.facts P)
    (inherit : ∀ ctx, ctx.candidateScanId = candidateScanId →
      RunContext.Of env db candidateScanId repositoryPaths ctx → InheritInv ctx db.facts P)
    (h₀ : P db) : db'.facts = db.facts ∧ P db' := by
  simp only [run, bind_eq_ok] at h
  obtain ⟨resolution, hresolve, h⟩ := h
  split at h
  · simp only [pure_eq_ok, Prod.mk.injEq] at h
    obtain ⟨rfl, _⟩ := h
    exact decideRemaining_inv decision rfl h₀
  · rename_i predecessorScanId hpred
    simp only [bind_eq_ok, pure_eq_ok, Prod.mk.injEq] at h
    obtain ⟨st, hfold, rfl, _⟩ := h
    have hctx := inherit (contextOf env candidateScanId predecessorScanId resolution.repositories
      repositoryPaths) rfl ⟨resolution, predecessorScanId, hresolve, hpred, rfl⟩
    have start : CachesOk (contextOf env candidateScanId predecessorScanId resolution.repositories
        repositoryPaths) (RunState.start db) :=
      ⟨fun _ _ h => absurd h List.not_mem_nil, fun _ _ h => absurd h List.not_mem_nil⟩
    have hst := foldlM_inv (fun st : RunState => st.db.facts = db.facts ∧
      CachesOk (contextOf env candidateScanId predecessorScanId resolution.repositories
        repositoryPaths) st ∧ P st.db)
      (fun _ _ _ hmem hs hok => runFile_inv decision hctx hok
        (Keyed.get?_eq_some_iff.2 (Keyed.mem_select.1 hmem).1) hs) ⟨rfl, start, h₀⟩ hfold
    exact decideRemaining_inv decision hst.1 hst.2.2

end InheritanceEngine

end FosCoverage
