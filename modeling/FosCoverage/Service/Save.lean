import Mathlib.Data.List.Dedup
import FosCoverage.Lib.LastWrite
import FosCoverage.Service.Review

/-!
# What a save does

`AnalysisService.save` is a long function; this file says once what an accepted save does, in the
order of its phases, and every later result about a save starts from here.

* `ResolvedOk`: the resolved lines are lines of the scan, each named once, and the lines of one
  operation carry the same request.
* `PlanOk`: an operation edits a record in place only when the lines actively linked to the record
  are exactly the lines of the operation.
* `Saved`: the tables after the save in terms of the tables before it (`saved_of_ok`).
-/

set_option autoImplicit false

namespace FosCoverage

open Relational Outcome

namespace AnalysisService

open AnalysisDomainRepository

/-! ## Resolution -/

/-- The operation as it is resolved: the caller's name is filled in where the client sent none. -/
def Item.withReviewer (reviewer : String) (item : Item) : Item :=
  if reviewer ≠ "" ∧ item.reviewer = "" then { item with reviewer := reviewer } else item

/-- The numbered operations of a request. -/
def operations (records : List Item) : List (Nat × Item) :=
  records.zipIdx.map fun r => (r.2 + 1, r.1)

theorem operations_functional {records : List Item} {k : Nat} {i i' : Item}
    (h : (k, i) ∈ operations records) (h' : (k, i') ∈ operations records) : i = i' := by
  simp only [operations, List.mem_map, Prod.mk.injEq, Prod.exists] at h h'
  obtain ⟨a, n, hn, rfl, rfl⟩ := h
  obtain ⟨a', n', hn', hk, rfl⟩ := h'
  obtain rfl : n' = n := by omega
  rw [List.mem_zipIdx_iff_getElem?] at hn hn'
  rw [hn] at hn'
  exact Option.some.inj hn'

theorem mem_of_mem_operations {records : List Item} {k : Nat} {i : Item}
    (h : (k, i) ∈ operations records) : i ∈ records := by
  simp only [operations, List.mem_map, Prod.mk.injEq, Prod.exists] at h
  obtain ⟨a, n, hn, _, rfl⟩ := h
  rw [List.mem_zipIdx_iff_getElem?] at hn
  exact List.mem_of_getElem? hn

/-- Every selected line belongs to an operation of the request. -/
def FromRequest (records : List Item) (acc : List Selected) : Prop :=
  ∀ s ∈ acc, (s.operationKey, s.item) ∈ operations records

theorem fromRequest_expandRange {records : List Item} {k rangeKey : Nat} {item : Item}
    {acc acc' : List Selected} {range : Int × Int} (hk : (k, item) ∈ operations records)
    (hacc : FromRequest records acc)
    (h : expandRange k rangeKey item acc range = .ok acc') : FromRequest records acc' := by
  simp only [expandRange, bind_eq_ok, require_eq_ok, pure_eq_ok] at h
  obtain ⟨_, _, _, _, _, _, rfl⟩ := h
  intro s hs
  rcases List.mem_append.1 hs with hs | hs
  · exact hacc s hs
  · obtain ⟨n, _, rfl⟩ := List.mem_map.1 hs
    exact hk

theorem fromRequest_expandItem {records : List Item} {op : Nat × Item} {acc acc' : List Selected}
    (hop : op ∈ operations records) (hacc : FromRequest records acc)
    (h : expandItem acc op = .ok acc') : FromRequest records acc' := by
  have expand : ∀ ranges acc', expandRanges op acc ranges = .ok acc' → FromRequest records acc' :=
    fun ranges acc' h =>
      foldlM_inv (FromRequest records) (fun _ _ _ _ hs hr => fromRequest_expandRange hop hs hr)
        hacc h
  unfold expandItem at h
  split at h
  · exact expand _ _ h
  · exact expand _ _ h
  · split at h
    · obtain rfl : _ = acc' := pure_eq_ok.1 h
      intro s hs
      rcases List.mem_append.1 hs with hs | hs
      · exact hacc s hs
      · obtain rfl := List.mem_singleton.1 hs
        exact hop
    · cases h

/-- A file found by its identity is a row of the table. -/
theorem getFile_some {db : Db} {scanId : Nat} {repositoryName filePathHash : String} {k : Nat}
    {row : FileRow}
    (h : ProjectRepository.getFile db scanId repositoryName filePathHash = some (k, row)) :
    db.facts.files.get? k = some row ∧ row.scanId = scanId ∧
      row.repositoryName = repositoryName ∧ row.filePathHash = filePathHash :=
  ⟨Keyed.get?_eq_some_iff.2 (List.mem_of_find?_eq_some h), by simpa using List.find?_some h⟩

theorem getLine_some {db : Db} {fileId lineNumber k : Nat} {row : LineRow}
    (h : LineIndexRepository.getLine db fileId lineNumber = some (k, row)) :
    db.facts.lines.get? k = some row ∧ row.fileId = fileId ∧ row.facts.lineNumber = lineNumber :=
  ⟨Keyed.get?_eq_some_iff.2 (List.mem_of_find?_eq_some h), by simpa using List.find?_some h⟩

theorem lineOfScan_eq_some {db : Db} {scanId lineId : Nat} {line : LineRow} :
    lineOfScan db scanId lineId = some line ↔
      db.facts.lines.get? lineId = some line ∧
      ∃ file, db.facts.files.get? line.fileId = some file ∧ file.scanId = scanId := by
  simp only [lineOfScan, bind, Option.bind_eq_some_iff]
  constructor
  · rintro ⟨line', hl, file, hf, h⟩
    split at h
    · obtain rfl := Option.some.inj h
      exact ⟨hl, file, hf, ‹_›⟩
    · cases h
  · rintro ⟨hl, file, hf, rfl⟩
    exact ⟨line, hl, file, hf, by simp⟩

theorem findLine_ok {env : Env} {db : Db} {scanId : Nat} {s : Selected} {r : Nat × LineRow}
    (h : findLine env db scanId s = .ok r) : lineOfScan db scanId r.1 = some r.2 := by
  unfold findLine at h
  split at h
  · simp only [bind_eq_ok, orFail_eq_ok, require_eq_ok, pure_eq_ok] at h
    obtain ⟨line, hl, _, _, rfl⟩ := h
    exact hl
  · simp only [bind_eq_ok, orFail_eq_ok] at h
    obtain ⟨⟨fileId, file⟩, hf, hl⟩ := h
    obtain ⟨hfile, hscan, _⟩ := getFile_some hf
    obtain ⟨hline, hid, _⟩ := getLine_some (show _ = some (r.1, r.2) from hl)
    rw [lineOfScan_eq_some, hid]
    exact ⟨hline, file, hfile, hscan⟩

/-- What the resolution guarantees of one line. -/
structure LineOk (db : Db) (scanId : Nat) (records : List Item) (reviewer : String)
    (r : Resolved) : Prop where
  /-- The line is a line of the scan. -/
  line : ∃ line, lineOfScan db scanId r.lineId = some line ∧ r.fileId = line.fileId ∧
    r.lineNumber = line.facts.lineNumber
  /-- It was named by an operation of the request. -/
  item : ∃ i, (r.operationKey, i) ∈ operations records ∧ r.item = i.withReviewer reviewer
  /-- The status is one the code knows. -/
  status : r.item.status.getD "" ∈ validStatuses

theorem resolveLine_ok {env : Env} {db : Db} {scanId : Nat} {reviewer : String} {s : Selected}
    {records : List Item} {r : Resolved} (hs : (s.operationKey, s.item) ∈ operations records)
    (h : resolveLine env db scanId reviewer s = .ok r) : LineOk db scanId records reviewer r := by
  simp only [resolveLine, bind_eq_ok, require_eq_ok, pure_eq_ok] at h
  obtain ⟨⟨lineId, line⟩, hl, _, hst, rfl⟩ := h
  exact ⟨⟨line, findLine_ok hl, rfl, rfl⟩, ⟨s.item, hs, rfl⟩, hst⟩

/-! ### Keeping the last operation for a line -/

/-- The dictionary of the resolved lines is one keyed by the line. -/
theorem keepLast_eq : keepLast = LastWrite.set Resolved.lineId := rfl

/-- What `_resolve_records` returns. -/
structure ResolvedOk (db : Db) (scanId : Nat) (records : List Item) (reviewer : String)
    (resolved : List Resolved) : Prop where
  /-- No line occurs twice. -/
  nodup : (resolved.map Resolved.lineId).Nodup
  /-- Every line is as the resolution guarantees. -/
  lineOk : ∀ r ∈ resolved, LineOk db scanId records reviewer r

theorem resolveRecords_ok {env : Env} {db : Db} {scanId : Nat} {records : List Item}
    {reviewer : String} {resolved : List Resolved}
    (h : resolveRecords env db scanId records reviewer = .ok resolved) :
    ResolvedOk db scanId records reviewer resolved := by
  simp only [resolveRecords, bind_eq_ok, pure_eq_ok] at h
  obtain ⟨selected, hsel, _, _, found, hfound, rfl⟩ := h
  have hreq : FromRequest records selected :=
    foldlM_inv (FromRequest records) (fun _ _ _ hi hs hr => fromRequest_expandItem hi hs hr)
      (by intro s hs; cases hs) hsel
  have hline : ∀ r ∈ found, LineOk db scanId records reviewer r := by
    intro r hr
    obtain ⟨s, hs, hsr⟩ := exists_of_mem_mapM hfound hr
    exact resolveLine_ok (hreq s hs) hsr
  rw [keepLast_eq]
  exact ⟨LastWrite.nodup_foldl_set, fun r hr => hline r (LastWrite.mem_foldl_set.1 hr).mem⟩

/-- The lines of one operation carry the same request. -/
theorem ResolvedOk.same_item {db : Db} {scanId : Nat} {records : List Item} {reviewer : String}
    {resolved : List Resolved} (h : ResolvedOk db scanId records reviewer resolved)
    {r r' : Resolved} (hr : r ∈ resolved) (hr' : r' ∈ resolved)
    (hk : r.operationKey = r'.operationKey) : r.item = r'.item := by
  obtain ⟨i, hi, hri⟩ := (h.lineOk r hr).item
  obtain ⟨i', hi', hri'⟩ := (h.lineOk r' hr').item
  rw [hk] at hi
  rw [hri, hri', operations_functional hi hi']

/-! ## The in-place decision -/

/-- What `planOperation` decides. -/
structure PlanOk (db : Db) (resolved : List Resolved) (plan : Plan) : Prop where
  /-- The lines of the operation that no later operation took over. -/
  items : plan.items = resolved.filter fun r => r.operationKey = plan.operationKey
  /-- The first of them. -/
  first : plan.first ∈ plan.items
  /-- **An edit in place touches the record of exactly the operation's lines.** -/
  inPlace : ∀ u ∈ plan.inPlace, u.recordId = plan.first.item.requestedRecordId ∧ u.recordId ≠ 0 ∧
    u.content = plan.first.item.editContent ∧
    ∀ lineId, lineId ∈ getActiveLineIdsByRecordId db u.recordId ↔ lineId ∈ plan.lineIds
  /-- Without an edit in place, the operation names no record of exactly its lines. -/
  notInPlace : plan.inPlace = none → plan.first.item.requestedRecordId ≠ 0 →
    ¬ ∀ lineId, lineId ∈ getActiveLineIdsByRecordId db plan.first.item.requestedRecordId ↔
      lineId ∈ plan.lineIds

theorem planOk_of_ok {db : Db} {resolved : List Resolved} {k : Nat} {plan : Plan}
    (h : planOperation db resolved k = .ok (some plan)) :
    PlanOk db resolved plan ∧ plan.operationKey = k := by
  unfold planOperation at h
  split at h
  · cases pure_eq_ok.1 h
  · rename_i first rest hitems
    have subset_iff : ∀ l l' : List Nat, (l ⊆ l' ∧ l' ⊆ l) ↔ ∀ x, x ∈ l ↔ x ∈ l' :=
      fun l l' => ⟨fun h x => ⟨fun hx => h.1 hx, fun hx => h.2 hx⟩,
        fun h => ⟨fun x hx => (h x).1 hx, fun x hx => (h x).2 hx⟩⟩
    dsimp only at h
    split at h
    · rename_i hc
      simp only [bind_eq_ok, orFail_eq_ok, pure_eq_ok, Option.some.injEq] at h
      obtain ⟨expected, _, rfl⟩ := h
      refine ⟨⟨hitems.symm, List.mem_cons_self, ?_, fun h => by cases h⟩, rfl⟩
      rintro u ⟨⟩
      exact ⟨rfl, hc.1, rfl, (subset_iff _ _).1 hc.2⟩
    · rename_i hc
      simp only [pure_eq_ok, Option.some.injEq] at h
      subst h
      refine ⟨⟨hitems.symm, List.mem_cons_self, fun u hu => (by cases hu), ?_⟩, rfl⟩
      exact fun _ hne hall => hc ⟨hne, (subset_iff _ _).2 hall⟩

theorem planOperation_isSome {db : Db} {resolved : List Resolved} {r : Resolved} {p : Option Plan}
    (hr : r ∈ resolved) (h : planOperation db resolved r.operationKey = .ok p) :
    ∃ plan, p = some plan := by
  unfold planOperation at h
  split at h
  · rename_i hnil
    have : r ∈ resolved.filter fun x => x.operationKey = r.operationKey := by simp [hr]
    rw [hnil] at this
    cases this
  · dsimp only at h
    split at h
    · simp only [bind_eq_ok, pure_eq_ok] at h
      obtain ⟨_, _, rfl⟩ := h
      exact ⟨_, rfl⟩
    · exact ⟨_, (pure_eq_ok.1 h).symm⟩

theorem mem_operationKeys {resolved : List Resolved} {k : Nat} :
    k ∈ operationKeys resolved ↔ ∃ r ∈ resolved, r.operationKey = k := by
  rw [operationKeys, List.mem_insertionSort, List.mem_dedup, List.mem_map]

/-! ## Records of the plans -/

/-- The new records of a list of plans. -/
def newRecords (plans : List Plan) : List Record :=
  (plans.filter fun p => p.inPlace.isNone).map fun p => ⟨p.first.item.newContent, 1, .manual, none⟩

/-- The record a plan ends up with. -/
def HasRecord (records : Table Record) (next : Nat) (a : Plan × Nat) : Prop :=
  (∃ u, a.1.inPlace = some u ∧ a.2 = u.recordId) ∨
  (a.1.inPlace = none ∧ next ≤ a.2 ∧
    records.get? a.2 = some ⟨a.1.first.item.newContent, 1, .manual, none⟩)

theorem assignRecords_spec (plans : List Plan) (db : Db) :
    (assignRecords db plans).1 =
      { db with domain.records := db.domain.records.insertMany (newRecords plans) } ∧
    (assignRecords db plans).2.map Prod.fst = plans ∧
    (∀ a ∈ (assignRecords db plans).2,
      HasRecord (db.domain.records.insertMany (newRecords plans)) db.domain.records.next a) ∧
    ∀ k r, db.domain.records.next ≤ k →
      (db.domain.records.insertMany (newRecords plans)).get? k = some r →
      ∃ a ∈ (assignRecords db plans).2, a.2 = k := by
  induction plans generalizing db with
  | nil =>
    refine ⟨rfl, rfl, fun a ha => absurd ha List.not_mem_nil, fun k r hk hget => ?_⟩
    rw [show newRecords [] = [] from rfl, Table.insertMany_nil,
      Table.get?_eq_none_of_le hk] at hget
    cases hget
  | cons plan plans ih =>
    cases hp : plan.inPlace with
    | some u =>
      obtain ⟨h₁, h₂, h₃, h₄⟩ := ih db
      have hnew : newRecords (plan :: plans) = newRecords plans := by simp [newRecords, hp]
      have ha : assignRecords db (plan :: plans) =
          ((assignRecords db plans).1, (plan, u.recordId) :: (assignRecords db plans).2) := by
        simp [assignRecords, hp]
      rw [ha, hnew]
      refine ⟨h₁, by simp [h₂], fun a hmem => ?_, fun k r hk hget => ?_⟩
      · rcases List.mem_cons.1 hmem with rfl | hmem
        · exact .inl ⟨u, hp, rfl⟩
        · exact h₃ a hmem
      · obtain ⟨a, hmem, hak⟩ := h₄ k r hk hget
        exact ⟨a, List.mem_cons_of_mem _ hmem, hak⟩
    | none =>
      have hnew : newRecords (plan :: plans) =
          ⟨plan.first.item.newContent, 1, .manual, none⟩ :: newRecords plans := by
        simp [newRecords, hp]
      obtain ⟨h₁, h₂, h₃, h₄⟩ := ih (createRecord db plan.first.item.newContent .manual).1
      have ha : assignRecords db (plan :: plans) =
          ((assignRecords (createRecord db plan.first.item.newContent .manual).1 plans).1,
            (plan, db.domain.records.next) ::
            (assignRecords (createRecord db plan.first.item.newContent .manual).1 plans).2) := by
        simp [assignRecords, hp, createRecord]
      rw [ha, hnew, Table.insertMany_cons]
      refine ⟨h₁, by simp [h₂], fun a hmem => ?_, fun k r hk hget => ?_⟩
      · rcases List.mem_cons.1 hmem with rfl | hmem
        · refine .inr ⟨hp, Nat.le_refl _, ?_⟩
          exact Table.get?_insertMany_of_some (by simp)
        · rcases h₃ a hmem with h | ⟨hn, hle, hget⟩
          · exact .inl h
          · refine .inr ⟨hn, ?_, hget⟩
            exact Nat.le_trans (Nat.le_succ _) hle
      · by_cases hkn : k = db.domain.records.next
        · exact ⟨_, List.mem_cons_self, hkn.symm⟩
        · obtain ⟨a, hmem, hak⟩ := h₄ k r (by
            show db.domain.records.next + 1 ≤ k
            omega) hget
          exact ⟨a, List.mem_cons_of_mem _ hmem, hak⟩

/-! ## Edits in place -/

/-- One edited record. -/
def editRecord (u : RecordUpdate) (r : Record) : Record :=
  { r with content := u.content, contentRevision := r.contentRevision + 1 }

/-- The records after all edits of a save. -/
def editRecords (records : Table Record) (updates : List RecordUpdate) : Table Record :=
  updates.foldl (fun t u => t.updateWhere (fun id _ => id = u.recordId) (editRecord u)) records

@[simp] theorem next_editRecords (updates : List RecordUpdate) (records : Table Record) :
    (editRecords records updates).next = records.next := by
  induction updates generalizing records with
  | nil => rfl
  | cons u updates ih => exact (ih _).trans rfl

theorem isSome_editRecords (updates : List RecordUpdate) {records : Table Record} {k : Nat} :
    ((editRecords records updates).get? k).isSome = (records.get? k).isSome := by
  induction updates generalizing records with
  | nil => rfl
  | cons u updates ih =>
    refine ih.trans ?_
    simp

theorem get?_editRecords_of_ne {updates : List RecordUpdate} {k : Nat}
    (h : ∀ u ∈ updates, u.recordId ≠ k) (records : Table Record) :
    (editRecords records updates).get? k = records.get? k := by
  induction updates generalizing records with
  | nil => rfl
  | cons u updates ih =>
    have hu : u.recordId ≠ k := h u List.mem_cons_self
    refine (ih (fun u' hu' => h u' (List.mem_cons_of_mem _ hu')) _).trans ?_
    simp [Ne.symm hu]

theorem get?_editRecords_of_mem {updates : List RecordUpdate}
    (hn : (updates.map RecordUpdate.recordId).Nodup) {u : RecordUpdate} (hu : u ∈ updates)
    (records : Table Record) :
    (editRecords records updates).get? u.recordId =
      (records.get? u.recordId).map (editRecord u) := by
  induction updates generalizing records with
  | nil => cases hu
  | cons v updates ih =>
    rw [List.map_cons, List.nodup_cons] at hn
    rcases List.mem_cons.1 hu with rfl | hu
    · have hne : ∀ v ∈ updates, v.recordId ≠ u.recordId := fun v hv he =>
        hn.1 (List.mem_map.2 ⟨v, hv, he⟩)
      refine (get?_editRecords_of_ne hne _).trans ?_
      simp
    · have hne : u.recordId ≠ v.recordId := fun he => hn.1 (List.mem_map.2 ⟨u, hu, he⟩)
      refine (ih hn.2 hu _).trans ?_
      simp [hne]

theorem updateRecordsMany_ok {db db' : Db} {updates : List RecordUpdate}
    (h : updateRecordsMany db updates = .ok db') :
    db' = { db with domain.records := editRecords db.domain.records updates } ∧
    (updates.map RecordUpdate.recordId).Nodup ∧
    ∀ u ∈ updates, ∃ r, db.domain.records.get? u.recordId = some r ∧
      r.contentRevision = u.expectedRevision := by
  simp only [updateRecordsMany, bind_eq_ok, require_eq_ok] at h
  obtain ⟨_, hn, h⟩ := h
  clear * - hn h
  induction updates generalizing db with
  | nil =>
    obtain rfl : db = db' := by simpa [pure, Except.pure] using h
    exact ⟨rfl, hn, fun u hu => by cases hu⟩
  | cons u updates ih =>
    rw [List.map_cons, List.nodup_cons] at hn
    simp only [List.foldlM_cons, bind_eq_ok, updateRecord, orFail_eq_ok, require_eq_ok,
      pure_eq_ok] at h
    obtain ⟨db₁, ⟨current, hcur, _, hrev, rfl⟩, h⟩ := h
    obtain ⟨h₁, _, h₂⟩ := ih hn.2 h
    refine ⟨h₁, List.nodup_cons.2 hn, fun v hv => ?_⟩
    rcases List.mem_cons.1 hv with rfl | hv
    · exact ⟨current, hcur, hrev⟩
    · obtain ⟨r, hr, hrr⟩ := h₂ v hv
      have hne : v.recordId ≠ u.recordId := fun he => hn.1 (List.mem_map.2 ⟨v, hv, he⟩)
      refine ⟨r, ?_, hrr⟩
      simpa [hne] using hr

/-! ## The tables after a save -/

/-- What a save computed on its way. -/
structure SaveTrace where
  /-- The resolved lines. -/
  resolved : List Resolved
  /-- The operations, each with the record its lines are linked to. -/
  assigned : List (Plan × Nat)
  /-- The new blocks. -/
  blocks : List Block
  /-- The written relations. -/
  links : List LinkItem

/-- The edits in place. -/
def SaveTrace.updates (tr : SaveTrace) : List RecordUpdate :=
  tr.assigned.filterMap fun a => a.1.inPlace

/-- The records after the save. -/
def SaveTrace.records (tr : SaveTrace) (records : Table Record) : Table Record :=
  (editRecords records tr.updates).insertMany (newRecords (tr.assigned.map Prod.fst))

/-- No record is lost. -/
theorem isSome_records {tr : SaveTrace} {records : Table Record} {k : Nat}
    (h : (records.get? k).isSome) : ((tr.records records).get? k).isSome := by
  rw [← isSome_editRecords tr.updates] at h
  obtain ⟨r, hr⟩ := Option.isSome_iff_exists.1 h
  unfold SaveTrace.records
  rw [Table.get?_insertMany_of_some hr]
  rfl

/-- A record with an old id existed before. -/
theorem isSome_of_records {tr : SaveTrace} {records : Table Record} {k : Nat}
    (h : ((tr.records records).get? k).isSome) (hk : k < records.next) :
    (records.get? k).isSome := by
  unfold SaveTrace.records at h
  rw [Table.get?_insertMany, if_pos (by simpa using hk), isSome_editRecords] at h
  exact h

/-- The domain after records and blocks have been written, against which the relations are
validated. -/
def SaveTrace.beforeLinks (tr : SaveTrace) (db : Db) : Db :=
  { db with
    domain.records := tr.records db.domain.records
    domain.blocks := db.domain.blocks.insertMany tr.blocks }

/-- The domain after the save. -/
def SaveTrace.domain (tr : SaveTrace) (db : Db) (scanId : Nat) : Domain :=
  { db.domain with
    records := tr.records db.domain.records
    blocks := db.domain.blocks.insertMany tr.blocks
    links := writeLinks db.domain.links scanId tr.links
    rejections := (closeActiveRejectionsMany db scanId
      (tr.resolved.map Resolved.lineId)).domain.rejections
    analyses := (AnalysisRepository.upsertMany db
      (tr.resolved.map fun r => (r.lineId, r.item.analysis))).domain.analyses }

/-- **What an accepted save does.** -/
structure Saved (db : Db) (scanId : Nat) (records : List Item) (reviewer : String)
    (tr : SaveTrace) : Prop where
  /-- The batch. -/
  resolve : ResolvedOk db scanId records reviewer tr.resolved
  /-- Every operation follows the in-place rule. -/
  plan : ∀ a ∈ tr.assigned, PlanOk db tr.resolved a.1
  /-- Every line of the batch belongs to an operation. -/
  covered : ∀ r ∈ tr.resolved, ∃ a ∈ tr.assigned, r ∈ a.1.items
  /-- No record is edited twice. -/
  updates_nodup : (tr.updates.map RecordUpdate.recordId).Nodup
  /-- An edited record exists. -/
  update : ∀ u ∈ tr.updates, ∃ r, db.domain.records.get? u.recordId = some r
  /-- An operation without an edit in place has a record of its own. -/
  hasRecord : ∀ a ∈ tr.assigned,
    HasRecord (tr.records db.domain.records) db.domain.records.next a
  /-- Every new record is that of an operation. -/
  newRecord : ∀ k r, db.domain.records.next ≤ k →
    (tr.records db.domain.records).get? k = some r → ∃ a ∈ tr.assigned, a.2 = k
  /-- The new blocks are ranges of files of the scan. -/
  block : ∀ b ∈ tr.blocks, 0 < b.startLine ∧ b.startLine ≤ b.endLine ∧
    ∃ file, db.facts.files.get? b.fileId = some file ∧ file.scanId = b.scanId
  /-- No line is linked twice. -/
  links_nodup : (tr.links.map LinkItem.lineId).Nodup
  /-- Every written relation is that of a line of the batch to the record of its operation. -/
  link : ∀ item ∈ tr.links, ∃ a ∈ tr.assigned, ∃ r ∈ a.1.items,
    item = linkItem a.2 item.blockId r
  /-- The block of a written relation is a new one. -/
  linkBlock : ∀ item ∈ tr.links, ∀ b ∈ item.blockId, db.domain.blocks.next ≤ b
  /-- Every line of an operation is linked to the operation's record. -/
  linked : ∀ a ∈ tr.assigned, ∀ r ∈ a.1.items, ∃ b, linkItem a.2 b r ∈ tr.links
  /-- Every written relation is valid. -/
  valid : ∀ item ∈ tr.links, validateLink (tr.beforeLinks db) scanId .blockNotFound item = .ok ()

/-- The plans of a save: every operation with a line has one, and it follows the in-place rule. -/
theorem plans_ok {db : Db} {resolved : List Resolved} {found : List (Option Plan)}
    (h : (operationKeys resolved).mapM (planOperation db resolved) = .ok found) :
    (∀ plan ∈ found.filterMap id, PlanOk db resolved plan) ∧
    ∀ r ∈ resolved, ∃ plan ∈ found.filterMap id, r ∈ plan.items := by
  constructor
  · intro plan hplan
    have hmem : some plan ∈ found := by simpa using hplan
    obtain ⟨k, _, hk⟩ := exists_of_mem_mapM h hmem
    exact (planOk_of_ok hk).1
  · intro r hr
    obtain ⟨p, hp, hk⟩ := mem_mapM_of_mem h (mem_operationKeys.2 ⟨r, hr, rfl⟩)
    obtain ⟨plan, rfl⟩ := planOperation_isSome hr hk
    obtain ⟨hok, hkey⟩ := planOk_of_ok hk
    refine ⟨plan, by simpa using hp, ?_⟩
    rw [hok.items]
    simp [hr, hkey]

theorem createBlocksMany_ok {db db' : Db} {blocks : List Block} {ids : List Nat}
    (h : createBlocksMany db blocks = .ok (db', ids)) :
    db' = { db with domain.blocks := db.domain.blocks.insertMany blocks } ∧
    (∀ id ∈ ids, db.domain.blocks.next ≤ id) ∧
    ∀ b ∈ blocks, 0 < b.startLine ∧ b.startLine ≤ b.endLine ∧
      ∃ file, db.facts.files.get? b.fileId = some file ∧ file.scanId = b.scanId := by
  simp only [createBlocksMany, bind_eq_ok, forM_eq_ok, pure_eq_ok, Prod.mk.injEq] at h
  obtain ⟨_, hfile, _, _, _, hrange, rfl, rfl⟩ := h
  refine ⟨rfl, fun id hid => (List.mem_range'_1.1 hid).1, fun b hb => ?_⟩
  have hr := hrange b hb
  have hf := hfile b hb
  simp only [assertBlockRange, require_eq_ok] at hr
  simp only [assertBlockFile, bind_eq_ok, orFail_eq_ok, require_eq_ok] at hf
  obtain ⟨file, hf, hs⟩ := hf
  exact ⟨hr.1, hr.2, file, hf, hs⟩

theorem createLinksMany_ok {db db' : Db} {scanId : Nat} {items : List LinkItem}
    (h : createLinksMany db scanId items = .ok db') :
    db' = { db with domain.links := writeLinks db.domain.links scanId items } ∧
    (items.map LinkItem.lineId).Nodup ∧
    ∀ item ∈ items, validateLink db scanId .blockNotFound item = .ok () := by
  simp only [createLinksMany, bind_eq_ok, require_eq_ok, forM_eq_ok, pure_eq_ok] at h
  obtain ⟨_, _, _, hn, _, _, _, _, _, _, _, _, _, _, _, hv, rfl⟩ := h
  exact ⟨rfl, hn, hv⟩

/-- The save of the domain, phase by phase. -/
theorem saveDomainRecords_ok {db db' : Db} {scanId : Nat} {records : List Item}
    {reviewer : String} {resolved : List Resolved} {files : List Nat}
    (hres : ResolvedOk db scanId records reviewer resolved)
    (h : saveDomainRecords db scanId resolved = .ok (db', files)) :
    ∃ tr : SaveTrace, tr.resolved = resolved ∧ Saved db scanId records reviewer tr ∧
      db' = { tr.beforeLinks db with
        domain.links := writeLinks db.domain.links scanId tr.links } := by
  simp only [saveDomainRecords, bind_eq_ok] at h
  obtain ⟨found, hfound, db₁, hup, h⟩ := h
  obtain ⟨hplan, hcov⟩ := plans_ok hfound
  generalize found.filterMap id = plans at hplan hcov hup h
  obtain ⟨rfl, hun, hue⟩ := updateRecordsMany_ok hup
  obtain ⟨ha₁, ha₂, ha₃, ha₄⟩ := assignRecords_spec plans
    { db with domain.records := editRecords db.domain.records (plans.filterMap Plan.inPlace) }
  generalize assignRecords _ plans = pair at ha₁ ha₂ ha₃ ha₄ h
  obtain ⟨db₂, assigned⟩ := pair
  dsimp only at ha₁ ha₂ ha₃ ha₄
  subst ha₁
  obtain ⟨⟨db₃, ids⟩, hb, db₄, hl, hpair⟩ := h
  obtain ⟨rfl, hids, hblock⟩ := createBlocksMany_ok hb
  obtain ⟨rfl, hln, hlv⟩ := createLinksMany_ok hl
  simp only [pure_eq_ok, Prod.mk.injEq] at hpair
  obtain ⟨rfl, _⟩ := hpair
  generalize hitems : (assigned.flatMap fun a => a.1.items.map fun r => linkItem a.2
    (List.lookup r.blockKey (((assigned.flatMap fun a => blocksOfPlan scanId a.1 a.2).map
      Prod.fst).zip ids)) r) = items at hln hlv
  have hupd : assigned.filterMap (fun a => a.1.inPlace) = plans.filterMap Plan.inPlace := by
    rw [← ha₂, List.filterMap_map]
    rfl
  have hrec : (SaveTrace.mk resolved assigned
      ((assigned.flatMap fun a => blocksOfPlan scanId a.1 a.2).map Prod.snd) items).records
      db.domain.records = (editRecords db.domain.records (plans.filterMap Plan.inPlace)).insertMany
        (newRecords plans) := by
    simp only [SaveTrace.records, SaveTrace.updates, hupd, ha₂]
  refine ⟨⟨resolved, assigned,
    (assigned.flatMap fun a => blocksOfPlan scanId a.1 a.2).map Prod.snd, items⟩, rfl, ?_, ?_⟩
  · constructor
    case resolve => exact hres
    case plan =>
      intro a ha
      exact hplan a.1 (ha₂ ▸ List.mem_map_of_mem ha)
    case covered =>
      intro r hr
      obtain ⟨plan, hp, hrp⟩ := hcov r hr
      rw [← ha₂, List.mem_map] at hp
      obtain ⟨a, ha, rfl⟩ := hp
      exact ⟨a, ha, hrp⟩
    case updates_nodup =>
      simpa only [SaveTrace.updates, hupd] using hun
    case update =>
      intro u hu
      simp only [SaveTrace.updates, hupd] at hu
      obtain ⟨r, hr, _⟩ := hue u hu
      exact ⟨r, hr⟩
    case hasRecord =>
      intro a ha
      rw [hrec]
      simpa using ha₃ a ha
    case newRecord =>
      intro k r hk hget
      rw [hrec] at hget
      exact ha₄ k r (by simpa using hk) hget
    case block => exact hblock
    case links_nodup => exact hln
    case linkBlock =>
      intro item hitem b hb
      simp only [← hitems, List.mem_flatMap, List.mem_map] at hitem
      obtain ⟨a, ha, r, hr, rfl⟩ := hitem
      exact hids b (List.of_mem_zip (mem_of_lookup hb)).2
    case link =>
      intro item hitem
      simp only [← hitems, List.mem_flatMap, List.mem_map] at hitem
      obtain ⟨a, ha, r, hr, rfl⟩ := hitem
      exact ⟨a, ha, r, hr, rfl⟩
    case linked =>
      intro a ha r hr
      rw [← hitems]
      exact ⟨_, List.mem_flatMap.2 ⟨a, ha, List.mem_map.2 ⟨r, hr, rfl⟩⟩⟩
    case valid =>
      intro item hitem
      have := hlv item hitem
      simpa only [SaveTrace.beforeLinks, hrec] using this
  · simp only [SaveTrace.beforeLinks, hrec]

/-- What a save does depends on the facts and the domain only. -/
theorem Saved.of_states {db : Db} {states : Keyed Nat ProjectState} {scanId : Nat}
    {records : List Item} {reviewer : String} {tr : SaveTrace}
    (h : Saved { db with states := states } scanId records reviewer tr) :
    Saved db scanId records reviewer tr where
  resolve := ⟨h.resolve.nodup, fun r hr =>
    let ok := h.resolve.lineOk r hr
    ⟨ok.line, ok.item, ok.status⟩⟩
  plan := fun a ha =>
    let ok := h.plan a ha
    ⟨ok.items, ok.first, ok.inPlace, ok.notInPlace⟩
  covered := h.covered
  updates_nodup := h.updates_nodup
  update := h.update
  hasRecord := h.hasRecord
  newRecord := h.newRecord
  block := h.block
  links_nodup := h.links_nodup
  link := h.link
  linkBlock := h.linkBlock
  linked := h.linked
  valid := h.valid

/-- What every review mutation leaves alone, and how it moves the project's version. -/
structure Mutated (db : Db) (projectId : Nat) (db' : Db) : Prop where
  /-- The physical side is untouched. -/
  facts : db'.facts = db.facts
  /-- Jobs, locks and checkpoints are untouched. -/
  imports : db'.imports = db.imports
  /-- The projects are untouched. -/
  projects : db'.projects = db.projects
  /-- No time passes. -/
  now : db'.now = db.now
  /-- No identifier is drawn. -/
  uuid : db'.uuid = db.uuid
  /-- The data version grows by one and the file states are ready at it. -/
  stateOf : ∀ q, db'.stateOf q = if q = projectId then
    { db.stateOf projectId with
      dataVersion := (db.stateOf projectId).dataVersion + 1
      fileStateVersion := (db.stateOf projectId).dataVersion + 1 } else db.stateOf q

/-- The end of a mutation: `advance`, then the ready gate. -/
theorem mutated_of_rebuilt {db db₁ db' : Db} {projectId dataVersion : Nat}
    (h : FileStateService.Rebuilt (ProjectStateRepository.advance db₁ projectId) projectId
      dataVersion db')
    (hfacts : db₁.facts = db.facts) (himports : db₁.imports = db.imports)
    (hprojects : db₁.projects = db.projects) (hnow : db₁.now = db.now) (huuid : db₁.uuid = db.uuid)
    (hstate : ∀ q, db₁.stateOf q = db.stateOf q) :
    Mutated db projectId db' ∧ db'.domain = db₁.domain := by
  have hv : dataVersion = (db.stateOf projectId).dataVersion + 1 := by
    have := h.version
    simp only [ProjectStateRepository.advance, ProjectStateRepository.stateOf_modify, if_pos,
      hstate] at this
    exact this.symm
  refine ⟨⟨?_, ?_, ?_, ?_, ?_, ?_⟩, ?_⟩
  · rw [h.facts, ← hfacts]; simp [ProjectStateRepository.advance]
  · rw [h.imports, ← himports]; simp [ProjectStateRepository.advance]
  · rw [h.projects, ← hprojects]; simp [ProjectStateRepository.advance]
  · rw [h.now, ← hnow]; simp [ProjectStateRepository.advance]
  · rw [h.uuid, ← huuid]; simp [ProjectStateRepository.advance]
  · intro q
    rw [h.stateOf q, hv]
    by_cases hq : q = projectId
    · subst hq
      simp [ProjectStateRepository.advance, hstate]
    · simp [ProjectStateRepository.advance, hq, hstate]
  · rw [h.domain]; simp [ProjectStateRepository.advance]

/-- The saved operation is bound to a scan of the project. -/
theorem save_scan {env : Env} {db db' : Db} {projectName reviewer : String} {scanId : Nat}
    {records : List Item} {enforceCurrent : Bool}
    (h : save env db projectName scanId records reviewer enforceCurrent = .ok db') :
    ∃ projectId scan, ProjectRepository.getProjectByName db projectName = some projectId ∧
      db.facts.scans.get? scanId = some scan ∧ scan.projectId = projectId ∧
      (enforceCurrent = true → (db.stateOf projectId).currentScanId.getD 0 = scanId) := by
  simp only [save, bind_eq_ok, orFail_eq_ok, require_eq_ok] at h
  obtain ⟨projectId, hp, scan, hs, _, hbound, _, hcur, _⟩ := h
  refine ⟨projectId, scan, hp, hs, hbound, fun he => ?_⟩
  rcases hcur with hcur | hcur
  · rw [he] at hcur
    cases hcur
  · exact hcur

/-- **An accepted save of at least one operation**, in terms of its trace. -/
theorem saved_of_ok {env : Env} {db db' : Db} {projectName reviewer : String} {scanId : Nat}
    {records : List Item} {enforceCurrent : Bool} (hne : records ≠ [])
    (h : save env db projectName scanId records reviewer enforceCurrent = .ok db') :
    ∃ projectId tr, ProjectRepository.getProjectByName db projectName = some projectId ∧
      resolveRecords env db scanId records reviewer = .ok tr.resolved ∧
      Saved db scanId records reviewer tr ∧ db'.domain = tr.domain db scanId ∧
      Mutated db projectId db' := by
  simp only [save, bind_eq_ok, orFail_eq_ok, require_eq_ok, if_neg hne] at h
  obtain ⟨projectId, hp, scan, hs, _, hbound, _, hcur, resolved, hres, _, _, ⟨db₁, files⟩, hsave,
    hgate⟩ := h
  -- `lock_for_update` only makes sure that the state row exists
  obtain ⟨states, hstates⟩ := ProjectStateRepository.ensure_eq db projectId
  have hstate : ∀ q, ({ db with states := states } : Db).stateOf q = db.stateOf q := fun q => by
    rw [← hstates, ProjectStateRepository.stateOf_ensure]
  simp only [ProjectStateRepository.lockForUpdate, hstates] at hres hsave hgate
  obtain ⟨tr, rfl, hsaved, rfl⟩ := saveDomainRecords_ok (resolveRecords_ok hres) hsave
  have hrebuilt := FileStateService.rebuilt_of_ok hgate
  obtain ⟨hmut, hdomain⟩ : Mutated db projectId db' ∧ _ :=
    mutated_of_rebuilt hrebuilt rfl rfl rfl rfl rfl hstate
  exact ⟨projectId, tr, hp, hres, hsaved.of_states, hdomain, hmut⟩

end AnalysisService

end FosCoverage
