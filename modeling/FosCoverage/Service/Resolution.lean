import FosCoverage.Lib.LastWrite
import FosCoverage.Service.Ingestion
import FosCoverage.Service.Save
import FosCoverage.System

/-!
# Which lines a save request names

`_resolve_records` expands ranges, looks the lines up in bulk and joins them back by key.  Here is
what comes out, in terms of the request alone.

* `Item.spans` are the ranges of line numbers a record gives, `Names` says which lines of the scan a
  record names, by id or by file and number.
* `selection` is the list of the lines one record selects, and `selectAll_ok` says that the loops
  over records and ranges build exactly these, in order.
* `findLine_names` and `exists_findLine` connect a selected line with the physical line it stands
  for: with the keys of the schema, the bulk lookups find a line for every name and no other.
* `Settles` is what one resolved line has to say about the record it comes from.

The last record for a line wins because the resolved lines are ordered by operation, and a
dictionary keeps the last value written (`LastWrite.mem_foldl_set`).
-/

set_option autoImplicit false

namespace FosCoverage

open Relational Outcome

namespace AnalysisService

open AnalysisDomainRepository

/-! ## What a record names -/

/-- The ranges of line numbers a record gives: `line_ranges`, `line_start` and `line_end`,
`line_numbers`, or else the one `line_number`. -/
def Item.spans (item : Item) : Option (List (Int × Int)) :=
  item.ranges.or (item.lineNumber.map fun n => [(n, n)])

/-- The number is in one of the ranges. -/
def Covers (ranges : List (Int × Int)) (number : Nat) : Prop :=
  ∃ range ∈ ranges, range.1 ≤ number ∧ (number : Int) ≤ range.2

/-- **The record names the line**: it is the line with the record's id, if the record has one, else
a line of the file the record identifies; and its number is in one of the ranges, unless the record
gives an id and no numbers at all. -/
def Names (env : Env) (db : Db) (scanId : Nat) (item : Item) (lineId : Nat) : Prop :=
  ∃ line file, db.facts.lines.get? lineId = some line ∧
    db.facts.files.get? line.fileId = some file ∧ file.scanId = scanId ∧
    (if item.lineId ≠ 0 then
      lineId = item.lineId ∧ ∀ ranges ∈ item.spans, Covers ranges line.facts.lineNumber
    else
      file.repositoryName = item.repositoryName ∧ file.filePathHash = item.fileHash env ∧
        ∃ ranges ∈ item.spans, Covers ranges line.facts.lineNumber)

/-! ## The selected lines -/

/-- The lines of one range. -/
def rangeLines (op : Nat × Item) (range : (Int × Int) × Nat) : List Selected :=
  (List.range' range.1.1.toNat (range.1.2.toNat + 1 - range.1.1.toNat)).map fun lineNumber =>
    ⟨op.1, range.2, range.1.1.toNat, range.1.2.toNat, some lineNumber, op.2⟩

/-- The lines one record selects. -/
def selection (op : Nat × Item) : List Selected :=
  match op.2.spans with
  | some ranges => ranges.zipIdx.flatMap (rangeLines op)
  | none => [⟨op.1, 0, 0, 0, none, op.2⟩]

theorem operationKey_of_mem_selection {op : Nat × Item} {s : Selected} (h : s ∈ selection op) :
    s.operationKey = op.1 ∧ s.item = op.2 := by
  unfold selection at h
  split at h
  · obtain ⟨range, _, hs⟩ := List.mem_flatMap.1 h
    obtain ⟨n, _, rfl⟩ := List.mem_map.1 hs
    exact ⟨rfl, rfl⟩
  · obtain rfl := List.mem_singleton.1 h
    exact ⟨rfl, rfl⟩

/-- The ranges a record gives start at one and do not end before they start. -/
def WellRanged (item : Item) : Prop :=
  ∀ ranges ∈ item.spans, ∀ range ∈ ranges, 1 ≤ range.1 ∧ range.1 ≤ range.2

/-- The record says which lines it means. -/
def Addressed (item : Item) : Prop := item.spans = none → item.lineId ≠ 0

theorem expandRange_ok {op : Nat × Item} {acc acc' : List Selected} {range : (Int × Int) × Nat}
    (h : expandRange op.1 range.2 op.2 acc range.1 = .ok acc') :
    acc' = acc ++ rangeLines op range ∧ 1 ≤ range.1.1 ∧ range.1.1 ≤ range.1.2 := by
  simp only [expandRange, bind_eq_ok, require_eq_ok, pure_eq_ok] at h
  obtain ⟨_, ⟨hpos, hle⟩, _, _, _, _, rfl⟩ := h
  exact ⟨rfl, hpos, hle⟩

theorem expandRanges_ok {op : Nat × Item} {ranges : List (Int × Int)} {acc acc' : List Selected}
    (h : expandRanges op acc ranges = .ok acc') :
    acc' = acc ++ ranges.zipIdx.flatMap (rangeLines op) ∧
      ∀ range ∈ ranges, 1 ≤ range.1 ∧ range.1 ≤ range.2 := by
  have hloop : ∀ (l : List ((Int × Int) × Nat)) (acc acc' : List Selected),
      l.foldlM (fun acc r => expandRange op.1 r.2 op.2 acc r.1) acc = .ok acc' →
      acc' = acc ++ l.flatMap (rangeLines op) ∧ ∀ r ∈ l, 1 ≤ r.1.1 ∧ r.1.1 ≤ r.1.2 := by
    intro l
    induction l with
    | nil =>
      intro acc acc' h
      obtain rfl := pure_eq_ok.1 h
      simp
    | cons r l ih =>
      intro acc acc' h
      rw [List.foldlM_cons, bind_eq_ok] at h
      obtain ⟨mid, hr, hl⟩ := h
      obtain ⟨rfl, hvalid⟩ := expandRange_ok hr
      obtain ⟨rfl, hrest⟩ := ih _ _ hl
      refine ⟨by simp, fun x hx => ?_⟩
      rcases List.mem_cons.1 hx with rfl | hx
      · exact hvalid
      · exact hrest x hx
  obtain ⟨rfl, hvalid⟩ := hloop _ _ _ h
  refine ⟨rfl, fun range hrange => ?_⟩
  obtain ⟨i, hi⟩ := List.mem_iff_getElem?.1 hrange
  exact hvalid (range, i) (List.mk_mem_zipIdx_iff_getElem?.2 hi)

/-- **One record** adds the lines it selects. -/
theorem expandItem_ok {op : Nat × Item} {acc acc' : List Selected}
    (h : expandItem acc op = .ok acc') :
    acc' = acc ++ selection op ∧ WellRanged op.2 ∧ Addressed op.2 := by
  have hspans : ∀ ranges, op.2.spans = some ranges → expandRanges op acc ranges = .ok acc' →
      acc' = acc ++ selection op ∧ WellRanged op.2 ∧ Addressed op.2 := by
    intro ranges hs h
    obtain ⟨rfl, hvalid⟩ := expandRanges_ok h
    refine ⟨by simp [selection, hs], ?_, fun hn => by rw [hs] at hn; cases hn⟩
    intro ranges' hr'
    obtain rfl := Option.some.inj (hs.symm.trans hr')
    exact hvalid
  unfold expandItem at h
  split at h
  · rename_i ranges hr
    exact hspans ranges (by simp [Item.spans, hr]) h
  · rename_i n hr hn
    exact hspans [(n, n)] (by simp [Item.spans, hr, hn]) h
  · rename_i hr hn
    have hs : op.2.spans = none := by simp [Item.spans, hr, hn]
    split at h
    · rename_i hid
      obtain rfl := pure_eq_ok.1 h
      have hempty : WellRanged op.2 := by
        intro ranges hr'
        rw [hs] at hr'
        cases hr'
      exact ⟨by simp [selection, hs], hempty, fun _ => hid⟩
    · cases h

/-- **All records** add their lines in the order of the records. -/
theorem selectAll_ok {ops : List (Nat × Item)} {acc selected : List Selected}
    (h : ops.foldlM expandItem acc = .ok selected) :
    selected = acc ++ ops.flatMap selection ∧ ∀ op ∈ ops, WellRanged op.2 ∧ Addressed op.2 := by
  induction ops generalizing acc with
  | nil =>
    obtain rfl := pure_eq_ok.1 h
    simp
  | cons op ops ih =>
    rw [List.foldlM_cons, bind_eq_ok] at h
    obtain ⟨mid, hop, hops⟩ := h
    obtain ⟨rfl, hvalid⟩ := expandItem_ok hop
    obtain ⟨rfl, hrest⟩ := ih hops
    refine ⟨by simp, fun x hx => ?_⟩
    rcases List.mem_cons.1 hx with rfl | hx
    · exact hvalid
    · exact hrest x hx

/-- A selected line of ranges is a number in one of them. -/
theorem mem_selection_some {op : Nat × Item} {ranges : List (Int × Int)} {s : Selected}
    (hs : op.2.spans = some ranges) (hw : WellRanged op.2) :
    s ∈ selection op ↔ ∃ (range : Int × Int) (number : Nat),
      ranges[s.rangeKey]? = some range ∧ range.1 ≤ (number : Int) ∧ (number : Int) ≤ range.2 ∧
      s = ⟨op.1, s.rangeKey, range.1.toNat, range.2.toNat, some number, op.2⟩ := by
  have hvalid := hw ranges hs
  simp only [selection, hs, List.mem_flatMap, rangeLines, List.mem_map, List.mem_range'_1]
  constructor
  · rintro ⟨⟨range, i⟩, hr, n, ⟨hn, hn'⟩, rfl⟩
    have hr' := List.mk_mem_zipIdx_iff_getElem?.1 hr
    obtain ⟨hpos, hle⟩ := hvalid range (List.mem_of_getElem? hr')
    dsimp only at hn hn'
    exact ⟨range, n, hr', by omega, by omega, rfl⟩
  · rintro ⟨range, n, hr, hn, hn', he⟩
    obtain ⟨hpos, hle⟩ := hvalid range (List.mem_of_getElem? hr)
    exact ⟨(range, s.rangeKey), List.mk_mem_zipIdx_iff_getElem?.2 hr, n,
      by dsimp only; omega, he.symm⟩

/-! ## The physical lines -/

variable {env : Env} {db : Db} {scanId : Nat} {reviewer : String}

theorem getFile_of_row {k : Nat} {file : FileRow} (hdb : FactsOk db)
    (hk : db.facts.files.get? k = some file) (hscan : file.scanId = scanId) :
    ProjectRepository.getFile db scanId file.repositoryName file.filePathHash = some (k, file) := by
  cases hget : ProjectRepository.getFile db scanId file.repositoryName file.filePathHash with
  | none =>
    refine absurd ?_ (ProjectRepository.getFile_none (by rw [hget]; rfl) hk)
    rw [FileRow.key, hscan]
  | some found =>
    obtain ⟨k', file'⟩ := found
    obtain ⟨hk', hkey⟩ := ProjectRepository.getFile_some hget
    obtain rfl : k' = k := hdb.file k' k file' file hk' hk (by rw [hkey, FileRow.key, hscan])
    rw [Option.some.inj (hk'.symm.trans hk)]

theorem getLine_of_row {k : Nat} {line : LineRow} (hdb : FactsOk db)
    (hk : db.facts.lines.get? k = some line) :
    LineIndexRepository.getLine db line.fileId line.facts.lineNumber = some (k, line) := by
  cases hget : LineIndexRepository.getLine db line.fileId line.facts.lineNumber with
  | none =>
    have := List.find?_eq_none.1 hget (k, line) (Keyed.get?_eq_some_iff.1 hk)
    simp at this
  | some found =>
    obtain ⟨k', line'⟩ := found
    obtain ⟨hk', hfile, hnumber⟩ := getLine_some hget
    obtain rfl : k' = k :=
      hdb.line k' k line' line hk' hk (by simp only [LineRow.key, hfile, hnumber])
    rw [Option.some.inj (hk'.symm.trans hk)]

/-- **What is found is named.** -/
theorem findLine_names {op : Nat × Item} {s : Selected} {r : Nat × LineRow}
    (hw : WellRanged op.2) (ha : Addressed op.2) (hs : s ∈ selection op)
    (h : findLine env db scanId s = .ok r) : Names env db scanId op.2 r.1 := by
  obtain ⟨hline, file, hfile, hscan⟩ := lineOfScan_eq_some.1 (findLine_ok h)
  obtain ⟨-, hitem⟩ := operationKey_of_mem_selection hs
  -- the number the record selects is the number of the line
  have hcovers : ∀ ranges, op.2.spans = some ranges → (∀ n ∈ s.lineNumber,
      n = r.2.facts.lineNumber) → Covers ranges r.2.facts.lineNumber := by
    intro ranges hspans hn
    obtain ⟨range, n, hr, hlo, hhi, he⟩ := (mem_selection_some hspans hw).1 hs
    rw [← hn n (by rw [he]; rfl)]
    exact ⟨range, List.mem_of_getElem? hr, hlo, hhi⟩
  refine ⟨r.2, file, hline, hfile, hscan, ?_⟩
  unfold findLine at h
  split at h
  · rename_i hid
    simp only [bind_eq_ok, orFail_eq_ok, require_eq_ok, pure_eq_ok] at h
    obtain ⟨line, hl, _, hn, rfl⟩ := h
    rw [if_pos (hitem ▸ hid)]
    exact ⟨by rw [hitem], fun ranges hspans => hcovers ranges hspans hn⟩
  · rename_i hid
    simp only [bind_eq_ok, orFail_eq_ok] at h
    obtain ⟨⟨fileId, file'⟩, hf, hl⟩ := h
    obtain ⟨hf', _, hrepo, hhash⟩ := getFile_some hf
    obtain ⟨_, hfid, hnumber⟩ := getLine_some (show _ = some (r.1, r.2) from hl)
    rw [hfid, hf'] at hfile
    obtain rfl := Option.some.inj hfile
    rw [if_neg (hitem ▸ hid)]
    refine ⟨hitem ▸ hrepo, hitem ▸ hhash, ?_⟩
    cases hspans : op.2.spans with
    | none => exact absurd (ha hspans) (hitem ▸ hid)
    | some ranges =>
      refine ⟨ranges, rfl, hcovers ranges hspans fun n hn => ?_⟩
      rw [hnumber, Option.mem_def.1 hn]
      rfl

/-- **What is named is found**: the record selects a line that can only be this one. -/
theorem exists_findLine {op : Nat × Item} {lineId : Nat} (hdb : FactsOk db) (hw : WellRanged op.2)
    (h : Names env db scanId op.2 lineId) :
    ∃ s ∈ selection op, ∀ r, findLine env db scanId s = .ok r → r.1 = lineId := by
  obtain ⟨line, file, hline, hfile, hscan, hnames⟩ := h
  split at hnames
  · rename_i hid
    obtain ⟨rfl, hcov⟩ := hnames
    have hfound : ∀ s : Selected, s.item = op.2 → ∀ r, findLine env db scanId s = .ok r →
        r.1 = op.2.lineId := by
      intro s hs r hr
      simp only [findLine, hs, if_pos hid, bind_eq_ok, orFail_eq_ok, require_eq_ok,
        pure_eq_ok] at hr
      obtain ⟨_, _, _, _, rfl⟩ := hr
      rfl
    cases hspans : op.2.spans with
    | none =>
      refine ⟨⟨op.1, 0, 0, 0, none, op.2⟩, ?_, hfound _ rfl⟩
      simp only [selection, hspans, List.mem_singleton]
    | some ranges =>
      obtain ⟨range, hrange, hlo, hhi⟩ := hcov ranges hspans
      obtain ⟨i, hi⟩ := List.mem_iff_getElem?.1 hrange
      exact ⟨⟨op.1, i, range.1.toNat, range.2.toNat, some line.facts.lineNumber, op.2⟩,
        (mem_selection_some hspans hw).2 ⟨range, line.facts.lineNumber, hi, hlo, hhi, rfl⟩,
        hfound _ rfl⟩
  · rename_i hid
    obtain ⟨hrepo, hhash, ranges, hspans, range, hrange, hlo, hhi⟩ := hnames
    obtain ⟨i, hi⟩ := List.mem_iff_getElem?.1 hrange
    refine ⟨⟨op.1, i, range.1.toNat, range.2.toNat, some line.facts.lineNumber, op.2⟩,
      (mem_selection_some hspans hw).2 ⟨range, line.facts.lineNumber, hi, hlo, hhi, rfl⟩, ?_⟩
    intro r hr
    have hget := getFile_of_row hdb hfile hscan
    rw [hrepo, hhash] at hget
    simp only [findLine, if_neg hid, hget, orFail_some, ok_bind, Option.getD_some,
      getLine_of_row hdb hline] at hr
    cases hr
    rfl

/-! ## The result -/

/-- What one resolved line says about the record it comes from. -/
structure Settles (env : Env) (db : Db) (scanId : Nat) (reviewer : String) (op : Nat × Item)
    (r : Resolved) : Prop where
  /-- It is numbered as the record. -/
  operationKey : r.operationKey = op.1
  /-- **It carries the content of the record**, with the caller as the reviewer where the record
  names none. -/
  content : r.item = op.2.withReviewer reviewer
  /-- The record names the line. -/
  names : Names env db scanId op.2 r.lineId
  /-- The line is a line of the scan, with this file and number. -/
  line : ∃ line, lineOfScan db scanId r.lineId = some line ∧ r.fileId = line.fileId ∧
    r.lineNumber = line.facts.lineNumber
  /-- Its range is one the record gives, or the line alone. -/
  range : match op.2.spans with
    | some ranges => ranges[r.rangeKey]? = some ((r.rangeStart : Int), (r.rangeEnd : Int))
    | none => r.rangeStart = r.lineNumber ∧ r.rangeEnd = r.lineNumber
  /-- The line is within it. -/
  within : r.rangeStart ≤ r.lineNumber ∧ r.lineNumber ≤ r.rangeEnd

/-- A number that was selected is the number of the line that was found. -/
theorem lineNumber_of_findLine {s : Selected} {r : Nat × LineRow} {n : Nat}
    (h : findLine env db scanId s = .ok r) (hn : s.lineNumber = some n) :
    r.2.facts.lineNumber = n := by
  unfold findLine at h
  split at h
  · simp only [bind_eq_ok, orFail_eq_ok, require_eq_ok, pure_eq_ok] at h
    obtain ⟨line, _, _, hnum, rfl⟩ := h
    exact (hnum n hn).symm
  · simp only [bind_eq_ok, orFail_eq_ok] at h
    obtain ⟨_, _, hl⟩ := h
    obtain ⟨_, _, hnumber⟩ := getLine_some (show _ = some (r.1, r.2) from hl)
    rw [hnumber, hn, Option.getD_some]

theorem resolveLine_settles {op : Nat × Item} {s : Selected} {r : Resolved}
    (hw : WellRanged op.2) (ha : Addressed op.2) (hs : s ∈ selection op)
    (h : resolveLine env db scanId reviewer s = .ok r) : Settles env db scanId reviewer op r := by
  obtain ⟨hkey, hitem⟩ := operationKey_of_mem_selection hs
  simp only [resolveLine, bind_eq_ok, require_eq_ok, pure_eq_ok] at h
  obtain ⟨⟨lineId, line⟩, hl, _, _, rfl⟩ := h
  refine ⟨hkey, by simp only [Item.withReviewer, hitem], findLine_names hw ha hs hl,
    ⟨line, findLine_ok hl, rfl, rfl⟩, ?_, ?_⟩
  · cases hspans : op.2.spans with
    | none =>
      simp only [selection, hspans, List.mem_singleton] at hs
      subst hs
      exact ⟨rfl, rfl⟩
    | some ranges =>
      obtain ⟨range, n, hr, hlo, hhi, he⟩ := (mem_selection_some hspans hw).1 hs
      obtain ⟨hpos, hle⟩ := hw ranges hspans range (List.mem_of_getElem? hr)
      have hstart : s.rangeStart = range.1.toNat := by rw [he]
      have hend : s.rangeEnd = range.2.toNat := by rw [he]
      have h₁ : range.1.toNat ≠ 0 := by omega
      have h₂ : range.2.toNat ≠ 0 := by omega
      simp only [hstart, hend, if_neg h₁, if_neg h₂, hr, Option.some.injEq]
      exact Prod.ext (by dsimp only; omega) (by dsimp only; omega)
  · cases hspans : op.2.spans with
    | none =>
      simp only [selection, hspans, List.mem_singleton] at hs
      subst hs
      exact ⟨Nat.le_refl _, Nat.le_refl _⟩
    | some ranges =>
      obtain ⟨range, n, hr, hlo, hhi, he⟩ := (mem_selection_some hspans hw).1 hs
      obtain ⟨hpos, hle⟩ := hw ranges hspans range (List.mem_of_getElem? hr)
      have hnum : line.facts.lineNumber = n := lineNumber_of_findLine hl (by rw [he])
      have hstart : s.rangeStart = range.1.toNat := by rw [he]
      have hend : s.rangeEnd = range.2.toNat := by rw [he]
      have h₁ : range.1.toNat ≠ 0 := by omega
      have h₂ : range.2.toNat ≠ 0 := by omega
      simp only [hstart, hend, if_neg h₁, if_neg h₂, hnum]
      omega

theorem operations_sorted {records : List Item} :
    (operations records).Pairwise fun a b => a.1 < b.1 := by
  rw [operations, List.pairwise_map]
  refine List.pairwise_iff_getElem.2 fun i j hi hj hij => ?_
  simp only [List.getElem_zipIdx]
  omega

theorem mem_operations {records : List Item} {k : Nat} {item : Item} :
    (k + 1, item) ∈ operations records ↔ records[k]? = some item := by
  simp only [operations, List.mem_map, Prod.mk.injEq, Prod.exists]
  constructor
  · rintro ⟨a, n, hn, hk, rfl⟩
    obtain rfl : n = k := by omega
    exact List.mk_mem_zipIdx_iff_getElem?.1 hn
  · intro h
    exact ⟨item, k, List.mk_mem_zipIdx_iff_getElem?.2 h, rfl, rfl⟩

theorem selectAll_sorted {ops : List (Nat × Item)} (h : ops.Pairwise fun a b => a.1 < b.1) :
    (ops.flatMap selection).Pairwise fun a b => a.operationKey ≤ b.operationKey := by
  rw [List.pairwise_flatMap]
  refine ⟨fun op _ => ?_, h.imp fun hlt x hx y hy => ?_⟩
  · refine List.pairwise_of_forall_mem_list fun x hx y hy => ?_
    rw [(operationKey_of_mem_selection hx).1, (operationKey_of_mem_selection hy).1]
  · rw [(operationKey_of_mem_selection hx).1, (operationKey_of_mem_selection hy).1]
    omega

/-- What the resolution of a request returns. -/
structure Resolution (env : Env) (db : Db) (scanId : Nat) (records : List Item)
    (reviewer : String) (resolved : List Resolved) : Prop where
  /-- No line occurs twice. -/
  nodup : (resolved.map Resolved.lineId).Nodup
  /-- **The lines are those some record names.** -/
  lines : ∀ lineId, lineId ∈ resolved.map Resolved.lineId ↔
    ∃ item ∈ records, Names env db scanId item lineId
  /-- **Every line is settled by the last record that names it.** -/
  last : ∀ r ∈ resolved, ∃ k item, records[k]? = some item ∧
    Settles env db scanId reviewer (k + 1, item) r ∧
    ∀ k' item', records[k']? = some item' → Names env db scanId item' r.lineId → k' ≤ k

/-- The line found for a selected line is the line of the resolved operation. -/
theorem lineId_of_resolveLine {s : Selected} {r : Resolved}
    (h : resolveLine env db scanId reviewer s = .ok r) :
    ∃ line, findLine env db scanId s = .ok (r.lineId, line) ∧
      r.operationKey = s.operationKey := by
  simp only [resolveLine, bind_eq_ok, require_eq_ok, pure_eq_ok] at h
  obtain ⟨⟨lineId, line⟩, hl, _, _, rfl⟩ := h
  exact ⟨line, hl, rfl⟩

theorem resolution_of_ok {records : List Item} {resolved : List Resolved} (hdb : FactsOk db)
    (h : resolveRecords env db scanId records reviewer = .ok resolved) :
    Resolution env db scanId records reviewer resolved := by
  simp only [resolveRecords, bind_eq_ok, pure_eq_ok] at h
  obtain ⟨selected, hsel, _, _, found, hfound, rfl⟩ := h
  obtain ⟨hselected, hvalid⟩ := selectAll_ok (show (operations records).foldlM _ [] = _ from hsel)
  rw [List.nil_append] at hselected
  -- every resolved line settles a record of the request
  have hsettles : ∀ r ∈ found, ∃ op ∈ operations records,
      Settles env db scanId reviewer op r := by
    intro r hr
    obtain ⟨s, hs, hsr⟩ := exists_of_mem_mapM hfound hr
    obtain ⟨op, hop, hsop⟩ := List.mem_flatMap.1 (hselected ▸ hs)
    exact ⟨op, hop, resolveLine_settles (hvalid op hop).1 (hvalid op hop).2 hsop hsr⟩
  -- and every line a record names is resolved for that record
  have hnamed : ∀ op ∈ operations records, ∀ lineId, Names env db scanId op.2 lineId →
      ∃ r ∈ found, r.lineId = lineId ∧ r.operationKey = op.1 := by
    intro op hop lineId hn
    obtain ⟨s, hs, hfind⟩ := exists_findLine hdb (hvalid op hop).1 hn
    obtain ⟨r, hr, hsr⟩ := mem_mapM_of_mem hfound
      (hselected ▸ List.mem_flatMap.2 ⟨op, hop, hs⟩)
    obtain ⟨line, hl, hkey⟩ := lineId_of_resolveLine hsr
    exact ⟨r, hr, hfind _ hl, hkey.trans (operationKey_of_mem_selection hs).1⟩
  have hsorted : found.Pairwise fun a b => a.operationKey ≤ b.operationKey := by
    have hkeys : found.map Resolved.operationKey = selected.map Selected.operationKey :=
      map_eq_of_mapM hfound fun s r hr => (lineId_of_resolveLine hr).choose_spec.2
    rw [← List.pairwise_map (f := Resolved.operationKey) (R := (· ≤ ·)), hkeys,
      List.pairwise_map, hselected]
    exact selectAll_sorted operations_sorted
  rw [keepLast_eq]
  refine ⟨LastWrite.nodup_foldl_set, fun lineId => ?_, fun r hr => ?_⟩
  · rw [List.mem_map]
    constructor
    · rintro ⟨r, hr, rfl⟩
      obtain ⟨op, hop, hset⟩ := hsettles r (LastWrite.mem_foldl_set.1 hr).mem
      exact ⟨op.2, mem_of_mem_operations hop, hset.names⟩
    · rintro ⟨item, hitem, hn⟩
      obtain ⟨k, hk⟩ := List.mem_iff_getElem?.1 hitem
      obtain ⟨r, hr, rfl, _⟩ := hnamed (k + 1, item) (mem_operations.2 hk) lineId hn
      obtain ⟨x, hx, hxr⟩ : ∃ x, LastWrite.IsLast Resolved.lineId found x ∧ _ :=
        LastWrite.exists_isLast hr
      exact ⟨x, LastWrite.mem_foldl_set.2 hx, hxr⟩
  · have hlast := LastWrite.mem_foldl_set.1 hr
    obtain ⟨⟨key, item⟩, hop, hset⟩ := hsettles r hlast.mem
    obtain ⟨k, rfl⟩ : ∃ k, key = k + 1 := by
      simp only [operations, List.mem_map, Prod.mk.injEq, Prod.exists] at hop
      obtain ⟨_, n, _, hk, _⟩ := hop
      exact ⟨n, hk.symm⟩
    refine ⟨k, item, mem_operations.1 hop, hset, fun k' item' hk' hn => ?_⟩
    obtain ⟨r', hr', hid, hkey'⟩ := hnamed (k' + 1, item') (mem_operations.2 hk') r.lineId hn
    have hle := hlast.rank_le hsorted hr' hid
    rw [hkey', hset.operationKey] at hle
    exact Nat.le_of_succ_le_succ hle

/-- **The resolution of a save request**: either it raises, and then the save that asks for it
raises and leaves no database behind, or every line some record names is returned once, with the
content and a range of the last record that names it. -/
theorem resolveRecords_lastRecordWins (env : Env) (db : Db) (scanId : Nat) (records : List Item)
    (reviewer : String) (hdb : FactsOk db) :
    match resolveRecords env db scanId records reviewer with
    | .ok resolved => Resolution env db scanId records reviewer resolved
    | .error _ => ∀ projectName enforceCurrent db',
        save env db projectName scanId records reviewer enforceCurrent ≠ .ok db' := by
  cases h : resolveRecords env db scanId records reviewer with
  | ok resolved => exact resolution_of_ok hdb h
  | error e =>
    intro projectName enforceCurrent db' hsave
    have hne : records ≠ [] := by
      rintro rfl
      cases h
    obtain ⟨_, tr, _, hres, _⟩ := saved_of_ok hne hsave
    rw [h] at hres
    cases hres

end AnalysisService

/-! ## Overlapping records -/

namespace Sample

/-- Three lines on a first scan. -/
def overlapDb : Db :=
  Action.exec env Db.empty
    (firstScan [file "a.cpp" [uncovered 1 "a();", uncovered 2 "b();", uncovered 3 "c();"]])

/-- A range over all lines, then the middle line by its id. -/
def overlapping : List AnalysisService.Item :=
  [conclude 1 3 "可覆盖", { lineId := 2, status := some "无法覆盖" }]

theorem factsOk_overlapDb : FactsOk overlapDb := by
  refine ⟨Table.uniqueOn_of_rows (by decide +kernel), Table.uniqueOn_of_rows (by decide +kernel),
    fun k l hl => ?_⟩
  have hall : ∀ r ∈ overlapDb.facts.lines.rows, (overlapDb.facts.files.get? r.2.fileId).isSome := by
    decide +kernel
  exact Option.isSome_iff_exists.1 (hall (k, l) (Keyed.get?_eq_some_iff.1 hl))

end Sample

namespace AnalysisService

/-- The record for the middle line overrides the range there, and the range keeps the rest. -/
theorem resolveRecords_lastRecordWins_sample :
    ∃ resolved, resolveRecords Sample.env Sample.overlapDb 1 Sample.overlapping "ann" =
        .ok resolved ∧
      (resolved.map fun r => (r.lineId, r.operationKey, r.rangeStart, r.rangeEnd)) =
        [(1, 1, 1, 3), (2, 2, 2, 2), (3, 1, 1, 3)] ∧
      Resolution Sample.env Sample.overlapDb 1 Sample.overlapping "ann" resolved := by
  obtain ⟨resolved, h⟩ := exists_of_isOk (show
    (resolveRecords Sample.env Sample.overlapDb 1 Sample.overlapping "ann").isOk = true by
      decide +kernel)
  have hmap : (resolveRecords Sample.env Sample.overlapDb 1 Sample.overlapping "ann").toOption.map
      (List.map fun r => (r.lineId, r.operationKey, r.rangeStart, r.rangeEnd)) =
      some [(1, 1, 1, 3), (2, 2, 2, 2), (3, 1, 1, 3)] := by decide +kernel
  have hres := resolveRecords_lastRecordWins Sample.env Sample.overlapDb 1 Sample.overlapping "ann"
    Sample.factsOk_overlapDb
  rw [h] at hmap hres
  exact ⟨resolved, h, Option.some.inj hmap, hres⟩

end AnalysisService

end FosCoverage
