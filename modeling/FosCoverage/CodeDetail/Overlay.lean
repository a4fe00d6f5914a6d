import FosCoverage.Analysis.Visibility

/-!
# The analysis overlay of a file

What code detail reads of the database, and how it turns it into the overlay of a file.

* `overlayRanges` is the normal form of the requested ranges; it covers every requested line
  (`covers_overlayRanges`).
* `readFile` is the join of `read_file`: the relation of a line whether active or not, its record,
  and its active rejection, for the lines where one of the two is active.
* `loadOverlay` is the body of `_overlay` between its two locked sections.  It reads the database
  twice when the domain has no row at all, and the second read may see a later state.

The overlay has the row of the domain for every visible line (`loadOverlay_visible`).
-/

set_option autoImplicit false

namespace FosCoverage

open Relational Outcome AnalysisDomainRepository

namespace CodeDetail

/-! ## Ranges -/

/-- `(start_line, end_line)` -/
abbrev LineRange := Int × Int

/-- The line lies in the range. -/
def LineRange.has (r : LineRange) (n : Int) : Bool := r.1 ≤ n ∧ n ≤ r.2

/-- The order of `sorted` on pairs. -/
def LineRange.le (r r' : LineRange) : Prop := r.1 < r'.1 ∨ (r.1 = r'.1 ∧ r.2 ≤ r'.2)

instance : DecidableRel LineRange.le := fun r r' =>
  inferInstanceAs (Decidable (r.1 < r'.1 ∨ (r.1 = r'.1 ∧ r.2 ≤ r'.2)))

instance : Std.Total LineRange.le := ⟨fun r r' => by unfold LineRange.le; omega⟩

instance : IsTrans LineRange LineRange.le := ⟨fun r r' r'' => by unfold LineRange.le; omega⟩

/-- One turn of the merging loop of `_overlay_ranges`. -/
def mergeRange (merged : List LineRange) (r : LineRange) : List LineRange :=
  match merged.getLast? with
  | none => merged ++ [r]
  | some last =>
    if r.1 ≤ last.2 + 1 then merged.dropLast ++ [(last.1, max last.2 r.2)] else merged ++ [r]

/-- `_overlay_ranges` -/
def overlayRanges (ranges : List LineRange) : List LineRange :=
  ((ranges.filter fun r => r.1 ≤ r.2).dedup.insertionSort LineRange.le).foldl mergeRange []

/-- A line of some ranges, as a `WHERE` clause tests it; no ranges mean all lines. -/
def inRanges (ranges : List LineRange) (n : Nat) : Bool :=
  ranges.isEmpty || ranges.any fun r => LineRange.has r (n : Int)

/-- A merge keeps what was covered and covers the new range. -/
theorem mergeRange_covers {merged : List LineRange} {r : LineRange}
    (hle : ∀ m ∈ merged, m.1 ≤ r.1) {n : Int}
    (h : (∃ m ∈ merged, LineRange.has m n) ∨ LineRange.has r n) :
    ∃ m ∈ mergeRange merged r, LineRange.has m n := by
  unfold mergeRange
  cases hlast : merged.getLast? with
  | none =>
    obtain rfl := List.getLast?_eq_none_iff.1 hlast
    simpa using h
  | some last =>
    obtain ⟨front, rfl⟩ := List.getLast?_eq_some_iff.1 hlast
    have hlast' : last.1 ≤ r.1 := hle last (by simp)
    dsimp only
    split
    · rename_i hjoin
      rw [List.dropLast_concat]
      rcases h with ⟨m, hm, hn⟩ | hn
      · rcases List.mem_append.1 hm with hm | hm
        · exact ⟨m, List.mem_append_left _ hm, hn⟩
        · obtain rfl := List.mem_singleton.1 hm
          refine ⟨(m.1, max m.2 r.2), by simp, ?_⟩
          simp only [LineRange.has, decide_eq_true_eq] at hn ⊢
          omega
      · refine ⟨(last.1, max last.2 r.2), by simp, ?_⟩
        simp only [LineRange.has, decide_eq_true_eq] at hn ⊢
        omega
    · rcases h with ⟨m, hm, hn⟩ | hn
      · exact ⟨m, List.mem_append_left _ hm, hn⟩
      · exact ⟨r, by simp, hn⟩

/-- The starts of the merged ranges are starts of given ones. -/
theorem fst_of_mem_mergeRange {merged : List LineRange} {r m : LineRange}
    (h : m ∈ mergeRange merged r) : (∃ m' ∈ merged, m.1 = m'.1) ∨ m.1 = r.1 := by
  unfold mergeRange at h
  cases hlast : merged.getLast? with
  | none =>
    rw [hlast] at h
    rcases List.mem_append.1 h with h | h
    · exact .inl ⟨m, h, rfl⟩
    · exact .inr (by rw [List.mem_singleton.1 h])
  | some last =>
    rw [hlast] at h
    have hmem : last ∈ merged := List.mem_of_getLast? hlast
    dsimp only at h
    split at h
    · rcases List.mem_append.1 h with h | h
      · exact .inl ⟨m, List.dropLast_subset _ h, rfl⟩
      · exact .inl ⟨last, hmem, by rw [List.mem_singleton.1 h]⟩
    · rcases List.mem_append.1 h with h | h
      · exact .inl ⟨m, h, rfl⟩
      · exact .inr (by rw [List.mem_singleton.1 h])

/-- **The normal form covers every requested line.** -/
theorem covers_overlayRanges {ranges : List LineRange} {r : LineRange} (hr : r ∈ ranges) {n : Int}
    (hn : LineRange.has r n) : ∃ m ∈ overlayRanges ranges, LineRange.has m n := by
  have key : ∀ (l merged : List LineRange), l.Pairwise LineRange.le →
      (∀ m ∈ merged, ∀ a ∈ l, m.1 ≤ a.1) →
      ((∃ m ∈ merged, LineRange.has m n) ∨ ∃ a ∈ l, LineRange.has a n) →
      ∃ m ∈ l.foldl mergeRange merged, LineRange.has m n := by
    intro l
    induction l with
    | nil =>
      rintro merged _ _ (h | ⟨a, ha, _⟩)
      · exact h
      · exact absurd ha List.not_mem_nil
    | cons a l ih =>
      intro merged hsort hle h
      rw [List.pairwise_cons] at hsort
      refine ih (mergeRange merged a) hsort.2 ?_ ?_
      · intro m hm b hb
        have hab : a.1 ≤ b.1 := by
          have := hsort.1 b hb
          unfold LineRange.le at this
          omega
        rcases fst_of_mem_mergeRange hm with ⟨m', hm', he⟩ | he
        · rw [he]
          exact hle m' hm' b (List.mem_cons_of_mem _ hb)
        · rw [he]
          exact hab
      · have hstart : ∀ m ∈ merged, m.1 ≤ a.1 := fun m hm => hle m hm a List.mem_cons_self
        rcases h with h | ⟨b, hb, hbn⟩
        · exact .inl (mergeRange_covers hstart (.inl h))
        · rcases List.mem_cons.1 hb with rfl | hb
          · exact .inl (mergeRange_covers hstart (.inr hbn))
          · exact .inr ⟨b, hb, hbn⟩
  refine key _ [] (List.pairwise_insertionSort _ _) (by simp) (.inr ⟨r, ?_, hn⟩)
  rw [List.mem_insertionSort, List.mem_dedup, List.mem_filter]
  refine ⟨hr, ?_⟩
  simp only [LineRange.has, decide_eq_true_eq] at hn ⊢
  omega

/-- A requested line passes the test of the query. -/
theorem inRanges_of_mem {ranges : List LineRange} {r : LineRange} (hr : r ∈ ranges) {n : Nat}
    (hn : LineRange.has r n) : inRanges (overlayRanges ranges) n = true := by
  obtain ⟨m, hm, hmn⟩ := covers_overlayRanges hr hn
  simp only [inRanges, Bool.or_eq_true, List.any_eq_true]
  exact .inr ⟨m, hm, hmn⟩

/-! ## Rows of the domain -/

/-- A row of `read_file`. -/
structure DomainRow where
  /-- `line_number` -/
  lineNumber : Nat
  /-- `file_id` -/
  fileId : Nat
  /-- `q.*`: the relation of the line, active or not. -/
  link : Option (Nat × Link)
  /-- `r`: the record of the relation. -/
  record : Option Record
  /-- `x`: the active rejection of the line. -/
  rejection : Option (Nat × Rejection)
  deriving DecidableEq, Repr

namespace DomainRow

/-- `relation_is_active` -/
def relationIsActive (row : DomainRow) : Bool := row.link.any fun q => q.2.isActive

/-- `q.is_active=1 OR x.id IS NOT NULL` -/
def visible (row : DomainRow) : Bool := row.relationIsActive || row.rejection.isSome

end DomainRow

/-- `LEFT JOIN`: the matches, or one row of nulls. -/
def leftJoin {α : Type} : List α → List (Option α)
  | [] => [none]
  | l => l.map some

theorem mem_leftJoin {α : Type} {l : List α} {o : Option α} (h : o ∈ leftJoin l) :
    ∀ a ∈ o, a ∈ l := by
  intro a ha
  obtain rfl : o = some a := ha
  cases l with
  | nil => simp [leftJoin] at h
  | cons b l => simpa [leftJoin] using h

theorem some_mem_leftJoin {α : Type} {l : List α} {a : α} (h : a ∈ l) : some a ∈ leftJoin l := by
  cases l with
  | nil => cases h
  | cons b l => simpa [leftJoin] using h

theorem exists_mem_leftJoin {α : Type} (l : List α) : ∃ o, o ∈ leftJoin l := by
  cases l with
  | nil => exact ⟨none, by simp [leftJoin]⟩
  | cons b l => exact ⟨some b, by simp [leftJoin]⟩

/-- The rows of `read_file` for one line. -/
def lineRows (db : Db) (scanId lineId : Nat) (line : LineRow) : List DomainRow :=
  (leftJoin (db.domain.links.select fun _ q => sameLine scanId lineId q)).flatMap fun q =>
    (leftJoin (db.domain.rejections.select fun _ x =>
      x.scanId = scanId ∧ x.lineId = lineId ∧ x.isActive = true)).filterMap fun x =>
        let row : DomainRow := ⟨line.facts.lineNumber, line.fileId, q,
          q.bind fun q => db.domain.records.get? q.2.recordId, x⟩
        if row.visible then some row else none

/-- The lines of a file that the ranges select, `ORDER BY line_number`. -/
def fileLines (db : Db) (fileId : Nat) (ranges : List LineRange) : List (Nat × LineRow) :=
  (db.facts.lines.select fun _ l => l.fileId = fileId ∧ inRanges ranges l.facts.lineNumber)
    |>.insertionSort fun l l' => l.2.facts.lineNumber ≤ l'.2.facts.lineNumber

theorem mem_fileLines {db : Db} {fileId : Nat} {ranges : List LineRange} {l : Nat × LineRow} :
    l ∈ fileLines db fileId ranges ↔ db.facts.lines.get? l.1 = some l.2 ∧ l.2.fileId = fileId ∧
      inRanges ranges l.2.facts.lineNumber = true := by
  rw [fileLines, List.mem_insertionSort, Keyed.mem_select, Keyed.mem_rows_iff, decide_eq_true_eq]

/-- `read_file` -/
def readFile (db : Db) (scanId fileId : Nat) (ranges : List LineRange) : List DomainRow :=
  (fileLines db fileId ranges).flatMap fun l => lineRows db scanId l.1 l.2

/-! ## Overlay rows -/

/-- `review_state` of an overlay row. -/
inductive OverlayReview
  /-- That of the relation. -/
  | relation (state : ReviewState)
  /-- There is no relation. -/
  | absent
  /-- `INHERITANCE_REJECTED` -/
  | inheritanceRejected
  deriving DecidableEq, Repr

/-- A row of the domain with the fields `_domain_overlay_row` sets. -/
structure DomainOverlay where
  /-- The other columns of the row. -/
  row : DomainRow
  /-- `status` -/
  status : String
  /-- `is_draft` -/
  isDraft : Bool
  /-- `reviewer` -/
  reviewer : String
  /-- `analysis_state` -/
  analysisState : String
  /-- `coverage_method` -/
  coverageMethod : String
  /-- `uncovered_reason` -/
  uncoveredReason : String
  /-- `review_state` -/
  reviewState : OverlayReview
  /-- `relation_is_active` -/
  relationIsActive : Bool
  deriving DecidableEq, Repr

/-- An entry of the overlay. -/
inductive OverlayRow
  /-- From the analysis domain. -/
  | domain (row : DomainOverlay)
  /-- From `coverage_analyses`. -/
  | legacy (lineNumber : Nat) (row : Analysis)
  deriving DecidableEq, Repr

/-- `line_number` -/
def OverlayRow.lineNumber : OverlayRow → Nat
  | domain row => row.row.lineNumber
  | legacy n _ => n

/-- `_domain_overlay_row` -/
def domainOverlayRow (row : DomainRow) : DomainOverlay :=
  let content := row.record.map Record.content
  if row.rejection.isSome && !row.relationIsActive then
    -- the inherited relation is no longer part of the overlay; what remains lets a client undo
    { row := row, status := "", isDraft := true, reviewer := "", analysisState := "未确认",
      coverageMethod := "", uncoveredReason := "", reviewState := .inheritanceRejected,
      relationIsActive := false }
  else
    let state := row.link.map fun q => q.2.reviewState
    { row := row
      status := (content.map Content.conclusionStatus).getD ""
      isDraft := state = some .manualDraft ∨ state = some .inheritedPending
      reviewer := (row.link.map fun q => q.2.reviewedBy).getD ""
      analysisState := (content.map Content.conclusionStatus).getD ""
      coverageMethod := (content.map Content.coverageMethod).getD ""
      uncoveredReason := (content.map Content.uncoveredReason).getD ""
      reviewState := (state.map OverlayReview.relation).getD .absent
      relationIsActive := row.relationIsActive }

/-- `get_by_file` and `get_by_file_ranges` -/
def legacyRows (db : Db) (fileId : Nat) (ranges : List LineRange) : List OverlayRow :=
  (fileLines db fileId ranges).filterMap fun l =>
    (db.domain.analyses.get? l.1).map fun a => .legacy l.2.facts.lineNumber a

/-- `{int(row["line_number"]): row for row in rows}` -/
abbrev Overlay := Keyed Nat OverlayRow

/-- The dictionary of some rows; of two rows with one line number the last one remains. -/
def overlayOf (rows : List OverlayRow) : Overlay :=
  rows.foldl (fun d row => d.put row.lineNumber row) Keyed.empty

/-- The overlay of a file as read from `db`, or, when the domain has nothing to say about the file,
from the legacy rows of `db'`. -/
def loadOverlay (db db' : Db) (scanId fileId : Nat) (ranges : List LineRange) : Overlay :=
  match readFile db scanId fileId ranges with
  | [] => overlayOf (legacyRows db' fileId ranges)
  | rows => overlayOf (rows.map fun row => .domain (domainOverlayRow row))

theorem loadOverlay_of_nil {db : Db} (db' : Db) {scanId fileId : Nat} {ranges : List LineRange}
    (h : readFile db scanId fileId ranges = []) :
    loadOverlay db db' scanId fileId ranges = overlayOf (legacyRows db' fileId ranges) := by
  rw [loadOverlay, h]

theorem loadOverlay_of_ne {db : Db} (db' : Db) {scanId fileId : Nat} {ranges : List LineRange}
    (h : readFile db scanId fileId ranges ≠ []) :
    loadOverlay db db' scanId fileId ranges =
      overlayOf ((readFile db scanId fileId ranges).map fun row =>
        .domain (domainOverlayRow row)) := by
  unfold loadOverlay
  split
  · rename_i hnil
    exact absurd hnil h
  · rfl

/-! ## Visible lines -/

/-- A visible line has a row. -/
theorem lineRows_of_visible {db : Db} {scanId lineId : Nat} (line : LineRow)
    (h : db.domain.Visible scanId lineId) : ∃ row, row ∈ lineRows db scanId lineId line := by
  rcases h with ⟨k, q, hk, hs, hl, ha⟩ | ⟨k, x, hk, hs, hl, ha⟩
  · obtain ⟨x, hx⟩ := exists_mem_leftJoin (db.domain.rejections.select fun _ x =>
      x.scanId = scanId ∧ x.lineId = lineId ∧ x.isActive = true)
    have hq : some (k, q) ∈ leftJoin (db.domain.links.select fun _ q =>
        sameLine scanId lineId q) :=
      some_mem_leftJoin (Keyed.mem_select.2 ⟨Keyed.get?_eq_some_iff.1 hk, sameLine_iff.2 ⟨hs, hl⟩⟩)
    refine ⟨_, List.mem_flatMap.2 ⟨_, hq, List.mem_filterMap.2 ⟨x, hx, if_pos ?_⟩⟩⟩
    simp [DomainRow.visible, DomainRow.relationIsActive, ha]
  · obtain ⟨q, hq⟩ := exists_mem_leftJoin (db.domain.links.select fun _ q =>
      sameLine scanId lineId q)
    have hx : some (k, x) ∈ leftJoin (db.domain.rejections.select fun _ x =>
        x.scanId = scanId ∧ x.lineId = lineId ∧ x.isActive = true) :=
      some_mem_leftJoin (Keyed.mem_select.2 ⟨Keyed.get?_eq_some_iff.1 hk, by simp [hs, hl, ha]⟩)
    refine ⟨_, List.mem_flatMap.2 ⟨q, hq, List.mem_filterMap.2 ⟨_, hx, if_pos ?_⟩⟩⟩
    simp [DomainRow.visible]

theorem lineNumber_of_mem_lineRows {db : Db} {scanId lineId : Nat} {line : LineRow}
    {row : DomainRow} (h : row ∈ lineRows db scanId lineId line) :
    row.lineNumber = line.facts.lineNumber := by
  simp only [lineRows, List.mem_flatMap, List.mem_filterMap] at h
  obtain ⟨q, _, x, _, hrow⟩ := h
  split at hrow
  · obtain rfl := Option.some.inj hrow
    rfl
  · cases hrow

/-- A key of the dictionary has one of its rows. -/
theorem get?_overlayOf {rows : List OverlayRow} {row : OverlayRow} (h : row ∈ rows) :
    ∃ row' ∈ rows, row'.lineNumber = row.lineNumber ∧
      (overlayOf rows).get? row.lineNumber = some row' := by
  have key : ∀ (l : List OverlayRow) (d : Overlay), (∃ r ∈ rows, r.lineNumber = row.lineNumber ∧
      d.get? row.lineNumber = some r) ∨ row ∈ l → (∀ r ∈ l, r ∈ rows) →
      ∃ r ∈ rows, r.lineNumber = row.lineNumber ∧
        (l.foldl (fun d row => d.put row.lineNumber row) d).get? row.lineNumber = some r := by
    intro l
    induction l with
    | nil => exact fun d hd _ => hd.resolve_right List.not_mem_nil
    | cons r l ih =>
      intro d hd hsub
      refine ih (d.put r.lineNumber r) ?_ fun r' hr' => hsub r' (List.mem_cons_of_mem _ hr')
      by_cases hr : r.lineNumber = row.lineNumber
      · exact .inl ⟨r, hsub r List.mem_cons_self, hr, by rw [Keyed.get?_put, if_pos hr.symm]⟩
      · rcases hd with ⟨r', hr', he, hget⟩ | hmem
        · exact .inl ⟨r', hr', he, by rw [Keyed.get?_put, if_neg (Ne.symm hr), hget]⟩
        · rcases List.mem_cons.1 hmem with rfl | hmem
          · exact absurd rfl hr
          · exact .inr hmem
  exact key rows Keyed.empty (.inr h) fun _ hr => hr

/-- **The overlay has the row of the domain for every visible line of the ranges.** -/
theorem loadOverlay_visible {db : Db} (hf : FactsOk db) (db' : Db) {scanId fileId lineId : Nat}
    {ranges : List LineRange} {line : LineRow} (hline : db.facts.lines.get? lineId = some line)
    (hfile : line.fileId = fileId) (hn : inRanges ranges line.facts.lineNumber = true)
    (hv : db.domain.Visible scanId lineId) :
    ∃ row ∈ lineRows db scanId lineId line,
      (loadOverlay db db' scanId fileId ranges).get? line.facts.lineNumber =
        some (.domain (domainOverlayRow row)) := by
  obtain ⟨row, hrow⟩ := lineRows_of_visible line hv
  have hmem : row ∈ readFile db scanId fileId ranges :=
    List.mem_flatMap.2 ⟨(lineId, line), mem_fileLines.2 ⟨hline, hfile, hn⟩, hrow⟩
  have hdict := loadOverlay_of_ne db' (List.ne_nil_of_mem hmem)
  obtain ⟨row', hrow', hnum, hget⟩ := get?_overlayOf (List.mem_map_of_mem (f := fun row =>
    OverlayRow.domain (domainOverlayRow row)) hmem)
  have hshown : ∀ r : DomainRow, (domainOverlayRow r).row = r := by
    intro r
    unfold domainOverlayRow
    dsimp only
    split <;> rfl
  obtain ⟨r, hr, rfl⟩ := List.mem_map.1 hrow'
  obtain ⟨⟨k, l⟩, hl, hrl⟩ := List.mem_flatMap.1 hr
  obtain ⟨hk, hkf, _⟩ := mem_fileLines.1 hl
  -- the row found under the number is one of the same line
  have hnumber : l.facts.lineNumber = line.facts.lineNumber := by
    have hnum : (domainOverlayRow r).row.lineNumber = (domainOverlayRow row).row.lineNumber := hnum
    rw [hshown, hshown, lineNumber_of_mem_lineRows hrow] at hnum
    rw [← hnum, lineNumber_of_mem_lineRows hrl]
  obtain rfl : k = lineId := hf.line k lineId l line hk hline (by
    simp only [LineRow.key]
    rw [hkf, hfile, hnumber])
  obtain rfl : l = line := Option.some.inj (hk.symm.trans hline)
  refine ⟨r, hrl, ?_⟩
  rw [hdict, ← hget]
  congr 1
  show l.facts.lineNumber = (domainOverlayRow row).row.lineNumber
  rw [hshown, lineNumber_of_mem_lineRows hrow]

end CodeDetail

end FosCoverage
