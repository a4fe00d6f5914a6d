import FosCoverage.CodeDetail.Overlay

/-!
# The overlay of a line and the window it is read in

The same line is requested in windows of many shapes: a region that is opened, a hunk, the whole
file.  What the overlay should say of a line is a matter of the line alone (`lineEntry`): its row of
the domain when it is visible, else its legacy row, else nothing.

`loadOverlay` decides between the two sources once for the whole window, by whether the domain has
any row in it.  So a legacy row is shown in a window without visible lines and is missing in a
window with one.

* `readFile_filter` and `legacyRows_filter` say what each source has of one line of the window.
* `get?_loadOverlay_eq_lineEntry_iff` is exact for one window: the entry is the one of the line if
  and only if the line is visible, has no legacy row, or has no visible line beside it in the window
  (`Undivided`).
* `window_independent_iff` is the statement about two windows.

`read_line` and the per-line `CASE` of `line_detail_page` choose line by line.
-/

set_option autoImplicit false

namespace FosCoverage

open Relational Outcome AnalysisDomainRepository

/-! ## Rows of one number -/

section Filter

variable {α β : Type}

/-- A test that all images of one element pass alike can be made before the images. -/
theorem filter_flatMap_of_forall {l : List α} {f : α → List β} {p : β → Bool} {q : α → Bool}
    (h : ∀ a, ∀ b ∈ f a, p b = q a) : (l.flatMap f).filter p = (l.filter q).flatMap f := by
  induction l with
  | nil => rfl
  | cons a l ih =>
    rw [List.flatMap_cons, List.filter_append, ih]
    have hcongr : (f a).filter p = (f a).filter fun _ => q a := List.filter_congr (h a)
    cases hq : q a with
    | true =>
      rw [List.filter_cons_of_pos hq, List.flatMap_cons, hcongr, hq, List.filter_true]
    | false =>
      rw [List.filter_cons_of_neg (by simp [hq]), hcongr, hq, List.filter_false, List.nil_append]

/-- A list without repetitions whose elements are all one element has it alone. -/
theorem eq_singleton_of_forall {l : List α} {a : α} (hn : l.Nodup) (ha : a ∈ l)
    (h : ∀ b ∈ l, b = a) : l = [a] := by
  have hlen : l.length = 1 := by
    rw [List.eq_replicate_of_mem h] at hn ha ⊢
    rw [List.length_replicate]
    rw [List.mem_replicate] at ha
    have := List.nodup_replicate.1 hn
    omega
  obtain ⟨b, rfl⟩ := List.length_eq_one_iff.1 hlen
  rw [h b List.mem_cons_self]

end Filter

namespace CodeDetail

/-- A key of the dictionary has the last row with that line number. -/
theorem get?_overlayOf_eq (rows : List OverlayRow) (n : Nat) :
    (overlayOf rows).get? n = (rows.filter fun row => row.lineNumber = n).getLast? := by
  induction rows using List.reverseRecOn with
  | nil => rfl
  | append_singleton rows row ih =>
    have hstep : overlayOf (rows ++ [row]) = (overlayOf rows).put row.lineNumber row := by
      rw [overlayOf, List.foldl_append]
      rfl
    rw [hstep, Keyed.get?_put, List.filter_append]
    by_cases h : row.lineNumber = n
    · rw [if_pos h.symm, List.filter_cons_of_pos (by simpa using h), List.filter_nil,
        List.getLast?_concat]
    · rw [if_neg (Ne.symm h), List.filter_cons_of_neg (by simpa using h), List.filter_nil,
        List.append_nil, ih]

/-! ## What the overlay should say -/

/-- The lines of a file with a number; there is one at most. -/
def linesAt (db : Db) (fileId n : Nat) : List (Nat × LineRow) :=
  db.facts.lines.select fun _ l => l.fileId = fileId ∧ l.facts.lineNumber = n

/-- **The entry of a line**: its row of the domain when it is visible, else its legacy row. -/
def lineEntry (db : Db) (scanId fileId n : Nat) : Option OverlayRow :=
  (linesAt db fileId n).head?.bind fun l =>
    match (lineRows db scanId l.1 l.2).getLast? with
    | some row => some (.domain (domainOverlayRow row))
    | none => (db.domain.analyses.get? l.1).map fun a => .legacy l.2.facts.lineNumber a

/-- The line of the file with this number is visible. -/
def VisibleAt (db : Db) (scanId fileId n : Nat) : Prop :=
  ∃ k l, db.facts.lines.get? k = some l ∧ l.fileId = fileId ∧ l.facts.lineNumber = n ∧
    db.domain.Visible scanId k

/-- The line of the file with this number has a legacy row. -/
def LegacyAt (db : Db) (fileId n : Nat) : Prop :=
  ∃ k l a, db.facts.lines.get? k = some l ∧ l.fileId = fileId ∧ l.facts.lineNumber = n ∧
    db.domain.analyses.get? k = some a

/-- The window does not part the line from its legacy row: the line is visible, there is no legacy
row, or no line of the window is visible. -/
def Undivided (db : Db) (scanId fileId n : Nat) (ranges : List LineRange) : Prop :=
  VisibleAt db scanId fileId n ∨ ¬ LegacyAt db fileId n ∨
    ∀ m, inRanges (overlayRanges ranges) m = true → ¬ VisibleAt db scanId fileId m

theorem mem_linesAt {db : Db} {fileId n : Nat} {l : Nat × LineRow} :
    l ∈ linesAt db fileId n ↔ db.facts.lines.get? l.1 = some l.2 ∧ l.2.fileId = fileId ∧
      l.2.facts.lineNumber = n := by
  rw [linesAt, Keyed.mem_select, Keyed.mem_rows_iff, decide_eq_true_eq]

/-- The lines with a number are none or one. -/
theorem linesAt_cases {db : Db} (hf : FactsOk db) (fileId n : Nat) :
    linesAt db fileId n = [] ∨ ∃ l, linesAt db fileId n = [l] := by
  cases h : linesAt db fileId n with
  | nil => exact .inl rfl
  | cons l rest =>
    refine .inr ⟨l, ?_⟩
    rw [← h]
    have hnodup : (linesAt db fileId n).Nodup :=
      (List.Nodup.of_map _ db.facts.lines.nodup).filter _
    refine eq_singleton_of_forall hnodup (by rw [h]; exact List.mem_cons_self) ?_
    intro b hb
    have hl : l ∈ linesAt db fileId n := by rw [h]; exact List.mem_cons_self
    obtain ⟨hbk, hbf, hbn⟩ := mem_linesAt.1 hb
    obtain ⟨hlk, hlf, hln⟩ := mem_linesAt.1 hl
    have hk : b.1 = l.1 := hf.line b.1 l.1 b.2 l.2 hbk hlk (by
      simp only [LineRow.key]
      rw [hbf, hlf, hbn, hln])
    refine Prod.ext hk (Option.some.inj ?_)
    rw [← hbk, ← hlk, hk]

/-! ## What the two sources have of one line -/

variable {db : Db} {scanId fileId n : Nat} {ranges ranges' : List LineRange}

theorem filter_fileLines (hf : FactsOk db) (hn : inRanges ranges n = true) :
    ((fileLines db fileId ranges).filter fun l => l.2.facts.lineNumber = n) =
      linesAt db fileId n := by
  -- the sorting does not matter: the filtered lines are as many as the lines with the number
  have hperm : ((fileLines db fileId ranges).filter fun l => l.2.facts.lineNumber = n).Perm
      (linesAt db fileId n) := by
    refine ((List.perm_insertionSort _ _).filter _).trans ?_
    rw [Keyed.select, List.filter_filter, linesAt, Keyed.select]
    refine List.Perm.of_eq (List.filter_congr fun l _ => ?_)
    by_cases h : l.2.facts.lineNumber = n
    · simp [h, hn]
    · simp [h]
  rcases linesAt_cases hf fileId n with h | ⟨l, h⟩
  · rw [h] at hperm ⊢
    exact hperm.eq_nil
  · rw [h] at hperm ⊢
    exact List.perm_singleton.1 hperm

/-- **The rows of the domain for one line of the window.** -/
theorem readFile_filter (hf : FactsOk db) (hn : inRanges ranges n = true) :
    ((readFile db scanId fileId ranges).filter fun row => row.lineNumber = n) =
      (linesAt db fileId n).flatMap fun l => lineRows db scanId l.1 l.2 := by
  rw [readFile, filter_flatMap_of_forall (q := fun l => decide (l.2.facts.lineNumber = n)),
    filter_fileLines hf hn]
  intro l row hrow
  rw [lineNumber_of_mem_lineRows hrow]

/-- **The legacy rows for one line of the window.** -/
theorem legacyRows_filter (hf : FactsOk db) (hn : inRanges ranges n = true) :
    ((legacyRows db fileId ranges).filter fun row => row.lineNumber = n) =
      (linesAt db fileId n).filterMap fun l =>
        (db.domain.analyses.get? l.1).map fun a => .legacy l.2.facts.lineNumber a := by
  rw [legacyRows, ← filter_fileLines hf hn, List.filterMap_filter, List.filter_filterMap]
  refine List.filterMap_congr fun l _ => ?_
  cases db.domain.analyses.get? l.1 with
  | none => simp
  | some a => by_cases h : l.2.facts.lineNumber = n <;> simp [h, OverlayRow.lineNumber]

/-- A row is a row of a visible line. -/
theorem visible_of_mem_lineRows {lineId : Nat} {line : LineRow} {row : DomainRow}
    (h : row ∈ lineRows db scanId lineId line) : db.domain.Visible scanId lineId := by
  simp only [lineRows, List.mem_flatMap, List.mem_filterMap] at h
  obtain ⟨q, hq, x, hx, hrow⟩ := h
  split at hrow
  · rename_i hvisible
    simp only [DomainRow.visible, DomainRow.relationIsActive, Bool.or_eq_true] at hvisible
    rcases hvisible with hactive | hrejected
    · obtain ⟨q, rfl, hactive⟩ := (Option.any_eq_true _ _).1 hactive
      obtain ⟨hmem, hsame⟩ := Keyed.mem_select.1 (mem_leftJoin hq q rfl)
      obtain ⟨hs, hl⟩ := sameLine_iff.1 hsame
      exact .inl ⟨q.1, q.2, Keyed.get?_eq_some_iff.2 hmem, hs, hl, hactive⟩
    · obtain ⟨x, rfl⟩ := Option.isSome_iff_exists.1 hrejected
      obtain ⟨hmem, hsame⟩ := Keyed.mem_select.1 (mem_leftJoin hx x rfl)
      obtain ⟨hs, hl, ha⟩ := of_decide_eq_true hsame
      exact .inr ⟨x.1, x.2, Keyed.get?_eq_some_iff.2 hmem, hs, hl, ha⟩
  · cases hrow

theorem lineRows_eq_nil_iff {lineId : Nat} {line : LineRow} :
    lineRows db scanId lineId line = [] ↔ ¬ db.domain.Visible scanId lineId := by
  constructor
  · intro h hv
    obtain ⟨row, hrow⟩ := lineRows_of_visible line hv
    rw [h] at hrow
    exact absurd hrow List.not_mem_nil
  · intro h
    exact List.eq_nil_iff_forall_not_mem.2 fun row hrow => h (visible_of_mem_lineRows hrow)

/-- The domain has nothing in a window without visible lines. -/
theorem readFile_eq_nil_iff :
    readFile db scanId fileId ranges = [] ↔
      ∀ m, inRanges ranges m = true → ¬ VisibleAt db scanId fileId m := by
  rw [readFile, List.flatMap_eq_nil_iff]
  constructor
  · rintro h m hm ⟨k, l, hk, hfile, rfl, hv⟩
    exact lineRows_eq_nil_iff.1 (h (k, l) (mem_fileLines.2 ⟨hk, hfile, hm⟩)) hv
  · rintro h ⟨k, l⟩ hl
    obtain ⟨hk, hfile, hm⟩ := mem_fileLines.1 hl
    exact lineRows_eq_nil_iff.2 fun hv => h _ hm ⟨k, l, hk, hfile, rfl, hv⟩

/-! ## One window -/

/-- The entry when the domain has nothing in the window. -/
theorem get?_loadOverlay_of_nil (hf : FactsOk db) (hn : inRanges ranges n = true)
    (hnil : readFile db scanId fileId ranges = []) :
    (loadOverlay db db scanId fileId ranges).get? n = lineEntry db scanId fileId n := by
  rw [loadOverlay_of_nil db hnil, get?_overlayOf_eq, legacyRows_filter hf hn, lineEntry]
  rcases linesAt_cases hf fileId n with h | ⟨l, h⟩
  · rw [h]
    rfl
  · have hl : l ∈ linesAt db fileId n := by rw [h]; exact List.mem_cons_self
    obtain ⟨hk, hfile, hnum⟩ := mem_linesAt.1 hl
    have hrows : lineRows db scanId l.1 l.2 = [] :=
      lineRows_eq_nil_iff.2 fun hv =>
        readFile_eq_nil_iff.1 hnil n hn ⟨l.1, l.2, hk, hfile, hnum, hv⟩
    rw [h]
    simp only [List.head?_cons, Option.bind_some, hrows, List.getLast?_nil]
    cases ha : db.domain.analyses.get? l.1 <;> simp [ha]

/-- The entry when the domain has something in the window. -/
theorem get?_loadOverlay_of_ne (hf : FactsOk db) (hn : inRanges ranges n = true)
    (hne : readFile db scanId fileId ranges ≠ []) :
    (loadOverlay db db scanId fileId ranges).get? n =
      (linesAt db fileId n).head?.bind fun l =>
        (lineRows db scanId l.1 l.2).getLast?.map fun row => .domain (domainOverlayRow row) := by
  have hnum : ∀ row, (OverlayRow.domain (domainOverlayRow row)).lineNumber = row.lineNumber := by
    intro row
    simp only [OverlayRow.lineNumber, domainOverlayRow]
    split <;> rfl
  rw [loadOverlay_of_ne db hne, get?_overlayOf_eq, List.filter_map]
  have hfilter : (readFile db scanId fileId ranges).filter
      ((fun row : OverlayRow => decide (row.lineNumber = n)) ∘
        fun row => .domain (domainOverlayRow row)) =
      (linesAt db fileId n).flatMap fun l => lineRows db scanId l.1 l.2 := by
    rw [← readFile_filter hf hn]
    exact List.filter_congr fun row _ => by simp only [Function.comp_apply, hnum]
  rw [hfilter, List.getLast?_map]
  rcases linesAt_cases hf fileId n with h | ⟨l, h⟩
  · rw [h]
    rfl
  · rw [h, List.flatMap_cons, List.flatMap_nil, List.append_nil]
    rfl

/-- **Exactness for one window.** -/
theorem get?_loadOverlay_eq_lineEntry_iff (hf : FactsOk db)
    (hn : inRanges (overlayRanges ranges) n = true) :
    (loadOverlay db db scanId fileId (overlayRanges ranges)).get? n =
        lineEntry db scanId fileId n ↔
      Undivided db scanId fileId n ranges := by
  by_cases hnil : readFile db scanId fileId (overlayRanges ranges) = []
  · refine iff_of_true (get?_loadOverlay_of_nil hf hn hnil) (.inr (.inr ?_))
    exact readFile_eq_nil_iff.1 hnil
  · have hseen : ¬ ∀ m, inRanges (overlayRanges ranges) m = true →
        ¬ VisibleAt db scanId fileId m := fun h => hnil (readFile_eq_nil_iff.2 h)
    rw [get?_loadOverlay_of_ne hf hn hnil, lineEntry]
    rcases linesAt_cases hf fileId n with h | ⟨l, h⟩
    · -- no line of the file has this number
      have hlegacy : ¬ LegacyAt db fileId n := by
        rintro ⟨k, l, a, hk, hfile, hnum, _⟩
        have hl : (k, l) ∈ linesAt db fileId n := mem_linesAt.2 ⟨hk, hfile, hnum⟩
        rw [h] at hl
        exact absurd hl List.not_mem_nil
      rw [h]
      exact iff_of_true rfl (.inr (.inl hlegacy))
    · have hl : l ∈ linesAt db fileId n := by rw [h]; exact List.mem_cons_self
      obtain ⟨hk, hfile, hnum⟩ := mem_linesAt.1 hl
      have honly : ∀ k l', db.facts.lines.get? k = some l' → l'.fileId = fileId →
          l'.facts.lineNumber = n → k = l.1 := by
        intro k l' hk' hfile' hnum'
        have hmem : (k, l') ∈ linesAt db fileId n := mem_linesAt.2 ⟨hk', hfile', hnum'⟩
        rw [h, List.mem_singleton] at hmem
        rw [← hmem]
      have hvisible : VisibleAt db scanId fileId n ↔ db.domain.Visible scanId l.1 := by
        constructor
        · rintro ⟨k, l', hk', hfile', hnum', hv⟩
          rwa [honly k l' hk' hfile' hnum'] at hv
        · exact fun hv => ⟨l.1, l.2, hk, hfile, hnum, hv⟩
      have hlegacy : LegacyAt db fileId n ↔ ∃ a, db.domain.analyses.get? l.1 = some a := by
        constructor
        · rintro ⟨k, l', a, hk', hfile', hnum', ha⟩
          rw [honly k l' hk' hfile' hnum'] at ha
          exact ⟨a, ha⟩
        · rintro ⟨a, ha⟩
          exact ⟨l.1, l.2, a, hk, hfile, hnum, ha⟩
      rw [h, List.head?_cons, Option.bind_some, Option.bind_some, Undivided, hvisible, hlegacy]
      cases hrow : (lineRows db scanId l.1 l.2).getLast? with
      | some row =>
        refine iff_of_true rfl (.inl ?_)
        exact visible_of_mem_lineRows (List.mem_of_getLast? hrow)
      | none =>
        have hhidden : ¬ db.domain.Visible scanId l.1 :=
          lineRows_eq_nil_iff.1 (List.getLast?_eq_none_iff.1 hrow)
        cases ha : db.domain.analyses.get? l.1 with
        | none => exact iff_of_true rfl (.inr (.inl (by simp)))
        | some a =>
          refine iff_of_false (by simp) ?_
          rintro (hv | hnone | hnothing)
          · exact hhidden hv
          · exact hnone ⟨a, rfl⟩
          · exact hseen hnothing

/-! ## Two windows -/

/-- **Two windows with the line.**  Both have the entry of the line if and only if neither parts the
line from its legacy row. -/
theorem window_independent_iff (db : Db) (hf : FactsOk db) (scanId fileId n : Nat)
    (ranges ranges' : List LineRange) (hn : ∃ r ∈ ranges, LineRange.has r n)
    (hn' : ∃ r ∈ ranges', LineRange.has r n) :
    ((loadOverlay db db scanId fileId (overlayRanges ranges)).get? n =
          lineEntry db scanId fileId n ∧
        (loadOverlay db db scanId fileId (overlayRanges ranges')).get? n =
          lineEntry db scanId fileId n) ↔
      Undivided db scanId fileId n ranges ∧ Undivided db scanId fileId n ranges' := by
  obtain ⟨r, hr, hrn⟩ := hn
  obtain ⟨r', hr', hrn'⟩ := hn'
  rw [get?_loadOverlay_eq_lineEntry_iff hf (inRanges_of_mem hr hrn),
    get?_loadOverlay_eq_lineEntry_iff hf (inRanges_of_mem hr' hrn')]

namespace Sample

/-- A scan with two uncovered lines, the first of them reviewed. -/
def oneReviewed : List Action :=
  [FosCoverage.Sample.firstScan [FosCoverage.Sample.twoLines],
    .mutate (.save "fos" 1 [FosCoverage.Sample.conclude 1 1 "可覆盖"] "ann" true)]

/-- The second line has a conclusion from before the analysis domain, not migrated. -/
def mixedDb : Db :=
  let db := Trace.run (Action.exec FosCoverage.Sample.env) Db.empty oneReviewed
  { db with domain.analyses := db.domain.analyses.put 2 ⟨"可覆盖", false, "ann", "", "", ""⟩ }

theorem factsOk_mixedDb : FactsOk mixedDb :=
  (@Reachable.factsOk FosCoverage.Sample.env _ ⟨oneReviewed, rfl⟩).congr rfl rfl

end Sample

/-- The line that is reviewed has its relation, alone and beside the other line. -/
theorem window_independent_mixedDb :
    ((loadOverlay Sample.mixedDb Sample.mixedDb 1 1 (overlayRanges [(1, 1)])).get? 1 =
          lineEntry Sample.mixedDb 1 1 1 ∧
        (loadOverlay Sample.mixedDb Sample.mixedDb 1 1 (overlayRanges [(1, 2)])).get? 1 =
          lineEntry Sample.mixedDb 1 1 1) ↔
      Undivided Sample.mixedDb 1 1 1 [(1, 1)] ∧ Undivided Sample.mixedDb 1 1 1 [(1, 2)] :=
  window_independent_iff Sample.mixedDb Sample.factsOk_mixedDb 1 1 1 [(1, 1)] [(1, 2)]
    ⟨(1, 1), by simp, by decide⟩ ⟨(1, 2), by simp, by decide⟩

/-- The line that is not reviewed has its legacy row alone, and nothing beside the other line. -/
theorem not_window_independent :
    ¬ ∀ (db : Db), FactsOk db → ∀ (scanId fileId n : Nat) (ranges ranges' : List LineRange),
      (∃ r ∈ ranges, LineRange.has r n) → (∃ r ∈ ranges', LineRange.has r n) →
      (loadOverlay db db scanId fileId (overlayRanges ranges)).get? n =
          lineEntry db scanId fileId n ∧
        (loadOverlay db db scanId fileId (overlayRanges ranges')).get? n =
          lineEntry db scanId fileId n := by
  intro h
  have h := h Sample.mixedDb Sample.factsOk_mixedDb 1 1 2 [(2, 2)] [(1, 2)]
    ⟨(2, 2), by simp, by decide⟩ ⟨(1, 2), by simp, by decide⟩
  revert h
  decide +kernel

end CodeDetail

end FosCoverage
