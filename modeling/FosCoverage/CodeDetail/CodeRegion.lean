import FosCoverage.Lib.Intervals
import Mathlib.Data.List.Pairwise
import FosCoverage.Lib.Text
import Mathlib.Data.List.Dedup

/-!
# The regions of the code detail page

The page shows a file as regions that are expanded or collapsed.  A line that is still pending
expands its function, or, outside all functions, some lines of context.  `buildCodeRegions` finds
the function of each pending line by a sweep over the sorted functions, sorts the ranges, joins
those that are near and fills what is left with collapsed regions.

* `rawExpandedRanges_eq` says that the sweep finds what a search would find: the function that it
  has passed ends before the line (`exists_advance`).
* `fillRegions_eq` says that the last pass lays the joined ranges out as `Intervals.fillFrom` does.
* `buildCodeRegions_spec` is the statement about the regions of a file.
-/

set_option autoImplicit false

namespace FosCoverage.CodeDetail

open Text Intervals

/-! ## Functions -/

/-- The lines of a function. -/
structure FunctionRange where
  startLine : Int
  endLine : Int
  name : Option (List Char)
  deriving DecidableEq, Repr

namespace FunctionRange

/-- The constructor strips the name. -/
def make (startLine endLine : Int) (name : Option (List Char)) : FunctionRange :=
  ⟨startLine, endLine, name.map strip⟩

/-- `is_valid`. -/
def isValid (fn : FunctionRange) (totalLines : Option Int) : Bool :=
  if fn.startLine ≤ 0 ∨ fn.endLine ≤ 0 then false
  else if fn.startLine > fn.endLine then false
  else match totalLines with
    | some total => if fn.startLine > total then false else true
    | none => true

/-- `contains`. -/
def contains (fn : FunctionRange) (lineNumber : Int) : Bool :=
  decide (fn.startLine ≤ lineNumber ∧ lineNumber ≤ fn.endLine)

/-- The order of the sort key `(start_line, end_line)`. -/
def le (f g : FunctionRange) : Prop :=
  f.startLine < g.startLine ∨ f.startLine = g.startLine ∧ f.endLine ≤ g.endLine

instance : DecidableRel le := fun _ _ => inferInstanceAs (Decidable (_ ∨ _ ∧ _))

instance : Std.Total le where
  total f g := by
    simp only [le]
    omega

instance : IsTrans FunctionRange le where
  trans f g k h h' := by
    simp only [le] at h h' ⊢
    omega

/-- No line is in both functions. -/
def Disjoint (f g : FunctionRange) : Prop := f.endLine < g.startLine ∨ g.endLine < f.startLine

instance : DecidableRel Disjoint := fun _ _ => inferInstanceAs (Decidable (_ ∨ _))

variable {fn : FunctionRange} {total line : Int}

theorem isValid_iff : fn.isValid (some total) = true ↔
    1 ≤ fn.startLine ∧ fn.startLine ≤ fn.endLine ∧ fn.startLine ≤ total := by
  unfold isValid
  split
  · simp only [Bool.false_eq_true, false_iff]
    omega
  · split
    · simp only [Bool.false_eq_true, false_iff]
      omega
    · simp only [Bool.if_false_left, Bool.and_true, Bool.not_eq_true', decide_eq_false_iff_not]
      omega

@[simp]
theorem contains_iff : fn.contains line = true ↔ fn.startLine ≤ line ∧ line ≤ fn.endLine :=
  decide_eq_true_iff

end FunctionRange

/-- The function with the end of the file as its end, unless nothing of it is left. -/
def clipped (totalLines : Option Int) (fn : FunctionRange) : Option FunctionRange :=
  if fn.isValid totalLines then
    let clippedEnd := match totalLines with
      | some total => if total = 0 then fn.endLine else min fn.endLine total
      | none => fn.endLine
    if clippedEnd ≥ fn.startLine then some (.make fn.startLine clippedEnd fn.name) else none
  else none

/-- `sanitize_function_ranges`: the valid ranges, clipped and sorted.  No ranges at all and an empty
list of them are the same. -/
def sanitizeFunctionRanges (functionRanges : List FunctionRange) (totalLines : Option Int) :
    List FunctionRange :=
  (functionRanges.filterMap (clipped totalLines)).insertionSort FunctionRange.le

section Sanitize

variable {functionRanges : List FunctionRange} {total : Int}

theorem clipped_eq_some_iff (ht : 1 ≤ total) {f g : FunctionRange} :
    clipped (some total) f = some g ↔ f.isValid (some total) = true ∧
      g = .make f.startLine (min f.endLine total) f.name := by
  unfold clipped
  split
  · next hv =>
    obtain ⟨h1, h2, h3⟩ := FunctionRange.isValid_iff.1 hv
    simp only [show total ≠ 0 by omega, if_false]
    rw [if_pos (by omega : min f.endLine total ≥ f.startLine), Option.some.injEq]
    exact ⟨fun h => ⟨hv, h.symm⟩, fun h => h.2.symm⟩
  · next hv => simp [hv]

theorem mem_sanitizeFunctionRanges (ht : 1 ≤ total) {g : FunctionRange} :
    g ∈ sanitizeFunctionRanges functionRanges (some total) ↔ ∃ f ∈ functionRanges,
      f.isValid (some total) = true ∧ g = .make f.startLine (min f.endLine total) f.name := by
  rw [sanitizeFunctionRanges, List.mem_insertionSort, List.mem_filterMap]
  simp only [clipped_eq_some_iff ht]

/-- The sorted functions of a file: none is empty and each ends before the next. -/
structure Functions (total : Int) (fns : List FunctionRange) : Prop where
  inside : ∀ f ∈ fns, 1 ≤ f.startLine ∧ f.startLine ≤ f.endLine ∧ f.endLine ≤ total
  apart : fns.Pairwise fun f g => f.endLine < g.startLine

/-- Functions in order: none is empty and each ends before the next. -/
structure InOrder (fns : List FunctionRange) : Prop where
  nonempty : ∀ f ∈ fns, f.startLine ≤ f.endLine
  apart : fns.Pairwise fun f g => f.endLine < g.startLine

theorem InOrder.tail {f : FunctionRange} {fns : List FunctionRange} (h : InOrder (f :: fns)) :
    InOrder fns :=
  ⟨fun g hg => h.nonempty g (List.mem_cons_of_mem _ hg), (List.pairwise_cons.1 h.apart).2⟩

/-- One function more, behind the others. -/
theorem InOrder.concat {fns : List FunctionRange} (h : InOrder fns) {f : FunctionRange}
    (hf : f.startLine ≤ f.endLine) (hbehind : ∀ g ∈ fns, g.endLine < f.startLine) :
    InOrder (fns ++ [f]) := by
  refine ⟨fun g hg => ?_, List.pairwise_append.2 ⟨h.apart, List.pairwise_singleton _ _,
    fun g hg k hk => ?_⟩⟩
  · rcases List.mem_append.1 hg with hg | hg
    · exact h.nonempty g hg
    · rwa [List.mem_singleton.1 hg]
  · rw [List.mem_singleton.1 hk]
    exact hbehind g hg

instance : Std.Symm FunctionRange.Disjoint where
  symm _ _ h := h.symm

/-- A line is in one of the functions only. -/
theorem InOrder.eq_of_contains {fns : List FunctionRange} (h : InOrder fns) {f g : FunctionRange}
    (hf : f ∈ fns) (hg : g ∈ fns) {line : Int} (hfl : f.contains line = true)
    (hgl : g.contains line = true) : f = g := by
  by_contra hne
  have hdisjoint : fns.Pairwise FunctionRange.Disjoint := h.apart.imp fun hlt => .inl hlt
  rw [FunctionRange.contains_iff] at hfl hgl
  rcases hdisjoint.forall hf hg hne with hlt | hlt <;> omega

theorem Functions.inOrder {fns : List FunctionRange} (h : Functions total fns) : InOrder fns :=
  ⟨fun f hf => (h.inside f hf).2.1, h.apart⟩

theorem Functions.tail {f : FunctionRange} {fns : List FunctionRange}
    (h : Functions total (f :: fns)) : Functions total fns :=
  ⟨fun g hg => h.inside g (List.mem_cons_of_mem _ hg), (List.pairwise_cons.1 h.apart).2⟩

theorem sanitizeFunctionRanges_sorted :
    (sanitizeFunctionRanges functionRanges (some total)).Pairwise FunctionRange.le :=
  List.pairwise_insertionSort _ _

/-- **Disjoint functions come out in order, one behind the other.** -/
theorem sanitizeFunctionRanges_functions (ht : 1 ≤ total)
    (hd : (functionRanges.filter fun fn => fn.isValid (some total)).Pairwise
      FunctionRange.Disjoint) :
    Functions total (sanitizeFunctionRanges functionRanges (some total)) := by
  have hin : ∀ f ∈ sanitizeFunctionRanges functionRanges (some total),
      1 ≤ f.startLine ∧ f.startLine ≤ f.endLine ∧ f.endLine ≤ total := by
    intro f hf
    obtain ⟨g, -, hv, rfl⟩ := (mem_sanitizeFunctionRanges ht).1 hf
    obtain ⟨h1, h2, h3⟩ := FunctionRange.isValid_iff.1 hv
    exact ⟨h1, by simp only [FunctionRange.make]; omega, Int.min_le_right _ _⟩
  have hdis : (functionRanges.filterMap (clipped (some total))).Pairwise
      FunctionRange.Disjoint := by
    rw [List.pairwise_filter] at hd
    refine List.pairwise_filterMap.2 (hd.imp fun {f g} hfg f' hf' g' hg' => ?_)
    obtain ⟨hv, rfl⟩ := (clipped_eq_some_iff ht).1 hf'
    obtain ⟨hv', rfl⟩ := (clipped_eq_some_iff ht).1 hg'
    have := hfg hv hv'
    simp only [FunctionRange.Disjoint, FunctionRange.make] at this ⊢
    omega
  have hsort : (sanitizeFunctionRanges functionRanges (some total)).Pairwise
      FunctionRange.Disjoint :=
    (List.perm_insertionSort _ _).pairwise_iff (fun {f g} h => Or.symm h) |>.2 hdis
  refine ⟨hin, (sanitizeFunctionRanges_sorted.and hsort).imp_of_mem ?_⟩
  intro f g hf hg hfg
  have h1 := hin f hf
  have h2 := hin g hg
  simp only [FunctionRange.le, FunctionRange.Disjoint] at hfg
  omega

end Sanitize

/-! ## The sweep -/

/-- What a region shows. -/
inductive RegionKind where
  | analysis
  | collapsed
  deriving DecidableEq, Repr

/-- Whether the page opens a region at first. -/
inductive RegionState where
  | expanded
  | collapsed
  deriving DecidableEq, Repr

/-- A range to expand, with its kind and label. -/
abbrev ExpandedRange := Span (RegionKind × Option (List Char))

/-- The pointer into the functions goes on while the next one starts at the line or before.  It is
the list of the functions from it on. -/
def advance (line : Int) : List FunctionRange → List FunctionRange
  | fn :: next :: rest =>
    if next.startLine ≤ line then advance line (next :: rest) else fn :: next :: rest
  | fns => fns

/-- The whole of a function, with its name as the label unless it is empty. -/
def wholeFunction (fn : FunctionRange) : ExpandedRange :=
  ⟨fn.startLine, fn.endLine, (.analysis, if fn.name = some [] then none else fn.name)⟩

/-- The lines around a line in no function. -/
def contextRange (total context line : Int) : ExpandedRange :=
  ⟨max 1 (line - context), min total (line + context), (.analysis, none)⟩

/-- The range of a line when the function under the pointer is the candidate. -/
def rangeAt (total context line : Int) (fns : List FunctionRange) : ExpandedRange :=
  match fns with
  | cand :: _ => if cand.contains line then wholeFunction cand else contextRange total context line
  | [] => contextRange total context line

/-- The ranges of the pending lines in turn. -/
def rawExpandedRanges (total context : Int) : List FunctionRange → List Int → List ExpandedRange
  | _, [] => []
  | fns, line :: lines =>
    rangeAt total context line (advance line fns) ::
      rawExpandedRanges total context (advance line fns) lines

section Sweep

variable {total context line : Int} {fns : List FunctionRange}

/-- The range of a line, by a search through all functions. -/
def rangeOf (total context : Int) (fns : List FunctionRange) (line : Int) : ExpandedRange :=
  match fns.find? fun fn => fn.contains line with
  | some fn => wholeFunction fn
  | none => contextRange total context line

/-- **What the pointer passes ends before the line, and what is behind the one under it starts
after.** -/
theorem exists_advance (line : Int) (h : InOrder fns) :
    ∃ passed, fns = passed ++ advance line fns ∧ (∀ f ∈ passed, f.endLine < line) ∧
      ∀ f ∈ (advance line fns).tail, line < f.startLine := by
  induction fns with
  | nil => exact ⟨[], rfl, by simp, by simp [advance]⟩
  | cons f rest ih =>
    cases rest with
    | nil => exact ⟨[], rfl, by simp, by simp [advance]⟩
    | cons g rest =>
      rw [advance]
      split
      · next hle =>
        obtain ⟨passed, heq, hpassed, htail⟩ := ih h.tail
        have hfg : f.endLine < g.startLine :=
          (List.pairwise_cons.1 h.apart).1 g List.mem_cons_self
        refine ⟨f :: passed, by rw [List.cons_append, ← heq], ?_, htail⟩
        exact List.forall_mem_cons.2 ⟨by omega, hpassed⟩
      · next hlt =>
        refine ⟨[], rfl, by simp, List.forall_mem_cons.2 ⟨by omega, fun k hk => ?_⟩⟩
        have hgk : g.endLine < k.startLine := (List.pairwise_cons.1 h.tail.apart).1 k hk
        have := h.nonempty g (by simp)
        omega

theorem Functions.of_append {passed : List FunctionRange}
    (h : Functions total (passed ++ fns)) : Functions total fns :=
  ⟨fun f hf => h.inside f (List.mem_append_right _ hf), (List.pairwise_append.1 h.apart).2.1⟩

/-- A later line has the same range after the pointer has moved. -/
theorem rangeOf_advance (h : Functions total fns) {line' : Int} (hle : line ≤ line') :
    rangeOf total context (advance line fns) line' = rangeOf total context fns line' := by
  obtain ⟨passed, heq, hpassed, -⟩ := exists_advance line h.inOrder
  have hnone : passed.find? (fun fn => fn.contains line') = none := by
    rw [List.find?_eq_none]
    intro f hf
    have := hpassed f hf
    rw [FunctionRange.contains_iff]
    omega
  conv_rhs => rw [heq]
  simp only [rangeOf, List.find?_append, hnone, Option.none_or]

/-- The candidate decides: none of the functions behind it can have the line. -/
theorem rangeAt_advance (h : Functions total fns) :
    rangeAt total context line (advance line fns) = rangeOf total context fns line := by
  rw [← rangeOf_advance h (Int.le_refl line)]
  obtain ⟨passed, -, -, htail⟩ := exists_advance line h.inOrder
  generalize advance line fns = rest at htail
  cases rest with
  | nil => rfl
  | cons f rest =>
    rw [rangeAt, rangeOf, List.find?_cons]
    cases hf : f.contains line with
    | true => rfl
    | false =>
      have hnone : rest.find? (fun fn => fn.contains line) = none := by
        rw [List.find?_eq_none]
        intro g hg
        have := htail g hg
        rw [FunctionRange.contains_iff]
        omega
      rw [hnone]
      rfl

/-- **The sweep over sorted lines finds the range of each.** -/
theorem rawExpandedRanges_eq {lines : List Int} (h : Functions total fns)
    (hsorted : lines.Pairwise (· ≤ ·)) :
    rawExpandedRanges total context fns lines = lines.map (rangeOf total context fns) := by
  induction lines generalizing fns with
  | nil => rfl
  | cons line lines ih =>
    obtain ⟨hle, hsorted⟩ := List.pairwise_cons.1 hsorted
    obtain ⟨passed, heq, -, -⟩ := exists_advance line h.inOrder
    rw [rawExpandedRanges, rangeAt_advance h, ih (heq ▸ h : Functions total (passed ++ _)).of_append
      hsorted, List.map_cons]
    congr 1
    exact List.map_congr_left fun line' hline' => rangeOf_advance h (hle line' hline')

end Sweep

/-! ## The regions -/

/-- A label that is absent and an empty one are both false. -/
def truthy (label : Option (List Char)) : Bool := label ≠ none ∧ label ≠ some []

/-- The label of two ranges that are joined: both, when they differ and the first does not stand for
several already, cut to the first function and a mark when it gets long. -/
def mergeLabel (prevLabel curLabel : Option (List Char)) : Option (List Char) :=
  let prev := prevLabel.getD []
  let cur := curLabel.getD []
  if truthy prevLabel ∧ truthy curLabel ∧ prev ≠ cur then
    let newLabel := if prev.getLast? = some '等' then prev else prev ++ [',', ' '] ++ cur
    if newLabel.length > 40 then
      some (strip ((prev.splitOn ',').headD []) ++ [' ', '等'])
    else some newLabel
  else if truthy prevLabel then prevLabel else curLabel

/-- `CodeRegion`. -/
structure CodeRegion where
  regionId : String
  startLine : Int
  endLine : Int
  defaultState : RegionState
  kind : RegionKind
  label : Option (List Char)
  deriving DecidableEq, Repr

namespace CodeRegion

/-- The id of the region of two lines. -/
def idOf (startLine endLine : Int) : String :=
  "region-" ++ toString startLine ++ "-" ++ toString endLine

/-- A region that is filled in. -/
def filled (startLine endLine : Int) : CodeRegion :=
  ⟨idOf startLine endLine, startLine, endLine, .collapsed, .collapsed, none⟩

/-- The region of an expanded range. -/
def expanded (range : ExpandedRange) : CodeRegion :=
  ⟨idOf range.first range.last, range.first, range.last, .expanded, range.tag.1, range.tag.2⟩

/-- `line_count`. -/
def lineCount (r : CodeRegion) : Int := r.endLine - r.startLine + 1

/-- The line is in the region. -/
def Contains (r : CodeRegion) (line : Int) : Prop := r.startLine ≤ line ∧ line ≤ r.endLine

instance (r : CodeRegion) (line : Int) : Decidable (r.Contains line) :=
  inferInstanceAs (Decidable (_ ∧ _))

/-- The lines of a region. -/
def span (r : CodeRegion) : Span Unit := ⟨r.startLine, r.endLine, ()⟩

/-- The region of a tile: an expanded range, or nothing. -/
def ofTile (tile : Span (Option (RegionKind × Option (List Char)))) : CodeRegion :=
  match tile.tag with
  | some tag => expanded ⟨tile.first, tile.last, tag⟩
  | none => filled tile.first tile.last

end CodeRegion

/-- The order of the sort key `(item[0], item[1])`. -/
def rangeLe (s t : ExpandedRange) : Prop := s.first < t.first ∨ s.first = t.first ∧ s.last ≤ t.last

instance : DecidableRel rangeLe := fun _ _ => inferInstanceAs (Decidable (_ ∨ _ ∧ _))

instance : Std.Total rangeLe where
  total s t := by
    simp only [rangeLe]
    omega

instance : IsTrans ExpandedRange rangeLe where
  trans r s t h h' := by
    simp only [rangeLe] at h h' ⊢
    omega

/-- The pass that fills the lines before, between and behind the expanded ranges. -/
def fillRegions (totalLines : Int) : Int → List ExpandedRange → List CodeRegion
  | currentCursor, [] =>
    if currentCursor ≤ totalLines then [.filled currentCursor totalLines] else []
  | currentCursor, range :: rest =>
    (if range.first > currentCursor then [.filled currentCursor (range.first - 1)] else []) ++
      .expanded range :: fillRegions totalLines (range.last + 1) rest

/-- The pending lines of the file, each once, in order. -/
def validPending (totalLines : Int) (pendingLines : List Int) : List Int :=
  (pendingLines.filter fun line => 1 ≤ line ∧ line ≤ totalLines).dedup.insertionSort (· ≤ ·)

/-- A merged range is of the kind `analysis`, with the label of the two. -/
def mergeTag (prev cur : RegionKind × Option (List Char)) : RegionKind × Option (List Char) :=
  (.analysis, mergeLabel prev.2 cur.2)

/-- The ranges to expand, joined. -/
def mergedExpanded (totalLines : Int) (pendingLines : List Int)
    (functionRanges : List FunctionRange) (fallbackContext maxMergeGap : Int) :
    List ExpandedRange :=
  let validFunctions := sanitizeFunctionRanges functionRanges (some totalLines)
  let raw := rawExpandedRanges totalLines fallbackContext validFunctions
    (validPending totalLines pendingLines)
  mergeNear maxMergeGap mergeTag (raw.insertionSort rangeLe)

/-- `build_code_regions`. -/
def buildCodeRegions (totalLines : Int) (pendingLines : List Int)
    (functionRanges : List FunctionRange) (fallbackContext maxMergeGap : Int) : List CodeRegion :=
  if totalLines ≤ 0 then []
  else if validPending totalLines pendingLines = [] then [.filled 1 totalLines]
  else fillRegions totalLines 1
    (mergedExpanded totalLines pendingLines functionRanges fallbackContext maxMergeGap)

section Regions

variable {total context gap line : Int} {pending : List Int} {functionRanges : List FunctionRange}

theorem mem_validPending :
    line ∈ validPending total pending ↔ line ∈ pending ∧ 1 ≤ line ∧ line ≤ total := by
  rw [validPending, List.mem_insertionSort, List.mem_dedup, List.mem_filter, decide_eq_true_iff]

/-- **The last pass is a layout of the ranges.** -/
theorem fillRegions_eq (cursor : Int) (ranges : List ExpandedRange) :
    fillRegions total cursor ranges = (fillFrom total cursor ranges).map CodeRegion.ofTile := by
  induction ranges generalizing cursor with
  | nil =>
    rw [fillRegions, fillFrom]
    split <;> rfl
  | cons range rest ih =>
    rw [fillRegions, fillFrom, ih, List.map_append, List.map_cons]
    congr 1
    simp only [gt_iff_lt]
    split <;> rfl

/-- Without pending lines nothing is left to expand, and the file is one region. -/
theorem buildCodeRegions_eq (ht : 1 ≤ total) :
    buildCodeRegions total pending functionRanges context gap =
      (fillFrom total 1 (mergedExpanded total pending functionRanges context gap)).map
        CodeRegion.ofTile := by
  rw [buildCodeRegions, if_neg (by omega)]
  split
  · next hnil =>
    rw [mergedExpanded, hnil]
    simp [rawExpandedRanges, mergeNear, fillFrom, ht, CodeRegion.ofTile]
  · exact fillRegions_eq 1 _

/-! ## What is expanded -/

/-- The lines from `first` to `last` are the window of a pending line: the function of the line, up
to the end of the file, or for a line in no function its context in the file. -/
def IsWindow (total context : Int) (functionRanges : List FunctionRange) (pending : List Int)
    (first last : Int) : Prop :=
  ∃ p ∈ pending, (1 ≤ p ∧ p ≤ total) ∧
    ((∃ f ∈ functionRanges, f.isValid (some total) = true ∧ f.contains p = true ∧
        first = f.startLine ∧ last = min f.endLine total) ∨
      (∀ f ∈ functionRanges, f.isValid (some total) = true → f.contains p = false) ∧
        first = max 1 (p - context) ∧ last = min total (p + context))

/-- The line is in a window, or in a stretch of at most `gap` lines between two. -/
def ShouldExpand (total context gap : Int) (functionRanges : List FunctionRange)
    (pending : List Int) (n : Int) : Prop :=
  (∃ first last, IsWindow total context functionRanges pending first last ∧
      first ≤ n ∧ n ≤ last) ∨
    ∃ first last first' last', IsWindow total context functionRanges pending first last ∧
      IsWindow total context functionRanges pending first' last' ∧
      last < n ∧ n < first' ∧ first' - last - 1 ≤ gap

/-- The ranges before they are joined. -/
def sortedRanges (total context : Int) (functionRanges : List FunctionRange)
    (pending : List Int) : List ExpandedRange :=
  (rawExpandedRanges total context (sanitizeFunctionRanges functionRanges (some total))
    (validPending total pending)).insertionSort rangeLe

/-- The functions of the file that are valid have no line in common. -/
abbrev DisjointFunctions (total : Int) (functionRanges : List FunctionRange) : Prop :=
  (functionRanges.filter fun fn => fn.isValid (some total)).Pairwise FunctionRange.Disjoint

/-- The function that has the line is the one that a search finds. -/
theorem Functions.find?_eq {fns : List FunctionRange} (h : Functions total fns)
    {f : FunctionRange} (hf : f ∈ fns) (hline : f.contains line = true) :
    fns.find? (fun fn => fn.contains line) = some f := by
  induction fns with
  | nil => exact absurd hf List.not_mem_nil
  | cons g rest ih =>
    rw [List.find?_cons]
    rcases List.mem_cons.1 hf with rfl | hrest
    · rw [hline]
    · have hgf : g.endLine < f.startLine := (List.pairwise_cons.1 h.apart).1 f hrest
      have hg : g.contains line = false := by
        rw [← Bool.not_eq_true, FunctionRange.contains_iff]
        rw [FunctionRange.contains_iff] at hline
        omega
      rw [hg]
      exact ih h.tail hrest

theorem mem_sortedRanges (ht : 1 ≤ total) (hd : DisjointFunctions total functionRanges)
    {r : ExpandedRange} :
    r ∈ sortedRanges total context functionRanges pending ↔ ∃ p ∈ pending, (1 ≤ p ∧ p ≤ total) ∧
      rangeOf total context (sanitizeFunctionRanges functionRanges (some total)) p = r := by
  have hsorted : (validPending total pending).Pairwise (· ≤ ·) := List.pairwise_insertionSort _ _
  rw [sortedRanges, List.mem_insertionSort,
    rawExpandedRanges_eq (sanitizeFunctionRanges_functions ht hd) hsorted, List.mem_map]
  simp only [mem_validPending, and_assoc]

/-- The range of a pending line in a function is that function up to the end of the file. -/
theorem rangeOf_eq_of_contains (ht : 1 ≤ total) (hd : DisjointFunctions total functionRanges)
    (hline : line ≤ total) {f : FunctionRange} (hf : f ∈ functionRanges)
    (hv : f.isValid (some total) = true) (hc : f.contains line = true) :
    rangeOf total context (sanitizeFunctionRanges functionRanges (some total)) line =
      wholeFunction (.make f.startLine (min f.endLine total) f.name) := by
  have hmem : .make f.startLine (min f.endLine total) f.name ∈
      sanitizeFunctionRanges functionRanges (some total) :=
    (mem_sanitizeFunctionRanges ht).2 ⟨f, hf, hv, rfl⟩
  rw [rangeOf, (sanitizeFunctionRanges_functions ht hd).find?_eq hmem]
  rw [FunctionRange.contains_iff] at hc ⊢
  simp only [FunctionRange.make]
  omega

/-- A line that no valid function has gets its context. -/
theorem rangeOf_eq_of_forall (ht : 1 ≤ total)
    (hno : ∀ f ∈ functionRanges, f.isValid (some total) = true → f.contains line = false) :
    rangeOf total context (sanitizeFunctionRanges functionRanges (some total)) line =
      contextRange total context line := by
  have hnone : (sanitizeFunctionRanges functionRanges (some total)).find?
      (fun fn => fn.contains line) = none := by
    rw [List.find?_eq_none]
    intro g hg
    obtain ⟨f, hf, hv, rfl⟩ := (mem_sanitizeFunctionRanges ht).1 hg
    have := hno f hf hv
    rw [← Bool.not_eq_true, FunctionRange.contains_iff] at this
    rw [FunctionRange.contains_iff]
    simp only [FunctionRange.make]
    omega
  rw [rangeOf, hnone]

/-- **The ranges are the windows of the pending lines.** -/
theorem isWindow_iff (ht : 1 ≤ total) (hd : DisjointFunctions total functionRanges)
    {first last : Int} :
    IsWindow total context functionRanges pending first last ↔
      ∃ r ∈ sortedRanges total context functionRanges pending, r.first = first ∧ r.last = last := by
  simp only [mem_sortedRanges ht hd]
  constructor
  · rintro ⟨p, hp, hin, ⟨f, hf, hv, hc, rfl, rfl⟩ | ⟨hno, rfl, rfl⟩⟩
    · exact ⟨_, ⟨p, hp, hin, rangeOf_eq_of_contains ht hd hin.2 hf hv hc⟩, rfl, rfl⟩
    · exact ⟨_, ⟨p, hp, hin, rangeOf_eq_of_forall ht hno⟩, rfl, rfl⟩
  · rintro ⟨r, ⟨p, hp, hin, rfl⟩, rfl, rfl⟩
    refine ⟨p, hp, hin, ?_⟩
    by_cases hno : ∀ f ∈ functionRanges, f.isValid (some total) = true → f.contains p = false
    · rw [rangeOf_eq_of_forall ht hno]
      exact .inr ⟨hno, rfl, rfl⟩
    · push Not at hno
      obtain ⟨f, hf, hv, hc⟩ := hno
      replace hc : f.contains p = true := by simpa using hc
      rw [rangeOf_eq_of_contains ht hd hin.2 hf hv hc]
      exact .inl ⟨f, hf, hv, hc, rfl, rfl⟩

/-- The ranges reach the lines that should be expanded. -/
theorem reached_iff (ht : 1 ≤ total) (hd : DisjointFunctions total functionRanges) {n : Int} :
    Span.Reached gap (sortedRanges total context functionRanges pending) n ↔
      ShouldExpand total context gap functionRanges pending n := by
  simp only [ShouldExpand, isWindow_iff ht hd, Span.Reached, Span.Has, Span.Between]
  constructor
  · rintro (⟨s, hs, hn⟩ | ⟨s, hs, t, ht, hn⟩)
    · exact .inl ⟨_, _, ⟨s, hs, rfl, rfl⟩, hn⟩
    · exact .inr ⟨_, _, _, _, ⟨s, hs, rfl, rfl⟩, ⟨t, ht, rfl, rfl⟩, hn⟩
  · rintro (⟨_, _, ⟨s, hs, rfl, rfl⟩, hn⟩ | ⟨_, _, _, _, ⟨s, hs, rfl, rfl⟩, ⟨t, ht, rfl, rfl⟩, hn⟩)
    · exact .inl ⟨s, hs, hn⟩
    · exact .inr ⟨s, hs, t, ht, hn⟩

/-- A range has lines, all of them in the file. -/
theorem rangeOf_within (ht : 1 ≤ total) (hc : 0 ≤ context)
    (hd : DisjointFunctions total functionRanges) (hline : 1 ≤ line ∧ line ≤ total)
    {r : ExpandedRange}
    (hr : rangeOf total context (sanitizeFunctionRanges functionRanges (some total)) line = r) :
    1 ≤ r.first ∧ r.first ≤ r.last ∧ r.last ≤ total := by
  unfold rangeOf at hr
  split at hr
  · next f hf =>
    subst hr
    exact (sanitizeFunctionRanges_functions ht hd).inside f (List.mem_of_find?_eq_some hf)
  · subst hr
    simp only [contextRange]
    omega

theorem sortedRanges_ordered (ht : 1 ≤ total) (hc : 0 ≤ context)
    (hd : DisjointFunctions total functionRanges) :
    Ordered (sortedRanges total context functionRanges pending) := by
  have hsorted : (sortedRanges total context functionRanges pending).Pairwise rangeLe :=
    List.pairwise_insertionSort _ _
  refine ⟨hsorted.imp fun {s t} hst => ?_, fun s hs => ?_⟩
  · simp only [rangeLe] at hst
    omega
  · obtain ⟨p, -, hin, hr⟩ := (mem_sortedRanges ht hd).1 hs
    exact (rangeOf_within ht hc hd hin hr).2.1

/-- **The joined ranges are in order, more than `gap` lines apart, and in the file.** -/
theorem mergedExpanded_laid (ht : 1 ≤ total) (hc : 0 ≤ context)
    (hd : DisjointFunctions total functionRanges) :
    Laid gap 1 total (mergedExpanded total pending functionRanges context gap) := by
  have hall : ∀ s ∈ mergedExpanded total pending functionRanges context gap,
      1 ≤ s.first ∧ s.first ≤ s.last ∧ s.last ≤ total := by
    refine forall_mem_mergeNear (fun s t hs ht => ?_) fun s hs => ?_
    · simp only [join]
      omega
    · obtain ⟨p, -, hin, hr⟩ := (mem_sortedRanges ht hd).1 hs
      exact rangeOf_within ht hc hd hin hr
  exact {
    inhabited := fun s hs => (hall s hs).2.1
    apart := mergeNear_apart (sortedRanges_ordered ht hc hd)
    within := fun s hs => ⟨(hall s hs).1, (hall s hs).2.2⟩ }

/-- The expanded regions are the joined ranges. -/
theorem mem_buildCodeRegions_expanded (ht : 1 ≤ total) {r : CodeRegion} :
    (r ∈ buildCodeRegions total pending functionRanges context gap ∧ r.defaultState = .expanded) ↔
      ∃ s ∈ mergedExpanded total pending functionRanges context gap, r = .expanded s := by
  rw [buildCodeRegions_eq ht, List.mem_map]
  constructor
  · rintro ⟨⟨⟨a, b, tag⟩, hmem, rfl⟩, hstate⟩
    cases tag with
    | none => exact absurd hstate (by simp [CodeRegion.ofTile, CodeRegion.filled])
    | some tag => exact ⟨⟨a, b, tag⟩, mem_fillFrom_some_iff.1 hmem, rfl⟩
  · rintro ⟨s, hs, rfl⟩
    exact ⟨⟨_, mem_fillFrom_of_mem hs, rfl⟩, rfl⟩

/-- **What is expanded are the windows and the short stretches between two.** -/
theorem expanded_iff (ht : 1 ≤ total) (hc : 0 ≤ context)
    (hd : DisjointFunctions total functionRanges) {n : Int} :
    (∃ r ∈ buildCodeRegions total pending functionRanges context gap,
      r.defaultState = .expanded ∧ r.Contains n) ↔
      ShouldExpand total context gap functionRanges pending n := by
  have hcover : (∃ s ∈ mergedExpanded total pending functionRanges context gap, s.Has n) ↔
      Span.Reached gap (sortedRanges total context functionRanges pending) n :=
    mem_mergeNear_iff (sortedRanges_ordered ht hc hd)
  rw [← reached_iff ht hd, ← hcover]
  constructor
  · rintro ⟨r, hr, hstate, hn⟩
    obtain ⟨s, hs, rfl⟩ := (mem_buildCodeRegions_expanded ht).1 ⟨hr, hstate⟩
    exact ⟨s, hs, hn⟩
  · rintro ⟨s, hs, hn⟩
    obtain ⟨hr, hstate⟩ := (mem_buildCodeRegions_expanded ht).2 ⟨s, hs, rfl⟩
    exact ⟨_, hr, hstate, hn⟩

/-- Every pending line of the file is in its own window. -/
theorem shouldExpand_of_pending (hc : 0 ≤ context) (hp : line ∈ pending)
    (hin : 1 ≤ line ∧ line ≤ total) :
    ShouldExpand total context gap functionRanges pending line := by
  by_cases hno : ∀ f ∈ functionRanges, f.isValid (some total) = true → f.contains line = false
  · refine .inl ⟨_, _, ⟨line, hp, hin, .inr ⟨hno, rfl, rfl⟩⟩, ?_, ?_⟩ <;> omega
  · push Not at hno
    obtain ⟨f, hf, hv, hfl⟩ := hno
    replace hfl : f.contains line = true := by simpa using hfl
    have hlines := FunctionRange.contains_iff.1 hfl
    exact .inl ⟨_, _, ⟨line, hp, hin, .inl ⟨f, hf, hv, hfl, rfl, rfl⟩⟩, hlines.1, by omega⟩

theorem ofTile_span (tile : Span (Option (RegionKind × Option (List Char)))) :
    (CodeRegion.ofTile tile).span = ⟨tile.first, tile.last, ()⟩ := by
  obtain ⟨a, b, _ | tag⟩ := tile <;> rfl

/-- A tiling stays one when the data of its tiles changes. -/
theorem tiles_map_span {start stop : Int}
    {tiles : List (Span (Option (RegionKind × Option (List Char))))} (h : Tiles start stop tiles) :
    Tiles start stop ((tiles.map CodeRegion.ofTile).map CodeRegion.span) := by
  induction tiles generalizing start with
  | nil => exact h
  | cons tile rest ih =>
    obtain ⟨hfirst, hin, hrest⟩ := h
    rw [List.map_cons, List.map_cons, ofTile_span]
    exact ⟨hfirst, hin, ih hrest⟩

/-- Between two expanded regions there is a collapsed one of more than `gap` lines. -/
theorem exists_collapsed_between (ht : 1 ≤ total) (hc : 0 ≤ context) (hg : 0 ≤ gap)
    (hd : DisjointFunctions total functionRanges) {r r' : CodeRegion}
    (hr : r ∈ buildCodeRegions total pending functionRanges context gap)
    (hr' : r' ∈ buildCodeRegions total pending functionRanges context gap)
    (hstate : r.defaultState = .expanded) (hstate' : r'.defaultState = .expanded)
    (hlt : r.startLine < r'.startLine) :
    ∃ c ∈ buildCodeRegions total pending functionRanges context gap,
      c.defaultState = .collapsed ∧ r.endLine < c.startLine ∧ c.endLine < r'.startLine ∧
        gap < c.lineCount := by
  obtain ⟨s, hs, rfl⟩ := (mem_buildCodeRegions_expanded ht).1 ⟨hr, hstate⟩
  obtain ⟨s', hs', rfl⟩ := (mem_buildCodeRegions_expanded ht).1 ⟨hr', hstate'⟩
  obtain ⟨⟨a, b, tag⟩, hmem, rfl, hbetween⟩ :=
    exists_tile_between hg (mergedExpanded_laid ht hc hd) hs hs' hlt
  refine ⟨CodeRegion.filled a b, ?_, rfl, hbetween⟩
  rw [buildCodeRegions_eq ht]
  exact List.mem_map.2 ⟨_, hmem, rfl⟩

/-- **The regions partition the file and expand what they should.**  They follow each other from the
first line to the last.  A line is in an expanded one if and only if it is in a window or in a short
stretch between two windows; so every pending line of the file is, and two expanded regions have
a collapsed one of more than `gap` lines between them. -/
theorem buildCodeRegions_spec (ht : 1 ≤ total) (hc : 0 ≤ context) (hg : 0 ≤ gap)
    (hd : DisjointFunctions total functionRanges) :
    Tiles 1 total
        ((buildCodeRegions total pending functionRanges context gap).map CodeRegion.span) ∧
      (∀ n, (∃ r ∈ buildCodeRegions total pending functionRanges context gap,
          r.defaultState = .expanded ∧ r.Contains n) ↔
        ShouldExpand total context gap functionRanges pending n) ∧
      (∀ p ∈ pending, 1 ≤ p ∧ p ≤ total →
        ∃ r ∈ buildCodeRegions total pending functionRanges context gap,
          r.defaultState = .expanded ∧ r.Contains p) ∧
      ∀ r ∈ buildCodeRegions total pending functionRanges context gap,
        ∀ r' ∈ buildCodeRegions total pending functionRanges context gap,
          r.defaultState = .expanded → r'.defaultState = .expanded → r.startLine < r'.startLine →
            ∃ c ∈ buildCodeRegions total pending functionRanges context gap,
              c.defaultState = .collapsed ∧ r.endLine < c.startLine ∧ c.endLine < r'.startLine ∧
                gap < c.lineCount := by
  refine ⟨?_, fun n => expanded_iff ht hc hd, fun p hp hin => ?_, fun r hr r' hr' h h' hlt => ?_⟩
  · rw [buildCodeRegions_eq ht]
    exact tiles_map_span (fillFrom_tiles hg (mergedExpanded_laid ht hc hd) (by omega))
  · exact (expanded_iff ht hc hd).2 (shouldExpand_of_pending hc hp hin)
  · exact exists_collapsed_between ht hc hg hd hr hr' h h' hlt

end Regions

/-- A file with a function, a range that is not valid, and pending lines in and out of it. -/
theorem buildCodeRegions_sample :
    let regions := buildCodeRegions 60 [58, 5, 0, 5] [⟨1, 10, none⟩, ⟨7, 3, none⟩] 4 3
    Tiles 1 60 (regions.map CodeRegion.span) ∧
      regions.map (fun r => (r.startLine, r.endLine, r.defaultState)) =
        [(1, 10, .expanded), (11, 53, .collapsed), (54, 60, .expanded)] :=
  ⟨(buildCodeRegions_spec (by decide) (by decide) (by decide) (by decide)).1, by decide +kernel⟩

end FosCoverage.CodeDetail
