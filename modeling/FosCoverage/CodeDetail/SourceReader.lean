import FosCoverage.CodeDetail.CodeRegion
import FosCoverage.CodeDetail.SourceText
import FosCoverage.Lib.Outcome
import FosCoverage.Lib.Table

/-!
# Blocks of uncovered lines

The last part of `parse_source_lines_from_gcov_html` works on the parsed lines of a page.  It groups
uncovered lines into blocks, so that one review answers for several lines, and builds the record of
each line with the analysis that is known of it.

A block starts at the first uncovered line that is in none.  `extend` goes on from there: an
uncovered line may join, and behind the entry of a function a line that is not instrumented is
asked whether it is structural.  The predicate it is asked with is not defined in the module, so
the question raises.

* `extend_eq_error_iff` says when a block asks it, and `groupBlocks_isOk_iff` when the loop over all
  lines does.
* `buildContext_lines` says that the records are one for each line, in order.
* `groupAndBuild_isOk_iff` puts the two together.
-/

set_option autoImplicit false

namespace FosCoverage.SourceReader

open Text Relational Outcome CodeDetail

/-! ## The parsed lines -/

/-- The name that a call does not find. -/
inductive ReaderError where
  | nameError (name : String)
  deriving DecidableEq, Repr

inductive CoverageState where
  | covered
  | uncovered
  | ignored
  deriving DecidableEq, Repr

/-- Which lines a review is about. -/
inductive ReviewScope where
  | full
  | incremental
  deriving DecidableEq, Repr

/-- An item of `raw_lines`.  Its `is_uncovered` says that the state is `uncovered`. -/
structure RawLine where
  lineNo : Int
  codeText : List Char
  rawHtml : List Char
  coverageState : CoverageState
  isIncremental : Bool
  suggestedReviewer : List Char
  deriving DecidableEq, Repr

/-- A record of the analysis.  Its keys may be missing, and what is missing reads as `None` unless
the call gives a default; only `fill_status` tells the two apart. -/
structure AnalysisRecord where
  status : Option (List Char)
  isDraft : Bool
  fillStatus : Option (Option (List Char))
  reviewer : Option (List Char)
  coverageMethod : Option (List Char)
  uncoveredReason : Option (List Char)

abbrev AnalysisMap := Keyed Int AnalysisRecord

variable (u : WordTable) (reviewScope : ReviewScope) (analysisMap : AnalysisMap)

/-- `is_uncov`: the line is uncovered and in the scope of the review. -/
def isUncov (item : RawLine) : Bool :=
  item.coverageState = .uncovered ∧ ¬ (reviewScope = .incremental ∧ !item.isIncremental)

/-- `_effective_reviewer_for_line` -/
def effectiveReviewerForLine (item : RawLine) : List Char :=
  let reviewer := ((analysisMap.get? item.lineNo).bind AnalysisRecord.reviewer).getD []
  strip (if reviewer ≠ [] then reviewer else item.suggestedReviewer)

/-! ## Blocks -/

inductive BlockType where
  | controlFlow
  | functionBody
  | sequential
  | single
  deriving DecidableEq, Repr

/-- A value of `block_map`. -/
structure BlockInfo where
  startLine : Int
  endLine : Int
  blockType : BlockType
  isEntry : Bool
  deriving DecidableEq, Repr

/-- `block_map` and `counted`. -/
structure Blocks where
  blockMap : Keyed Int BlockInfo
  counted : List Int

namespace Blocks

def empty : Blocks := ⟨Keyed.empty, []⟩

/-- Enter the lines of a block. -/
def add (blocks : Blocks) (blockLines : List RawLine) (blockType : BlockType) : Blocks :=
  let startLine := (blockLines.head?.map RawLine.lineNo).getD 0
  let endLine := (blockLines.getLast?.map RawLine.lineNo).getD 0
  ⟨blockLines.zipIdx.foldl (fun m line =>
      m.put line.1.lineNo ⟨startLine, endLine, blockType, line.2 = 0⟩) blocks.blockMap,
    blocks.counted ++ blockLines.map RawLine.lineNo⟩

end Blocks

/-- `is_structural_text`: the module has no such function. -/
def isStructuralText (_codeText : List Char) : Except ReaderError Bool :=
  .error (.nameError "is_structural_text")

/-- The lines that join the block of a line: the loop over those behind it. -/
def extend (item : RawLine) (startIsFn : Bool) (startReviewer : List Char) :
    List RawLine → Except ReaderError (List RawLine)
  | [] => .ok []
  | next :: rest =>
    if next.coverageState = .covered then .ok []
    else if isUncov reviewScope next then
      if effectiveReviewerForLine analysisMap next ≠ startReviewer then .ok []
      else if isControlFlowText u next.codeText || isFunctionEntryText u next.codeText then .ok []
      else if startIsFn && !isSimpleAutoGroupText u next.codeText then .ok []
      else if !startIsFn && (!isSimpleAutoGroupText u item.codeText ||
          !isSimpleAutoGroupText u next.codeText) then .ok []
      else do
        let more ← extend item startIsFn startReviewer rest
        return next :: more
    else if !startIsFn then .ok []
    else if isControlFlowText u next.codeText || isFunctionEntryText u next.codeText then .ok []
    else do
      let structural ← isStructuralText next.codeText
      if startIsFn && !structural then extend item startIsFn startReviewer rest
      else if !structural then return []
      else extend item startIsFn startReviewer rest

/-- The loop over all lines. -/
def groupBlocks : List RawLine → Blocks → Except ReaderError Blocks
  | [], blocks => .ok blocks
  | item :: rest, blocks =>
    if !isUncov reviewScope item ∨ item.lineNo ∈ blocks.counted then groupBlocks rest blocks
    else if isControlFlowText u item.codeText then
      groupBlocks rest (blocks.add [item] .controlFlow)
    else do
      let startIsFn := isFunctionEntryText u item.codeText
      let startReviewer := effectiveReviewerForLine analysisMap item
      let more ← extend u reviewScope analysisMap item startIsFn startReviewer rest
      let blockType := if startIsFn then .functionBody else .sequential
      groupBlocks rest (blocks.add (item :: more) blockType)

/-! ## The records of the lines -/

/-- `CONFIRMED_STATUS_SET` -/
def confirmedStatusSet : List (List Char) :=
  ["可覆盖".toList, "无法覆盖".toList, "冗余代码".toList]

/-- `is_line_pending_analysis` -/
def isLinePendingAnalysis (coverageState : CoverageState) (analysisState : Option (List Char))
    (isDraft : Bool) (fillStatus : Option (List Char)) : Bool :=
  if coverageState ≠ .uncovered then false
  else if isDraft then true
  else if fillStatus = some "未填写".toList then true
  else match analysisState with
    | some state => state ∉ confirmedStatusSet
    | none => true

/-- `SourceLineDTO` -/
structure SourceLineDTO where
  lineNo : Int
  source : List Char
  rawHtml : List Char
  coverageState : CoverageState
  analysisState : List Char
  isPendingAnalysis : Bool
  suggestedReviewer : List Char
  reviewer : List Char
  coverageMethod : List Char
  uncoveredReason : List Char
  isDraft : Bool
  blockStartLine : Int
  blockEndLine : Int
  blockType : BlockType
  functionName : List Char
  isBlockEntry : Bool
  deriving DecidableEq, Repr

/-- `SourceContext` -/
structure SourceContext where
  projectName : String
  filePath : String
  lines : List SourceLineDTO
  functionRanges : List CodeDetail.FunctionRange
  pendingLines : List Int
  totalUncoveredCount : Nat
  confirmedCount : Nat
  reportId : String
  deriving DecidableEq, Repr

/-- The names of the functions of the lines, by the sweep over the sorted functions. -/
def functionNames : List CodeDetail.FunctionRange → List RawLine → List (List Char)
  | _, [] => []
  | fns, item :: items =>
    let fns := advance item.lineNo fns
    let name := match fns with
      | fn :: _ => if fn.contains item.lineNo then fn.name.getD [] else []
      | [] => []
    name :: functionNames fns items

/-- The state that the record of a line gets: outside the scope nothing is uncovered. -/
def scopedState (item : RawLine) : CoverageState :=
  if reviewScope = .incremental ∧ !item.isIncremental ∧ item.coverageState = .uncovered then
    .ignored
  else item.coverageState

/-- The state of the analysis, whether it is a draft, and whether it is filled in. -/
def analysisOf (item : RawLine) : Option (List Char) × Bool × Option (List Char) :=
  match analysisMap.get? item.lineNo with
  | some rec =>
    let filled := if truthy rec.status then "已填写".toList else "未填写".toList
    (rec.status, rec.isDraft, rec.fillStatus.getD (some filled))
  | none => (some "未确认".toList, false, some "未填写".toList)

/-- The line still has to be analysed. -/
def isPending (item : RawLine) : Bool :=
  let (state, draft, fill) := analysisOf analysisMap item
  isLinePendingAnalysis (scopedState reviewScope item) state draft fill

/-- The line counts as confirmed: it is uncovered and has a final state. -/
def isConfirmed (item : RawLine) : Bool :=
  let (state, draft, _) := analysisOf analysisMap item
  !isPending reviewScope analysisMap item && scopedState reviewScope item = .uncovered &&
    (state.map fun s => decide (s ∈ confirmedStatusSet)).getD false && !draft

/-- The record of a line. -/
def buildLine (blocks : Blocks) (item : RawLine) (functionName : List Char) : SourceLineDTO :=
  let rec' := analysisMap.get? item.lineNo
  let (state, draft, _) := analysisOf analysisMap item
  let reviewer := (rec'.bind AnalysisRecord.reviewer).getD []
  let covState := scopedState reviewScope item
  let block := (blocks.blockMap.get? item.lineNo).getD
    ⟨item.lineNo, item.lineNo, .single, covState = .uncovered⟩
  { lineNo := item.lineNo
    source := item.codeText
    rawHtml := item.rawHtml
    coverageState := covState
    analysisState := state.getD "None".toList
    isPendingAnalysis := isPending reviewScope analysisMap item
    suggestedReviewer := item.suggestedReviewer
    reviewer := if reviewer ≠ [] then reviewer else item.suggestedReviewer
    coverageMethod := (rec'.bind AnalysisRecord.coverageMethod).getD []
    uncoveredReason := (rec'.bind AnalysisRecord.uncoveredReason).getD []
    isDraft := draft
    blockStartLine := block.startLine
    blockEndLine := block.endLine
    blockType := block.blockType
    functionName := functionName
    isBlockEntry := block.isEntry }

/-- The constructor counts the confirmed lines again when the count is zero, by their records. -/
def recount (lines : List SourceLineDTO) : Nat :=
  lines.countP fun line =>
    line.coverageState = .uncovered ∧ !line.isDraft ∧ line.analysisState ∈ confirmedStatusSet

/-- The records of all lines, and the counts. -/
def buildContext (projectName filePath reportId : String)
    (functionRanges : List CodeDetail.FunctionRange) (items : List RawLine) (blocks : Blocks) : SourceContext :=
  let names := functionNames (functionRanges.insertionSort CodeDetail.FunctionRange.le) items
  let lines := (items.zip names).map fun p =>
    buildLine reviewScope analysisMap blocks p.1 p.2
  let uncovered := items.countP fun item => scopedState reviewScope item = .uncovered
  let confirmed := items.countP (isConfirmed reviewScope analysisMap)
  { projectName
    filePath
    lines
    functionRanges
    pendingLines := (items.filter (isPending reviewScope analysisMap)).map RawLine.lineNo
    totalUncoveredCount := if uncovered ≠ 0 then uncovered else
      lines.countP fun line => line.coverageState = .uncovered
    confirmedCount := if confirmed ≠ 0 then confirmed else recount lines
    reportId }

/-- The grouping and the records: the part of `parse_source_lines_from_gcov_html` behind the
parsing. -/
def groupAndBuild (projectName filePath reportId : String)
    (functionRanges : List CodeDetail.FunctionRange) (items : List RawLine) : Except ReaderError SourceContext := do
  let blocks ← groupBlocks u reviewScope analysisMap items .empty
  return buildContext reviewScope analysisMap projectName filePath reportId functionRanges items
    blocks

/-! ## When the question is asked -/

/-- The line joins a block of that reviewer behind the entry of a function. -/
def joins (reviewer : List Char) (next : RawLine) : Bool :=
  isUncov reviewScope next && effectiveReviewerForLine analysisMap next = reviewer &&
    !isControlFlowText u next.codeText && !isFunctionEntryText u next.codeText &&
    isSimpleAutoGroupText u next.codeText

/-- The line is neither covered nor uncovered in the scope, and its text settles nothing. -/
def unsettled (next : RawLine) : Bool :=
  next.coverageState ≠ .covered && !isUncov reviewScope next &&
    !isControlFlowText u next.codeText && !isFunctionEntryText u next.codeText

/-- The first of the lines that does not join is one that settles nothing. -/
def asksStructural (reviewer : List Char) (rest : List RawLine) : Bool :=
  match rest.dropWhile (joins u reviewScope analysisMap reviewer) with
  | stop :: _ => unsettled u reviewScope stop
  | [] => false

variable {u reviewScope analysisMap}
variable {item : RawLine} {reviewer : List Char} {rest : List RawLine} {blocks : Blocks}

theorem isUncov_not_covered {next : RawLine} (h : isUncov reviewScope next = true) :
    next.coverageState ≠ .covered := by
  rw [isUncov, decide_eq_true_iff] at h
  rw [h.1]
  decide

/-- **A block asks for a structural line if and only if it starts at the entry of a function and the
first line that does not join it settles nothing.** -/
theorem extend_isOk_iff {startIsFn : Bool} :
    (∃ more, extend u reviewScope analysisMap item startIsFn reviewer rest = .ok more) ↔
      ¬ (startIsFn = true ∧ asksStructural u reviewScope analysisMap reviewer rest = true) := by
  induction rest with
  | nil => simp [extend, asksStructural]
  | cons next rest ih =>
    rw [extend, asksStructural]
    split
    · -- a covered line ends the block
      next hcov => simp [joins, unsettled, isUncov, hcov]
    · next hcov =>
      split
      · -- an uncovered line joins or ends the block
        next hun =>
        cases hjoin : joins u reviewScope analysisMap reviewer next with
        | true =>
          rw [List.dropWhile_cons_of_pos hjoin]
          simp only [joins, hun, Bool.true_and, Bool.and_eq_true, decide_eq_true_eq,
            Bool.not_eq_true'] at hjoin
          obtain ⟨⟨⟨hrev, hcf⟩, hfe⟩, hsimple⟩ := hjoin
          rw [if_neg (by simp [hrev]), if_neg (by simp [hcf, hfe]), if_neg (by simp [hsimple])]
          split
          · next hother =>
            simp only [hsimple, Bool.not_true, Bool.or_false, Bool.and_eq_true,
              Bool.not_eq_true'] at hother
            simp [hother.1]
          · simp only [bind_eq_ok, pure_eq_ok]
            rw [← asksStructural, ← ih]
            constructor
            · rintro ⟨_, more, hmore, _⟩
              exact ⟨more, hmore⟩
            · rintro ⟨more, hmore⟩
              exact ⟨_, more, hmore, rfl⟩
        | false =>
          rw [List.dropWhile_cons_of_neg (by simp [hjoin])]
          refine iff_of_true ?_ (by simp [unsettled, hun])
          split
          · exact ⟨[], rfl⟩
          next hrev =>
          split
          · exact ⟨[], rfl⟩
          next hentry =>
          split
          · exact ⟨[], rfl⟩
          next hsimple =>
          split
          · exact ⟨[], rfl⟩
          cases startIsFn with
          | true =>
            exfalso
            rw [not_not] at hrev
            simp only [Bool.or_eq_true, not_or, Bool.not_eq_true] at hentry
            simp only [Bool.true_and, Bool.not_eq_true, Bool.not_eq_false'] at hsimple
            simp [joins, hun, hrev, hentry.1, hentry.2, hsimple] at hjoin
          | false =>
            obtain ⟨more, hmore⟩ := ih.2 (by simp)
            exact ⟨next :: more, by rw [hmore]; rfl⟩
      · next hun =>
        have hjoin : joins u reviewScope analysisMap reviewer next = false := by
          simp [joins, hun]
        rw [List.dropWhile_cons_of_neg (by simp [hjoin])]
        simp only [Bool.not_eq_true] at hun
        cases startIsFn with
        | false => simp
        | true =>
          cases hentry : isControlFlowText u next.codeText ||
              isFunctionEntryText u next.codeText with
          | true =>
            simp only [Bool.or_eq_true] at hentry
            rcases hentry with hentry | hentry <;> simp [unsettled, hentry]
          | false =>
            simp only [Bool.or_eq_false_iff] at hentry
            simp [unsettled, isStructuralText, hentry.1, hentry.2, hun, hcov]

/-- The lines that join are uncovered, directly behind the start, and no entries of functions. -/
theorem extend_ok {startIsFn : Bool} {more : List RawLine}
    (h : extend u reviewScope analysisMap item startIsFn reviewer rest = .ok more) :
    more <+: rest ∧ ∀ next ∈ more,
      isUncov reviewScope next = true ∧ isFunctionEntryText u next.codeText = false := by
  have hnil : ∀ {more rest : List RawLine}, (.ok [] : Except ReaderError _) = .ok more →
      more <+: rest ∧ ∀ next ∈ more,
        isUncov reviewScope next = true ∧ isFunctionEntryText u next.codeText = false := by
    intro more rest h
    obtain rfl := Except.ok.inj h
    exact ⟨List.nil_prefix, by simp⟩
  induction rest generalizing more with
  | nil => exact hnil h
  | cons next rest ih =>
    rw [extend] at h
    split at h
    · exact hnil h
    split at h
    · next hun =>
      split at h
      · exact hnil h
      split at h
      · exact hnil h
      next hentry =>
      split at h
      · exact hnil h
      split at h
      · exact hnil h
      simp only [bind_eq_ok, pure_eq_ok] at h
      obtain ⟨more', hmore, rfl⟩ := h
      obtain ⟨hpre, hall⟩ := ih hmore
      simp only [Bool.or_eq_true, not_or, Bool.not_eq_true] at hentry
      exact ⟨List.cons_prefix_cons.2 ⟨rfl, hpre⟩, List.forall_mem_cons.2 ⟨⟨hun, hentry.2⟩, hall⟩⟩
    · split at h
      · exact hnil h
      split at h
      · exact hnil h
      · cases h

/-- The lines of a block cannot take the number of an entry behind it, unless an uncovered line
before the entry has it. -/
theorem not_mem_of_entry {before more rest' : List RawLine} {entry : RawLine}
    (hpre : more <+: before ++ entry :: rest')
    (hmore : ∀ next ∈ more,
      isUncov reviewScope next = true ∧ isFunctionEntryText u next.codeText = false)
    (hentry : isFunctionEntryText u entry.codeText = true)
    (hfirst : ∀ k ∈ before, isUncov reviewScope k = true → k.lineNo ≠ entry.lineNo) :
    entry.lineNo ∉ more.map RawLine.lineNo := by
  have hsplit : before ++ [entry] <+: before ++ entry :: rest' := by
    rw [List.prefix_append_right_inj]
    exact ⟨rest', rfl⟩
  intro hmem
  obtain ⟨k, hk, heq⟩ := List.mem_map.1 hmem
  rcases List.prefix_or_prefix_of_prefix hpre hsplit with hshort | hlong
  · rcases List.mem_append.1 (hshort.subset hk) with hb | hb
    · exact hfirst k hb (hmore k hk).1 heq
    · rw [List.mem_singleton.1 hb] at hk
      exact absurd ((hmore entry hk).2.symm.trans hentry) (by decide)
  · have hin : entry ∈ more := hlong.subset (by simp)
    exact absurd ((hmore entry hin).2.symm.trans hentry) (by decide)

/-- An uncovered line that starts a block at the entry of a function asks no question. -/
def Settled (u : WordTable) (reviewScope : ReviewScope) (analysisMap : AnalysisMap)
    (item : RawLine) (rest : List RawLine) : Prop :=
  isControlFlowText u item.codeText = false → isFunctionEntryText u item.codeText = true →
    asksStructural u reviewScope analysisMap (effectiveReviewerForLine analysisMap item) rest =
      false

/-- All entries of functions are settled whose line number is not counted and that no uncovered
line before them has. -/
def AllSettled (u : WordTable) (reviewScope : ReviewScope) (analysisMap : AnalysisMap)
    (counted : List Int) (items : List RawLine) : Prop :=
  ∀ before item rest, items = before ++ item :: rest → isUncov reviewScope item = true →
    item.lineNo ∉ counted →
    (∀ k ∈ before, isUncov reviewScope k = true → k.lineNo ≠ item.lineNo) →
    Settled u reviewScope analysisMap item rest

/-- One line more: it is settled itself if it starts a block, and its number is taken. -/
theorem allSettled_cons {counted : List Int} :
    AllSettled u reviewScope analysisMap counted (item :: rest) ↔
      (isUncov reviewScope item = true → item.lineNo ∉ counted →
        Settled u reviewScope analysisMap item rest) ∧
      AllSettled u reviewScope analysisMap
        (if isUncov reviewScope item then item.lineNo :: counted else counted) rest := by
  have hcounted : ∀ n, n ∉ (if isUncov reviewScope item then item.lineNo :: counted else counted) ↔
      n ∉ counted ∧ (isUncov reviewScope item = true → item.lineNo ≠ n) := by
    intro n
    split
    · next h => simp [h, and_comm, eq_comm]
    · next h => simp [h]
  constructor
  · refine fun h => ⟨fun hun hnot => h [] item rest rfl hun hnot (by simp), ?_⟩
    intro before next rest' heq hun hnot hfirst
    rw [hcounted] at hnot
    exact h (item :: before) next rest' (by rw [heq, List.cons_append]) hun hnot.1
      (List.forall_mem_cons.2 ⟨hnot.2, hfirst⟩)
  · rintro ⟨hhead, htail⟩ before next rest' heq hun hnot hfirst
    cases before with
    | nil =>
      obtain ⟨rfl, rfl⟩ := List.cons.inj heq
      exact hhead hun hnot
    | cons k before =>
      obtain ⟨rfl, rfl⟩ := List.cons.inj heq
      obtain ⟨hk, hfirst⟩ := List.forall_mem_cons.1 hfirst
      exact htail before next rest' rfl hun ((hcounted _).2 ⟨hnot, hk⟩) hfirst

theorem allSettled_congr {counted counted' : List Int} {items : List RawLine}
    (h : ∀ n, n ∈ counted ↔ n ∈ counted') :
    AllSettled u reviewScope analysisMap counted items ↔
      AllSettled u reviewScope analysisMap counted' items := by
  simp only [AllSettled, h]

theorem Blocks.counted_add {lines : List RawLine} {blockType : BlockType} :
    (blocks.add lines blockType).counted = blocks.counted ++ lines.map RawLine.lineNo := rfl

/-- **The loop succeeds if and only if every entry that starts a block is settled.** -/
theorem groupBlocks_isOk_iff {items : List RawLine} :
    (∃ blocks', groupBlocks u reviewScope analysisMap items blocks = .ok blocks') ↔
      AllSettled u reviewScope analysisMap blocks.counted items := by
  induction items generalizing blocks with
  | nil =>
    refine iff_of_true ⟨blocks, rfl⟩ fun before item rest heq => ?_
    exact absurd heq.symm (by simp)
  | cons item rest ih =>
    rw [groupBlocks, allSettled_cons]
    split
    · next hskip =>
      -- the line is not uncovered, or its number is counted already
      rw [ih]
      simp only [Bool.not_eq_true'] at hskip
      cases hun : isUncov reviewScope item with
      | false => simp
      | true =>
        have hmem : item.lineNo ∈ blocks.counted := by simpa [hun] using hskip
        simp only [hmem, not_true, false_imp_iff, implies_true, true_and, if_true]
        refine allSettled_congr fun n => ?_
        rw [List.mem_cons, iff_or_self]
        exact fun heq => heq ▸ hmem
    · next hstart =>
      simp only [Bool.not_eq_true', not_or, Bool.not_eq_false] at hstart
      obtain ⟨hun, hnew⟩ := hstart
      rw [if_pos hun]
      split
      · next hcf =>
        -- a line of control flow is a block of its own
        rw [ih, Blocks.counted_add]
        have hsettled : Settled u reviewScope analysisMap item rest :=
          fun h => absurd (hcf.symm.trans h) (by decide)
        simp only [hun, hnew, hsettled, not_false_iff, imp_self, true_and]
        refine allSettled_congr fun n => ?_
        rw [List.mem_append, List.map_singleton, List.mem_singleton, List.mem_cons, or_comm]
      · next hcf =>
        simp only [Bool.not_eq_true] at hcf
        have hstart : (∃ more, extend u reviewScope analysisMap item
            (isFunctionEntryText u item.codeText) (effectiveReviewerForLine analysisMap item) rest =
              .ok more) ↔ Settled u reviewScope analysisMap item rest := by
          rw [extend_isOk_iff, Settled]
          simp [hcf]
        have hrest : ∀ more, extend u reviewScope analysisMap item
            (isFunctionEntryText u item.codeText) (effectiveReviewerForLine analysisMap item) rest =
              .ok more → ∀ blockType,
            (AllSettled u reviewScope analysisMap (blocks.add (item :: more) blockType).counted
                rest ↔
              AllSettled u reviewScope analysisMap (item.lineNo :: blocks.counted) rest) := by
          intro more hmore blockType
          obtain ⟨hpre, hall⟩ := extend_ok hmore
          refine forall_congr' fun before => forall_congr' fun next => forall_congr' fun rest' => ?_
          refine imp_congr_right fun heq => imp_congr_right fun _ => ?_
          constructor
          · intro h hnot hfirst hnf hfe
            refine h ?_ hfirst hnf hfe
            have := not_mem_of_entry (heq ▸ hpre) hall hfe hfirst
            rw [Blocks.counted_add]
            simp only [List.map_cons, List.mem_append, List.mem_cons, not_or] at hnot ⊢
            exact ⟨hnot.2, hnot.1, this⟩
          · intro h hnot
            refine h ?_
            rw [Blocks.counted_add] at hnot
            simp only [List.map_cons, List.mem_append, List.mem_cons, not_or] at hnot ⊢
            exact ⟨hnot.2.1, hnot.1⟩
        simp only [bind_eq_ok]
        rw [← hstart]
        constructor
        · rintro ⟨blocks', more, hmore, hblocks⟩
          exact ⟨fun _ _ => ⟨more, hmore⟩, (hrest more hmore _).1 (ih.1 ⟨blocks', hblocks⟩)⟩
        · rintro ⟨hex, htail⟩
          obtain ⟨more, hmore⟩ := hex hun hnew
          obtain ⟨blocks', hblocks⟩ := ih.2 ((hrest more hmore _).2 htail)
          exact ⟨blocks', more, hmore, hblocks⟩

/-! ## The whole part -/

section Whole

variable {projectName filePath reportId : String} {functionRanges : List CodeDetail.FunctionRange}
  {items : List RawLine}

theorem length_functionNames (fns : List CodeDetail.FunctionRange) (items : List RawLine) :
    (functionNames fns items).length = items.length := by
  induction items generalizing fns with
  | nil => rfl
  | cons item items ih => rw [functionNames, List.length_cons, List.length_cons, ih]

/-- There is one record for each line, in the same order. -/
theorem buildContext_lines :
    (buildContext reviewScope analysisMap projectName filePath reportId functionRanges items
      blocks).lines.map SourceLineDTO.lineNo = items.map RawLine.lineNo := by
  have hlen := length_functionNames (functionRanges.insertionSort CodeDetail.FunctionRange.le) items
  have hfst : (fun p : RawLine × List Char => SourceLineDTO.lineNo
      (buildLine reviewScope analysisMap blocks p.1 p.2)) = RawLine.lineNo ∘ Prod.fst := rfl
  rw [buildContext, List.map_map]
  change (items.zip _).map (fun p => SourceLineDTO.lineNo
    (buildLine reviewScope analysisMap blocks p.1 p.2)) = _
  rw [hfst, ← List.map_map, List.map_fst_zip (by rw [hlen])]

/-- **The part returns a context with one record for each line if and only if every entry of
a function that starts a block is settled**: the first line behind it that does not join its block
is missing, covered, uncovered in the scope, control flow, or an entry. -/
theorem groupAndBuild_isOk_iff :
    (∃ ctx, groupAndBuild u reviewScope analysisMap projectName filePath reportId functionRanges
        items = .ok ctx ∧ ctx.lines.map SourceLineDTO.lineNo = items.map RawLine.lineNo) ↔
      AllSettled u reviewScope analysisMap [] items := by
  have hloop : (∃ blocks, groupBlocks u reviewScope analysisMap items .empty = .ok blocks) ↔
      AllSettled u reviewScope analysisMap [] items := groupBlocks_isOk_iff
  rw [← hloop]
  simp only [groupAndBuild, bind_eq_ok, pure_eq_ok]
  constructor
  · rintro ⟨ctx, ⟨blocks, hblocks, -⟩, -⟩
    exact ⟨blocks, hblocks⟩
  · rintro ⟨blocks, hblocks⟩
    exact ⟨_, ⟨blocks, hblocks, rfl⟩, buildContext_lines⟩

end Whole

namespace Sample

/-- A function that is never entered, with its brace on a line of its own. -/
def bracedFunction : List RawLine :=
  [⟨1, "int f()".toList, "int f()".toList, .uncovered, false, []⟩,
    ⟨2, ['{'], ['{'], .ignored, false, []⟩,
    ⟨3, "return 1;".toList, "return 1;".toList, .uncovered, false, []⟩]

/-- The grouping asks whether the brace is structural, and fails. -/
theorem groupAndBuild_bracedFunction :
    ¬ ∀ (u : WordTable) (reviewScope : ReviewScope) (analysisMap : AnalysisMap)
        (projectName filePath reportId : String) (functionRanges : List CodeDetail.FunctionRange)
        (items : List RawLine),
      ∃ ctx, groupAndBuild u reviewScope analysisMap projectName filePath reportId functionRanges
        items = .ok ctx ∧ ctx.lines.length = items.length := by
  intro h
  obtain ⟨ctx, hctx, -⟩ := h .asciiOnly .full Keyed.empty "p" "a.c" "r" [] bracedFunction
  have hraise : groupAndBuild .asciiOnly .full Keyed.empty "p" "a.c" "r" [] bracedFunction =
      .error (.nameError "is_structural_text") := by decide +kernel
  exact absurd (hraise.symm.trans hctx) (by simp)

end Sample

end FosCoverage.SourceReader
