import FosCoverage.CodeDetail.SourceReader
import Mathlib.Data.List.Pairwise

/-!
# Blocks partition the uncovered lines

The loop of `groupBlocks` looks ahead from the start of a block, counts the lines that join, and goes
on with the next line.  What comes of it does not depend on what the questions about a text are: they
are the fields of `TextPredicates`, and `groupBlocks` is the loop with those of the module
(`groupBlocksWith_ofSource`).

* `Grouped` is a derivation of the blocks of some lines: a line that is not uncovered is in none, one
  of control flow is a block by itself, and any other starts a block that takes the uncovered lines
  of a stretch behind it.
* `groupBlocksWith_grouped` says that the loop makes such a derivation whenever it returns.
* `Grouped.partition` reads off a derivation that **the blocks partition the uncovered lines**, and
  `get?_enter` what the block map says of each.
-/

set_option autoImplicit false

namespace FosCoverage.SourceReader

open Text Relational Outcome CodeDetail

/-! ## Any predicates -/

/-- The questions about the text of a line. -/
structure TextPredicates where
  /-- `is_control_flow_text` -/
  isControlFlow : List Char → Bool
  /-- `is_function_entry_text` -/
  isFunctionEntry : List Char → Bool
  /-- `is_simple_auto_group_text` -/
  isSimpleAutoGroup : List Char → Bool
  /-- `is_structural_text` -/
  isStructural : List Char → Except ReaderError Bool

/-- Those of the module. -/
def TextPredicates.ofSource (u : WordTable) : TextPredicates where
  isControlFlow := isControlFlowText u
  isFunctionEntry := isFunctionEntryText u
  isSimpleAutoGroup := isSimpleAutoGroupText u
  isStructural := isStructuralText

variable (p : TextPredicates) (reviewScope : ReviewScope) (analysisMap : AnalysisMap)

/-- The lines that join the block of a line. -/
def extendWith (item : RawLine) (startIsFn : Bool) (startReviewer : List Char) :
    List RawLine → Except ReaderError (List RawLine)
  | [] => .ok []
  | next :: rest =>
    if next.coverageState = .covered then .ok []
    else if isUncov reviewScope next then
      if effectiveReviewerForLine analysisMap next ≠ startReviewer then .ok []
      else if p.isControlFlow next.codeText || p.isFunctionEntry next.codeText then .ok []
      else if startIsFn && !p.isSimpleAutoGroup next.codeText then .ok []
      else if !startIsFn && (!p.isSimpleAutoGroup item.codeText ||
          !p.isSimpleAutoGroup next.codeText) then .ok []
      else do
        let more ← extendWith item startIsFn startReviewer rest
        return next :: more
    else if !startIsFn then .ok []
    else if p.isControlFlow next.codeText || p.isFunctionEntry next.codeText then .ok []
    else do
      let structural ← p.isStructural next.codeText
      if startIsFn && !structural then extendWith item startIsFn startReviewer rest
      else if !structural then return []
      else extendWith item startIsFn startReviewer rest

/-- The loop over all lines. -/
def groupBlocksWith : List RawLine → Blocks → Except ReaderError Blocks
  | [], blocks => .ok blocks
  | item :: rest, blocks =>
    if !isUncov reviewScope item ∨ item.lineNo ∈ blocks.counted then groupBlocksWith rest blocks
    else if p.isControlFlow item.codeText then
      groupBlocksWith rest (blocks.add [item] .controlFlow)
    else do
      let startIsFn := p.isFunctionEntry item.codeText
      let startReviewer := effectiveReviewerForLine analysisMap item
      let more ← extendWith p reviewScope analysisMap item startIsFn startReviewer rest
      let blockType := if startIsFn then .functionBody else .sequential
      groupBlocksWith rest (blocks.add (item :: more) blockType)

theorem extendWith_ofSource (u : WordTable) (item : RawLine) (startIsFn : Bool)
    (startReviewer : List Char) (rest : List RawLine) :
    extendWith (.ofSource u) reviewScope analysisMap item startIsFn startReviewer rest =
      extend u reviewScope analysisMap item startIsFn startReviewer rest := by
  induction rest with
  | nil => rfl
  | cons next rest ih =>
    rw [extendWith, extend, ih]
    rfl

/-- **The loop of the module is the one with its own questions.** -/
theorem groupBlocksWith_ofSource (u : WordTable) (items : List RawLine) (blocks : Blocks) :
    groupBlocksWith (.ofSource u) reviewScope analysisMap items blocks =
      groupBlocks u reviewScope analysisMap items blocks := by
  induction items generalizing blocks with
  | nil => rfl
  | cons item rest ih =>
    rw [groupBlocksWith, groupBlocks]
    simp only [ih, extendWith_ofSource]
    rfl

/-! ## Derivations -/

/-- A block: its entry, the lines that joined, and its type. -/
structure Block where
  /-- The first line. -/
  entry : RawLine
  /-- The lines behind it. -/
  more : List RawLine
  /-- The type. -/
  blockType : BlockType

namespace Block

/-- The members. -/
def lines (g : Block) : List RawLine := g.entry :: g.more

/-- The number of the first member. -/
def first (g : Block) : Int := g.entry.lineNo

/-- The number of the last member. -/
def last (g : Block) : Int := (g.lines.getLast (List.cons_ne_nil _ _)).lineNo

end Block

/-- The stretch of lines that a block with that entry goes through. -/
structure Passed (entry : RawLine) (passed : List RawLine) : Prop where
  /-- None of them is covered. -/
  notCovered : ∀ k ∈ passed, k.coverageState ≠ .covered
  /-- Those that are uncovered have the reviewer of the entry. -/
  reviewer : ∀ k ∈ passed, isUncov reviewScope k = true →
    effectiveReviewerForLine analysisMap k = effectiveReviewerForLine analysisMap entry
  /-- None of them is control flow. -/
  notControlFlow : ∀ k ∈ passed, isUncov reviewScope k = true → p.isControlFlow k.codeText = false

/-- **The blocks of some lines.** -/
inductive Grouped : List RawLine → List Block → Prop
  /-- No lines. -/
  | nil : Grouped [] []
  /-- A line that is not uncovered is in no block. -/
  | skip {item : RawLine} {rest : List RawLine} {groups : List Block}
      (huncov : isUncov reviewScope item = false) (hrest : Grouped rest groups) :
      Grouped (item :: rest) groups
  /-- A line of control flow is a block by itself. -/
  | control {item : RawLine} {rest : List RawLine} {groups : List Block}
      (huncov : isUncov reviewScope item = true) (hflow : p.isControlFlow item.codeText = true)
      (hrest : Grouped rest groups) :
      Grouped (item :: rest) (⟨item, [], .controlFlow⟩ :: groups)
  /-- Any other uncovered line takes the uncovered lines of a stretch behind it. -/
  | block {item : RawLine} {passed behind : List RawLine} {groups : List Block}
      {blockType : BlockType} (huncov : isUncov reviewScope item = true)
      (hflow : p.isControlFlow item.codeText = false)
      (hpassed : Passed p reviewScope analysisMap item passed) (hrest : Grouped behind groups) :
      Grouped (item :: (passed ++ behind))
        (⟨item, passed.filter (isUncov reviewScope), blockType⟩ :: groups)

/-- Enter all blocks. -/
def enter (groups : List Block) (blocks : Blocks) : Blocks :=
  groups.foldl (fun blocks g => blocks.add g.lines g.blockType) blocks

variable {p reviewScope analysisMap}

theorem Passed.nil (entry : RawLine) : Passed p reviewScope analysisMap entry [] :=
  ⟨fun _ hk => (nomatch hk), fun _ hk => (nomatch hk), fun _ hk => (nomatch hk)⟩

/-- **The lines that join are the uncovered ones of a stretch.** -/
theorem extendWith_passed {item : RawLine} {startIsFn : Bool} {rest more : List RawLine}
    (h : extendWith p reviewScope analysisMap item startIsFn
      (effectiveReviewerForLine analysisMap item) rest = .ok more) :
    ∃ passed behind, rest = passed ++ behind ∧ more = passed.filter (isUncov reviewScope) ∧
      Passed p reviewScope analysisMap item passed := by
  have hstop : ∀ {rest more : List RawLine}, (.ok [] : Except ReaderError _) = .ok more →
      ∃ passed behind, rest = passed ++ behind ∧ more = passed.filter (isUncov reviewScope) ∧
        Passed p reviewScope analysisMap item passed := by
    intro rest more h
    obtain rfl := Except.ok.inj h
    exact ⟨[], rest, rfl, rfl, Passed.nil item⟩
  induction rest generalizing more with
  | nil => exact hstop h
  | cons next rest ih =>
    -- a line that neither joins nor ends the block is passed
    have hpass : next.coverageState ≠ .covered → isUncov reviewScope next = false →
        extendWith p reviewScope analysisMap item startIsFn
          (effectiveReviewerForLine analysisMap item) rest = .ok more →
        ∃ passed behind, next :: rest = passed ++ behind ∧
          more = passed.filter (isUncov reviewScope) ∧
          Passed p reviewScope analysisMap item passed := by
      intro hcov hun h
      obtain ⟨passed, behind, rfl, rfl, hp⟩ := ih h
      refine ⟨next :: passed, behind, rfl, ?_, List.forall_mem_cons.2 ⟨hcov, hp.notCovered⟩,
        List.forall_mem_cons.2 ⟨fun h => ?_, hp.reviewer⟩,
        List.forall_mem_cons.2 ⟨fun h => ?_, hp.notControlFlow⟩⟩
      · rw [List.filter_cons_of_neg (by simp [hun])]
      · exact absurd (hun.symm.trans h) (by decide)
      · exact absurd (hun.symm.trans h) (by decide)
    rw [extendWith] at h
    split at h
    · exact hstop h
    next hcov =>
    split at h
    · next hun =>
      split at h
      · exact hstop h
      next hreviewer =>
      split at h
      · exact hstop h
      next hentry =>
      split at h
      · exact hstop h
      split at h
      · exact hstop h
      simp only [bind_eq_ok, pure_eq_ok] at h
      obtain ⟨more', hmore, rfl⟩ := h
      obtain ⟨passed, behind, rfl, rfl, hp⟩ := ih hmore
      simp only [Bool.or_eq_true, not_or, Bool.not_eq_true] at hentry
      rw [not_not] at hreviewer
      refine ⟨next :: passed, behind, rfl, ?_, List.forall_mem_cons.2 ⟨hcov, hp.notCovered⟩,
        List.forall_mem_cons.2 ⟨fun _ => hreviewer, hp.reviewer⟩,
        List.forall_mem_cons.2 ⟨fun _ => hentry.1, hp.notControlFlow⟩⟩
      rw [List.filter_cons_of_pos hun]
    · next hun =>
      rw [Bool.not_eq_true] at hun
      split at h
      · exact hstop h
      split at h
      · exact hstop h
      rw [bind_eq_ok] at h
      obtain ⟨structural, -, h⟩ := h
      split at h
      · exact hpass hcov hun h
      · split at h
        · exact hstop h
        · exact hpass hcov hun h

/-- The numbers of the lines grow. -/
def Ascending (items : List RawLine) : Prop := items.Pairwise fun a b => a.lineNo < b.lineNo

/-- Lines that are counted are passed over. -/
theorem groupBlocksWith_counted {passed behind : List RawLine} {blocks : Blocks}
    (h : ∀ k ∈ passed, isUncov reviewScope k = true → k.lineNo ∈ blocks.counted) :
    groupBlocksWith p reviewScope analysisMap (passed ++ behind) blocks =
      groupBlocksWith p reviewScope analysisMap behind blocks := by
  induction passed with
  | nil => rfl
  | cons k passed ih =>
    rw [List.forall_mem_cons] at h
    have hskip : (!isUncov reviewScope k) = true ∨ k.lineNo ∈ blocks.counted := by
      cases hun : isUncov reviewScope k with
      | false => exact .inl rfl
      | true => exact .inr (h.1 hun)
    rw [List.cons_append, groupBlocksWith, if_pos hskip, ih h.2]

/-- **Whenever the loop returns, it has derived the blocks that it entered.** -/
theorem groupBlocksWith_grouped {items : List RawLine} {blocks blocks' : Blocks}
    (h : groupBlocksWith p reviewScope analysisMap items blocks = .ok blocks')
    (hasc : Ascending items)
    (hnew : ∀ k ∈ items, isUncov reviewScope k = true → k.lineNo ∉ blocks.counted) :
    ∃ groups, Grouped p reviewScope analysisMap items groups ∧ blocks' = enter groups blocks := by
  -- the stretch of a block is left out at once, so the induction is on the length
  induction hlength : items.length using Nat.strong_induction_on generalizing items blocks with
  | _ n ih =>
    subst hlength
    cases items with
    | nil => exact ⟨[], .nil, (Except.ok.inj h).symm⟩
    | cons item rest =>
      obtain ⟨hlater, hrest⟩ := List.pairwise_cons.1 hasc
      rw [List.forall_mem_cons] at hnew
      rw [groupBlocksWith] at h
      cases hun : isUncov reviewScope item with
      | false =>
        rw [if_pos (.inl (by rw [hun]; rfl))] at h
        obtain ⟨groups, hgroups, rfl⟩ :=
          ih rest.length (Nat.lt_succ_self _) h hrest hnew.2 rfl
        exact ⟨groups, .skip hun hgroups, rfl⟩
      | true =>
        rw [if_neg (by
          rintro (hnot | hcounted)
          · rw [hun] at hnot
            cases hnot
          · exact hnew.1 hun hcounted)] at h
        -- a number behind the block is not counted
        have hbehind : ∀ {members : List RawLine} {k : RawLine} {blockType : BlockType},
            k ∈ rest → isUncov reviewScope k = true → (∀ l ∈ members, l.lineNo < k.lineNo) →
            k.lineNo ∉ (blocks.add members blockType).counted := by
          intro members k blockType hk hunk hless hin
          rw [Blocks.counted_add, List.mem_append] at hin
          rcases hin with hin | hin
          · exact hnew.2 k hk hunk hin
          · obtain ⟨l, hl, heq⟩ := List.mem_map.1 hin
            have := hless l hl
            omega
        split at h
        · next hflow =>
          obtain ⟨groups, hgroups, rfl⟩ := ih rest.length (Nat.lt_succ_self _) h hrest
            (fun k hk hunk => hbehind hk hunk fun l hl => by
              rw [List.mem_singleton.1 hl]
              exact hlater k hk) rfl
          exact ⟨_, .control hun hflow hgroups, rfl⟩
        · next hflow =>
          rw [Bool.not_eq_true] at hflow
          rw [bind_eq_ok] at h
          obtain ⟨more, hmore, h⟩ := h
          obtain ⟨passed, behind, rfl, rfl, hpassed⟩ := extendWith_passed hmore
          obtain ⟨-, hascBehind, hapart⟩ := List.pairwise_append.1 hrest
          rw [groupBlocksWith_counted (by
            intro k hk hunk
            rw [Blocks.counted_add]
            refine List.mem_append_right _ (List.mem_map_of_mem (List.mem_cons_of_mem _ ?_))
            exact List.mem_filter.2 ⟨hk, hunk⟩)] at h
          obtain ⟨groups, hgroups, rfl⟩ := ih behind.length
            (by simp only [List.length_cons, List.length_append]; omega) h hascBehind
            (fun k hk hunk => hbehind (List.mem_append_right _ hk) hunk
              (List.forall_mem_cons.2 ⟨hlater k (List.mem_append_right _ hk),
                fun l hl => hapart l (List.mem_filter.1 hl).1 k hk⟩)) rfl
          exact ⟨_, .block hun hflow hpassed hgroups, rfl⟩

/-! ## What a derivation says -/

variable (p reviewScope analysisMap) in
/-- **The blocks partition the uncovered lines.** -/
structure Partitions (items : List RawLine) (groups : List Block) : Prop where
  /-- The members are the uncovered lines, in order. -/
  members : groups.flatMap Block.lines = items.filter (isUncov reviewScope)
  /-- Each block ends before the next. -/
  apart : groups.Pairwise fun g h => g.last < h.first
  /-- Between the first and the last line of a block no line is covered, and what is uncovered is a
  member. -/
  inside : ∀ g ∈ groups, ∀ k ∈ items, g.first ≤ k.lineNo → k.lineNo ≤ g.last →
    k.coverageState ≠ .covered ∧ (isUncov reviewScope k = true → k ∈ g.lines)
  /-- The members have one reviewer. -/
  reviewer : ∀ g ∈ groups, ∀ k ∈ g.lines,
    effectiveReviewerForLine analysisMap k = effectiveReviewerForLine analysisMap g.entry
  /-- A line of control flow is a block by itself. -/
  controlFlow : ∀ g ∈ groups, ∀ k ∈ g.lines, p.isControlFlow k.codeText = true → g.lines = [k]

theorem Block.exists_last (g : Block) : ∃ k ∈ g.lines, k.lineNo = g.last :=
  ⟨_, List.getLast_mem _, rfl⟩

namespace Grouped

variable {items : List RawLine} {groups : List Block}

theorem members (h : Grouped p reviewScope analysisMap items groups) :
    groups.flatMap Block.lines = items.filter (isUncov reviewScope) := by
  induction h with
  | nil => rfl
  | skip huncov _ ih => rw [ih, List.filter_cons_of_neg (by simp [huncov])]
  | control huncov _ _ ih => rw [List.flatMap_cons, ih, List.filter_cons_of_pos huncov]; rfl
  | block huncov _ _ _ ih =>
    rw [List.flatMap_cons, ih, List.filter_cons_of_pos huncov, List.filter_append]
    rfl

/-- The members of the blocks are lines. -/
theorem mem_items (h : Grouped p reviewScope analysisMap items groups) {g : Block}
    (hg : g ∈ groups) {k : RawLine} (hk : k ∈ g.lines) : k ∈ items := by
  have hmem : k ∈ groups.flatMap Block.lines := List.mem_flatMap.2 ⟨g, hg, hk⟩
  rw [h.members] at hmem
  exact List.mem_of_mem_filter hmem

/-- A block is of lines behind what stands in front of them. -/
theorem lt_first {front : List RawLine} (h : Grouped p reviewScope analysisMap items groups)
    (hasc : Ascending (front ++ items)) {g : Block} (hg : g ∈ groups) {k : RawLine}
    (hk : k ∈ front) : k.lineNo < g.first :=
  (List.pairwise_append.1 hasc).2.2 k hk g.entry (h.mem_items hg List.mem_cons_self)

theorem apart (h : Grouped p reviewScope analysisMap items groups) (hasc : Ascending items) :
    groups.Pairwise fun g h => g.last < h.first := by
  induction h with
  | nil => exact .nil
  | skip _ _ ih => exact ih (List.pairwise_cons.1 hasc).2
  | @control item rest groups _ _ hrest ih =>
    have hasc' : Ascending ([item] ++ rest) := hasc
    refine List.pairwise_cons.2 ⟨fun g hg => ?_, ih (List.pairwise_cons.1 hasc).2⟩
    exact hrest.lt_first hasc' hg (List.mem_singleton_self _)
  | @block item passed behind groups blockType _ _ _ hrest ih =>
    have hasc' : Ascending ((item :: passed) ++ behind) := hasc
    refine List.pairwise_cons.2 ⟨fun g hg => ?_, ih (List.pairwise_append.1 hasc').2.1⟩
    obtain ⟨k, hk, hlast⟩ :=
      Block.exists_last ⟨item, passed.filter (isUncov reviewScope), blockType⟩
    rw [← hlast]
    refine hrest.lt_first hasc' hg ?_
    rcases List.mem_cons.1 hk with rfl | hk
    · exact List.mem_cons_self
    · exact List.mem_cons_of_mem _ (List.mem_of_mem_filter hk)

theorem inside (h : Grouped p reviewScope analysisMap items groups) (hasc : Ascending items) :
    ∀ g ∈ groups, ∀ k ∈ items, g.first ≤ k.lineNo → k.lineNo ≤ g.last →
      k.coverageState ≠ .covered ∧ (isUncov reviewScope k = true → k ∈ g.lines) := by
  -- the blocks of the lines behind a front have no line of the front between their ends
  have hlater : ∀ {front rest : List RawLine} {groups : List Block},
      Grouped p reviewScope analysisMap rest groups → Ascending (front ++ rest) →
      (Ascending rest → ∀ g ∈ groups, ∀ k ∈ rest, g.first ≤ k.lineNo → k.lineNo ≤ g.last →
        k.coverageState ≠ .covered ∧ (isUncov reviewScope k = true → k ∈ g.lines)) →
      ∀ g ∈ groups, ∀ k ∈ front ++ rest, g.first ≤ k.lineNo → k.lineNo ≤ g.last →
        k.coverageState ≠ .covered ∧ (isUncov reviewScope k = true → k ∈ g.lines) := by
    intro front rest groups hrest hasc ih g hg k hk hfirst hlast
    rcases List.mem_append.1 hk with hk | hk
    · have := hrest.lt_first hasc hg hk
      omega
    · exact ih (List.pairwise_append.1 hasc).2.1 g hg k hk hfirst hlast
  induction h with
  | nil => exact fun g hg => (nomatch hg)
  | @skip item rest groups _ hrest ih =>
    have hasc' : Ascending ([item] ++ rest) := hasc
    exact hlater hrest hasc' ih
  | @control item rest groups huncov _ hrest ih =>
    have hasc' : Ascending ([item] ++ rest) := hasc
    refine List.forall_mem_cons.2 ⟨fun k hk hfirst hlast => ?_, hlater hrest hasc' ih⟩
    rcases List.mem_cons.1 hk with rfl | hk
    · exact ⟨isUncov_not_covered huncov, fun _ => List.mem_cons_self⟩
    · have hlt : item.lineNo < k.lineNo := (List.pairwise_cons.1 hasc).1 k hk
      have hle : k.lineNo ≤ item.lineNo := hlast
      omega
  | @block item passed behind groups blockType huncov _ hpassed hrest ih =>
    have hasc' : Ascending ((item :: passed) ++ behind) := hasc
    refine List.forall_mem_cons.2 ⟨fun k hk hfirst hlast => ?_, hlater hrest hasc' ih⟩
    rcases List.mem_cons.1 hk with rfl | hk
    · exact ⟨isUncov_not_covered huncov, fun _ => List.mem_cons_self⟩
    · rcases List.mem_append.1 hk with hk | hk
      · exact ⟨hpassed.notCovered k hk, fun hun =>
          List.mem_cons_of_mem _ (List.mem_filter.2 ⟨hk, hun⟩)⟩
      · -- the last member stands in front of the line
        obtain ⟨l, hl, hlastl⟩ :=
          Block.exists_last ⟨item, passed.filter (isUncov reviewScope), blockType⟩
        have hin : l ∈ item :: passed := by
          rcases List.mem_cons.1 hl with rfl | hl
          · exact List.mem_cons_self
          · exact List.mem_cons_of_mem _ (List.mem_of_mem_filter hl)
        have := (List.pairwise_append.1 hasc').2.2 l hin k hk
        omega

theorem reviewer (h : Grouped p reviewScope analysisMap items groups) :
    ∀ g ∈ groups, ∀ k ∈ g.lines,
      effectiveReviewerForLine analysisMap k = effectiveReviewerForLine analysisMap g.entry := by
  induction h with
  | nil => exact fun g hg => (nomatch hg)
  | skip _ _ ih => exact ih
  | control _ _ _ ih =>
    exact List.forall_mem_cons.2 ⟨List.forall_mem_singleton.2 rfl, ih⟩
  | block _ _ hpassed _ ih =>
    refine List.forall_mem_cons.2 ⟨List.forall_mem_cons.2 ⟨rfl, fun k hk => ?_⟩, ih⟩
    rw [List.mem_filter] at hk
    exact hpassed.reviewer k hk.1 hk.2

theorem controlFlow (h : Grouped p reviewScope analysisMap items groups) :
    ∀ g ∈ groups, ∀ k ∈ g.lines, p.isControlFlow k.codeText = true → g.lines = [k] := by
  induction h with
  | nil => exact fun g hg => (nomatch hg)
  | skip _ _ ih => exact ih
  | control _ _ _ ih =>
    exact List.forall_mem_cons.2 ⟨List.forall_mem_singleton.2 fun _ => rfl, ih⟩
  | block _ hflow hpassed _ ih =>
    refine List.forall_mem_cons.2 ⟨List.forall_mem_cons.2 ⟨fun h => ?_, fun k hk h => ?_⟩, ih⟩
    · exact absurd (hflow.symm.trans h) (by decide)
    · rw [List.mem_filter] at hk
      exact absurd ((hpassed.notControlFlow k hk.1 hk.2).symm.trans h) (by decide)

/-- **A derivation is a partition.** -/
theorem partition (h : Grouped p reviewScope analysisMap items groups) (hasc : Ascending items) :
    Partitions p reviewScope analysisMap items groups :=
  ⟨h.members, h.apart hasc, h.inside hasc, h.reviewer, h.controlFlow⟩

end Grouped

/-! ## What is entered -/

section Entered

variable {blocks : Blocks} {n : Int}

/-- What `block_map` says of a member. -/
def Block.info (g : Block) (n : Int) : BlockInfo := ⟨g.first, g.last, g.blockType, n = g.first⟩

/-- The lines of a block are entered with its first and last line. -/
theorem get?_add_of_mem {g : Block} (hasc : Ascending g.lines) {k : RawLine} (hk : k ∈ g.lines) :
    (blocks.add g.lines g.blockType).blockMap.get? k.lineNo = some (g.info k.lineNo) := by
  have hlast : (g.lines.getLast?.map RawLine.lineNo).getD 0 = g.last := by
    have hne : g.lines ≠ [] := List.cons_ne_nil _ _
    rw [List.getLast?_eq_getLast_of_ne_nil hne]
    rfl
  have hnodup : (g.lines.map RawLine.lineNo).Nodup :=
    (List.pairwise_map.2 hasc).imp fun hlt heq => by omega
  have hrows : (blocks.add g.lines g.blockType).blockMap =
      (g.lines.zipIdx.map fun line => (line.1.lineNo,
        (⟨g.first, g.last, g.blockType, line.2 = 0⟩ : BlockInfo))).foldl
          (fun t r => t.put r.1 r.2) blocks.blockMap := by
    rw [List.foldl_map, Blocks.add, hlast]
    rfl
  obtain ⟨i, hi⟩ : ∃ i, (k, i) ∈ g.lines.zipIdx := by
    obtain ⟨i, hi, rfl⟩ := List.getElem_of_mem hk
    exact ⟨i, List.mem_zipIdx_iff_getElem?.2 (List.getElem?_eq_getElem hi)⟩
  have hget := Keyed.get?_puts_of_mem blocks.blockMap
    (r := (k.lineNo, (⟨g.first, g.last, g.blockType, i = 0⟩ : BlockInfo)))
    (by
      rw [List.map_map]
      have hfst : (Prod.fst ∘ fun line : RawLine × Nat => (line.1.lineNo,
          (⟨g.first, g.last, g.blockType, line.2 = 0⟩ : BlockInfo))) =
          RawLine.lineNo ∘ Prod.fst := rfl
      rw [hfst, ← List.map_map, List.zipIdx_map_fst]
      exact hnodup)
    (List.mem_map.2 ⟨(k, i), hi, rfl⟩)
  rw [← hrows] at hget
  rw [hget, Block.info]
  -- only the first line has the number of the first line
  have hzero : i = 0 ↔ k.lineNo = g.first := by
    rw [List.mem_zipIdx_iff_getElem?] at hi
    constructor
    · rintro rfl
      rw [Block.lines, List.getElem?_cons_zero] at hi
      exact congrArg RawLine.lineNo (Option.some.inj hi).symm
    · intro hfirst
      by_contra hne
      obtain ⟨j, rfl⟩ := Nat.exists_eq_succ_of_ne_zero hne
      rw [Block.lines, List.getElem?_cons_succ] at hi
      have hlt : g.first < k.lineNo :=
        (List.pairwise_cons.1 hasc).1 k (List.mem_of_getElem? hi)
      omega
  simp only [hzero]

/-- Other lines keep what they have. -/
theorem get?_add_of_notMem {g : Block} (hn : n ∉ g.lines.map RawLine.lineNo) :
    (blocks.add g.lines g.blockType).blockMap.get? n = blocks.blockMap.get? n := by
  have hrows : ∀ (lines : List (RawLine × Nat)) (startLine endLine : Int) (m : Keyed Int BlockInfo),
      (∀ line ∈ lines, line.1.lineNo ≠ n) →
      (lines.foldl (fun m line => m.put line.1.lineNo
        ⟨startLine, endLine, g.blockType, line.2 = 0⟩) m).get? n = m.get? n := by
    intro lines startLine endLine m hne
    induction lines generalizing m with
    | nil => rfl
    | cons line lines ih =>
      rw [List.forall_mem_cons] at hne
      rw [List.foldl_cons, ih _ hne.2, Keyed.get?_put, if_neg (Ne.symm hne.1)]
  refine hrows _ _ _ _ fun line hline heq => hn ?_
  rw [← heq]
  exact List.mem_map_of_mem (List.fst_mem_of_mem_zipIdx hline)

theorem get?_enter_of_notMem {groups : List Block}
    (hn : n ∉ (groups.flatMap Block.lines).map RawLine.lineNo) :
    (enter groups blocks).blockMap.get? n = blocks.blockMap.get? n := by
  induction groups generalizing blocks with
  | nil => rfl
  | cons g groups ih =>
    rw [List.flatMap_cons, List.map_append, List.mem_append, not_or] at hn
    exact (ih hn.2).trans (get?_add_of_notMem hn.1)

/-- **The block map knows the block of each member.** -/
theorem get?_enter {groups : List Block} (hasc : Ascending (groups.flatMap Block.lines)) {g : Block}
    (hg : g ∈ groups) {k : RawLine} (hk : k ∈ g.lines) :
    (enter groups blocks).blockMap.get? k.lineNo = some (g.info k.lineNo) := by
  induction groups generalizing blocks with
  | nil => cases hg
  | cons g' groups ih =>
    rw [List.flatMap_cons] at hasc
    obtain ⟨hfirst, hrest, hapart⟩ := List.pairwise_append.1 hasc
    rcases List.mem_cons.1 hg with rfl | hg
    · have hnot : k.lineNo ∉ (groups.flatMap Block.lines).map RawLine.lineNo := by
        intro hin
        obtain ⟨l, hl, heq⟩ := List.mem_map.1 hin
        have := hapart k hk l hl
        omega
      exact (get?_enter_of_notMem hnot).trans (get?_add_of_mem hfirst hk)
    · exact ih hrest hg

end Entered

/-! ## The records -/

section Records

variable {items : List RawLine} {blocks : Blocks} {groups : List Block}

theorem scopedState_eq_uncovered_iff {item : RawLine} :
    scopedState reviewScope item = .uncovered ↔ isUncov reviewScope item = true := by
  rw [scopedState, isUncov, decide_eq_true_iff]
  split
  · next h => exact iff_of_false (by decide) fun h' => h'.2 ⟨h.1, h.2.1⟩
  · next h => exact ⟨fun h' => ⟨h', fun hscope => h ⟨hscope.1, hscope.2, h'⟩⟩, And.left⟩

/-- The record is of a member of the block. -/
structure RecordIn (g : Block) (d : SourceLineDTO) : Prop where
  /-- It is a member's. -/
  member : ∃ k ∈ g.lines, d.lineNo = k.lineNo
  /-- `block_start_line` -/
  startLine : d.blockStartLine = g.first
  /-- `block_end_line` -/
  endLine : d.blockEndLine = g.last
  /-- `block_type` -/
  blockType : d.blockType = g.blockType
  /-- The entry is the first line. -/
  isEntry : d.isBlockEntry = decide (d.lineNo = g.first)

/-- The record is of a line in no block. -/
structure RecordAlone (d : SourceLineDTO) : Prop where
  /-- It is not uncovered. -/
  state : d.coverageState ≠ .uncovered
  /-- `block_start_line` -/
  startLine : d.blockStartLine = d.lineNo
  /-- `block_end_line` -/
  endLine : d.blockEndLine = d.lineNo
  /-- `block_type` -/
  blockType : d.blockType = .single
  /-- It is no entry. -/
  isEntry : d.isBlockEntry = false

/-- No line of one block has the number of a line of the other. -/
def Strangers (g g' : Block) : Prop := ∀ k ∈ g.lines, ∀ l ∈ g'.lines, k.lineNo ≠ l.lineNo

instance : Std.Symm Strangers where
  symm _ _ h k hk l hl := (h l hl k hk).symm

/-- A line is known by its number. -/
theorem Ascending.eq_of_lineNo (h : Ascending items) {k l : RawLine} (hk : k ∈ items)
    (hl : l ∈ items) (heq : k.lineNo = l.lineNo) : k = l :=
  List.inj_on_of_nodup_map ((List.pairwise_map.2 h).imp fun hlt heq => by omega) hk hl heq

/-- Every uncovered line is in one block only. -/
theorem Partitions.existsUnique (h : Partitions p reviewScope analysisMap items groups)
    (hasc : Ascending items) {item : RawLine} (hitem : item ∈ items)
    (hun : isUncov reviewScope item = true) : ∃! g, g ∈ groups ∧ item ∈ g.lines := by
  have hmem : item ∈ groups.flatMap Block.lines := by
    rw [h.members]
    exact List.mem_filter.2 ⟨hitem, hun⟩
  obtain ⟨g, hg, hk⟩ := List.mem_flatMap.1 hmem
  have hlines : Ascending (groups.flatMap Block.lines) := by
    rw [h.members]
    exact List.Pairwise.sublist List.filter_sublist hasc
  refine ⟨g, ⟨hg, hk⟩, fun g' ⟨hg', hk'⟩ => ?_⟩
  by_contra hne
  -- two blocks have no line in common
  have hapart : groups.Pairwise Strangers :=
    (List.pairwise_flatMap.1 hlines).2.imp fun hlt k hk l hl => by
      have := hlt k hk l hl
      omega
  exact hapart.forall hg hg' (Ne.symm hne) item hk item hk' rfl

/-- **The records say which block a line is in**: one record for each line in order, those of members
with their block, the others alone. -/
theorem records_of_partition (h : Partitions p reviewScope analysisMap items groups)
    (hasc : Ascending items) (projectName filePath reportId : String)
    (functionRanges : List CodeDetail.FunctionRange) {d : SourceLineDTO}
    (hd : d ∈ (buildContext reviewScope analysisMap projectName filePath reportId functionRanges
      items (enter groups .empty)).lines) :
    (∃ g ∈ groups, RecordIn g d) ∨ RecordAlone d := by
  have hlines : Ascending (groups.flatMap Block.lines) := by
    rw [h.members]
    exact List.Pairwise.sublist List.filter_sublist hasc
  obtain ⟨⟨item, name⟩, hin, rfl⟩ := List.mem_map.1 hd
  have hitem : item ∈ items := (List.of_mem_zip hin).1
  cases hun : isUncov reviewScope item with
  | true =>
    have hmem : item ∈ groups.flatMap Block.lines := by
      rw [h.members]
      exact List.mem_filter.2 ⟨hitem, hun⟩
    obtain ⟨g, hg, hk⟩ := List.mem_flatMap.1 hmem
    have hget : (enter groups .empty).blockMap.get? item.lineNo = some (g.info item.lineNo) :=
      get?_enter hlines hg hk
    refine .inl ⟨g, hg, ⟨item, hk, rfl⟩, ?_, ?_, ?_, ?_⟩ <;>
      · simp only [buildLine, hget, Option.getD_some]
        rfl
  | false =>
    have hnot : item.lineNo ∉ (groups.flatMap Block.lines).map RawLine.lineNo := by
      rw [h.members]
      intro hin
      obtain ⟨l, hl, heq⟩ := List.mem_map.1 hin
      rw [List.mem_filter] at hl
      obtain rfl := hasc.eq_of_lineNo hl.1 hitem heq
      exact absurd (hun.symm.trans hl.2) (by decide)
    have hget : (enter groups .empty).blockMap.get? item.lineNo = none :=
      get?_enter_of_notMem hnot
    have hstate : scopedState reviewScope item ≠ .uncovered := by
      rw [Ne, scopedState_eq_uncovered_iff, hun]
      decide
    refine .inr ⟨hstate, ?_, ?_, ?_, ?_⟩ <;>
      simp [buildLine, hget, hstate]

/-- **Whenever the grouping returns, its blocks partition the uncovered lines of the scope**, whatever
the questions about a text are: every such line is in exactly one block, and the records say in
which. -/
theorem uncovered_lines_partitioned (hasc : Ascending items)
    (hok : groupBlocksWith p reviewScope analysisMap items .empty = .ok blocks) :
    ∃ groups : List Block, Partitions p reviewScope analysisMap items groups ∧
      (∀ item ∈ items, isUncov reviewScope item = true → ∃! g, g ∈ groups ∧ item ∈ g.lines) ∧
      ∀ projectName filePath reportId functionRanges,
        let lines := (buildContext reviewScope analysisMap projectName filePath reportId
          functionRanges items blocks).lines
        lines.map SourceLineDTO.lineNo = items.map RawLine.lineNo ∧
          ∀ d ∈ lines, (∃ g ∈ groups, RecordIn g d) ∨ RecordAlone d := by
  obtain ⟨groups, hgroups, rfl⟩ := groupBlocksWith_grouped hok hasc
    fun k _ _ => List.not_mem_nil
  have hpartition := hgroups.partition hasc
  refine ⟨groups, hpartition, fun item hitem hun => hpartition.existsUnique hasc hitem hun, ?_⟩
  intro projectName filePath reportId functionRanges
  exact ⟨buildContext_lines, fun d hd =>
    records_of_partition hpartition hasc projectName filePath reportId functionRanges hd⟩

/-- Two assignments, a covered line, and a branch that is never taken. -/
theorem uncovered_lines_partitioned_sample :
    ∃ blocks, groupBlocks .asciiOnly .full Keyed.empty
        [⟨1, "a = 1;".toList, [], .uncovered, false, []⟩,
          ⟨2, "b = 2;".toList, [], .uncovered, false, []⟩, ⟨3, "f();".toList, [], .covered, false, []⟩,
          ⟨4, "if (a)".toList, [], .uncovered, false, []⟩] .empty = .ok blocks ∧
      ∃ groups : List Block, Partitions (.ofSource .asciiOnly) .full Keyed.empty
        [⟨1, "a = 1;".toList, [], .uncovered, false, []⟩,
          ⟨2, "b = 2;".toList, [], .uncovered, false, []⟩, ⟨3, "f();".toList, [], .covered, false, []⟩,
          ⟨4, "if (a)".toList, [], .uncovered, false, []⟩] groups := by
  obtain ⟨blocks, hok⟩ := exists_of_isOk (x := groupBlocks .asciiOnly .full Keyed.empty
    [⟨1, "a = 1;".toList, [], .uncovered, false, []⟩,
      ⟨2, "b = 2;".toList, [], .uncovered, false, []⟩, ⟨3, "f();".toList, [], .covered, false, []⟩,
      ⟨4, "if (a)".toList, [], .uncovered, false, []⟩] .empty) (by decide +kernel)
  obtain ⟨groups, hgroups, -⟩ := uncovered_lines_partitioned
    (by unfold Ascending; decide +kernel)
    ((groupBlocksWith_ofSource .full Keyed.empty .asciiOnly _ .empty).trans hok)
  exact ⟨blocks, hok, groups, hgroups⟩

end Records

end FosCoverage.SourceReader
