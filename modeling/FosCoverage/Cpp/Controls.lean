import FosCoverage.Lib.Nesting
import FosCoverage.Cpp.Dependencies

/-!
# Control contexts

Which control headers does a line show?  Those of its own line, and those of the blocks around it.
But a header counts as that of a block only when it stands on the line of the block's opening brace:
what is pending is forgotten at the end of every line.  So

* the header of a block whose brace is on the next line is not shown by the lines of the block, and
  neither is a header that goes over several lines;
* an `else` is shown as such, without the condition of its `if`;
* a `case` label is shown by its own line, and otherwise only inside a block that is opened on that
  line.

`shown` says this in terms of the braces that are open at a line, and `controls_eq_shown` is that the
scan of `_control_context` computes it.

A line is one together with those it is spliced to.  How far a header goes on its line is read with
`_control_descriptor`; for files of well formed statements that is the syntax of the statements
(`FosCoverage.Cpp.Statements`).
-/

set_option autoImplicit false

namespace FosCoverage

open Text CppLexer CppSourceAnalyzer

/-! ## Headers and braces -/

/-- What the scan looks at. -/
inductive ControlItem
  /-- A control header, as text. -/
  | header (text : String)
  /-- An opening brace. -/
  | opening
  /-- A closing brace. -/
  | closing
  deriving DecidableEq, Repr

/-- What an item does to the nesting. -/
def ControlItem.mark : ControlItem → Nesting.Mark
  | .header _ => .plain
  | .opening => .opens
  | .closing => .closes

/-- The text of a header. -/
def ControlItem.text : ControlItem → Option String
  | .header text => some text
  | _ => none

/-- The headers and braces of a line, behind the token `previous`. -/
def itemsWithin : Nat → Option String → List String → List ControlItem
  | 0, _, _ => []
  | _ + 1, _, [] => []
  | fuel + 1, previous, t :: ts =>
    if t ∈ controlWords ∧ controlStart previous then
      .header (join (controlHeader t ts).1) ::
        itemsWithin fuel (controlHeader t ts).1.getLast? (controlHeader t ts).2
    else (if t = "\x7b" then [.opening] else if t = "\x7d" then [.closing] else []) ++
      itemsWithin fuel (some t) ts

/-- The headers and braces of a line. -/
def lineItems (tokens : List String) : List ControlItem := itemsWithin tokens.length none tokens

/-- The headers behind the last brace that was opened on line `k`, if the list ends on that line. -/
def headersOnLine (before : List (Nat × ControlItem)) (k : Nat) : List String :=
  (before.reverse.takeWhile fun x => x.1 = k ∧ x.2 ≠ .opening).reverse.filterMap
    fun x => x.2.text

/-- The headers of the blocks that are open behind the items, outermost first. -/
def openHeaders (before : List (Nat × ControlItem)) : List (List String) :=
  Nesting.unclosed (fun x => x.2.mark) (fun before x => headersOnLine before x.1) before

/-- The second list without what is in the first one, behind the first. -/
def addNew (l : List String) (texts : List String) : List String :=
  texts.foldl (fun l text => if text ∈ l then l else l ++ [text]) l

/-- The headers shown by the physical line `n` among logical lines, given by their physical lines and
their items, that stand behind other items. -/
def shownFrom (before : List (Nat × ControlItem)) (k n : Nat) :
    List (List Nat × List ControlItem) → List String
  | [] => []
  | g :: gs =>
    if n ∈ g.1 then addNew (openHeaders before).flatten (g.2.filterMap ControlItem.text)
    else shownFrom (before ++ g.2.map (k, ·)) (k + 1) n gs

/-- The headers shown by a line of a file: those of the blocks that are open where it starts, as far
as they stand on the line of the brace, and those of the line itself. -/
def shown (file : String × List Char) (n : Nat) : List String :=
  if supported file.1 then
    shownFrom [] 0 n ((logicalGroups file.2).map fun g => (g.lines, lineItems g.tokens))
  else []

/-! ## The scan -/

section Scan

/-- One item. -/
def itemStep (st : GroupState) : ControlItem → GroupState
  | .header text => st.header text
  | .opening => st.token "\x7b"
  | .closing => st.token "\x7d"

/-- The scan of a line is one over its headers and braces. -/
theorem controlTokens_eq_foldl (fuel : Nat) (previous : Option String) (tokens : List String)
    (st : GroupState) :
    controlTokens fuel previous tokens st = (itemsWithin fuel previous tokens).foldl itemStep st := by
  induction fuel generalizing previous tokens st with
  | zero => rfl
  | succ fuel ih =>
    cases tokens with
    | nil => rfl
    | cons t ts =>
      rw [controlTokens, itemsWithin]
      split
      · exact ih _ _ _
      · rw [List.foldl_append, ← ih]
        congr 1
        by_cases hopen : t = "\x7b"
        · subst hopen
          rfl
        · by_cases hclose : t = "\x7d"
          · subst hclose
            rfl
          · rw [if_neg hopen, if_neg hclose]
            unfold GroupState.token
            rw [if_neg hopen, if_neg hclose]
            rfl

/-- The headers of the blocks of a stack, each with the depth of its block. -/
def depths : Nat → List (List String) → List (Nat × String)
  | _, [] => []
  | n, hs :: stack => hs.map (n + 1, ·) ++ depths (n + 1) stack

theorem depths_concat (n : Nat) (stack : List (List String)) (hs : List String) :
    depths n (stack ++ [hs]) = depths n stack ++ hs.map (n + stack.length + 1, ·) := by
  induction stack generalizing n with
  | nil => simp [depths]
  | cons x stack ih =>
    have hdepth : n + 1 + stack.length + 1 = n + (stack.length + 1) + 1 := by omega
    rw [List.cons_append, depths, ih, depths, List.append_assoc, List.length_cons, hdepth]

theorem depths_bounds {n : Nat} {stack : List (List String)} {b : Nat × String}
    (h : b ∈ depths n stack) : n < b.1 ∧ b.1 ≤ n + stack.length := by
  induction stack generalizing n with
  | nil => cases h
  | cons hs stack ih =>
    rw [List.length_cons]
    rcases List.mem_append.1 h with h | h
    · obtain ⟨_, _, rfl⟩ := List.mem_map.1 h
      dsimp only
      omega
    · have := ih h
      omega

theorem map_snd_depths (n : Nat) (stack : List (List String)) :
    (depths n stack).map Prod.snd = stack.flatten := by
  induction stack generalizing n with
  | nil => rfl
  | cons hs stack ih =>
    rw [depths, List.map_append, ih, List.flatten_cons]
    simp

/-- A closing brace takes the headers of the innermost block away. -/
theorem filter_depths (stack : List (List String)) :
    (depths 0 stack).filter (fun b => b.1 < stack.length) = depths 0 stack.dropLast := by
  rcases List.eq_nil_or_concat stack with rfl | ⟨front, hs, rfl⟩
  · rfl
  · rw [List.concat_eq_append, List.dropLast_concat, depths_concat, List.filter_append]
    have hfront : (depths 0 front).filter (fun b => b.1 < (front ++ [hs]).length) =
        depths 0 front := by
      refine List.filter_eq_self.2 fun b hb => ?_
      have := depths_bounds hb
      rw [decide_eq_true_eq, List.length_append, List.length_singleton]
      omega
    have hlast : (hs.map (0 + front.length + 1, ·)).filter
        (fun b => b.1 < (front ++ [hs]).length) = [] := by
      refine List.filter_eq_nil_iff.2 fun b hb => ?_
      obtain ⟨_, _, rfl⟩ := List.mem_map.1 hb
      simp
    rw [hfront, hlast, List.append_nil]

/-- The blocks of the scan are those that are open behind the items. -/
structure Tracks (before : List (Nat × ControlItem)) (blocks : ControlState) : Prop where
  /-- The depth. -/
  depth : blocks.depth = (openHeaders before).length
  /-- The headers. -/
  active : blocks.active = depths 0 (openHeaders before)

/-- What holds inside line `k`, which starts with the context `context`. -/
structure TracksLine (before : List (Nat × ControlItem)) (k : Nat) (context texts : List String)
    (st : GroupState) : Prop where
  /-- The blocks. -/
  blocks : Tracks before st.blocks
  /-- The headers that wait for their brace. -/
  pending : st.pending = headersOnLine before k
  /-- The context of the line. -/
  lineContext : st.lineContext = addNew context texts

theorem headersOnLine_concat (before : List (Nat × ControlItem)) (k : Nat) (x : ControlItem) :
    headersOnLine (before ++ [(k, x)]) k =
      if x = .opening then [] else headersOnLine before k ++ x.text.toList := by
  unfold headersOnLine
  rw [List.reverse_append, List.reverse_singleton, List.singleton_append]
  by_cases hx : x = .opening
  · rw [if_pos hx, List.takeWhile_cons_of_neg (by simp [hx])]
    rfl
  · rw [if_neg hx, List.takeWhile_cons_of_pos (by simp [hx]), List.reverse_cons,
      List.filterMap_append]
    cases htext : x.text <;> simp [htext]

/-- **One item.** -/
theorem TracksLine.step {before : List (Nat × ControlItem)} {k : Nat}
    {context texts : List String} {st : GroupState} (h : TracksLine before k context texts st)
    (x : ControlItem) :
    TracksLine (before ++ [(k, x)]) k context (texts ++ x.text.toList) (itemStep st x) := by
  have hopen : openHeaders (before ++ [(k, x)]) = Nesting.stackStep (fun x => x.2.mark)
      (fun before x => headersOnLine before x.1) before (openHeaders before) (k, x) :=
    Nesting.unclosed_concat before (k, x)
  have hpending := headersOnLine_concat before k x
  cases x with
  | header text =>
    change openHeaders _ = openHeaders before at hopen
    rw [if_neg (by simp)] at hpending
    refine ⟨⟨?_, ?_⟩, ?_, ?_⟩
    · rw [hopen]
      exact h.blocks.depth
    · rw [hopen]
      exact h.blocks.active
    · rw [hpending]
      exact congrArg (· ++ [text]) h.pending
    · change (if text ∈ st.lineContext then st.lineContext else st.lineContext ++ [text]) = _
      rw [h.lineContext]
      unfold addNew
      rw [List.foldl_append]
      rfl
  | opening =>
    change openHeaders _ = openHeaders before ++ [headersOnLine before k] at hopen
    rw [if_pos rfl] at hpending
    refine ⟨⟨?_, ?_⟩, hpending.symm, ?_⟩
    · rw [hopen, List.length_append, List.length_singleton, ← h.blocks.depth]
      rfl
    · rw [hopen, depths_concat, ← h.blocks.active, ← h.blocks.depth, ← h.pending, Nat.zero_add]
      rfl
    · exact h.lineContext.trans (by simp [ControlItem.text])
  | closing =>
    change openHeaders _ = (openHeaders before).dropLast at hopen
    rw [if_neg (by simp)] at hpending
    refine ⟨⟨?_, ?_⟩, ?_, ?_⟩
    · rw [hopen, List.length_dropLast, ← h.blocks.depth]
      rfl
    · rw [hopen, ← filter_depths, ← h.blocks.depth, ← h.blocks.active]
      rfl
    · rw [hpending]
      exact h.pending.trans (by simp [ControlItem.text])
    · exact h.lineContext.trans (by simp [ControlItem.text])

/-- **A line.** -/
theorem TracksLine.run {before : List (Nat × ControlItem)} {k : Nat} {context texts : List String}
    {st : GroupState} (h : TracksLine before k context texts st) (items : List ControlItem) :
    TracksLine (before ++ items.map (k, ·)) k context
      (texts ++ items.filterMap ControlItem.text) (items.foldl itemStep st) := by
  induction items generalizing before texts st with
  | nil => simpa using h
  | cons x items ih =>
    have hrest := ih (h.step x)
    rw [List.append_assoc, List.append_assoc] at hrest
    rw [List.map_cons, List.foldl_cons]
    have htexts : (x :: items).filterMap ControlItem.text =
        x.text.toList ++ items.filterMap ControlItem.text := by
      rw [List.filterMap_cons]
      cases x.text <;> rfl
    rw [htexts]
    exact hrest

theorem tracks_controlGroup {before : List (Nat × ControlItem)} {k : Nat} {blocks : ControlState}
    (h : Tracks before blocks) (hlines : ∀ x ∈ before, x.1 < k) (g : LineGroup) :
    Tracks (before ++ (lineItems g.tokens).map (k, ·)) (controlGroup blocks g).blocks ∧
      (controlGroup blocks g).lineContext = addNew (openHeaders before).flatten
        ((lineItems g.tokens).filterMap ControlItem.text) := by
  have hstart : TracksLine before k (openHeaders before).flatten []
      ⟨blocks, blocks.active.map Prod.snd, []⟩ := by
    refine ⟨h, ?_, ?_⟩
    · unfold headersOnLine
      rcases List.eq_nil_or_concat before with rfl | ⟨front, x, rfl⟩
      · rfl
      · have hx := hlines x (by simp)
        rw [List.concat_eq_append, List.reverse_append, List.reverse_singleton,
          List.singleton_append, List.takeWhile_cons_of_neg (by simp; omega)]
        rfl
    · change blocks.active.map Prod.snd = _
      rw [h.active, map_snd_depths]
      rfl
  have hrun := hstart.run (lineItems g.tokens)
  unfold controlGroup
  rw [controlTokens_eq_foldl]
  exact ⟨hrun.blocks, hrun.lineContext⟩

theorem lookup_lines (lines : List Nat) (context : List String) (rest : List (Nat × List String))
    (n : Nat) :
    (lines.map (·, context) ++ rest).lookup n =
      if n ∈ lines then some context else rest.lookup n := by
  induction lines with
  | nil => rfl
  | cons m lines ih =>
    rw [List.map_cons, List.cons_append, List.lookup_cons, ih]
    by_cases h : n = m
    · subst h
      simp
    · rw [beq_eq_false_iff_ne.2 h]
      simp [h]

/-- **The contexts of all lines.** -/
theorem lookup_controlGroups {before : List (Nat × ControlItem)} {k : Nat} {blocks : ControlState}
    (h : Tracks before blocks) (hlines : ∀ x ∈ before, x.1 < k) (groups : List LineGroup)
    (n : Nat) :
    ((controlGroups blocks groups).lookup n).getD [] =
      shownFrom before k n (groups.map fun g => (g.lines, lineItems g.tokens)) := by
  induction groups generalizing before k blocks with
  | nil => rfl
  | cons g groups ih =>
    obtain ⟨hblocks, hcontext⟩ := tracks_controlGroup h hlines g
    rw [controlGroups, lookup_lines, List.map_cons, shownFrom]
    split
    · exact hcontext
    · refine ih hblocks fun x hx => ?_
      rcases List.mem_append.1 hx with hx | hx
      · exact Nat.lt_succ_of_lt (hlines x hx)
      · obtain ⟨_, _, rfl⟩ := List.mem_map.1 hx
        exact Nat.lt_succ_self k

end Scan

/-- **The context of a line is what it shows.** -/
theorem controls_eq_shown (u : WordTable) (commit : SourceUniverse) (file : String × List Char)
    (text : List Char) (n : Nat) :
    (commit.side u file text n).controls = shown file n := by
  unfold LineSide.controls SourceUniverse.side shown analyze
  dsimp only
  split
  · exact lookup_controlGroups ⟨rfl, rfl⟩ (fun _ hx => absurd hx List.not_mem_nil) _ n
  · rfl

end FosCoverage
