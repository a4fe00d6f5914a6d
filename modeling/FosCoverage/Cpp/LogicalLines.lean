import FosCoverage.Cpp.Agreement
import FosCoverage.Cpp.Renumber
import Mathlib.Data.List.Chain

/-!
# Logical lines and the physical lines they are made of

`_logical_lines` as the code computes it: two loops over one index, and a triple of the first line, the
last line and the text for each logical line (`logicalSpans`).

* `joinNext_group` follows the inner loop: the lines up to the index are one group, in which every line
  but the last ends in a splice, and the value is the text of the group.
* `flatMap_numbers` is the outer loop: the intervals are consecutive and contain every line once.
* `logicalSpans_spec` puts them together: **a group goes on exactly when its text so far ends in an odd
  number of backslashes and there is a next line**, and its text is that of its lines without the last
  backslash of each line that is joined to the next one.

The test looks at the text so far and not at the last line.  It makes no difference, because an even
number of backslashes is left of the lines before (`hasLineSplice_spliced`); for this reason a line that
is joined to the next one is not empty, and the backslash that is removed is its own.

`logicalLines_enumerate` is the connection to the numbered lines of the analyser.
-/

set_option autoImplicit false

namespace FosCoverage

namespace CppLexer

/-! ## The loops -/

/-- One triple of `_logical_lines`. -/
structure LineSpan where
  /-- `start` -/
  startLine : Nat
  /-- `end` -/
  endLine : Nat
  /-- `value` -/
  value : List Char
  deriving DecidableEq, Repr

/-- The numbers of the lines in the interval. -/
def LineSpan.numbers (s : LineSpan) : List Nat := List.range' s.startLine (s.endLine + 1 - s.startLine)

/-- The inner loop: the index behind it and the value. -/
def joinNext (lines : List (List Char)) (index : Nat) (value : List Char) : Nat × List Char :=
  if h : hasLineSplice value ∧ index + 1 < lines.length then
    joinNext lines (index + 1) (value.dropLast ++ lines[index + 1])
  else (index, value)
  termination_by lines.length - index

theorem le_joinNext (lines : List (List Char)) (index : Nat) (value : List Char) :
    index ≤ (joinNext lines index value).1 := by
  fun_induction joinNext lines index value with
  | case1 index value h ih => omega
  | case2 index value h => exact le_rfl

/-- The outer loop from an index on. -/
def spansFrom (lines : List (List Char)) (index : Nat) : List LineSpan :=
  if h : index < lines.length then
    let joined := joinNext lines index lines[index]
    ⟨index + 1, joined.1 + 1, joined.2⟩ :: spansFrom lines (joined.1 + 1)
  else []
  termination_by lines.length - index
  decreasing_by
    have := le_joinNext lines index lines[index]
    omega

/-- `_logical_lines` -/
def logicalSpans (lines : List (List Char)) : List LineSpan := spansFrom lines 0

/-! ## Groups of lines -/

/-- The lines in one text, without the last character of every line but the last. -/
def spliced : List (List Char) → List Char
  | [] => []
  | [line] => line
  | line :: lines => line.dropLast ++ spliced lines

/-- The physical lines from one number to another. -/
def physicalLines (lines : List (List Char)) (first last : Nat) : List (List Char) :=
  (lines.take last).drop (first - 1)

/-- Every line but the last ends in a splice. -/
def SplicedRun (group : List (List Char)) : Prop :=
  group.IsChain fun line _ => hasLineSplice line = true

/-- What a triple says about the lines. -/
structure LineSpan.Joins (lines : List (List Char)) (s : LineSpan) : Prop where
  /-- The interval is not empty and within the lines. -/
  bounds : 1 ≤ s.startLine ∧ s.startLine ≤ s.endLine ∧ s.endLine ≤ lines.length
  /-- The value is the concatenation of the lines, -/
  value : s.value = spliced (physicalLines lines s.startLine s.endLine)
  /-- and what is removed is a backslash. -/
  backslash : ∀ line ∈ (physicalLines lines s.startLine s.endLine).dropLast,
    line.getLast? = some '\\'
  /-- A line is joined to the next one exactly when the text so far ends in a splice and there is a
  next line. -/
  continued : ∀ k, s.startLine ≤ k → k ≤ s.endLine →
    (k < s.endLine ↔ hasLineSplice (spliced (physicalLines lines s.startLine k)) = true ∧
      k < lines.length)

section Group

variable {group : List (List Char)} {line : List Char} {lines : List (List Char)}

/-- **The text of a group ends in a splice when its last line does.** -/
theorem hasLineSplice_spliced (h : SplicedRun (group ++ [line])) :
    hasLineSplice (spliced (group ++ [line])) = hasLineSplice line := by
  induction group with
  | nil => rfl
  | cons first group ih =>
    rw [List.cons_append] at h
    obtain ⟨hfirst, hgroup⟩ := List.isChain_cons.1 h
    cases hrest : group ++ [line] with
    | nil => simp at hrest
    | cons second rest =>
      rw [hrest] at hfirst hgroup ih
      rw [List.cons_append, hrest, spliced, hasLineSplice_join (hfirst second rfl), ih hgroup]
      simp

theorem ne_nil_of_hasLineSplice (h : hasLineSplice line = true) : line ≠ [] := by
  rintro rfl
  cases h

theorem getLast?_of_hasLineSplice (h : hasLineSplice line = true) : line.getLast? = some '\\' := by
  by_contra hne
  rw [hasLineSplice_eq hne] at h
  cases h

/-- A group that goes on: the value of the loop is the text of the longer group. -/
theorem spliced_concat {last : List Char} (h : SplicedRun (group ++ [last])) (hlast : last ≠ []) :
    spliced (group ++ [last] ++ [line]) = (spliced (group ++ [last])).dropLast ++ line := by
  induction group with
  | nil => rfl
  | cons first group ih =>
    obtain ⟨-, hgroup⟩ := List.isChain_cons.1 h
    have hne : ∀ group : List (List Char), spliced (group ++ [last]) ≠ [] := by
      intro group
      induction group with
      | nil => exact hlast
      | cons a group ih =>
        intro hnil
        cases hrest : group ++ [last] with
        | nil => simp at hrest
        | cons b rest =>
          rw [hrest] at ih
          rw [List.cons_append, hrest, spliced, List.append_eq_nil_iff] at hnil
          · exact ih hnil.2
          · simp
    have hsplit : ∀ rest : List (List Char), rest ≠ [] →
        spliced (first :: rest) = first.dropLast ++ spliced rest := by
      intro rest hrest
      cases rest with
      | nil => exact absurd rfl hrest
      | cons b rest => rw [spliced]; simp
    rw [List.cons_append, List.cons_append, hsplit _ (by simp), hsplit _ (by simp), ih hgroup,
      List.dropLast_append_of_ne_nil (hne group), List.append_assoc]

theorem physicalLines_succ {first k : Nat} (hfirst : first ≤ k + 1) (h : k < lines.length) :
    physicalLines lines first (k + 1) = physicalLines lines first k ++ [lines[k]] := by
  rw [physicalLines, List.take_succ_eq_append_getElem h, List.drop_append_of_le_length]
  · rfl
  · rw [List.length_take]
    omega

theorem physicalLines_self {k : Nat} (h : k < lines.length) :
    physicalLines lines (k + 1) (k + 1) = [lines[k]] := by
  rw [physicalLines_succ le_rfl h, physicalLines, List.drop_of_length_le, List.nil_append]
  rw [List.length_take]
  omega

end Group

/-! ## The inner loop -/

section Inner

variable {lines : List (List Char)} {first index : Nat} {value : List Char}

/-- The value is the text of the lines from `first` to the index, which are one group. -/
structure Joining (lines : List (List Char)) (first index : Nat) (value : List Char) : Prop where
  first_le : first ≤ index
  index_lt : index < lines.length
  run : SplicedRun (physicalLines lines (first + 1) (index + 1))
  value_eq : value = spliced (physicalLines lines (first + 1) (index + 1))

theorem Joining.start (h : index < lines.length) : Joining lines index index lines[index] := by
  have hself := physicalLines_self h
  refine ⟨le_rfl, h, ?_, ?_⟩
  · rw [hself]
    exact .singleton _
  · rw [hself]
    rfl

/-- **One more line**: the value ends in a splice, so the last line does. -/
theorem Joining.step (h : Joining lines first index value) (hsplice : hasLineSplice value = true)
    (hnext : index + 1 < lines.length) :
    Joining lines first (index + 1) (value.dropLast ++ lines[index + 1]) := by
  obtain ⟨hfirst, hindex, hrun, rfl⟩ := h
  have hbehind : physicalLines lines (first + 1) (index + 1 + 1) =
      physicalLines lines (first + 1) (index + 1) ++ [lines[index + 1]] :=
    physicalLines_succ (by omega) hnext
  rw [physicalLines_succ (by omega) hindex] at hrun hsplice hbehind
  have hlast : hasLineSplice lines[index] = true := by rwa [hasLineSplice_spliced hrun] at hsplice
  refine ⟨by omega, hnext, ?_, ?_⟩
  · rw [hbehind]
    refine List.IsChain.append hrun (.singleton _) fun line hline _ _ => ?_
    rw [List.getLast?_concat] at hline
    rwa [← Option.some.inj hline]
  · rw [hbehind, spliced_concat hrun (ne_nil_of_hasLineSplice hlast),
      physicalLines_succ (by omega) hindex]

/-- **The inner loop**: it ends with a group, and a line of it is joined to the next one exactly when
the text up to it ends in a splice and there is a next line. -/
theorem joinNext_group (h : Joining lines first index value) :
    Joining lines first (joinNext lines index value).1 (joinNext lines index value).2 ∧
      ∀ k, index ≤ k → k ≤ (joinNext lines index value).1 →
        (k < (joinNext lines index value).1 ↔
          hasLineSplice (spliced (physicalLines lines (first + 1) (k + 1))) = true ∧
            k + 1 < lines.length) := by
  fun_induction joinNext lines index value with
  | case1 index value hgo ih =>
    obtain ⟨hend, hcontinued⟩ := ih (h.step hgo.1 hgo.2)
    refine ⟨hend, fun k hk hle => ?_⟩
    rcases Nat.eq_or_lt_of_le hk with rfl | hk
    · have hmore := le_joinNext lines (index + 1) (value.dropLast ++ lines[index + 1])
      rw [← h.value_eq]
      exact ⟨fun _ => hgo, fun _ => by omega⟩
    · exact hcontinued k hk hle
  | case2 index value hstop =>
    refine ⟨h, fun k hk hle => ?_⟩
    obtain rfl : k = index := by
      dsimp only at hle
      omega
    rw [← h.value_eq]
    exact ⟨fun hlt => absurd hlt (lt_irrefl k), fun hgo => absurd hgo hstop⟩

/-- The triple of a group. -/
theorem joins_joinNext (h : index < lines.length) :
    LineSpan.Joins lines ⟨index + 1, (joinNext lines index lines[index]).1 + 1,
      (joinNext lines index lines[index]).2⟩ := by
  obtain ⟨hend, hcontinued⟩ := joinNext_group (Joining.start h)
  refine ⟨⟨by simp, by simpa using hend.first_le, hend.index_lt⟩, hend.value_eq, ?_, ?_⟩
  · intro line hline
    refine getLast?_of_hasLineSplice ?_
    have hrun := hend.run
    have hle := hend.first_le
    change line ∈ (physicalLines lines (index + 1)
      ((joinNext lines index lines[index]).1 + 1)).dropLast at hline
    rw [physicalLines_succ (by omega) hend.index_lt] at hrun hline
    rw [List.dropLast_concat] at hline
    obtain ⟨before, behind, hsplit⟩ := List.append_of_mem hline
    rw [hsplit, List.append_assoc] at hrun
    cases behind with
    | nil => exact (List.isChain_cons.1 hrun.right_of_append).1 _ rfl
    | cons next behind => exact (List.isChain_cons.1 hrun.right_of_append).1 next rfl
  · intro k hk hle
    change index + 1 ≤ k at hk
    change k ≤ (joinNext lines index lines[index]).1 + 1 at hle
    obtain ⟨k, rfl⟩ : ∃ k', k = k' + 1 := ⟨k - 1, by omega⟩
    have hiff := hcontinued k (by omega) (by omega)
    rw [← hiff, Nat.add_lt_add_iff_right]

end Inner

/-! ## The outer loop -/

section Outer

variable (lines : List (List Char))

theorem joins_spansFrom (index : Nat) : ∀ s ∈ spansFrom lines index, s.Joins lines := by
  fun_induction spansFrom lines index with
  | case1 index h joined ih => exact List.forall_mem_cons.2 ⟨joins_joinNext h, ih⟩
  | case2 index h => exact fun s hs => (nomatch hs)

/-- The intervals from an index on contain every further line once, in order. -/
theorem flatMap_numbers {index : Nat} (hindex : index ≤ lines.length) :
    (spansFrom lines index).flatMap LineSpan.numbers =
      List.range' (index + 1) (lines.length - index) := by
  fun_induction spansFrom lines index with
  | case1 index h joined ih =>
    have hle : index ≤ joined.1 := le_joinNext lines index lines[index]
    have hlt : joined.1 < lines.length := (joinNext_group (Joining.start h)).1.index_lt
    rw [List.flatMap_cons, ih hlt, LineSpan.numbers]
    dsimp only
    have hsplit := List.range'_append_1 (s := index + 1) (m := joined.1 + 1 - index)
      (n := lines.length - (joined.1 + 1))
    rw [show index + 1 + (joined.1 + 1 - index) = joined.1 + 1 + 1 by omega,
      show joined.1 + 1 - index + (lines.length - (joined.1 + 1)) = lines.length - index by omega]
      at hsplit
    rw [← hsplit, show joined.1 + 1 + 1 - (index + 1) = joined.1 + 1 - index by omega]
  | case2 index h =>
    rw [show lines.length - index = 0 by omega]
    rfl

/-- **Logical lines keep the numbers of their physical lines**: the intervals contain every line once,
in order, and every triple says which lines it was joined from and where. -/
theorem logicalSpans_spec :
    (logicalSpans lines).flatMap LineSpan.numbers = List.range' 1 lines.length ∧
      ∀ s ∈ logicalSpans lines, s.Joins lines := by
  refine ⟨?_, joins_spansFrom lines 0⟩
  rw [logicalSpans, flatMap_numbers lines (Nat.zero_le _)]
  rfl

/-! ## The numbered lines of the analyser -/

/-- The inner loop is the recursion over the numbered lines. -/
theorem logicalFrom_enumerate {first index : Nat} (hfirst : first ≤ index) (value : List Char) :
    logicalFrom ⟨List.range' (first + 1) (index + 1 - first), value⟩
        (enumerate (index + 2) (lines.drop (index + 1))) =
      ⟨List.range' (first + 1) ((joinNext lines index value).1 + 1 - first),
          (joinNext lines index value).2⟩ ::
        logicalLines (enumerate ((joinNext lines index value).1 + 2)
          (lines.drop ((joinNext lines index value).1 + 1))) := by
  fun_induction joinNext lines index value with
  | case1 index value hgo ih =>
    have hnumbers : List.range' (first + 1) (index + 1 - first) ++ [index + 2] =
        List.range' (first + 1) (index + 1 + 1 - first) := by
      rw [show index + 1 + 1 - first = index + 1 - first + 1 by omega, List.range'_concat,
        Nat.one_mul, show first + 1 + (index + 1 - first) = index + 2 by omega]
    rw [← ih (by omega), List.drop_eq_getElem_cons hgo.2, enumerate, logicalFrom, if_pos hgo.1,
      hnumbers]
  | case2 index value hstop =>
    cases hrest : lines.drop (index + 1) with
    | nil => rfl
    | cons next rest =>
      have hnext : index + 1 < lines.length := by
        by_contra hlong
        rw [List.drop_of_length_le (by omega)] at hrest
        cases hrest
      rw [enumerate, logicalFrom, if_neg fun hsplice => hstop ⟨hsplice, hnext⟩, logicalLines]

/-- The logical lines of the analyser are the triples. -/
theorem logicalLines_enumerate :
    logicalLines (enumerate 1 lines) = (logicalSpans lines).map fun s => ⟨s.numbers, s.value⟩ := by
  have hfrom : ∀ index, logicalLines (enumerate (index + 1) (lines.drop index)) =
      (spansFrom lines index).map fun s => ⟨s.numbers, s.value⟩ := by
    intro index
    fun_induction spansFrom lines index with
    | case1 index h joined ih =>
      rw [List.map_cons, ← ih, List.drop_eq_getElem_cons h, enumerate, logicalLines]
      have hone := logicalFrom_enumerate lines (le_refl index) lines[index]
      rw [Nat.add_sub_cancel_left] at hone
      rw [LineSpan.numbers, show joined.1 + 1 + 1 - (index + 1) = joined.1 + 1 - index by omega]
      exact hone
    | case2 index h =>
      rw [List.drop_of_length_le (by omega)]
      rfl
  exact hfrom 0

end Outer

end CppLexer

end FosCoverage
