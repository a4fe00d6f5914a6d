import FosCoverage.Cpp.Parser

/-!
# Conditional groups

The preprocessor context of a line against the conditional groups it stands in.  A group is the list
of its branches from the `#if` up to the one the line is in, each with its kind and its normalised
condition (`groupsAt`).  The stack of the analyser has one entry for a group, and `#elif` and `#else`
overwrite it: what it keeps of a group is the last branch (`contextAt_eq`), so two lines in the same
branch of groups with different earlier branches have the same context.
-/

set_option autoImplicit false

namespace FosCoverage

open Text CppLexer

namespace CppSourceAnalyzer

variable (u : WordTable)

/-- What a logical line does to the groups around it, innermost group last. -/
def groupStep (groups : List (List String)) (text : List Char) : List (List String) :=
  match directive u text with
  | none => groups
  | some (kind, expression) =>
    if kind = "endif" then groups.dropLast
    else if kind = "elif" ∨ kind = "else" then
      match groups.getLast? with
      | none => groups
      | some group => groups.dropLast ++ [group ++ [conditionOf kind expression]]
    else groups ++ [[conditionOf kind expression]]

/-- The groups around every physical line. -/
def groupsFrom : List (List String) → List LogicalLine → List (Nat × List (List String))
  | _, [] => []
  | groups, line :: lines =>
    line.lines.map (·, groups) ++ groupsFrom (groupStep u groups line.text) lines

/-- The chain of conditional groups around a line of a text, each with all its branches up to the
one the line is in.  A directive is a logical line that starts with `#`; comments are not removed. -/
def groupsAt (text : List Char) (line : Nat) : List (List String) :=
  ((groupsFrom u [] (logicalLines (numberedLines text))).lookup line).getD []

/-- The preprocessor context of a line of a text. -/
def contextAt (text : List Char) (line : Nat) : List String :=
  ((preprocessorContext u (numberedLines text)).lookup line).getD []

/-- The branch of a group the line is in. -/
def currentBranch (group : List String) : String := group.getLastD ""

variable {u}

/-- The stack keeps the last branch of every group. -/
theorem preprocessorStep_eq (groups : List (List String)) (text : List Char) :
    preprocessorStep u (groups.map currentBranch) text =
      (groupStep u groups text).map currentBranch := by
  unfold preprocessorStep groupStep
  cases directive u text with
  | none => rfl
  | some d =>
    obtain ⟨kind, expression⟩ := d
    dsimp only
    by_cases hend : kind = "endif"
    · rw [if_pos hend, if_pos hend, List.map_dropLast]
    · rw [if_neg hend, if_neg hend]
      by_cases hel : kind = "elif" ∨ kind = "else"
      · rw [if_pos hel, if_pos hel]
        cases hg : groups.getLast? with
        | none =>
          rw [List.getLast?_eq_none_iff] at hg
          subst hg
          rfl
        | some group =>
          have hne : groups.map currentBranch ≠ [] := by
            rintro hnil
            rw [List.map_eq_nil_iff.1 hnil] at hg
            cases hg
          simp [hne, currentBranch]
      · rw [if_neg hel, if_neg hel]
        simp [currentBranch]

theorem preprocessorFrom_eq (groups : List (List String)) (lines : List LogicalLine) :
    preprocessorFrom u (groups.map currentBranch) lines =
      (groupsFrom u groups lines).map fun l => (l.1, l.2.map currentBranch) := by
  induction lines generalizing groups with
  | nil => rfl
  | cons line lines ih =>
    simp only [preprocessorFrom, groupsFrom, preprocessorStep_eq, ih, List.map_append, List.map_map]
    rfl

theorem lookup_map_snd {α β : Type} (f : α → β) (l : List (Nat × α)) (n : Nat) :
    (l.map fun p => (p.1, f p.2)).lookup n = (l.lookup n).map f := by
  induction l with
  | nil => rfl
  | cons p l ih =>
    rw [List.map_cons, List.lookup_cons, List.lookup_cons, ih]
    cases n == p.1 <;> rfl

/-- **The context of a line is the last branch of every group around it.** -/
theorem contextAt_eq (text : List Char) (line : Nat) :
    contextAt u text line = (groupsAt u text line).map currentBranch := by
  have h := preprocessorFrom_eq (u := u) [] (logicalLines (numberedLines text))
  unfold contextAt groupsAt preprocessorContext
  rw [show ([] : List String) = ([] : List (List String)).map currentBranch from rfl, h,
    lookup_map_snd]
  cases (groupsFrom u [] (logicalLines (numberedLines text))).lookup line <;> rfl

/-- Two chains differ in their depth, or at some depth in the branch the lines are in. -/
def BranchesDiffer (groups groups' : List (List String)) : Prop :=
  groups.length ≠ groups'.length ∨
    ∃ i : Nat, groups[i]?.map currentBranch ≠ groups'[i]?.map currentBranch

theorem branchesDiffer_iff {groups groups' : List (List String)} :
    BranchesDiffer groups groups' ↔
      groups.map currentBranch ≠ groups'.map currentBranch := by
  constructor
  · rintro (hlen | ⟨i, hi⟩) heq
    · have := congrArg List.length heq
      rw [List.length_map, List.length_map] at this
      exact hlen this
    · have := congrArg (fun l : List String => l[i]?) heq
      simp only [List.getElem?_map] at this
      exact hi this
  · intro hne
    by_contra hno
    refine hne (List.ext_getElem? fun i => ?_)
    rw [List.getElem?_map, List.getElem?_map]
    by_contra hi
    exact hno (Or.inr ⟨i, hi⟩)

/-- **When a difference of the conditional groups is a difference of the contexts**: exactly when it
is not confined to branches before the ones the lines are in. -/
theorem context_distinguishes_groups (u : WordTable) (old new : List Char) (m n : Nat) :
    (groupsAt u old m ≠ groupsAt u new n → contextAt u old m ≠ contextAt u new n) ↔
      (groupsAt u old m = groupsAt u new n ∨
        BranchesDiffer (groupsAt u old m) (groupsAt u new n)) := by
  rw [contextAt_eq, contextAt_eq, branchesDiffer_iff]
  by_cases h : groupsAt u old m = groupsAt u new n
  · simp [h]
  · simp [h]

/-- The third line of the two texts is in the second branch of its group; only the first branches
differ. -/
theorem earlier_branch_is_forgotten :
    groupsAt .asciiOnly "#if A\n#elif B\nx();\n#endif".toList 3 ≠
      groupsAt .asciiOnly "#if C\n#elif B\nx();\n#endif".toList 3 ∧
    contextAt .asciiOnly "#if A\n#elif B\nx();\n#endif".toList 3 =
      contextAt .asciiOnly "#if C\n#elif B\nx();\n#endif".toList 3 := by
  decide +kernel

end CppSourceAnalyzer

end FosCoverage
