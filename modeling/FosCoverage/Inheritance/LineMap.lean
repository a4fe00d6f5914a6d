import FosCoverage.Environment
import FosCoverage.Lib.Text
import Mathlib.Data.List.Sort

/-!
# The line map

`GitLineMapEngine` maps the lines of an old text to those of a new one.

* `mapText` knows one changed region, between the longest common prefix and suffix.
* `mapGitText` takes the hunks of `git diff --unified=0`, and maps the lines between them by their
  offset.
* Inside a region `mapHunk` maps a line only when it was spelled anew: its tokens occur in one line
  of either side, the two texts differ, all such pairs are in order, and they reach every line with
  tokens (`recoverable`).

A line is a list of characters; the lexer is an argument of the engine and stays one here.  The diff
is given by its hunk headers and by whether its text speaks of a rename.
-/

set_option autoImplicit false

namespace FosCoverage

/-- The lines keep their order. -/
def LineMapping.Increasing (mapping : LineMapping) : Prop :=
  ∀ i j i' j', mapping.get i = some j → mapping.get i' = some j' → i < i' → j < j'

namespace GitLineMapEngine

/-- A line without its end. -/
abbrev Line := List Char

/-- `_split_lines` -/
def splitLines (value : List Char) : List Line := Text.splitlines (Text.newlines value)

/-- The four results of a comparison; the newest assignment to a key of `mapping` is first. -/
structure Regions where
  /-- `mapping` -/
  mapping : List (Nat × Nat)
  /-- `ambiguous` -/
  ambiguous : List Nat
  /-- `deleted` -/
  deleted : List Nat
  /-- `added` -/
  added : List Nat
  deriving DecidableEq, Repr

namespace Regions

/-- Nothing compared yet. -/
def empty : Regions := ⟨[], [], [], []⟩

/-- `mapping[old_line] = new_line` -/
def assign (m : Regions) (oldLine newLine : Nat) : Regions :=
  { m with mapping := (oldLine, newLine) :: m.mapping }

/-- Equal lines: `length` assignments from two cursors on. -/
def assignRun (m : Regions) (oldCursor newCursor length : Nat) : Regions :=
  (List.range length).foldl (fun m offset => m.assign (oldCursor + offset) (newCursor + offset)) m

/-- `deleted.add`, and `ambiguous.add` when the region has new lines. -/
def delete (m : Regions) (oldLine : Nat) (replaced : Bool) : Regions :=
  { m with
    deleted := oldLine :: m.deleted
    ambiguous := if replaced then oldLine :: m.ambiguous else m.ambiguous }

/-- `added.add` -/
def add (m : Regions) (newLine : Nat) : Regions := { m with added := newLine :: m.added }

/-- `LineMapping.get` -/
def get (m : Regions) (oldLine : Nat) : Option Nat :=
  if oldLine ∈ m.ambiguous ∨ oldLine ∈ m.deleted then none else m.mapping.lookup oldLine

/-- The `LineMapping` with a given fingerprint. -/
def toMapping (m : Regions) (fingerprint : String) : LineMapping :=
  ⟨m.get, fun n => n ∈ m.deleted, fingerprint⟩

end Regions

/-! ## Inside a region -/

section Hunk

variable {τ : Type} [DecidableEq τ] (tokens : Line → List τ)

/-- `positions.setdefault(key, []).append(offset)` -/
def addPosition (positions : List (List τ × List Nat)) (key : List τ) (offset : Nat) :
    List (List τ × List Nat) :=
  if positions.any fun e => e.1 = key then
    positions.map fun e => if e.1 = key then (e.1, e.2 ++ [offset]) else e
  else positions ++ [(key, [offset])]

/-- `old_positions` and `new_positions`: the offsets of the lines with some tokens. -/
def positions (lines : List Line) : List (List τ × List Nat) :=
  lines.zipIdx.foldl (fun d l => addPosition d (tokens l.1) l.2) []

/-- The pair one key of `old_positions` contributes. -/
def pairOf (oldLines newLines : List Line) (e : List τ × List Nat) : Option (Nat × Nat) :=
  match e.2, ((positions tokens newLines).lookup e.1).getD [] with
  | [oldOffset], [newOffset] =>
    -- a line that was deleted and added again as it was is a new line
    if oldLines[oldOffset]? ≠ newLines[newOffset]? then some (oldOffset, newOffset) else none
  | _, _ => none

/-- The order of `pairs.sort()`; no two pairs have the same old offset. -/
def pairLe (p q : Nat × Nat) : Prop := p.1 < q.1 ∨ (p.1 = q.1 ∧ p.2 ≤ q.2)

instance : DecidableRel pairLe := fun p q =>
  inferInstanceAs (Decidable (p.1 < q.1 ∨ (p.1 = q.1 ∧ p.2 ≤ q.2)))

/-- Two pairs in a row are not in order, on one side or the other. -/
def crossing (pairs : List (Nat × Nat)) : Bool :=
  (pairs.zip pairs.tail).any (fun q => q.1.1 ≥ q.2.1) ||
    (pairs.zip pairs.tail).any (fun q => q.1.2 ≥ q.2.2)

/-- A line with tokens whose offset is not matched. -/
def unmatched (lines : List Line) (matched : List Nat) : Bool :=
  lines.zipIdx.any fun l => tokens l.1 ≠ [] ∧ l.2 ∉ matched

/-- `pairs` after the three checks. -/
def recoverable (oldLines newLines : List Line) : List (Nat × Nat) :=
  let pairs := ((positions tokens oldLines).filterMap
    (pairOf tokens oldLines newLines)).insertionSort pairLe
  let pairs := if crossing pairs then [] else pairs
  if unmatched tokens oldLines (pairs.map Prod.fst) ∨
      unmatched tokens newLines (pairs.map Prod.snd) then [] else pairs

/-- `_map_hunk` -/
def mapHunk (oldLines newLines : List Line) (oldStart newStart : Nat) (m : Regions) : Regions :=
  let pairs := recoverable tokens oldLines newLines
  let m := pairs.foldl (fun m p => m.assign (oldStart + p.1) (newStart + p.2)) m
  let m := (List.range oldLines.length).foldl (fun m offset =>
    if offset ∈ pairs.map Prod.fst then m
    else m.delete (oldStart + offset) (newLines ≠ [])) m
  (List.range newLines.length).foldl (fun m offset =>
    if offset ∈ pairs.map Prod.snd then m else m.add (newStart + offset)) m

end Hunk

/-! ## Two texts -/

/-- The length of the common prefix. -/
def commonPrefix : List Line → List Line → Nat
  | a :: as, b :: bs => if a = b then commonPrefix as bs + 1 else 0
  | _, _ => 0

/-- A region of both texts, by first line and number of lines. -/
structure Window where
  /-- `old_start` -/
  oldStart : Nat
  /-- `old_count` -/
  oldCount : Nat
  /-- `new_start` -/
  newStart : Nat
  /-- `new_count` -/
  newCount : Nat
  deriving DecidableEq, Repr

section Maps

variable {τ : Type} [DecidableEq τ] (tokens : Line → List τ)

/-- `_map_hunk` on a region of the texts. -/
def mapWindow (oldLines newLines : List Line) (w : Window) (m : Regions) : Regions :=
  mapHunk tokens ((oldLines.drop (w.oldStart - 1)).take w.oldCount)
    ((newLines.drop (w.newStart - 1)).take w.newCount) w.oldStart w.newStart m

/-- The changed region of `map_text`, between the common prefix and the common suffix of what the
prefix leaves. -/
def changedWindow (oldLines newLines : List Line) : Window :=
  let before := commonPrefix oldLines newLines
  let after := commonPrefix (oldLines.drop before).reverse (newLines.drop before).reverse
  ⟨before + 1, oldLines.length - after - before, before + 1, newLines.length - after - before⟩

/-- `map_text` -/
def mapText (oldText newText : List Char) : Regions :=
  let oldLines := splitLines oldText
  let newLines := splitLines newText
  let before := commonPrefix oldLines newLines
  let after := commonPrefix (oldLines.drop before).reverse (newLines.drop before).reverse
  let m := Regions.empty.assignRun 1 1 before
  let m := (List.range after).foldl (fun m index =>
    m.assign (oldLines.length - index) (newLines.length - index)) m
  mapWindow tokens oldLines newLines (changedWindow oldLines newLines) m

/-! ## Git -/

/-- A hunk header; a count is left out when it is one. -/
structure HunkHeader where
  /-- The first old line, or the line before the hunk when the count is zero. -/
  oldStart : Nat
  /-- The number of old lines. -/
  oldCount : Option Nat
  /-- The first new line, or the line before the hunk when the count is zero. -/
  newStart : Nat
  /-- The number of new lines. -/
  newCount : Option Nat
  deriving DecidableEq, Repr

/-- What `map_git_text` reads of a diff. -/
structure Diff where
  /-- It speaks of a rename or of a similarity. -/
  renamed : Bool
  /-- The hunk headers. -/
  hunks : List HunkHeader

/-- The region of a hunk: a zero-length side starts behind the line the header names. -/
def HunkHeader.window (h : HunkHeader) : Window :=
  let oldCount := h.oldCount.getD 1
  let newCount := h.newCount.getD 1
  ⟨if oldCount ≠ 0 then h.oldStart else h.oldStart + 1, oldCount,
    if newCount ≠ 0 then h.newStart else h.newStart + 1, newCount⟩

/-- The lines up to the next region, mapped when both sides have as many. -/
def mapGap (oldCursor newCursor oldStart newStart : Nat) (m : Regions) : Regions :=
  if oldCursor ≤ oldStart ∧ oldStart + newCursor = newStart + oldCursor then
    m.assignRun oldCursor newCursor (oldStart - oldCursor)
  else m

/-- The loop over the hunks, and the lines behind the last one. -/
def mapHunks (oldLines newLines : List Line) : Nat → Nat → List Window → Regions → Regions
  | oldCursor, newCursor, [], m =>
    mapGap oldCursor newCursor (oldLines.length + 1) (newLines.length + 1) m
  | oldCursor, newCursor, w :: ws, m =>
    mapHunks oldLines newLines (w.oldStart + w.oldCount) (w.newStart + w.newCount) ws
      (mapWindow tokens oldLines newLines w (mapGap oldCursor newCursor w.oldStart w.newStart m))

/-- `map_git_text` -/
def mapGitText (diff : Diff) (oldText newText : List Char) : Regions :=
  if diff.renamed then
    ⟨[], [], List.range' 1 (Text.splitlines oldText).length,
      List.range' 1 (Text.splitlines newText).length⟩
  else mapHunks tokens (splitLines oldText) (splitLines newText) 1 1
    (diff.hunks.map HunkHeader.window) Regions.empty

end Maps

end GitLineMapEngine

end FosCoverage
