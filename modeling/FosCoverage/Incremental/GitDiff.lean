import FosCoverage.Import.Lcov
import FosCoverage.Incremental.GitText
import Mathlib.Data.List.Dedup

/-!
# Added lines read from a diff

`parse_unified_diff` goes over the lines of `git diff --unified=0` and tells labels, hunk headers,
removed and added lines apart by how a line starts, and a hunk header by a pattern that it searches
in the whole line.  What it calls a line is what `str.splitlines` does.

* `Exact` is what the reader is for: for every file of the new side, the added numbers are exactly
  those of the lines the diff adds.
* `Regular` are the diffs in which no line is mistaken for something else: no line that is read
  into an open path has a line end of its own, or contains a hunk header that it is not, and no line
  of a hunk is a label.  What is open before and behind the labels of a file says `target`.
* `lookup_parse` says what is read of a regular diff: the added lines that do not start with
  `++`, under the path on the label line.  So `exact_iff`: **a regular diff is read exactly if and
  only if no line that starts with `++` is added, and no line at all to a file whose path git quotes
  or follows with a tab.**
-/

set_option autoImplicit false

namespace FosCoverage

open Relational Git Lcov

namespace GitDiff

variable (digits : DigitTable)

/-! ## Hunk headers -/

/-- `\d+` at the start of a text. -/
def number? (s : List Char) : Option (Nat × List Char) :=
  let isDecimal := fun c => (digits.value c).isSome
  match s.takeWhile isDecimal with
  | [] => none
  | ds => some (ds.foldl (fun n c => 10 * n + (digits.value c).getD 0) 0, s.dropWhile isDecimal)

/-- `(?:,(\d+))?` -/
def count? (s : List Char) : Option Nat × List Char :=
  match s with
  | ',' :: rest =>
    match number? digits rest with
    | some (n, rest') => (some n, rest')
    | none => (none, s)
  | _ => (none, s)

/-- A text behind a literal. -/
def literal? (expected s : List Char) : Option (List Char) :=
  if expected.isPrefixOf s then some (s.drop expected.length) else none

/-- `HUNK_RE` at the start of a text: the first line of the new side and how many there are.  The
pattern has one way to match at a place, since none of its literals starts with a digit. -/
def hunkAt (s : List Char) : Option (Nat × Nat) := do
  let s ← literal? "@@ -".toList s
  let (_, s) ← number? digits s
  let s ← literal? " +".toList (count? digits s).2
  let (start, s) ← number? digits s
  let (count, s) := count? digits s
  let _ ← literal? " @@".toList s
  some (start, count.getD 1)

/-- `HUNK_RE.search` -/
def hunkRe : List Char → Option (Nat × Nat)
  | [] => none
  | c :: cs =>
    match hunkAt digits (c :: cs) with
    | some found => some found
    | none => hunkRe cs

/-! ## The reader -/

/-- The variables of `parse_unified_diff`. -/
structure Scan where
  /-- `changes` -/
  changes : Keyed (List Char) (List Nat)
  /-- `current_path` -/
  currentPath : Option (List Char)
  /-- `new_line` -/
  newLine : Option Nat
  /-- `hunk_start` -/
  hunkStart : Option Nat
  /-- `hunk_count` -/
  hunkCount : Nat
  /-- `hunk_has_body` -/
  hunkHasBody : Bool

/-- The start of the loop. -/
def Scan.start : Scan := ⟨Keyed.empty, none, none, none, 0, false⟩

/-- The current path, empty where Python finds it false. -/
def Scan.path (s : Scan) : List Char := s.currentPath.getD []

/-- `changes.setdefault(path, []).extend(lines)` -/
def extend (changes : Keyed (List Char) (List Nat)) (path : List Char) (lines : List Nat) :
    Keyed (List Char) (List Nat) :=
  changes.put path ((changes.get? path).getD [] ++ lines)

/-- `finalize_hunk` -/
def Scan.finalizeHunk (s : Scan) : Scan :=
  match s.hunkStart with
  | some start =>
    if s.path ≠ [] ∧ s.hunkHasBody = false ∧ s.hunkCount ≠ 0 then
      { s with changes := extend s.changes s.path (List.range' start s.hunkCount) }
    else s
  | none => s

/-- One turn of the loop. -/
def scanLine (s : Scan) (line : List Char) : Scan :=
  if "+++ b/".toList.isPrefixOf line then
    { changes := extend s.changes (line.drop 6) [], currentPath := some (line.drop 6),
      newLine := none, hunkStart := none, hunkCount := 0, hunkHasBody := false }
  else if "+++ /dev/null".toList.isPrefixOf line then
    { s.finalizeHunk with currentPath := none }
  else if s.path = [] then s
  else match hunkRe digits line with
    | some (start, count) =>
      { s.finalizeHunk with
        hunkStart := some start, hunkCount := count, newLine := some start, hunkHasBody := false }
    | none =>
      match s.newLine with
      | none => s
      | some n =>
        if "\\ No newline".toList.isPrefixOf line then s
        else if "+".toList.isPrefixOf line && !"+++".toList.isPrefixOf line then
          { s with changes := extend s.changes s.path [n], newLine := some (n + 1),
                   hunkHasBody := true }
        else if "-".toList.isPrefixOf line then { s with hunkHasBody := true }
        else { s with newLine := some (n + 1), hunkHasBody := true }

/-- The lines of a text, read in order. -/
def scanText (text : List Char) : Scan :=
  ((Text.splitlines text).foldl (scanLine digits) Scan.start).finalizeHunk

/-- `sorted(set(lines))` -/
def sortedSet (lines : List Nat) : List Nat := lines.dedup.insertionSort (· ≤ ·)

/-- `parse_unified_diff` -/
def parseUnifiedDiff (text : List Char) : Keyed (List Char) (List Nat) :=
  (scanText digits text).changes.updateWhere (fun _ _ => true) sortedSet

/-! ## What the reader is for -/

/-- The added lines of every file of the new side are read, and no others. -/
def Exact (files : List FileDiff) : Prop :=
  ∀ f ∈ files, f.IsLive → ∀ n,
    n ∈ ((parseUnifiedDiff digits (diffText files)).get? f.path).getD [] ↔ f.IsAdded n

/-- The line is not taken for a label of the new side. -/
def NoLabel (line : List Char) : Prop :=
  "+++ b/".toList.isPrefixOf line = false ∧ "+++ /dev/null".toList.isPrefixOf line = false

instance (line : List Char) : Decidable (NoLabel line) := inferInstanceAs (Decidable (_ ∧ _))

/-- The path that is open behind the labels of a file: that of the label, as it is printed.  A file
without changes and a quoted label leave open what was. -/
def target (path : List Char) (f : FileDiff) : List Char :=
  if f.changes = [] then path
  else if f.side = .deleted then []
  else if f.path.any mustQuote then path
  else f.path ++ labelEnd f.path

/-- The lines before the hunks that are no labels to the reader. -/
def headLines (f : FileDiff) : List Line :=
  f.extended ++ if f.changes = [] then [] else
    f.oldLabel :: if f.IsLive ∧ f.path.any mustQuote = true then [f.newLabel] else []

/-- Nothing that git prints for the file is mistaken for something else, where it is read behind
files that leave a path open, or none. -/
structure Regular (path : List Char) (f : FileDiff) : Prop where
  /-- No line before the hunks contains a hunk header, if it is read into a path. -/
  noHeader : path ≠ [] → ∀ l ∈ headLines f, hunkRe digits l.text = none
  /-- No text in a hunk has a line end of its own, if it is read into a path. -/
  whole : target path f ≠ [] → ∀ c ∈ f.changes, Text.NoBreak c.heading ∧
    ∀ l ∈ c.removed ++ c.added, Text.NoBreak l.text
  /-- Nor does a line of a hunk contain a hunk header. -/
  noInnerHeader : target path f ≠ [] → ∀ l ∈ f.changes.flatMap Change.body,
    hunkRe digits l.text = none
  /-- Nothing in a hunk is a label. -/
  noLabel : ∀ l ∈ hunks 0 0 f.changes, ∀ piece ∈ l.pieces, NoLabel piece
  /-- No line is added to a file that has the path of another with a tab behind it. -/
  noTab : f.IsLive → f.numbered ≠ [] → '\t' ∉ f.path

/-- **A regular diff**, behind files that leave a path open, or none. -/
def RegularFrom : List Char → List FileDiff → Prop
  | _, [] => True
  | path, f :: fs => Regular digits path f ∧ RegularFrom (target path f) fs

variable {digits} in
theorem RegularFrom.regular {path : List Char} {files : List FileDiff}
    (h : RegularFrom digits path files) : ∀ f ∈ files, ∃ path', Regular digits path' f := by
  induction files generalizing path with
  | nil => exact fun f hf => (nomatch hf)
  | cons f fs ih => exact List.forall_mem_cons.2 ⟨⟨path, h.1⟩, ih h.2⟩

/-- Whether the reader takes an added line for one. -/
def isRead (l : Line) : Bool := !"++".toList.isPrefixOf l.text

/-- The numbers of the added lines that are read. -/
def readLines (numbered : List (Nat × Line)) : List Nat :=
  (numbered.filter fun x => isRead x.2).map Prod.fst

/-- What the dictionary has for a path. -/
def lookup (changes : Keyed (List Char) (List Nat)) (path : List Char) : List Nat :=
  (changes.get? path).getD []

@[simp] theorem lookup_empty (path : List Char) : lookup Keyed.empty path = [] := rfl

@[simp] theorem lookup_extend (changes : Keyed (List Char) (List Nat)) (path q : List Char)
    (lines : List Nat) :
    lookup (extend changes path lines) q
      = lookup changes q ++ if q = path then lines else [] := by
  unfold lookup extend
  rw [Keyed.get?_put]
  by_cases hq : q = path
  · rw [if_pos hq, if_pos hq, hq]
    rfl
  · rw [if_neg hq, if_neg hq, List.append_nil]

/-! ## Hunk headers are read back -/

/-- A number is read back up to the first character that is not a digit. -/
theorem number?_decimal (n : Nat) {c : Char} (hc : c.toNat < 128) (hd : c.isDigit = false)
    (rest : List Char) : number? digits (decimal n ++ c :: rest) = some (n, c :: rest) := by
  have hdigits : ∀ d ∈ decimal n, digits.value d = some (d.toNat - '0'.toNat) := fun d hd =>
    value_decimal digits hd
  have hstop : (digits.value c).isSome = false := by
    rw [(digits.ascii c hc).2, hd]
    rfl
  have htake : (decimal n ++ c :: rest).takeWhile (fun c => (digits.value c).isSome)
      = decimal n := by
    rw [List.takeWhile_append_of_pos fun d hd => by rw [hdigits d hd]; rfl,
      List.takeWhile_cons_of_neg (by rw [hstop]; exact Bool.false_ne_true), List.append_nil]
  have hdrop : (decimal n ++ c :: rest).dropWhile (fun c => (digits.value c).isSome)
      = c :: rest := by
    rw [List.dropWhile_append_of_pos fun d hd => by rw [hdigits d hd]; rfl,
      List.dropWhile_cons_of_neg (by rw [hstop]; exact Bool.false_ne_true)]
  have hvalue := foldl_decimal digits n
  simp only [number?]
  rw [htake, hdrop]
  cases hn : decimal n with
  | nil => exact absurd hn Nat.toDigits_ne_nil
  | cons d ds => rw [hn] at hvalue; simp only [hvalue]

/-- A range is read back, the count where there is one. -/
theorem range_readBack (before count : Nat) {c : Char} (hc : c.toNat < 128)
    (hd : c.isDigit = false) (hcomma : c ≠ ',') (rest : List Char) :
    ∃ mid, number? digits (range before count ++ c :: rest)
        = some (if count = 0 then before else before + 1, mid) ∧
      (count? digits mid).1.getD 1 = count ∧ (count? digits mid).2 = c :: rest := by
  unfold range
  by_cases hone : count = 1
  · subst hone
    have hnone : count? digits (c :: rest) = (none, c :: rest) := by
      unfold count?
      split
      · rename_i h
        exact absurd (List.cons.inj h).1 hcomma
      · rfl
    exact ⟨c :: rest, number?_decimal digits _ hc hd _, by rw [hnone]; rfl, by rw [hnone]⟩
  · rw [if_neg hone, List.append_assoc, List.cons_append]
    have hsome : count? digits (',' :: (decimal count ++ c :: rest)) = (some count, c :: rest) := by
      simp only [count?, number?_decimal digits count hc hd]
    exact ⟨_, number?_decimal digits _ (by decide) (by decide) _, by rw [hsome]; rfl,
      by rw [hsome]⟩

theorem literal?_append (expected rest : List Char) :
    literal? expected (expected ++ rest) = some rest := by
  have h : expected.isPrefixOf (expected ++ rest) = true := by simp
  rw [literal?, if_pos h, List.drop_left]

/-- **A hunk header is read back.** -/
theorem hunkRe_hunkHeader (oldBefore newBefore : Nat) (c : Change) :
    hunkRe digits (hunkHeader oldBefore newBefore c).text
      = some (if c.added.length = 0 then newBefore else newBefore + 1, c.added.length) := by
  obtain ⟨mid, hold, -, holdRest⟩ := range_readBack digits oldBefore c.removed.length (c := ' ')
    (by decide) (by decide) (by decide)
    ('+' :: (range newBefore c.added.length ++ ' ' :: ("@@".toList
      ++ if c.heading = [] then [] else ' ' :: c.heading)))
  obtain ⟨mid', hnew, hcount, hnewRest⟩ := range_readBack digits newBefore c.added.length
    (c := ' ') (by decide) (by decide) (by decide)
    ("@@".toList ++ if c.heading = [] then [] else ' ' :: c.heading)
  have hat : hunkAt digits (hunkHeader oldBefore newBefore c).text
      = some (if c.added.length = 0 then newBefore else newBefore + 1, c.added.length) := by
    have htext : (hunkHeader oldBefore newBefore c).text
        = "@@ -".toList ++ (range oldBefore c.removed.length ++ ' ' :: '+' ::
          (range newBefore c.added.length ++ ' ' :: ("@@".toList
            ++ if c.heading = [] then [] else ' ' :: c.heading))) := by
      simp [hunkHeader, Line.of]
    have hplus : ∀ s, literal? " +".toList (' ' :: '+' :: s) = some s := fun s =>
      literal?_append [' ', '+'] s
    have hend : ∀ s, literal? " @@".toList (' ' :: ("@@".toList ++ s)) = some s := fun s =>
      literal?_append [' ', '@', '@'] s
    unfold hunkAt
    rw [htext]
    simp only [literal?_append, hold, holdRest, hplus, hnew, hcount, hnewRest, hend,
      Option.bind_eq_bind, Option.bind_some]
  rw [show (hunkHeader oldBefore newBefore c).text = '@' :: _ from rfl] at hat ⊢
  rw [hunkRe, hat]

/-! ## One line

Between two hunks the reader has nothing left to close: `Settled` says so of its variables, and
every line but a hunk header keeps it. -/

/-- Closing the open hunk adds nothing. -/
def Scan.Settled (s : Scan) : Prop :=
  s.hunkStart = none ∨ s.hunkHasBody = true ∨ s.hunkCount = 0

theorem Scan.Settled.finalizeHunk {s : Scan} (h : s.Settled) : s.finalizeHunk = s := by
  unfold Scan.finalizeHunk
  split
  · rename_i start hstart
    rw [if_neg]
    rintro ⟨-, hbody, hcount⟩
    rcases h with h | h | h
    · rw [h] at hstart
      cases hstart
    · rw [h] at hbody
      cases hbody
    · exact hcount h
  · rfl

variable {digits} in
/-- Outside a file nothing is read. -/
theorem scanLine_nowhere {s : Scan} {line : List Char} (h : NoLabel line) (hp : s.path = []) :
    scanLine digits s line = s := by
  rw [scanLine, h.1, h.2]
  simp only [Bool.false_eq_true, if_false, if_pos hp]

/-- A line between the hunks changes nothing that counts. -/
theorem scanLine_quiet {s : Scan} {line : List Char} (h : NoLabel line)
    (hre : s.path ≠ [] → hunkRe digits line = none)
    (hplus : ("+".toList.isPrefixOf line && !"+++".toList.isPrefixOf line) = false)
    (hs : s.Settled) :
    (scanLine digits s line).changes = s.changes ∧
      (scanLine digits s line).currentPath = s.currentPath ∧ (scanLine digits s line).Settled := by
  by_cases hp : s.path = []
  · rw [scanLine_nowhere h hp]
    exact ⟨rfl, rfl, hs⟩
  rw [scanLine, h.1, h.2, hre hp, hplus]
  simp only [Bool.false_eq_true, if_false, if_neg hp]
  split
  · exact ⟨rfl, rfl, hs⟩
  · split
    · exact ⟨rfl, rfl, hs⟩
    · split
      · exact ⟨rfl, rfl, .inr (.inl rfl)⟩
      · exact ⟨rfl, rfl, .inr (.inl rfl)⟩

variable {digits} in
/-- A removed line. -/
theorem scanLine_removed {s : Scan} {l : Line} {n : Nat} (hp : s.path ≠ [])
    (hn : s.newLine = some n) (hre : hunkRe digits (l.marked '-').text = none) :
    scanLine digits s (l.marked '-').text = { s with hunkHasBody := true } := by
  have h₁ : "+++ b/".toList.isPrefixOf (l.marked '-').text = false := rfl
  have h₂ : "+++ /dev/null".toList.isPrefixOf (l.marked '-').text = false := rfl
  have h₃ : "\\ No newline".toList.isPrefixOf (l.marked '-').text = false := rfl
  have h₄ : "+".toList.isPrefixOf (l.marked '-').text = false := rfl
  have h₅ : "-".toList.isPrefixOf (l.marked '-').text = true := rfl
  rw [scanLine, h₁, h₂, hre, hn, h₃, h₄, h₅]
  simp only [Bool.false_eq_true, if_false, if_neg hp, Bool.false_and, if_true]

variable {digits} in
/-- An added line. -/
theorem scanLine_added {s : Scan} {l : Line} {n : Nat} (hp : s.path ≠ [])
    (hn : s.newLine = some n) (hl : NoLabel (l.marked '+').text)
    (hre : hunkRe digits (l.marked '+').text = none) :
    scanLine digits s (l.marked '+').text
      = { s with
          changes := if isRead l then extend s.changes s.path [n] else s.changes
          newLine := some (n + 1)
          hunkHasBody := true } := by
  have h₃ : "\\ No newline".toList.isPrefixOf (l.marked '+').text = false := rfl
  have h₄ : "+".toList.isPrefixOf (l.marked '+').text = true := rfl
  have h₅ : "-".toList.isPrefixOf (l.marked '+').text = false := rfl
  have h₆ : (!"+++".toList.isPrefixOf (l.marked '+').text) = isRead l := rfl
  rw [scanLine, hl.1, hl.2, hre, hn, h₃, h₄, h₅, h₆]
  cases isRead l <;> simp only [Bool.false_eq_true, if_false, if_neg hp, Bool.true_and, if_true]

/-! ## One hunk -/

/-- Some lines added numbers under the current path and left the path alone. -/
structure Adds (s s' : Scan) (lines : List Nat) : Prop where
  /-- The path. -/
  path : s'.currentPath = s.currentPath
  /-- The numbers. -/
  lookup : ∀ q, lookup s'.changes q
    = lookup s.changes q ++ if q = s.path ∧ q ≠ [] then lines else []

theorem Adds.refl (s : Scan) : Adds s s [] := ⟨rfl, fun q => by simp⟩

theorem Adds.trans {s s' s'' : Scan} {lines lines' : List Nat} (h : Adds s s' lines)
    (h' : Adds s' s'' lines') : Adds s s'' (lines ++ lines') := by
  have hpath : s'.path = s.path := by unfold Scan.path; rw [h.path]
  refine ⟨h'.path.trans h.path, fun q => ?_⟩
  rw [h'.lookup, h.lookup, hpath]
  split
  · rw [List.append_assoc]
  · simp

@[simp] theorem numberFrom_nil (before : Nat) : numberFrom before [] = [] := rfl

theorem numberFrom_cons (before : Nat) (l : Line) (ls : List Line) :
    numberFrom before (l :: ls) = (before + 1, l) :: numberFrom (before + 1) ls := by
  unfold numberFrom
  rw [List.mapIdx_cons]
  refine congrArg _ (congrArg (fun f => List.mapIdx f ls) ?_)
  funext i x
  rw [show before + (i + 1) + 1 = before + 1 + i + 1 by omega]

theorem readLines_append (xs ys : List (Nat × Line)) :
    readLines (xs ++ ys) = readLines xs ++ readLines ys := by
  simp [readLines]

variable {digits} in
/-- The removed lines of a hunk. -/
theorem foldl_removed {removed : List Line} {s : Scan} {n : Nat} (hp : s.path ≠ [])
    (hn : s.newLine = some n) (hre : ∀ l ∈ removed, hunkRe digits (l.marked '-').text = none) :
    (removed.map fun l => (l.marked '-').text).foldl (scanLine digits) s
      = { s with hunkHasBody := s.hunkHasBody || !removed.isEmpty } := by
  induction removed generalizing s with
  | nil => simp
  | cons l ls ih =>
    rw [List.map_cons, List.foldl_cons, scanLine_removed hp hn (hre l List.mem_cons_self),
      ih (s := { s with hunkHasBody := true }) hp hn
        fun l' h' => hre l' (List.mem_cons_of_mem l h')]
    simp

variable {digits} in
/-- A marker. -/
theorem foldl_noNewline {isOpen : Bool} {s : Scan} {n : Nat} (hp : s.path ≠ [])
    (hn : s.newLine = some n) (hre : ∀ l ∈ noNewline isOpen, hunkRe digits l.text = none) :
    ((noNewline isOpen).map Line.text).foldl (scanLine digits) s = s := by
  cases isOpen with
  | false => rfl
  | true =>
    have hre := hre _ List.mem_cons_self
    change scanLine digits s (Line.of "\\ No newline at end of file".toList).text = s
    have h₁ : "+++ b/".toList.isPrefixOf
        (Line.of "\\ No newline at end of file".toList).text = false := rfl
    have h₂ : "+++ /dev/null".toList.isPrefixOf
        (Line.of "\\ No newline at end of file".toList).text = false := rfl
    have h₃ : "\\ No newline".toList.isPrefixOf
        (Line.of "\\ No newline at end of file".toList).text = true := rfl
    rw [scanLine, h₁, h₂, hre, hn, h₃]
    simp only [Bool.false_eq_true, if_false, if_neg hp, if_true]

variable {digits} in
/-- The added lines of a hunk, by induction on them with the number of the next one. -/
theorem foldl_added {added : List Line} {s : Scan} (before : Nat) (hp : s.path ≠ [])
    (hn : s.newLine = some (before + 1))
    (hl : ∀ l ∈ added, NoLabel (l.marked '+').text ∧
      hunkRe digits (l.marked '+').text = none) :
    let s' := (added.map fun l => (l.marked '+').text).foldl (scanLine digits) s
    Adds s s' (readLines (numberFrom before added)) ∧
      s'.newLine = some (before + added.length + 1) ∧ s'.hunkCount = s.hunkCount ∧
      s'.hunkHasBody = (s.hunkHasBody || !added.isEmpty) := by
  induction added generalizing s before with
  | nil => exact ⟨Adds.refl s, hn, rfl, by simp⟩
  | cons l ls ih =>
    obtain ⟨hlabel, hre⟩ := hl l List.mem_cons_self
    have hstep := scanLine_added hp hn hlabel hre
    have hone : Adds s (scanLine digits s (l.marked '+').text)
        (readLines [(before + 1, l)]) := by
      rw [hstep]
      refine ⟨rfl, fun q => ?_⟩
      cases hread : isRead l with
      | false => simp [readLines, hread]
      | true =>
        rw [if_pos rfl, lookup_extend]
        by_cases hq : q = s.path
        · rw [if_pos hq, if_pos ⟨hq, hq ▸ hp⟩]
          simp [readLines, hread]
        · rw [if_neg hq, if_neg fun h => hq h.1]
    obtain ⟨hadds, hnext, hcount, hbody⟩ :=
      ih (s := scanLine digits s (l.marked '+').text) (before + 1)
        (by rw [hstep]; exact hp) (by rw [hstep])
        fun l' h' => hl l' (List.mem_cons_of_mem l h')
    rw [List.map_cons, List.foldl_cons]
    refine ⟨?_, ?_, ?_, ?_⟩
    · rw [numberFrom_cons, ← List.singleton_append, readLines_append]
      exact hone.trans hadds
    · rw [hnext, List.length_cons]
      congr 1
      omega
    · rw [hcount, hstep]
    · rw [hbody, hstep]
      simp

theorem mem_body {c : Change} {l : Line} :
    l ∈ c.body ↔ (((∃ r ∈ c.removed, r.marked '-' = l) ∨ l ∈ noNewline c.removedOpen) ∨
      ∃ a ∈ c.added, a.marked '+' = l) ∨ l ∈ noNewline c.addedOpen := by
  simp only [Change.body, List.mem_append, List.mem_map]

variable {digits} in
/-- Outside a file everything is passed over. -/
theorem foldl_nowhere {lines : List (List Char)} {s : Scan} (hp : s.path = [])
    (hl : ∀ line ∈ lines, NoLabel line) : lines.foldl (scanLine digits) s = s := by
  induction lines with
  | nil => rfl
  | cons line lines ih =>
    rw [List.foldl_cons, scanLine_nowhere (hl line List.mem_cons_self) hp]
    exact ih fun line' h' => hl line' (List.mem_cons_of_mem line h')

/-- The body of a hunk, behind its header. -/
theorem foldl_body {c : Change} {s : Scan} (before : Nat) (hp : s.path ≠ [])
    (hn : s.newLine = some (if c.added.length = 0 then before else before + 1))
    (hcount : s.hunkCount = c.added.length)
    (hl : ∀ a ∈ c.added, NoLabel (a.marked '+').text)
    (hre : ∀ l ∈ c.body, hunkRe digits l.text = none) :
    let s' := (c.body.map Line.text).foldl (scanLine digits) s
    Adds s s' (readLines (numberFrom before c.added)) ∧ s'.Settled := by
  have hsplit : c.body.map Line.text
      = (c.removed.map fun l => (l.marked '-').text) ++ (noNewline c.removedOpen).map Line.text
        ++ (c.added.map fun l => (l.marked '+').text)
        ++ (noNewline c.addedOpen).map Line.text := by
    simp [Change.body, Function.comp_def]
  have hmark : ∀ l ∈ noNewline c.removedOpen, hunkRe digits l.text = none := fun l h =>
    hre l (mem_body.2 (.inl (.inl (.inr h))))
  have hmark' : ∀ l ∈ noNewline c.addedOpen, hunkRe digits l.text = none := fun l h =>
    hre l (mem_body.2 (.inr h))
  rw [hsplit, List.foldl_append, List.foldl_append, List.foldl_append,
    foldl_removed hp hn fun l h => hre _ (mem_body.2 (.inl (.inl (.inl ⟨l, h, rfl⟩)))),
    foldl_noNewline (s := { s with hunkHasBody := s.hunkHasBody || !c.removed.isEmpty }) hp hn
      hmark]
  cases hadded : c.added with
  | nil =>
    rw [hadded] at hcount
    simp only [List.map_nil, List.foldl_nil]
    rw [foldl_noNewline (s := { s with hunkHasBody := s.hunkHasBody || !c.removed.isEmpty }) hp hn
      hmark']
    exact ⟨⟨rfl, fun q => by simp [readLines]⟩, .inr (.inr hcount)⟩
  | cons a as =>
    rw [hadded] at hn hl
    obtain ⟨hadds, hnext, -, hbody⟩ :=
      foldl_added (s := { s with hunkHasBody := s.hunkHasBody || !c.removed.isEmpty })
        before hp hn fun l (h : l ∈ a :: as) => ⟨hl l h,
          hre _ (mem_body.2 (.inl (.inr ⟨l, hadded ▸ h, rfl⟩)))⟩
    have hpath := hadds.path
    rw [foldl_noNewline (by unfold Scan.path; rw [hpath]; exact hp) hnext hmark']
    refine ⟨⟨hadds.path, hadds.lookup⟩, .inr (.inl ?_)⟩
    rw [hbody]
    simp

variable {digits} in
/-- **One hunk.** -/
theorem foldl_hunk {c : Change} {s : Scan} (oldBefore newBefore : Nat) (hs : s.Settled)
    (hp : s.path ≠ []) (hl : ∀ a ∈ c.added, NoLabel (a.marked '+').text)
    (hre : ∀ l ∈ c.body, hunkRe digits l.text = none) :
    let s' := ((hunkHeader oldBefore newBefore c :: c.body).map Line.text).foldl
      (scanLine digits) s
    Adds s s' (readLines (numberFrom newBefore c.added)) ∧ s'.Settled := by
  have h₁ : "+++ b/".toList.isPrefixOf (hunkHeader oldBefore newBefore c).text = false := rfl
  have h₂ : "+++ /dev/null".toList.isPrefixOf (hunkHeader oldBefore newBefore c).text = false := rfl
  rw [List.map_cons, List.foldl_cons, scanLine, h₁, h₂, hunkRe_hunkHeader, hs.finalizeHunk]
  simp only [Bool.false_eq_true, if_false, if_neg hp]
  obtain ⟨hadds, hsettled⟩ := foldl_body digits newBefore
    (s := { s with
      hunkStart := some (if c.added.length = 0 then newBefore else newBefore + 1)
      hunkCount := c.added.length
      newLine := some (if c.added.length = 0 then newBefore else newBefore + 1)
      hunkHasBody := false }) hp rfl rfl hl hre
  exact ⟨⟨hadds.path, hadds.lookup⟩, hsettled⟩

variable {digits} in
/-- The hunks of a file, by induction on the changes with the lines before them. -/
theorem foldl_hunks {changes : List Change} {s : Scan} (oldBefore newBefore : Nat)
    (hs : s.Settled) (hp : s.path ≠ [])
    (hl : ∀ c ∈ changes, ∀ a ∈ c.added, NoLabel (a.marked '+').text)
    (hre : ∀ l ∈ changes.flatMap Change.body, hunkRe digits l.text = none) :
    let s' := ((hunks oldBefore newBefore changes).map Line.text).foldl (scanLine digits) s
    Adds s s' (readLines (numberedFrom newBefore changes)) ∧ s'.Settled := by
  induction changes generalizing s oldBefore newBefore with
  | nil => exact ⟨Adds.refl s, hs⟩
  | cons c cs ih =>
    obtain ⟨hadds, hsettled⟩ := foldl_hunk (oldBefore + c.kept.length)
      (newBefore + c.kept.length) hs hp (hl c List.mem_cons_self) fun l h =>
        hre l (List.mem_flatMap.2 ⟨c, List.mem_cons_self, h⟩)
    have hpath := congrArg (Option.getD · []) hadds.path
    obtain ⟨hlater, hend⟩ := ih (oldBefore + c.kept.length + c.removed.length)
      (newBefore + c.kept.length + c.added.length) hsettled (fun h => hp (hpath.symm.trans h))
      (fun d hd => hl d (List.mem_cons_of_mem c hd)) fun l h => by
        obtain ⟨d, hd, hin⟩ := List.mem_flatMap.1 h
        exact hre l (List.mem_flatMap.2 ⟨d, List.mem_cons_of_mem c hd, hin⟩)
    rw [hunks, List.map_append, List.foldl_append, numberedFrom, readLines_append]
    exact ⟨hadds.trans hlater, hend⟩

/-- An added line is a line of its hunk. -/
theorem mem_hunks_of_added {changes : List Change} {c : Change} (hc : c ∈ changes) {a : Line}
    (ha : a ∈ c.added) (oldBefore newBefore : Nat) :
    a.marked '+' ∈ hunks oldBefore newBefore changes := by
  induction changes generalizing oldBefore newBefore with
  | nil => cases hc
  | cons d ds ih =>
    rw [hunks, List.cons_append, List.mem_cons, List.mem_append]
    rcases List.mem_cons.1 hc with rfl | hc
    · exact .inr (.inl (mem_body.2 (.inl (.inr ⟨a, ha, rfl⟩))))
    · exact .inr (.inr (ih hc _ _))

variable {digits} in
/-- **The hunks of a regular file**, with what the reader takes for lines. -/
theorem foldl_hunkPieces {f : FileDiff} {s : Scan} {path : List Char} (hs : s.Settled)
    (hf : Regular digits path f) (htarget : s.path = target path f) :
    let s' := ((hunks 0 0 f.changes).flatMap Line.pieces).foldl (scanLine digits) s
    Adds s s' (readLines f.numbered) ∧ s'.Settled := by
  by_cases hp : s.path = []
  · have hall : ∀ line ∈ (hunks 0 0 f.changes).flatMap Line.pieces, NoLabel line := by
      intro line h
      obtain ⟨l, hl, hpiece⟩ := List.mem_flatMap.1 h
      exact hf.noLabel l hl line hpiece
    rw [foldl_nowhere hp hall]
    refine ⟨⟨rfl, fun q => ?_⟩, hs⟩
    rw [if_neg fun h => h.2 (h.1.trans hp), List.append_nil]
  · have hwhole := hf.whole (htarget ▸ hp)
    have hlines : ∀ l ∈ hunks 0 0 f.changes, Text.NoBreak l.text := fun l => noBreak_hunks hwhole
    rw [flatMap_pieces hlines]
    refine foldl_hunks 0 0 hs hp (fun c hc a ha => ?_) (hf.noInnerHeader (htarget ▸ hp))
    have hin := mem_hunks_of_added hc ha 0 0
    refine hf.noLabel _ hin _ ?_
    rw [Line.pieces_of_noBreak (hlines _ hin)]
    exact List.mem_cons_self

/-! ## One file -/

theorem noLabel_of_head {c : Char} (hc : c ≠ '+') (cs : List Char) : NoLabel (c :: cs) ∧
    ("+".toList.isPrefixOf (c :: cs) && !"+++".toList.isPrefixOf (c :: cs)) = false := by
  have hne : ('+' == c) = false := beq_eq_false_iff_ne.2 hc.symm
  have hhead : ∀ t : List Char, ('+' :: t).isPrefixOf (c :: cs) = false := fun t => by
    rw [List.isPrefixOf, hne, Bool.false_and]
  exact ⟨⟨hhead _, hhead _⟩, by rw [show "+".toList = ['+'] from rfl, hhead]; rfl⟩

/-- No line before the labels starts like one. -/
theorem extended_head {f : FileDiff} {l : Line} (h : l ∈ f.extended) :
    ∃ c cs, l.text = c :: cs ∧ c ≠ '+' := by
  unfold FileDiff.extended at h
  rw [List.cons_append, List.cons_append, List.mem_cons, List.mem_append, List.mem_append] at h
  rcases h with rfl | (hm | hr) | hi
  · exact ⟨'d', _, rfl, by decide⟩
  · unfold FileDiff.modeLines at hm
    split at hm
    · obtain rfl := List.mem_singleton.1 hm
      exact ⟨'n', _, rfl, by decide⟩
    · obtain rfl := List.mem_singleton.1 hm
      exact ⟨'d', _, rfl, by decide⟩
    · split at hm
      · cases hm
      · simp only [List.mem_cons, List.not_mem_nil, or_false] at hm
        rcases hm with rfl | rfl
        · exact ⟨'o', _, rfl, by decide⟩
        · exact ⟨'n', _, rfl, by decide⟩
  · unfold FileDiff.renameLines at hr
    split at hr
    · cases hr
    · simp only [List.mem_cons, List.not_mem_nil, or_false] at hr
      rcases hr with rfl | rfl | rfl
      · exact ⟨'s', _, rfl, by decide⟩
      · exact ⟨'r', _, rfl, by decide⟩
      · exact ⟨'r', _, rfl, by decide⟩
  · unfold FileDiff.indexLines at hi
    split at hi
    · cases hi
    · obtain rfl := List.mem_singleton.1 hi
      exact ⟨'i', _, rfl, by decide⟩

variable {digits} in
/-- The lines before the label of the new side. -/
theorem foldl_quiet {lines : List Line} {s : Scan} (hs : s.Settled)
    (hl : ∀ l ∈ lines, (∃ c cs, l.text = c :: cs ∧ c ≠ '+') ∧
      (s.path ≠ [] → hunkRe digits l.text = none)) :
    let s' := (lines.map Line.text).foldl (scanLine digits) s
    s'.changes = s.changes ∧ s'.currentPath = s.currentPath ∧ s'.Settled := by
  induction lines generalizing s with
  | nil => exact ⟨rfl, rfl, hs⟩
  | cons l ls ih =>
    obtain ⟨⟨c, cs, htext, hc⟩, hre⟩ := hl l List.mem_cons_self
    obtain ⟨hlabel, hplus⟩ := noLabel_of_head hc cs
    rw [← htext] at hlabel hplus
    obtain ⟨hchanges, hpath, hsettled⟩ := scanLine_quiet digits hlabel hre hplus hs
    have hsame := congrArg (Option.getD · []) hpath
    obtain ⟨h₁, h₂, h₃⟩ := ih hsettled fun l' h' =>
      ⟨(hl l' (List.mem_cons_of_mem l h')).1, fun hp =>
        (hl l' (List.mem_cons_of_mem l h')).2 fun h => hp (hsame.trans h)⟩
    exact ⟨h₁.trans hchanges, h₂.trans hpath, h₃⟩

variable {digits} in
/-- The label of the new side decides which path is open. -/
theorem scanLine_newLabel {f : FileDiff} {s : Scan} (hs : s.Settled) (hc : f.changes ≠ [])
    (hre : s.path ≠ [] → f.IsLive → f.path.any mustQuote = true →
      hunkRe digits f.newLabel.text = none) :
    let s' := scanLine digits s f.newLabel.text
    s'.path = target s.path f ∧ (∀ q, lookup s'.changes q = lookup s.changes q) ∧ s'.Settled := by
  unfold target
  rw [if_neg hc]
  by_cases hdeleted : f.side = .deleted
  · have htext : f.newLabel.text = "+++ /dev/null".toList := by
      unfold FileDiff.newLabel
      rw [if_pos hdeleted]
      rfl
    have h₁ : "+++ b/".toList.isPrefixOf "+++ /dev/null".toList = false := rfl
    have h₂ : "+++ /dev/null".toList.isPrefixOf "+++ /dev/null".toList = true := rfl
    rw [if_pos hdeleted, htext, scanLine, h₁, h₂, hs.finalizeHunk, if_neg Bool.false_ne_true,
      if_pos rfl]
    exact ⟨rfl, fun _ => rfl, hs⟩
  · rw [if_neg hdeleted]
    by_cases hquote : f.path.any mustQuote = true
    · have htext : f.newLabel.text = "+++ \"b/".toList ++ (f.path.flatMap escape ++ '"' ::
          labelEnd f.path) := by
        simp [FileDiff.newLabel, hdeleted, label, hquote, Line.of]
      rw [htext] at hre ⊢
      obtain ⟨hchanges, hpath, hsettled⟩ :=
        scanLine_quiet digits ⟨rfl, rfl⟩ (fun hp => hre hp hdeleted hquote) rfl hs
      rw [if_pos hquote]
      refine ⟨?_, fun q => by rw [hchanges], hsettled⟩
      unfold Scan.path
      rw [hpath]
    · have htext : f.newLabel.text = "+++ b/".toList ++ (f.path ++ labelEnd f.path) := by
        simp [FileDiff.newLabel, hdeleted, label, hquote, Line.of]
      have h₁ : "+++ b/".toList.isPrefixOf ("+++ b/".toList ++ (f.path ++ labelEnd f.path))
          = true := rfl
      rw [if_neg hquote, htext, scanLine, if_pos h₁]
      exact ⟨rfl, fun q => by simp, .inl rfl⟩

/-- What the reader takes for the lines of a file. -/
theorem pieces_lines (f : FileDiff) : f.lines.flatMap Line.pieces
    = f.extended.map Line.text ++ if f.changes = [] then [] else
      f.oldLabel.text :: f.newLabel.text :: (hunks 0 0 f.changes).flatMap Line.pieces := by
  unfold FileDiff.lines
  rw [List.flatMap_append, flatMap_pieces fun l h => FileDiff.noBreak_extended h]
  split
  · rfl
  · rw [List.flatMap_cons, List.flatMap_cons, Line.pieces_of_noBreak f.noBreak_labels.1,
      Line.pieces_of_noBreak f.noBreak_labels.2]
    rfl

variable {digits} in
/-- **One file.** -/
theorem foldl_file {f : FileDiff} {s : Scan} (hs : s.Settled) (hf : Regular digits s.path f) :
    let s' := (f.lines.flatMap Line.pieces).foldl (scanLine digits) s
    s'.path = target s.path f ∧ s'.Settled ∧ ∀ q, lookup s'.changes q
      = lookup s.changes q
        ++ if q = target s.path f ∧ q ≠ [] then readLines f.numbered else [] := by
  have hextended : ∀ l ∈ f.extended, (∃ c cs, l.text = c :: cs ∧ c ≠ '+') ∧
      (s.path ≠ [] → hunkRe digits l.text = none) := fun l h =>
    ⟨extended_head h, fun hp => hf.noHeader hp l (List.mem_append_left _ h)⟩
  rw [pieces_lines]
  by_cases hc : f.changes = []
  · obtain ⟨hchanges, hpath, hsettled⟩ := foldl_quiet hs hextended
    rw [if_pos hc, List.append_nil]
    refine ⟨?_, hsettled, fun q => ?_⟩
    · unfold target Scan.path
      rw [if_pos hc, hpath]
    · rw [hchanges]
      simp [FileDiff.numbered, hc, numberedFrom, readLines]
  · have hold : f.oldLabel ∈ headLines f := by simp [headLines, hc]
    obtain ⟨hchanges, hpath, hsettled⟩ := foldl_quiet hs
      fun l (h : l ∈ f.extended ++ [f.oldLabel]) => by
        rcases List.mem_append.1 h with hin | hin
        · exact hextended l hin
        · obtain rfl := List.mem_singleton.1 hin
          exact ⟨⟨'-', _, rfl, by decide⟩, fun hp => hf.noHeader hp _ hold⟩
    have hsame : ∀ p : Option (List Char), p = s.currentPath → p.getD [] = s.path := fun p h => by
      rw [h]
      rfl
    obtain ⟨hopen, hlabel, hready⟩ := scanLine_newLabel hsettled hc fun hp hlive hquote =>
      hf.noHeader (hsame _ hpath ▸ hp) _ (by simp [headLines, hc, hlive, hquote])
    have htarget := hopen.trans (congrArg (fun p => target p f) (hsame _ hpath))
    obtain ⟨hadds, hend⟩ := foldl_hunkPieces hready hf htarget
    have hsplit : ∀ texts, f.extended.map Line.text ++ f.oldLabel.text :: f.newLabel.text :: texts
        = (f.extended ++ [f.oldLabel]).map Line.text ++ f.newLabel.text :: texts := fun texts => by
      simp
    rw [if_neg hc, hsplit, List.foldl_append, List.foldl_cons]
    refine ⟨?_, hend, fun q => ?_⟩
    · rw [← htarget]
      exact congrArg (Option.getD · []) hadds.path
    · rw [hadds.lookup, hlabel, hchanges, htarget]

/-! ## A whole diff

The numbers of a file go to the path that is open behind its labels.  That is either the label of an
unquoted path, with the tab it may have, or the one of the file before. -/

/-- What the reader can have open: nothing, or an unquoted path with the end of its label line. -/
def IsLabel (q : List Char) : Prop :=
  q = [] ∨ ∃ p, p.any mustQuote = false ∧ q = p ++ labelEnd p

theorem IsLabel.target {path : List Char} (h : IsLabel path) (f : FileDiff) :
    IsLabel (target path f) := by
  unfold GitDiff.target
  split
  · exact h
  · split
    · exact .inl rfl
    · split
      · exact h
      · rename_i hq
        exact .inr ⟨f.path, by simpa using hq, rfl⟩

/-- A path with a space or one that is quoted is never open. -/
theorem not_isLabel {f : FileDiff} (htab : '\t' ∉ f.path) (hplain : isPlain f.path = false) :
    ¬ IsLabel f.path := by
  rintro (h | ⟨p, hp, hpath⟩)
  · exact f.path_ne h
  · unfold labelEnd at hpath
    split at hpath
    · exact htab (by rw [hpath]; simp)
    · rename_i hspace
      rw [List.append_nil] at hpath
      subst hpath
      simp [isPlain, hp, hspace] at hplain

theorem target_of_plain {f : FileDiff} (hlive : f.IsLive) (hc : f.changes ≠ [])
    (hplain : isPlain f.path = true) (path : List Char) : target path f = f.path := by
  simp only [isPlain, Bool.and_eq_true, Bool.not_eq_true', List.contains_eq_mem,
    decide_eq_false_iff_not] at hplain
  unfold target labelEnd
  rw [if_neg hc, if_neg hlive, hplain.1, if_neg Bool.false_ne_true, if_neg hplain.2,
    List.append_nil]

variable {digits} in
/-- **The files of a diff in order.**  Nothing is filed under a path that is no label; and where
every line is added to a plain path, every number is filed under the path of its file. -/
theorem foldl_files {files : List FileDiff} {s : Scan} (hs : s.Settled)
    (hf : RegularFrom digits s.path files) :
    let s' := ((files.flatMap FileDiff.lines).flatMap Line.pieces).foldl (scanLine digits) s
    s'.Settled ∧
      (IsLabel s.path → ∀ q, ¬ IsLabel q → lookup s'.changes q = lookup s.changes q) ∧
      ((∀ f ∈ files, f.IsLive → f.numbered ≠ [] → isPlain f.path = true) →
        ∀ q, q ≠ [] → lookup s'.changes q = lookup s.changes q
          ++ files.flatMap fun f => if f.IsLive ∧ f.path = q then readLines f.numbered else []) := by
  induction files generalizing s with
  | nil => exact ⟨hs, fun _ _ _ => rfl, fun _ q _ => by simp⟩
  | cons f fs ih =>
    obtain ⟨hpath, hsettled, hlookup⟩ := foldl_file hs hf.1
    obtain ⟨hend, hother, hplain⟩ := ih hsettled (hpath ▸ hf.2)
    rw [List.flatMap_cons, List.flatMap_append, List.foldl_append]
    refine ⟨hend, fun hlabel q hq => ?_, fun h q hq => ?_⟩
    · rw [hother (by rw [hpath]; exact hlabel.target f) q hq, hlookup, if_neg, List.append_nil]
      rintro ⟨rfl, -⟩
      exact hq (hlabel.target f)
    · rw [hplain (fun g hg => h g (List.mem_cons_of_mem f hg)) q hq, hlookup, List.append_assoc]
      refine congrArg (lookup s.changes q ++ ·) (congrArg (· ++ _) ?_)
      change (if q = target s.path f ∧ q ≠ [] then readLines f.numbered else [])
        = if f.IsLive ∧ f.path = q then readLines f.numbered else []
      by_cases hn : f.numbered = []
      · simp [hn, readLines]
      · have hc : f.changes ≠ [] := fun hc => hn (by simp [FileDiff.numbered, hc, numberedFrom])
        by_cases hlive : f.IsLive
        · rw [target_of_plain hlive hc (h f List.mem_cons_self hlive hn)]
          by_cases hfq : f.path = q
          · rw [if_pos ⟨hfq.symm, hq⟩, if_pos ⟨hlive, hfq⟩]
          · rw [if_neg fun h => hfq h.1.symm, if_neg fun h => hfq h.2]
        · have htarget : target s.path f = [] := by
            unfold target
            rw [if_neg hc, if_pos (by simpa [FileDiff.IsLive] using hlive)]
          rw [htarget, if_neg fun h => h.2 h.1, if_neg fun h => hlive h.1]

theorem mem_sortedSet {lines : List Nat} {n : Nat} : n ∈ sortedSet lines ↔ n ∈ lines := by
  unfold sortedSet
  rw [List.mem_insertionSort, List.mem_dedup]

variable {digits} in
/-- The reader's answer in terms of its loop over the printed lines. -/
theorem mem_parse {files : List FileDiff} (hf : RegularFrom digits [] files)
    (path : List Char) (n : Nat) :
    n ∈ ((parseUnifiedDiff digits (diffText files)).get? path).getD [] ↔
      n ∈ lookup (((files.flatMap FileDiff.lines).flatMap Line.pieces).foldl (scanLine digits)
        Scan.start).changes path := by
  have hsettled := (foldl_files (s := Scan.start) (.inl rfl) hf).1
  unfold parseUnifiedDiff scanText diffText
  rw [splitlines_render, hsettled.finalizeHunk, Keyed.get?_updateWhere]
  unfold lookup
  cases Keyed.get? _ path with
  | none => simp
  | some lines => simp [mem_sortedSet]

variable {digits} in
/-- **What is read of a regular diff** whose lines are added to plain paths. -/
theorem lookup_parse {files : List FileDiff} (hf : RegularFrom digits [] files)
    (hdistinct : ((files.filter fun f => f.IsLive).map FileDiff.path).Nodup)
    (hplain : ∀ f ∈ files, f.IsLive → f.numbered ≠ [] → isPlain f.path = true)
    {f : FileDiff} (hin : f ∈ files) (hlive : f.IsLive) (n : Nat) :
    n ∈ ((parseUnifiedDiff digits (diffText files)).get? f.path).getD [] ↔
      n ∈ readLines f.numbered := by
  rw [mem_parse hf, (foldl_files (s := Scan.start) (.inl rfl) hf).2.2 hplain f.path f.path_ne]
  rw [show lookup Scan.start.changes f.path = [] from rfl, List.nil_append, List.mem_flatMap]
  constructor
  · rintro ⟨g, hg, hn⟩
    split at hn
    · rename_i hsame
      have hgf : g = f := List.inj_on_of_nodup_map hdistinct
        (List.mem_filter.2 ⟨hg, by simpa using hsame.1⟩)
        (List.mem_filter.2 ⟨hin, by simpa using hlive⟩) hsame.2
      rwa [hgf] at hn
    · cases hn
  · exact fun hn => ⟨f, hin, by rwa [if_pos ⟨hlive, rfl⟩]⟩

variable {digits} in
/-- **When a regular diff is read exactly**: if and only if every line that is added to a file of
the new side is one that the reader takes for an added line, and the file's path is printed as it
stands. -/
theorem exact_iff {files : List FileDiff} (hf : RegularFrom digits [] files)
    (hdistinct : ((files.filter fun f => f.IsLive).map FileDiff.path).Nodup) :
    Exact digits files ↔ ∀ f ∈ files, f.IsLive → ∀ x ∈ f.numbered,
      isRead x.2 = true ∧ isPlain f.path = true := by
  constructor
  · intro h
    have hplain : ∀ f ∈ files, f.IsLive → f.numbered ≠ [] → isPlain f.path = true := by
      intro f hin hlive hn
      by_contra hbad
      obtain ⟨x, hx⟩ := List.exists_mem_of_ne_nil _ hn
      have hread := (h f hin hlive x.1).2 (FileDiff.isAdded_iff.2 ⟨x.2, hx⟩)
      obtain ⟨path, hregular⟩ := hf.regular f hin
      rw [mem_parse hf, (foldl_files (s := Scan.start) (.inl rfl) hf).2.1 (.inl rfl) f.path
        (not_isLabel (hregular.noTab hlive hn) (by simpa using hbad))] at hread
      cases hread
    intro f hin hlive x hx
    refine ⟨?_, hplain f hin hlive (List.ne_nil_of_mem hx)⟩
    have hread := (h f hin hlive x.1).2 (FileDiff.isAdded_iff.2 ⟨x.2, hx⟩)
    rw [lookup_parse hf hdistinct hplain hin hlive] at hread
    obtain ⟨y, hy, hnum⟩ := List.mem_map.1 hread
    obtain ⟨hyin, hyread⟩ := List.mem_filter.1 hy
    have hline : y.2 = x.2 := FileDiff.numbered_functional (n := x.1) (hnum ▸ hyin) hx
    rwa [← hline]
  · intro h f hin hlive n
    have hplain : ∀ g ∈ files, g.IsLive → g.numbered ≠ [] → isPlain g.path = true := by
      intro g hg hl hn
      obtain ⟨x, hx⟩ := List.exists_mem_of_ne_nil _ hn
      exact (h g hg hl x hx).2
    have hall : f.numbered.filter (fun x => isRead x.2) = f.numbered :=
      List.filter_eq_self.2 fun x hx => (h f hin hlive x hx).1
    rw [lookup_parse hf hdistinct hplain hin hlive, readLines, hall, FileDiff.isAdded_iff,
      List.mem_map]
    constructor
    · rintro ⟨x, hx, rfl⟩
      exact ⟨x.2, hx⟩
    · rintro ⟨l, hl⟩
      exact ⟨(n, l), hl, rfl⟩

/-- A file with one changed line and one new one. -/
def oneFile (path : List Char) (path_ne : path ≠ []) (added : List (List Char)) : FileDiff where
  oldPath := path
  path := path
  side := .both
  oldMode := []
  newMode := []
  oldBlob := [1]
  newBlob := [2]
  similarity := 0
  changes := [⟨[Line.of "int n;".toList], [Line.of "n = 1;".toList], added.map Line.of,
    "void f()".toList, false, true⟩]
  rest := []
  path_ne := path_ne

/-- A file that is gone; its line had a form feed and a hunk header in it. -/
def goneFile (path : List Char) (path_ne : path ≠ []) : FileDiff where
  oldPath := path
  path := path
  side := .deleted
  oldMode := []
  newMode := []
  oldBlob := [1]
  newBlob := [2]
  similarity := 0
  changes := [⟨[], [Line.of "a\x0c@@ -1 +1 @@".toList], [], [], false, false⟩]
  rest := []
  path_ne := path_ne

/-- A diff the theorem is about: nothing of the file that is gone is read. -/
theorem exact_iff_ordinary :
    Exact DigitTable.asciiOnly [oneFile "src/a.c".toList (by decide) ["n = 2;".toList],
        goneFile "src/b.c".toList (by decide)] ↔
      ∀ f ∈ [oneFile "src/a.c".toList (by decide) ["n = 2;".toList],
        goneFile "src/b.c".toList (by decide)], f.IsLive →
        ∀ x ∈ f.numbered, isRead x.2 = true ∧ isPlain f.path = true :=
  exact_iff
    ⟨⟨fun _ => by decide, fun _ => by decide, fun _ => by decide, by decide, fun _ _ => by decide⟩,
      ⟨fun _ => by decide, fun h => absurd (by decide) h, fun h => absurd (by decide) h,
        by decide, fun _ _ => by decide⟩, trivial⟩
    (by decide)

/-- **A line that increments is lost**: `++n;` is printed as `+++n;`. -/
theorem increment_not_read :
    ¬ ∀ files : List FileDiff, ((files.filter fun f => f.IsLive).map FileDiff.path).Nodup →
      Exact DigitTable.asciiOnly files := by
  intro h
  have hlost := h [oneFile "src/a.c".toList (by decide) ["n = 2;".toList, "++n;".toList]]
    (by decide) _ List.mem_cons_self (by decide) 3
  have hread : (parseUnifiedDiff DigitTable.asciiOnly (diffText
      [oneFile "src/a.c".toList (by decide) ["n = 2;".toList, "++n;".toList]])).get?
        "src/a.c".toList = some [2] := by
    decide +kernel
  have hadded : (oneFile "src/a.c".toList (by decide)
      ["n = 2;".toList, "++n;".toList]).IsAdded 3 := ⟨_, by decide, rfl⟩
  have hin := hlost.2 hadded
  change 3 ∈ ((parseUnifiedDiff DigitTable.asciiOnly (diffText
      [oneFile "src/a.c".toList (by decide) ["n = 2;".toList, "++n;".toList]])).get?
        "src/a.c".toList).getD [] at hin
  rw [hread] at hin
  exact absurd hin (by decide)

end GitDiff

end FosCoverage
