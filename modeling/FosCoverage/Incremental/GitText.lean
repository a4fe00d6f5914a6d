import FosCoverage.Import.Lcov
import FosCoverage.Lib.Table
import FosCoverage.Lib.Text
import Mathlib.Data.List.Basic

/-!
# The text that git prints

The incremental analysis starts `git` and reads what it prints.  This file has the printed text as
data: what the repository's parsers are compared with, not a part of the repository.

* `label` is a path as git prints it: as it stands, or, when it has a control character, a quote, a
  backslash or a character outside ASCII, quoted with C escapes.  A space is not quoted; the two
  label lines of a diff have a tab behind such a path instead.
* `FileDiff` is one file of a diff without context lines, with the stretches of its new side that
  were kept and added and of its old side that were removed.  `FileDiff.lines` is what
  `git diff --unified=0` prints for it; the numbers of a hunk header are counted from these
  stretches.
* `BlameEntry` is one line of a file with what `git blame --line-porcelain` prints about it.
* `FileDiff.numbered` are the added lines with their numbers on the new side, which are the numbers
  the new contents give them (`isAdded_iff`).
-/

set_option autoImplicit false

namespace FosCoverage.Git

/-! ## Numbers and paths -/

/-- A number in decimal. -/
def decimal (n : Nat) : List Char := Nat.toDigits 10 n

/-- A number with the digits of a file mode. -/
def mode (m : List (Fin 8)) : List Char := m.map fun d => Nat.digitChar d.val

/-- An object name, or an abbreviation of one. -/
def hex (digits : List (Fin 16)) : List Char := digits.map fun d => Nat.digitChar d.val

/-- The characters that make git quote a path. -/
def mustQuote (c : Char) : Bool := c.toNat < 32 || c == '"' || c == '\\' || 127 ≤ c.toNat

/-- The escapes with a letter of their own. -/
def letterEscapes : List (Char × Char) :=
  [('\x07', 'a'), ('\x08', 'b'), ('\t', 't'), ('\n', 'n'), ('\x0b', 'v'), ('\x0c', 'f'),
    ('\r', 'r'), ('"', '"'), ('\\', '\\')]

/-- A byte as three octal digits. -/
def octal (b : UInt8) : List Char :=
  ['\\', Nat.digitChar (b.toNat / 64), Nat.digitChar (b.toNat / 8 % 8),
    Nat.digitChar (b.toNat % 8)]

/-- A character of a quoted path. -/
def escape (c : Char) : List Char :=
  match letterEscapes.lookup c with
  | some letter => ['\\', letter]
  | none => if mustQuote c then (String.utf8EncodeChar c).flatMap octal else [c]

/-- A path behind the letter of its side, `a/` or `b/`. -/
def label (side path : List Char) : List Char :=
  if path.any mustQuote then '"' :: side ++ path.flatMap escape ++ ['"'] else side ++ path

/-- What stands behind the path on a label line. -/
def labelEnd (path : List Char) : List Char := if ' ' ∈ path then ['\t'] else []

/-- A path that git neither quotes nor follows by a tab. -/
def isPlain (path : List Char) : Bool := !path.any mustQuote && !path.contains ' '

/-- No character of a printed path ends a line. -/
theorem noBreak_label {side : List Char} (hs : Text.NoBreak side) (path : List Char) :
    Text.NoBreak (label side path) := by
  have hplain : ∀ c, mustQuote c = false → Text.isLineBreak c = false := by
    intro c hc
    simp only [mustQuote, Bool.or_eq_false_iff, decide_eq_false_iff_not] at hc
    simp only [Text.isLineBreak, Bool.or_eq_false_iff, Bool.and_eq_false_iff,
      decide_eq_false_iff_not, beq_eq_false_iff_ne]
    omega
  have hdigit : ∀ n < 8, Text.isLineBreak (Nat.digitChar n) = false := by decide
  have hoctal : ∀ b, Text.NoBreak (octal b) := by
    intro b c hc
    have := b.toNat_lt
    simp only [octal, List.mem_cons, List.not_mem_nil, or_false] at hc
    rcases hc with rfl | rfl | rfl | rfl
    · rfl
    · exact hdigit _ (by omega)
    · exact hdigit _ (by omega)
    · exact hdigit _ (by omega)
  have hletter : ∀ p ∈ letterEscapes, Text.isLineBreak p.2 = false := by decide
  have hescape : ∀ d, Text.NoBreak (escape d) := by
    intro d c hc
    unfold escape at hc
    split at hc
    · rename_i letter hl
      have hmem : (d, letter) ∈ letterEscapes := Relational.mem_of_lookup hl
      rcases List.mem_cons.1 hc with rfl | hc
      · rfl
      · rw [List.mem_singleton.1 hc]
        exact hletter (d, letter) hmem
    · split at hc
      · obtain ⟨b, -, hb⟩ := List.mem_flatMap.1 hc
        exact hoctal b c hb
      · rename_i hq
        obtain rfl := List.mem_singleton.1 hc
        exact hplain c (by simpa using hq)
  intro c hc
  unfold label at hc
  split at hc
  · simp only [List.mem_append, List.mem_cons, List.mem_flatMap, List.not_mem_nil,
      or_false] at hc
    rcases hc with ((rfl | hc) | ⟨d, -, hc⟩) | rfl
    · rfl
    · exact hs c hc
    · exact hescape d c hc
    · rfl
  · rename_i hq
    rcases List.mem_append.1 hc with hc | hc
    · exact hs c hc
    · refine hplain c ?_
      simp only [List.any_eq_true, not_exists, not_and, Bool.not_eq_true] at hq
      exact hq c hc

theorem noBreak_labelEnd (path : List Char) : Text.NoBreak (labelEnd path) := by
  unfold labelEnd
  split
  · decide
  · decide

theorem noBreak_decimal (n : Nat) : Text.NoBreak (decimal n) := by
  intro c hc
  have h := Char.isDigit_iff_toNat.1 (Nat.isDigit_of_mem_toDigits (by decide) (by decide) hc)
  change 48 ≤ c.toNat ∧ c.toNat ≤ 57 at h
  simp only [Text.isLineBreak, Bool.or_eq_false_iff, Bool.and_eq_false_iff,
    decide_eq_false_iff_not, beq_eq_false_iff_ne]
  omega

theorem isDigit_decimal {n : Nat} {c : Char} (hc : c ∈ decimal n) : c.isDigit = true :=
  Nat.isDigit_of_mem_toDigits (by decide) (by decide) hc

/-- Every table of digits reads a printed number back: first its characters, then the number. -/
theorem value_decimal (digits : Lcov.DigitTable) {n : Nat} {c : Char} (hc : c ∈ decimal n) :
    digits.value c = some (c.toNat - '0'.toNat) := by
  have hrange := Char.isDigit_iff_toNat.1 (isDigit_decimal hc)
  rw [(digits.ascii c (lt_of_le_of_lt hrange.2 (by decide))).2, if_pos (isDigit_decimal hc)]

theorem foldl_decimal (digits : Lcov.DigitTable) (n : Nat) :
    (decimal n).foldl (fun n c => 10 * n + (digits.value c).getD 0) 0 = n := by
  have hfold : (decimal n).foldl (fun n c => 10 * n + (digits.value c).getD 0) 0
      = Nat.ofDigitChars 10 (decimal n) 0 := by
    rw [Nat.ofDigitChars_eq_foldl]
    exact List.foldl_ext _ _ _ fun a d hd => by rw [value_decimal digits hd]; rfl
  rw [hfold]
  exact Nat.ofDigitChars_ten_toDigits

theorem noBreak_mode (m : List (Fin 8)) : Text.NoBreak (mode m) := by
  have h : ∀ d : Fin 8, Text.isLineBreak (Nat.digitChar d.val) = false := by decide
  intro c hc
  obtain ⟨d, -, rfl⟩ := List.mem_map.1 hc
  exact h d

theorem noBreak_hex (digits : List (Fin 16)) : Text.NoBreak (hex digits) := by
  have h : ∀ d : Fin 16, Text.isLineBreak (Nat.digitChar d.val) = false := by decide
  intro c hc
  obtain ⟨d, -, rfl⟩ := List.mem_map.1 hc
  exact h d

/-! ## Lines -/

/-- A line as it is printed, without its line feed. -/
structure Line where
  /-- The text. -/
  text : List Char
  /-- Whether a carriage return stands before the line feed. -/
  crlf : Bool
  deriving DecidableEq, Repr

/-- A line of git's own. -/
def Line.of (text : List Char) : Line := ⟨text, false⟩

/-- The line behind the character that says what a hunk does with it. -/
def Line.marked (mark : Char) (l : Line) : Line := ⟨mark :: l.text, l.crlf⟩

/-- The printed text. -/
def render (lines : List Line) : List Char :=
  lines.flatMap fun l => l.text ++ (if l.crlf then ['\r'] else []) ++ ['\n']

/-- What `str.splitlines` makes of a printed line. -/
def Line.pieces (l : Line) : List (List Char) :=
  Text.splitlines (l.text ++ (if l.crlf then ['\r'] else []) ++ ['\n'])

theorem Line.pieces_of_noBreak {l : Line} (h : Text.NoBreak l.text) : l.pieces = [l.text] :=
  Text.splitlines_line h l.crlf []

theorem flatMap_pieces {lines : List Line} (h : ∀ l ∈ lines, Text.NoBreak l.text) :
    lines.flatMap Line.pieces = lines.map Line.text := by
  induction lines with
  | nil => rfl
  | cons l ls ih =>
    rw [List.flatMap_cons, List.map_cons, Line.pieces_of_noBreak (h l List.mem_cons_self),
      ih fun l' h' => h l' (List.mem_cons_of_mem l h')]
    rfl

/-- A printed line is read apart from the others. -/
theorem splitlines_render (lines : List Line) :
    Text.splitlines (render lines) = lines.flatMap Line.pieces := by
  induction lines with
  | nil => rfl
  | cons l ls ih =>
    rw [List.flatMap_cons, ← ih]
    simpa [render, Line.pieces, Text.splitlines] using Text.splitlinesFrom_newline []
      (l.text ++ if l.crlf then ['\r'] else []) (render ls)

/-! ## Diffs -/

/-- One change of a file, with the unchanged lines since the change before. -/
structure Change where
  /-- The lines since the last change. -/
  kept : List Line
  /-- The lines of the old side. -/
  removed : List Line
  /-- The lines of the new side. -/
  added : List Line
  /-- What git prints behind the ranges: the last line before the change that looks like the head
  of a function. -/
  heading : List Char
  /-- The old side ends here without a line feed. -/
  removedOpen : Bool
  /-- The new side ends here without a line feed. -/
  addedOpen : Bool

/-- What a diff does with a file. -/
inductive Side
  /-- The file is on both sides. -/
  | both
  /-- The file is new. -/
  | created
  /-- The file is gone. -/
  | deleted
  deriving DecidableEq, Repr

/-- One file of a diff. -/
structure FileDiff where
  /-- The path on the old side, another one only of a renamed file. -/
  oldPath : List Char
  /-- The path on the new side. -/
  path : List Char
  /-- On which sides the file is. -/
  side : Side
  /-- The mode on the old side. -/
  oldMode : List (Fin 8)
  /-- The mode on the new side. -/
  newMode : List (Fin 8)
  /-- The contents on the old side. -/
  oldBlob : List (Fin 16)
  /-- The contents on the new side. -/
  newBlob : List (Fin 16)
  /-- How much of a renamed file stayed, in percent. -/
  similarity : Nat
  /-- The changes, in order. -/
  changes : List Change
  /-- The lines behind the last change. -/
  rest : List Line
  /-- A file has a name. -/
  path_ne : path ≠ []

/-- `\ No newline at end of file`, where a side ends without one. -/
def noNewline (isOpen : Bool) : List Line :=
  if isOpen then [Line.of "\\ No newline at end of file".toList] else []

/-- A range of a hunk header, for some lines behind others. -/
def range (before count : Nat) : List Char :=
  if count = 1 then decimal (before + 1)
  else decimal (if count = 0 then before else before + 1) ++ ',' :: decimal count

/-- The header of a hunk. -/
def hunkHeader (oldBefore newBefore : Nat) (c : Change) : Line :=
  Line.of ("@@ -".toList ++ range oldBefore c.removed.length ++ " +".toList
    ++ range newBefore c.added.length ++ " @@".toList
    ++ (if c.heading = [] then [] else ' ' :: c.heading))

/-- The lines of a hunk. -/
def Change.body (c : Change) : List Line :=
  c.removed.map (Line.marked '-') ++ noNewline c.removedOpen
    ++ c.added.map (Line.marked '+') ++ noNewline c.addedOpen

/-- The hunks, behind some lines of each side. -/
def hunks (oldBefore newBefore : Nat) : List Change → List Line
  | [] => []
  | c :: cs =>
    hunkHeader (oldBefore + c.kept.length) (newBefore + c.kept.length) c :: c.body
      ++ hunks (oldBefore + c.kept.length + c.removed.length)
        (newBefore + c.kept.length + c.added.length) cs

namespace FileDiff

variable (f : FileDiff)

/-- Whether the file exists on the new side. -/
def IsLive : Prop := f.side ≠ .deleted

instance : Decidable f.IsLive := inferInstanceAs (Decidable (f.side ≠ .deleted))

/-- `diff --git` -/
def diffLine : Line :=
  Line.of ("diff --git ".toList ++ label "a/".toList f.oldPath ++ [' ']
    ++ label "b/".toList f.path)

/-- The lines about modes. -/
def modeLines : List Line :=
  match f.side with
  | .created => [Line.of ("new file mode ".toList ++ mode f.newMode)]
  | .deleted => [Line.of ("deleted file mode ".toList ++ mode f.oldMode)]
  | .both =>
    if f.oldMode = f.newMode then []
    else [Line.of ("old mode ".toList ++ mode f.oldMode),
      Line.of ("new mode ".toList ++ mode f.newMode)]

/-- The lines about a new name. -/
def renameLines : List Line :=
  if f.oldPath = f.path then []
  else [Line.of ("similarity index ".toList ++ decimal f.similarity ++ ['%']),
    Line.of ("rename from ".toList ++ label [] f.oldPath),
    Line.of ("rename to ".toList ++ label [] f.path)]

/-- The line about the contents. -/
def indexLines : List Line :=
  if f.oldBlob = f.newBlob then []
  else [Line.of ("index ".toList ++ hex f.oldBlob ++ "..".toList ++ hex f.newBlob
    ++ (if f.side = .both ∧ f.oldMode = f.newMode then ' ' :: mode f.newMode else []))]

/-- `---` -/
def oldLabel : Line :=
  Line.of ("--- ".toList ++ (if f.side = .created then "/dev/null".toList
    else label "a/".toList f.oldPath ++ labelEnd f.oldPath))

/-- `+++` -/
def newLabel : Line :=
  Line.of ("+++ ".toList ++ (if f.side = .deleted then "/dev/null".toList
    else label "b/".toList f.path ++ labelEnd f.path))

/-- The lines before the labels. -/
def extended : List Line := f.diffLine :: f.modeLines ++ f.renameLines ++ f.indexLines

/-- Everything that is printed for the file. -/
def lines : List Line :=
  f.extended
    ++ (if f.changes = [] then [] else f.oldLabel :: f.newLabel :: hunks 0 0 f.changes)

end FileDiff

/-- What `git diff --unified=0` prints. -/
def diffText (files : List FileDiff) : List Char := render (files.flatMap FileDiff.lines)

/-- The numbers of a hunk header end no line. -/
theorem noBreak_range (before count : Nat) : Text.NoBreak (range before count) := by
  unfold range
  split
  · exact noBreak_decimal _
  · exact Text.noBreak_append.2
      ⟨noBreak_decimal _, Text.noBreak_cons.2 ⟨rfl, noBreak_decimal _⟩⟩

/-- What git prints on its own about a file ends no line. -/
theorem FileDiff.noBreak_extended {f : FileDiff} {l : Line} (h : l ∈ f.extended) :
    Text.NoBreak l.text := by
  have hlabel : ∀ side path, Text.NoBreak side → Text.NoBreak (label side path) :=
    fun _ path hs => noBreak_label hs path
  unfold extended at h
  rw [List.cons_append, List.cons_append, List.mem_cons, List.mem_append, List.mem_append] at h
  rcases h with rfl | (hm | hr) | hi
  · simp only [diffLine, Line.of, Text.noBreak_append]
    exact ⟨⟨⟨by decide, hlabel _ _ (by decide)⟩, by decide⟩, hlabel _ _ (by decide)⟩
  · unfold modeLines at hm
    split at hm
    · obtain rfl := List.mem_singleton.1 hm
      exact Text.noBreak_append.2 ⟨by decide, noBreak_mode _⟩
    · obtain rfl := List.mem_singleton.1 hm
      exact Text.noBreak_append.2 ⟨by decide, noBreak_mode _⟩
    · split at hm
      · cases hm
      · simp only [List.mem_cons, List.not_mem_nil, or_false] at hm
        rcases hm with rfl | rfl
        · exact Text.noBreak_append.2 ⟨by decide, noBreak_mode _⟩
        · exact Text.noBreak_append.2 ⟨by decide, noBreak_mode _⟩
  · unfold renameLines at hr
    split at hr
    · cases hr
    · simp only [List.mem_cons, List.not_mem_nil, or_false] at hr
      rcases hr with rfl | rfl | rfl
      · exact Text.noBreak_append.2
          ⟨Text.noBreak_append.2 ⟨by decide, noBreak_decimal _⟩, by decide⟩
      · exact Text.noBreak_append.2 ⟨by decide, hlabel _ _ (by decide)⟩
      · exact Text.noBreak_append.2 ⟨by decide, hlabel _ _ (by decide)⟩
  · unfold indexLines at hi
    split at hi
    · cases hi
    · obtain rfl := List.mem_singleton.1 hi
      simp only [Line.of, Text.noBreak_append]
      refine ⟨⟨⟨⟨by decide, noBreak_hex _⟩, by decide⟩, noBreak_hex _⟩, ?_⟩
      split
      · exact Text.noBreak_cons.2 ⟨rfl, noBreak_mode _⟩
      · decide

/-- Neither do the labels. -/
theorem FileDiff.noBreak_labels (f : FileDiff) :
    Text.NoBreak f.oldLabel.text ∧ Text.NoBreak f.newLabel.text := by
  have hpath : ∀ side path, Text.NoBreak side →
      Text.NoBreak (label side path ++ labelEnd path) := fun _ path hs =>
    Text.noBreak_append.2 ⟨noBreak_label hs path, noBreak_labelEnd path⟩
  constructor
  · refine Text.noBreak_append.2 ⟨by decide, ?_⟩
    split
    · decide
    · exact hpath _ _ (by decide)
  · refine Text.noBreak_append.2 ⟨by decide, ?_⟩
    split
    · decide
    · exact hpath _ _ (by decide)

/-- A line of a hunk ends where its texts do. -/
theorem noBreak_hunks {changes : List Change}
    (h : ∀ c ∈ changes, Text.NoBreak c.heading ∧
      ∀ l ∈ c.removed ++ c.added, Text.NoBreak l.text)
    {oldBefore newBefore : Nat} {l : Line} (hl : l ∈ hunks oldBefore newBefore changes) :
    Text.NoBreak l.text := by
  have hmark : ∀ isOpen, ∀ l ∈ noNewline isOpen, Text.NoBreak l.text := by decide
  induction changes generalizing oldBefore newBefore with
  | nil => cases hl
  | cons c cs ih =>
    obtain ⟨hheading, hbody⟩ := h c List.mem_cons_self
    rw [hunks, List.cons_append, List.mem_cons, List.mem_append] at hl
    rcases hl with rfl | hin | hin
    · simp only [hunkHeader, Line.of, Text.noBreak_append]
      refine ⟨⟨⟨⟨⟨by decide, noBreak_range _ _⟩, by decide⟩, noBreak_range _ _⟩, by decide⟩, ?_⟩
      split
      · decide
      · exact Text.noBreak_cons.2 ⟨rfl, hheading⟩
    · simp only [Change.body, List.mem_append, List.mem_map] at hin
      rcases hin with ((⟨r, hr, rfl⟩ | hm) | ⟨a, ha, rfl⟩) | hm
      · exact Text.noBreak_cons.2 ⟨rfl, hbody r (List.mem_append_left _ hr)⟩
      · exact hmark _ _ hm
      · exact Text.noBreak_cons.2 ⟨rfl, hbody a (List.mem_append_right _ ha)⟩
      · exact hmark _ _ hm
    · exact ih (fun d hd => h d (List.mem_cons_of_mem c hd)) hin

/-! ## The added lines -/

/-- The lines of the new side, each with whether it was added. -/
def newSide (changes : List Change) (rest : List Line) : List (Bool × Line) :=
  (changes.flatMap fun c => c.kept.map (Prod.mk false) ++ c.added.map (Prod.mk true))
    ++ rest.map (Prod.mk false)

/-- Line `n` of the new contents is an added one. -/
def FileDiff.IsAdded (f : FileDiff) (n : Nat) : Prop :=
  ∃ l, 0 < n ∧ (newSide f.changes f.rest)[n - 1]? = some (true, l)

/-- The lines of a stretch with their numbers. -/
def numberFrom (before : Nat) (lines : List Line) : List (Nat × Line) :=
  lines.mapIdx fun i l => (before + i + 1, l)

/-- The added lines with their numbers, behind some lines. -/
def numberedFrom (before : Nat) : List Change → List (Nat × Line)
  | [] => []
  | c :: cs => numberFrom (before + c.kept.length) c.added
      ++ numberedFrom (before + c.kept.length + c.added.length) cs

/-- The added lines of a file with their numbers. -/
def FileDiff.numbered (f : FileDiff) : List (Nat × Line) := numberedFrom 0 f.changes

/-! ### They are the numbers of the new contents -/

theorem mem_numberFrom {before : Nat} {lines : List Line} {n : Nat} {l : Line} :
    (n, l) ∈ numberFrom before lines ↔ before < n ∧ lines[n - before - 1]? = some l := by
  unfold numberFrom
  rw [List.mem_mapIdx]
  constructor
  · rintro ⟨i, hi, he⟩
    obtain ⟨rfl, rfl⟩ := Prod.mk.inj he
    refine ⟨by omega, ?_⟩
    rw [show before + i + 1 - before - 1 = i by omega, List.getElem?_eq_getElem hi]
  · rintro ⟨hn, hl⟩
    obtain ⟨hi, rfl⟩ := List.getElem?_eq_some_iff.1 hl
    exact ⟨n - before - 1, hi, by rw [show before + (n - before - 1) + 1 = n by omega]⟩

theorem mem_numberedFrom (rest : List Line) {before : Nat} {changes : List Change} {n : Nat}
    {l : Line} :
    (n, l) ∈ numberedFrom before changes
      ↔ before < n ∧ (newSide changes rest)[n - before - 1]? = some (true, l) := by
  induction changes generalizing before with
  | nil => simp [numberedFrom, newSide, List.getElem?_map]
  | cons c cs ih =>
    have hside : newSide (c :: cs) rest
        = c.kept.map (Prod.mk false) ++ (c.added.map (Prod.mk true) ++ newSide cs rest) := by
      simp [newSide]
    rw [numberedFrom, List.mem_append, mem_numberFrom, ih, hside]
    by_cases hkept : n ≤ before + c.kept.length
    · -- among the kept lines
      constructor
      · rintro (⟨h, -⟩ | ⟨h, -⟩) <;> omega
      · rintro ⟨hn, h⟩
        rw [List.getElem?_append_left (by simp; omega), List.getElem?_map] at h
        obtain ⟨x, -, hx⟩ := Option.map_eq_some_iff.1 h
        cases hx
    · rw [List.getElem?_append_right (by simp; omega), List.length_map]
      by_cases hadded : n ≤ before + c.kept.length + c.added.length
      · rw [List.getElem?_append_left (by simp; omega), List.getElem?_map,
          show n - before - 1 - c.kept.length = n - (before + c.kept.length) - 1 by omega]
        constructor
        · rintro (⟨-, h⟩ | ⟨h, -⟩)
          · exact ⟨by omega, by rw [h]; rfl⟩
          · omega
        · rintro ⟨-, h⟩
          obtain ⟨x, hx, he⟩ := Option.map_eq_some_iff.1 h
          obtain rfl := (Prod.mk.inj he).2
          exact .inl ⟨by omega, hx⟩
      · rw [List.getElem?_append_right (by simp; omega), List.length_map,
          show n - before - 1 - c.kept.length - c.added.length
            = n - (before + c.kept.length + c.added.length) - 1 by omega]
        constructor
        · rintro (⟨-, h⟩ | ⟨-, h⟩)
          · have := (List.getElem?_eq_some_iff.1 h).1
            omega
          · exact ⟨by omega, h⟩
        · rintro ⟨-, h⟩
          exact .inr ⟨by omega, h⟩

/-- **The numbers of a diff are those of the new contents.** -/
theorem FileDiff.isAdded_iff {f : FileDiff} {n : Nat} :
    f.IsAdded n ↔ ∃ l, (n, l) ∈ f.numbered := by
  unfold IsAdded numbered
  exact exists_congr fun l => (mem_numberedFrom f.rest).symm

/-- A number is that of one line. -/
theorem FileDiff.numbered_functional {f : FileDiff} {n : Nat} {l l' : Line}
    (h : (n, l) ∈ f.numbered) (h' : (n, l') ∈ f.numbered) : l = l' := by
  have hl := (mem_numberedFrom f.rest).1 h
  have hl' := (mem_numberedFrom f.rest).1 h'
  rw [hl.2] at hl'
  exact (Prod.mk.inj (Option.some.inj hl'.2)).2

/-! ## Blame -/

/-- One line of a file, as `git blame --line-porcelain` knows it. -/
structure BlameEntry where
  /-- The commit the line is from. -/
  commit : List (Fin 16)
  /-- The line's number in that commit. -/
  originalLine : Nat
  /-- The line's number in the file. -/
  finalLine : Nat
  /-- For the first line of a group, how many lines the group has. -/
  group : Option Nat
  /-- The author's name. -/
  author : List Char
  /-- The author's address, between the angle brackets. -/
  authorMail : List Char
  /-- When the author wrote it. -/
  authorTime : List Char
  /-- The author's time zone. -/
  authorTz : List Char
  /-- The committer's name. -/
  committer : List Char
  /-- The committer's address. -/
  committerMail : List Char
  /-- When it was committed. -/
  committerTime : List Char
  /-- The committer's time zone. -/
  committerTz : List Char
  /-- The first line of the commit's message. -/
  summary : List Char
  /-- Whether the search for older commits stopped at this one. -/
  boundary : Bool
  /-- The commit before it with the path there. -/
  previous : Option (List (Fin 16) × List Char)
  /-- The path in the commit. -/
  filename : List Char
  /-- The line. -/
  content : List Char

namespace BlameEntry

variable (e : BlameEntry)

/-- The line that starts an entry. -/
def header : List Char :=
  hex e.commit ++ ' ' :: (decimal e.originalLine ++ ' ' :: (decimal e.finalLine
    ++ match e.group with
      | none => []
      | some n => ' ' :: decimal n))

/-- The author as git prints it: names of fields and what stands behind them. -/
def authorFields : List (List Char × List Char) :=
  [("author ".toList, e.author), ("author-mail ".toList, '<' :: e.authorMail ++ ['>'])]

/-- The other fields with a text. -/
def laterFields : List (List Char × List Char) :=
  [("author-time ".toList, e.authorTime), ("author-tz ".toList, e.authorTz),
    ("committer ".toList, e.committer), ("committer-mail ".toList, '<' :: e.committerMail ++ ['>']),
    ("committer-time ".toList, e.committerTime), ("committer-tz ".toList, e.committerTz),
    ("summary ".toList, e.summary)]

/-- The line about the commit before. -/
def previousLines : List (List Char) :=
  match e.previous with
  | none => []
  | some (commit, path) => ["previous ".toList ++ (hex commit ++ ' ' :: label [] path)]

/-- The lines between the fields and the path. -/
def markLines : List (List Char) :=
  (if e.boundary then ["boundary".toList] else []) ++ e.previousLines

/-- The lines of an entry. -/
def lines : List (List Char) :=
  e.header :: (e.authorFields ++ e.laterFields).map (fun f => f.1 ++ f.2) ++ e.markLines
    ++ ["filename ".toList ++ label [] e.filename, '\t' :: e.content]

end BlameEntry

/-- What `git blame --line-porcelain` prints. -/
def porcelain (entries : List BlameEntry) : List Char :=
  (entries.flatMap BlameEntry.lines).flatMap fun l => l ++ ['\n']

end FosCoverage.Git
