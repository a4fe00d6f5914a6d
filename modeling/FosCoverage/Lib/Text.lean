import Mathlib.Data.List.Basic

/-!
# Texts

The string functions of the standard library that the source analysis rests on, over lists of
characters.  A text is cut where the code searches in it, so that no function works with indices.

* `isSpace` is the class of `str.isspace` and of `\s`; `WordTable` stands for the letters and digits
  of `\w`, of which only the ASCII part is spelled out.
* `strip`, `words`, `newlines`, `splitLines` and `cut` are `strip`, `split`, the two `replace` calls
  that normalise line ends, `split("\n")` and `find`.
* `splitlines` is `str.splitlines`, which knows more line ends than `split("\n")` and has no last
  line behind the last of them.  A text written line by line is read line by line
  (`splitlines_flatMap`), but a line with another line end in it is read as several.
-/

set_option autoImplicit false

namespace Text

/-- `str.isspace` -/
def isSpace (c : Char) : Bool :=
  let n := c.toNat
  (9 ≤ n && n ≤ 13) || (28 ≤ n && n ≤ 32) || n == 133 || n == 160 || n == 5760 ||
    (8192 ≤ n && n ≤ 8202) || n == 8232 || n == 8233 || n == 8239 || n == 8287 || n == 12288

theorem isAlpha_iff {c : Char} : c.isAlpha = true ↔
    (65 ≤ c.toNat ∧ c.toNat ≤ 90) ∨ (97 ≤ c.toNat ∧ c.toNat ≤ 122) := by
  change (decide (c.val ≥ 'A'.val ∧ c.val ≤ 'Z'.val) ||
    (decide (c.val ≥ 'a'.val) && decide (c.val ≤ 'z'.val))) = true ↔ _
  simp only [Bool.or_eq_true, Bool.and_eq_true, decide_eq_true_eq, UInt32.le_iff_toNat_le, ge_iff_le]
  exact Iff.rfl

theorem isAlphanum_iff {c : Char} : c.isAlphanum = true ↔
    ((65 ≤ c.toNat ∧ c.toNat ≤ 90) ∨ (97 ≤ c.toNat ∧ c.toNat ≤ 122)) ∨
      (48 ≤ c.toNat ∧ c.toNat ≤ 57) := by
  change (c.isAlpha || c.isDigit) = true ↔ _
  rw [Bool.or_eq_true, isAlpha_iff, Char.isDigit_iff_toNat]
  exact Iff.rfl

/-- Texts are compared character by character. -/
instance lawfulBEqText : LawfulBEq (List Char) := inferInstance

/-- What every character of a text is checked to be. -/
theorem forall_mem_of_all {p : Char → Prop} [DecidablePred p] {s : List Char}
    (h : s.all (fun c => decide (p c)) = true) : ∀ c ∈ s, p c :=
  fun c hc => of_decide_eq_true (List.all_eq_true.1 h c hc)

/-- `str.isalnum` of the Unicode tables: ASCII letters and digits, no space, and whatever else the
tables have. -/
structure WordTable where
  /-- The class. -/
  isAlnum : Char → Bool
  /-- The ASCII part. -/
  ascii : ∀ c, c.toNat < 128 → isAlnum c = c.isAlphanum
  /-- A space is neither a letter nor a digit. -/
  space : ∀ c, isSpace c = true → isAlnum c = false

/-- The class `\w`. -/
def WordTable.isWord (u : WordTable) (c : Char) : Bool := c == '_' || u.isAlnum c

/-- The smallest table. -/
def WordTable.asciiOnly : WordTable where
  isAlnum := Char.isAlphanum
  ascii := fun _ _ => rfl
  space := by
    intro c hc
    rw [Bool.eq_false_iff]
    intro ha
    simp only [isSpace, Bool.or_eq_true, Bool.and_eq_true, decide_eq_true_eq, beq_iff_eq] at hc
    rw [isAlphanum_iff] at ha
    omega

/-- Everything up to the trailing spaces. -/
def rstrip (s : List Char) : List Char := (s.reverse.dropWhile isSpace).reverse

/-- `str.strip` -/
def strip (s : List Char) : List Char := rstrip (s.dropWhile isSpace)

/-- `str.split` -/
def words (s : List Char) : List (List Char) := (s.splitOnP isSpace).filter fun w => w ≠ []

/-- `replace("\r\n", "\n").replace("\r", "\n")` -/
def newlines : List Char → List Char
  | '\r' :: '\n' :: cs => '\n' :: newlines cs
  | '\r' :: cs => '\n' :: newlines cs
  | c :: cs => c :: newlines cs
  | [] => []

/-- `split("\n")` -/
def splitLines (s : List Char) : List (List Char) := s.splitOn '\n'

/-- The characters at which `str.splitlines` ends a line. -/
def isLineBreak (c : Char) : Bool :=
  let n := c.toNat
  (10 ≤ n && n ≤ 13) || (28 ≤ n && n ≤ 30) || n == 133 || n == 8232 || n == 8233

/-- A text without line ends. -/
def NoBreak (s : List Char) : Prop := ∀ c ∈ s, isLineBreak c = false

instance (s : List Char) : Decidable (NoBreak s) :=
  List.decidableBAll (fun c => isLineBreak c = false) s

theorem noBreak_append {s t : List Char} : NoBreak (s ++ t) ↔ NoBreak s ∧ NoBreak t :=
  List.forall_mem_append

theorem noBreak_cons {c : Char} {s : List Char} :
    NoBreak (c :: s) ↔ isLineBreak c = false ∧ NoBreak s :=
  List.forall_mem_cons

/-- The lines of a text behind some characters of its first line, the last one first. -/
def splitlinesFrom (current : List Char) : List Char → List (List Char)
  | [] => if current = [] then [] else [current.reverse]
  | '\r' :: '\n' :: cs => current.reverse :: splitlinesFrom [] cs
  | c :: cs =>
    if isLineBreak c then current.reverse :: splitlinesFrom [] cs
    else splitlinesFrom (c :: current) cs

/-- `str.splitlines` -/
def splitlines (s : List Char) : List (List Char) := splitlinesFrom [] s

theorem splitlinesFrom_nil (current : List Char) :
    splitlinesFrom current [] = if current = [] then [] else [current.reverse] :=
  rfl

/-- A character belongs to the line that is read or ends it, a carriage return together with the line
feed behind it. -/
theorem splitlinesFrom_cons (current : List Char) (c : Char) (cs : List Char) :
    splitlinesFrom current (c :: cs) =
      if isLineBreak c then
        current.reverse ::
          splitlinesFrom [] (if c = '\r' ∧ cs.head? = some '\n' then cs.tail else cs)
      else splitlinesFrom (c :: current) cs := by
  by_cases hcrlf : c = '\r' ∧ ∃ ds, cs = '\n' :: ds
  · obtain ⟨rfl, ds, rfl⟩ := hcrlf
    rw [splitlinesFrom]
    rfl
  · have hhead : ¬ (c = '\r' ∧ cs.head? = some '\n') := fun h =>
      hcrlf ⟨h.1, List.head?_eq_some_iff.1 h.2⟩
    rw [splitlinesFrom, if_neg hhead]
    exact fun ds hr hd => hcrlf ⟨hr, ds, hd⟩

@[simp] theorem splitlinesFrom_crlf (current cs : List Char) :
    splitlinesFrom current ('\r' :: '\n' :: cs) = current.reverse :: splitlinesFrom [] cs :=
  splitlinesFrom_cons current '\r' ('\n' :: cs)

theorem splitlinesFrom_char {c : Char} (hc : isLineBreak c = false) (current cs : List Char) :
    splitlinesFrom current (c :: cs) = splitlinesFrom (c :: current) cs := by
  rw [splitlinesFrom_cons, hc]
  rfl

/-- A line end that is not the first half of another. -/
theorem splitlinesFrom_break {c : Char} (hc : isLineBreak c = true) {cs : List Char}
    (h : c = '\r' → ∀ cs', cs ≠ '\n' :: cs') (current : List Char) :
    splitlinesFrom current (c :: cs) = current.reverse :: splitlinesFrom [] cs := by
  have hhead : ¬ (c = '\r' ∧ cs.head? = some '\n') := by
    rintro ⟨hr, hn⟩
    obtain ⟨cs', hcs⟩ := List.head?_eq_some_iff.1 hn
    exact h hr cs' hcs
  rw [splitlinesFrom_cons, if_pos hc, if_neg hhead]

@[simp] theorem splitlinesFrom_feed (current cs : List Char) :
    splitlinesFrom current ('\n' :: cs) = current.reverse :: splitlinesFrom [] cs :=
  splitlinesFrom_break rfl (fun h => absurd h (by decide)) current

theorem splitlinesFrom_newlines (current s : List Char) :
    splitlinesFrom current (newlines s) = splitlinesFrom current s := by
  induction s using newlines.induct generalizing current with
  | case1 cs ih =>
    rw [newlines, splitlinesFrom_feed, ih, splitlinesFrom_crlf]
  | case2 cs h ih =>
    rw [newlines, splitlinesFrom_feed, ih, splitlinesFrom_break rfl fun _ => h]
    exact h
  | case3 c cs h₁ h₂ ih =>
    rw [newlines]
    · cases hc : isLineBreak c with
      | false => rw [splitlinesFrom_char hc, splitlinesFrom_char hc, ih]
      | true => rw [splitlinesFrom_break hc (fun h => absurd h h₂), ih,
          splitlinesFrom_break hc (fun h => absurd h h₂)]
    · exact h₁
    · exact h₂
  | case4 => rfl

/-- `str.splitlines` does not need the two `replace` calls. -/
theorem splitlines_newlines (s : List Char) : splitlines (newlines s) = splitlines s :=
  splitlinesFrom_newlines [] s

/-- A stretch without line ends belongs to the line that is being read. -/
theorem splitlinesFrom_whole {s : List Char} (hs : NoBreak s)
    (current rest : List Char) :
    splitlinesFrom current (s ++ rest) = splitlinesFrom (s.reverse ++ current) rest := by
  induction s generalizing current with
  | nil => rfl
  | cons c cs ih =>
    rw [List.cons_append, splitlinesFrom_char (hs c List.mem_cons_self),
      ih fun d hd => hs d (List.mem_cons_of_mem c hd)]
    simp

/-- A line without further line ends is read as it is, whichever of the two ends it has. -/
theorem splitlines_line {s : List Char} (hs : NoBreak s) (crlf : Bool) (rest : List Char) :
    splitlines (s ++ (if crlf then ['\r'] else []) ++ '\n' :: rest) = s :: splitlines rest := by
  rw [List.append_assoc]
  refine (splitlinesFrom_whole hs [] _).trans ?_
  cases crlf with
  | true => simp [splitlines]
  | false => simp [splitlines]

/-- A line feed ends a line whatever stands before it. -/
theorem splitlinesFrom_newline (current s rest : List Char) :
    splitlinesFrom current (s ++ '\n' :: rest)
      = splitlinesFrom current (s ++ ['\n']) ++ splitlinesFrom [] rest := by
  induction hn : s.length using Nat.strongRecOn generalizing current s with
  | ind n ih =>
    rcases s with _ | ⟨c, cs⟩
    · rw [List.nil_append, List.nil_append, splitlinesFrom_feed, splitlinesFrom_feed]
      rfl
    · have hlater : ∀ current, splitlinesFrom current (cs ++ '\n' :: rest)
          = splitlinesFrom current (cs ++ ['\n']) ++ splitlinesFrom [] rest := fun current =>
        ih cs.length (by simp at hn; omega) current cs rfl
      rw [List.cons_append, List.cons_append]
      cases hc : isLineBreak c with
      | false => rw [splitlinesFrom_char hc, splitlinesFrom_char hc, hlater]
      | true =>
        by_cases hr : c = '\r'
        · subst hr
          rcases cs with _ | ⟨d, ds⟩
          · rw [List.nil_append, List.nil_append, splitlinesFrom_crlf, splitlinesFrom_crlf]
            rfl
          · by_cases hd : d = '\n'
            · subst hd
              rw [List.cons_append, List.cons_append, splitlinesFrom_crlf, splitlinesFrom_crlf,
                ih ds.length (by simp at hn; omega) [] ds rfl, List.cons_append]
            · have hne : ∀ t cs', (d :: ds) ++ t ≠ '\n' :: cs' := fun t cs' h => by
                rw [List.cons_append] at h
                exact hd (List.cons.inj h).1
              rw [splitlinesFrom_break hc fun _ => hne _, hlater,
                splitlinesFrom_break hc fun _ => hne _]
              rfl
        · rw [splitlinesFrom_break hc fun h => absurd h hr, hlater,
            splitlinesFrom_break hc fun h => absurd h hr, List.cons_append]

/-- **Lines written one after the other are read one after the other**, each as the lines
`str.splitlines` makes of it. -/
theorem splitlines_flatMap (lines : List (List Char)) :
    splitlines (lines.flatMap fun l => l ++ ['\n'])
      = lines.flatMap fun l => splitlines (l ++ ['\n']) := by
  induction lines with
  | nil => rfl
  | cons l ls ih =>
    rw [List.flatMap_cons, List.flatMap_cons, ← ih, List.append_assoc]
    exact splitlinesFrom_newline [] l _

/-! ## Lines inside a line -/

/-- The lines that `str.splitlines` finds in one line, besides the first. -/
def extraLines (l : List Char) : List (List Char) := (splitlines (l ++ ['\n'])).tail

theorem splitlinesFrom_current (current : List Char) {s : List Char} (hs : s ≠ []) :
    splitlinesFrom current s
      = (current.reverse ++ (splitlinesFrom [] s).headD []) :: (splitlinesFrom [] s).tail := by
  induction s generalizing current with
  | nil => exact absurd rfl hs
  | cons c cs ih =>
    cases hc : isLineBreak c with
    | false =>
      rw [splitlinesFrom_char hc, splitlinesFrom_char hc]
      by_cases hnil : cs = []
      · subst hnil
        simp [splitlinesFrom_nil]
      · rw [ih (c :: current) hnil, ih [c] hnil]
        simp
    | true =>
      by_cases hcrlf : c = '\r' ∧ ∃ ds, cs = '\n' :: ds
      · obtain ⟨rfl, ds, rfl⟩ := hcrlf
        simp
      · have h : c = '\r' → ∀ ds, cs ≠ '\n' :: ds := fun hr ds hd => hcrlf ⟨hr, ds, hd⟩
        rw [splitlinesFrom_break hc h, splitlinesFrom_break hc h]
        simp

/-- What stands before a text goes to its first line. -/
theorem splitlines_behind {s : List Char} (hs : NoBreak s) (t : List Char) :
    ∃ first, splitlines (s ++ t ++ ['\n']) = (s ++ first) :: extraLines t := by
  refine ⟨(splitlines (t ++ ['\n'])).headD [], ?_⟩
  have h := splitlinesFrom_whole hs [] (t ++ ['\n'])
  rw [List.append_nil, splitlinesFrom_current s.reverse (by simp), List.reverse_reverse] at h
  rw [List.append_assoc]
  exact h

theorem splitlines_noBreak {s : List Char} (hs : NoBreak s) : splitlines (s ++ ['\n']) = [s] := by
  simpa [splitlines, splitlinesFrom_nil] using splitlines_line hs false []

theorem extraLines_noBreak {s : List Char} (hs : NoBreak s) : extraLines s = [] := by
  rw [extraLines, splitlines_noBreak hs]
  rfl

/-- A line has no line end. -/
theorem noBreak_of_mem_splitlinesFrom {current s l : List Char} (hc : NoBreak current)
    (hl : l ∈ splitlinesFrom current s) : NoBreak l := by
  have hreverse : ∀ {r : List Char}, NoBreak r → NoBreak r.reverse := fun hr c h =>
    hr c (List.mem_reverse.1 h)
  have hnil : NoBreak [] := List.forall_mem_nil _
  induction s generalizing current with
  | nil =>
    rw [splitlinesFrom_nil] at hl
    split at hl
    · cases hl
    · obtain rfl := List.mem_singleton.1 hl
      exact hreverse hc
  | cons c cs ih =>
    cases hb : isLineBreak c with
    | false =>
      rw [splitlinesFrom_char hb] at hl
      exact ih (noBreak_cons.2 ⟨hb, hc⟩) hl
    | true =>
      by_cases hcrlf : c = '\r' ∧ ∃ ds, cs = '\n' :: ds
      · obtain ⟨rfl, ds, rfl⟩ := hcrlf
        rw [splitlinesFrom_crlf] at hl
        rcases List.mem_cons.1 hl with rfl | hin
        · exact hreverse hc
        · refine ih hnil ?_
          rw [splitlinesFrom_feed]
          exact List.mem_cons_of_mem _ hin
      · rw [splitlinesFrom_break hb fun hr ds hd => hcrlf ⟨hr, ds, hd⟩] at hl
        rcases List.mem_cons.1 hl with rfl | hin
        · exact hreverse hc
        · exact ih hnil hin

theorem noBreak_of_mem_splitlines {s l : List Char} (hl : l ∈ splitlines s) : NoBreak l :=
  noBreak_of_mem_splitlinesFrom (List.forall_mem_nil _) hl

/-! ## Words -/

theorem words_space {c : Char} (hc : isSpace c = true) {w : List Char} (hw : w ≠ [])
    (hs : ∀ x ∈ w, isSpace x = false) (rest : List Char) :
    words (w ++ c :: rest) = w :: words rest := by
  unfold words
  rw [List.splitOnP_append_cons_of_forall_mem hs c hc,
    List.filter_cons_of_pos (by simpa using hw)]

theorem words_single {w : List Char} (hw : w ≠ []) (hs : ∀ x ∈ w, isSpace x = false) :
    words w = [w] := by
  unfold words
  rw [List.splitOnP_eq_singleton hs]
  simp [hw]

/-! ## Searching -/

/-- `find`: what stands before and behind the first occurrence of a pattern. -/
def cut (pattern : List Char) : List Char → Option (List Char × List Char)
  | [] => if pattern = [] then some ([], []) else none
  | c :: cs =>
    if pattern.isPrefixOf (c :: cs) then some ([], (c :: cs).drop pattern.length)
    else (cut pattern cs).map fun p => (c :: p.1, p.2)

theorem cut_char_of_notMem {c : Char} {s : List Char} (h : c ∉ s) : cut [c] s = none := by
  induction s with
  | nil => rfl
  | cons d ds ih =>
    rw [List.mem_cons, not_or] at h
    rw [cut, if_neg (by simpa [List.isPrefixOf] using h.1), ih h.2]
    rfl

/-- The first occurrence of a character. -/
theorem cut_char_append {c : Char} {before : List Char} (h : c ∉ before) (behind : List Char) :
    cut [c] (before ++ c :: behind) = some (before, behind) := by
  induction before with
  | nil => simp [cut, List.isPrefixOf]
  | cons d ds ih =>
    rw [List.mem_cons, not_or] at h
    rw [List.cons_append, cut, if_neg (by simpa [List.isPrefixOf] using h.1), ih h.2]
    rfl

end Text
