import FosCoverage.Inheritance.LineMap
import FosCoverage.Inheritance.Engine
import FosCoverage.Cpp.Parser

/-!
# Three ways to number the lines of a text

The engine and the line map split a text with `str.splitlines`, which ends a line at ten different
characters and has nothing behind the last line end.  The source analysis splits it at `"\n"` only,
after `"\r\n"` and `"\r"` became `"\n"`, so a text that ends with a line end has one more line, an
empty one.

* `splitlines_plain`: without other line ends that is the only difference.
* `numbered_alike_iff`: the three agree on every line number exactly for a text that is not empty,
  does not end with a line end, and has no line end but `"\n"` and `"\r"`.
-/

set_option autoImplicit false

namespace FosCoverage

open Text CppLexer

/-! ## The lists of lines -/

/-- The lines without an empty last one. -/
def withoutEmptyLast (lines : List (List Char)) : List (List Char) :=
  if lines.getLast? = some [] then lines.dropLast else lines

theorem withoutEmptyLast_cons (line : List Char) {lines : List (List Char)} (h : lines ≠ []) :
    withoutEmptyLast (line :: lines) = line :: withoutEmptyLast lines := by
  rw [withoutEmptyLast, withoutEmptyLast, List.getLast?_cons_of_ne_nil h]
  split
  · rw [List.dropLast_cons_of_ne_nil h]
  · rfl

theorem splitlinesFrom_plain (current s : List Char)
    (h : ∀ c ∈ s, isLineBreak c = true → c = '\n') :
    splitlinesFrom current s = withoutEmptyLast (s.splitOnPPrepend (· == '\n') current) := by
  induction s generalizing current with
  | nil =>
    cases current with
    | nil => rfl
    | cons c cs => simp [splitlinesFrom_nil, withoutEmptyLast]
  | cons c s ih =>
    have hs : ∀ d ∈ s, isLineBreak d = true → d = '\n' := fun d hd =>
      h d (List.mem_cons_of_mem c hd)
    by_cases hc : c = '\n'
    · subst hc
      rw [splitlinesFrom_break rfl (fun h => absurd h (by decide)), ih [] hs,
        List.splitOnPPrepend_cons_pos rfl, withoutEmptyLast_cons _ (List.splitOnP_ne_nil _ _)]
      rfl
    · have hbreak : isLineBreak c = false := by
        rw [Bool.eq_false_iff]
        exact fun hb => hc (h c List.mem_cons_self hb)
      rw [splitlinesFrom_char hbreak, ih _ hs, List.splitOnPPrepend_cons_neg (by simpa using hc)]

/-- Without other line ends `str.splitlines` only leaves out an empty last line. -/
theorem splitlines_plain {s : List Char} (h : ∀ c ∈ s, isLineBreak c = true → c = '\n') :
    splitlines s = withoutEmptyLast (splitLines s) :=
  splitlinesFrom_plain [] s h

/-- A line of `str.splitlines` has no line end in it. -/
theorem no_break_of_mem_splitlinesFrom {current s line : List Char}
    (hcurrent : ∀ c ∈ current, isLineBreak c = false) (h : line ∈ splitlinesFrom current s) :
    ∀ c ∈ line, isLineBreak c = false :=
  noBreak_of_mem_splitlinesFrom hcurrent h

theorem exists_mem_splitOnPPrepend {s current : List Char} {c : Char} (hne : c ≠ '\n')
    (hc : c ∈ s ∨ c ∈ current) : ∃ line ∈ s.splitOnPPrepend (· == '\n') current, c ∈ line := by
  induction s generalizing current with
  | nil =>
    refine ⟨current.reverse, by simp, ?_⟩
    exact List.mem_reverse.2 (hc.resolve_left List.not_mem_nil)
  | cons d s ih =>
    by_cases hd : d = '\n'
    · subst hd
      rw [List.splitOnPPrepend_cons_pos rfl]
      rcases hc with hc | hc
      · obtain ⟨line, hline, hcl⟩ := @ih []
          (.inl ((List.mem_cons.1 hc).resolve_left hne))
        exact ⟨line, List.mem_cons_of_mem _ hline, hcl⟩
      · exact ⟨_, List.mem_cons_self, List.mem_reverse.2 hc⟩
    · rw [List.splitOnPPrepend_cons_neg (by simpa using hd)]
      refine ih ?_
      rcases hc with hc | hc
      · rcases List.mem_cons.1 hc with rfl | hc
        · exact .inr List.mem_cons_self
        · exact .inl hc
      · exact .inr (List.mem_cons_of_mem d hc)

/-- Every character but the separator is in some line. -/
theorem exists_mem_splitLines {s : List Char} {c : Char} (hc : c ∈ s) (hne : c ≠ '\n') :
    ∃ line ∈ splitLines s, c ∈ line :=
  exists_mem_splitOnPPrepend hne (.inl hc)

theorem getLast?_splitOnPPrepend (s current : List Char) :
    (s.splitOnPPrepend (· == '\n') current).getLast? = some [] ↔
      (s = [] ∧ current = []) ∨ s.getLast? = some '\n' := by
  induction s generalizing current with
  | nil => simp
  | cons c s ih =>
    by_cases hc : c = '\n'
    · subst hc
      rw [List.splitOnPPrepend_cons_pos rfl,
        List.getLast?_cons_of_ne_nil (List.splitOnP_ne_nil _ _)]
      have hs := ih []
      rw [List.splitOnPPrepend_nil_right] at hs
      rw [hs]
      cases s with
      | nil => simp
      | cons d s => simp [List.getLast?_cons_cons]
    · rw [List.splitOnPPrepend_cons_neg (by simpa using hc), ih]
      cases s with
      | nil => simp [hc]
      | cons d s => simp [List.getLast?_cons_cons]

/-- The last line is empty in an empty text and behind a separator. -/
theorem getLast?_splitLines (s : List Char) :
    (splitLines s).getLast? = some [] ↔ s = [] ∨ s.getLast? = some '\n' := by
  have h := getLast?_splitOnPPrepend s []
  rw [and_iff_left rfl] at h
  exact h

/-- The two lists are the same for a text that is not empty, does not end with `"\n"` and has no
other line end. -/
theorem splitlines_eq_splitLines_iff (s : List Char) :
    splitlines s = splitLines s ↔
      (∀ c ∈ s, isLineBreak c = true → c = '\n') ∧ s ≠ [] ∧ s.getLast? ≠ some '\n' := by
  constructor
  · intro h
    have hplain : ∀ c ∈ s, isLineBreak c = true → c = '\n' := by
      intro c hc hbreak
      by_contra hne
      obtain ⟨line, hline, hcl⟩ := exists_mem_splitLines hc hne
      rw [← h] at hline
      have := no_break_of_mem_splitlinesFrom (fun _ h => absurd h List.not_mem_nil) hline c hcl
      rw [hbreak] at this
      cases this
    refine ⟨hplain, ?_⟩
    rw [← not_or, ← getLast?_splitLines]
    intro hlast
    rw [splitlines_plain hplain, withoutEmptyLast, if_pos hlast] at h
    have hlen := congrArg List.length h
    have hpos : 0 < (splitLines s).length := List.length_pos_iff.2 (List.splitOn_ne_nil _ _)
    rw [List.length_dropLast] at hlen
    omega
  · rintro ⟨hplain, hlast⟩
    rw [← not_or, ← getLast?_splitLines] at hlast
    rw [splitlines_plain hplain, withoutEmptyLast, if_neg hlast]

/-! ## Normalised line ends -/

theorem mem_newlines {t : List Char} {c : Char} (hn : c ≠ '\n') :
    c ∈ newlines t ↔ c ∈ t ∧ c ≠ '\r' := by
  induction t using newlines.induct with
  | case1 cs ih =>
    rw [newlines, List.mem_cons, ih, List.mem_cons, List.mem_cons]
    constructor
    · rintro (h | ⟨h, hr⟩)
      · exact absurd h hn
      · exact ⟨.inr (.inr h), hr⟩
    · rintro ⟨h | h | h, hr⟩
      · exact absurd h hr
      · exact absurd h hn
      · exact .inr ⟨h, hr⟩
  | case2 cs h ih =>
    rw [newlines]
    · rw [List.mem_cons, ih, List.mem_cons]
      constructor
      · rintro (h | ⟨h, hr⟩)
        · exact absurd h hn
        · exact ⟨.inr h, hr⟩
      · rintro ⟨h | h, hr⟩
        · exact absurd h hr
        · exact .inr ⟨h, hr⟩
    · exact h
  | case3 d cs h₁ h₂ ih =>
    rw [newlines]
    · rw [List.mem_cons, ih, List.mem_cons]
      constructor
      · rintro (rfl | ⟨h, hr⟩)
        · exact ⟨.inl rfl, h₂⟩
        · exact ⟨.inr h, hr⟩
      · rintro ⟨h | h, hr⟩
        · exact .inl h
        · exact .inr ⟨h, hr⟩
    · exact h₁
    · exact h₂
  | case4 => simp [newlines]

theorem newlines_eq_nil_iff (t : List Char) : newlines t = [] ↔ t = [] := by
  induction t using newlines.induct with
  | case1 cs ih => simp [newlines]
  | case2 cs h ih => simp [newlines]
  | case3 d cs h₁ h₂ ih => simp [newlines]
  | case4 => rfl

theorem getLast?_newlines (t : List Char) :
    (newlines t).getLast? = some '\n' ↔ t.getLast? = some '\n' ∨ t.getLast? = some '\r' := by
  have hcons : ∀ (c : Char) (cs : List Char), cs ≠ [] →
      ((c :: newlines cs).getLast? = (newlines cs).getLast? ∧ (c :: cs).getLast? = cs.getLast?) :=
    fun c cs hcs => ⟨List.getLast?_cons_of_ne_nil (mt (newlines_eq_nil_iff cs).1 hcs),
      List.getLast?_cons_of_ne_nil hcs⟩
  induction t using newlines.induct with
  | case1 cs ih =>
    rw [newlines, List.getLast?_cons_cons]
    by_cases hcs : cs = []
    · subst hcs
      decide
    · obtain ⟨h₁, h₂⟩ := hcons '\n' cs hcs
      rw [h₁, h₂]
      exact ih
  | case2 cs h ih =>
    rw [newlines]
    · by_cases hcs : cs = []
      · subst hcs
        decide
      · obtain ⟨h₁, -⟩ := hcons '\n' cs hcs
        rw [h₁, List.getLast?_cons_of_ne_nil hcs]
        exact ih
    · exact h
  | case3 d cs h₁ h₂ ih =>
    rw [newlines]
    · by_cases hcs : cs = []
      · subst hcs
        simp only [newlines, List.getLast?_singleton, Option.some.injEq]
        exact ⟨.inl, fun h => h.elim id fun h => absurd h h₂⟩
      · obtain ⟨h₃, h₄⟩ := hcons d cs hcs
        rw [h₃, h₄]
        exact ih
    · exact h₁
    · exact h₂
  | case4 => simp [newlines]

/-! ## Line numbers -/

/-- Line `n` as the engine reads it. -/
def engineLine (text : List Char) (n : Nat) : Option (List Char) :=
  if 0 < n then (splitlines text)[n - 1]? else none

/-- Line `n` as the line map numbers it. -/
def mapLine (text : List Char) (n : Nat) : Option (List Char) :=
  if 0 < n then (GitLineMapEngine.splitLines text)[n - 1]? else none

/-- Line `n` as the source analysis numbers it. -/
def analyzedLine (text : List Char) (n : Nat) : Option (List Char) :=
  (CppSourceAnalyzer.numberedLines text).lookup n

theorem lookup_enumerate (k n : Nat) (l : List (List Char)) :
    (enumerate k l).lookup n = if k ≤ n then l[n - k]? else none := by
  induction l generalizing k with
  | nil => simp [enumerate]
  | cons x l ih =>
    rw [enumerate, List.lookup_cons, ih]
    rcases Nat.lt_trichotomy n k with h | h | h
    · rw [if_neg (by omega), if_neg (by omega), beq_eq_false_iff_ne.2 (Nat.ne_of_lt h)]
    · subst h
      simp
    · rw [if_pos (by omega), if_pos (by omega)]
      obtain ⟨m, rfl⟩ : ∃ m, n = k + 1 + m := ⟨n - (k + 1), by omega⟩
      have hm : k + 1 + m - k = m + 1 := by omega
      rw [hm, Nat.add_sub_cancel_left, List.getElem?_cons_succ,
        beq_eq_false_iff_ne.2 (Nat.ne_of_gt h)]

theorem engineLine_eq_mapLine (text : List Char) (n : Nat) : engineLine text n = mapLine text n := by
  rw [engineLine, mapLine, GitLineMapEngine.splitLines, splitlines_newlines]

theorem forall_line_iff (l l' : List (List Char)) :
    (∀ n, (if 0 < n then l[n - 1]? else none) = (enumerate 1 l').lookup n) ↔ l = l' := by
  constructor
  · intro h
    refine List.ext_getElem? fun n => ?_
    have hn := h (n + 1)
    rw [if_pos (Nat.succ_pos n), lookup_enumerate, if_pos (by omega)] at hn
    exact hn
  · rintro rfl n
    rcases Nat.eq_zero_or_pos n with rfl | hn
    · rw [lookup_enumerate]
      rfl
    · rw [if_pos hn, lookup_enumerate, if_pos (Nat.succ_le_of_lt hn)]

/-- **The three number the lines of a text alike exactly when** it is not empty, does not end with
a line end, and has no line end but `"\n"` and `"\r"`. -/
theorem numbered_alike_iff (text : List Char) :
    (∀ n, engineLine text n = mapLine text n ∧ mapLine text n = analyzedLine text n) ↔
      (∀ c ∈ text, isLineBreak c = true → c = '\n' ∨ c = '\r') ∧ text ≠ [] ∧
        text.getLast? ≠ some '\n' ∧ text.getLast? ≠ some '\r' := by
  have hlists : (∀ n, engineLine text n = mapLine text n ∧ mapLine text n = analyzedLine text n) ↔
      splitlines (newlines text) = splitLines (newlines text) := by
    rw [← forall_line_iff]
    exact forall_congr' fun n => and_iff_right (engineLine_eq_mapLine text n)
  have hbreaks : (∀ c ∈ newlines text, isLineBreak c = true → c = '\n') ↔
      ∀ c ∈ text, isLineBreak c = true → c = '\n' ∨ c = '\r' := by
    constructor
    · intro h c hc hbreak
      by_contra hno
      rw [not_or] at hno
      exact hno.1 (h c ((mem_newlines hno.1).2 ⟨hc, hno.2⟩) hbreak)
    · intro h c hc hbreak
      by_contra hno
      obtain ⟨hc', hr⟩ := (mem_newlines hno).1 hc
      exact (h c hc' hbreak).elim hno hr
  rw [hlists, splitlines_eq_splitLines_iff, hbreaks, ne_eq, newlines_eq_nil_iff, ne_eq,
    getLast?_newlines, not_or]

/-- A form feed ends a line for the engine only, so every later number is off by one. -/
theorem numbered_apart_formfeed :
    engineLine ['a', '\x0c', 'b', '\n', 'c'] 3 = some ['c'] ∧
      analyzedLine ['a', '\x0c', 'b', '\n', 'c'] 2 = some ['c'] ∧
      ¬ ∀ n, engineLine ['a', '\x0c', 'b', '\n', 'c'] n = mapLine ['a', '\x0c', 'b', '\n', 'c'] n ∧
        mapLine ['a', '\x0c', 'b', '\n', 'c'] n = analyzedLine ['a', '\x0c', 'b', '\n', 'c'] n := by
  refine ⟨by decide +kernel, by decide +kernel, fun h => ?_⟩
  have h2 := (h 2).2
  revert h2
  decide +kernel

end FosCoverage
