import Mathlib.Data.List.TakeWhile
import FosCoverage.Cpp.Definitions
import FosCoverage.Cpp.LazyIndex

/-!
# The candidate index

`build_symbol_candidate_index` makes one lexical pass over the files of a commit and notes which
file may define which symbol.  The lazy index loads only these files, so a definition the pass does
not see is one the comparison does not see.

* The pass works with three patterns on the logical lines: `functionCandidates`, `macroCandidates`
  and `constantCandidates`.  Each is a search for all matches; what is found at one place never hides
  what stands at another.
* `mem_functionCandidates_iff`: a name is found exactly where it stands as a whole word in front of
  an opening parenthesis (`CalledIn`), with nothing but space between them.
* Macros and constants are always found (`macro_recalled`, `constant_recalled`).  Functions are not:
  for the analyser a comment may stand between the name and the parenthesis, among other things.
  `recalls_iff` is the exact condition.
-/

set_option autoImplicit false

namespace FosCoverage

open Text CppLexer CppSourceAnalyzer

/-! ## The three patterns -/

/-- `_NON_FUNCTION_SYMBOLS` -/
def nonFunctionSymbols : List String :=
  ["if", "for", "while", "switch", "catch", "return", "sizeof", "decltype", "static_cast",
    "dynamic_cast", "reinterpret_cast", "const_cast", "new", "delete"]

section Patterns

variable (u : WordTable)

/-- `_FUNCTION_CANDIDATE`: all words in front of an opening parenthesis.  `previous` is the character
before the text. -/
def functionCandidates : Option Char → List Char → List String
  | _, [] => []
  | previous, c :: cs =>
    (if !previous.any u.isWord && isIdentStart c &&
        (((c :: cs).dropWhile u.isWord).dropWhile isSpace).head? == some '(' then
      [String.ofList ((c :: cs).takeWhile u.isWord)] else []) ++ functionCandidates (some c) cs

/-- `_MACRO_CANDIDATE` -/
def macroCandidates (line : List Char) : List String :=
  ((afterText ['#'] (line.dropWhile isSpace)).bind fun s =>
    (afterText "define".toList (s.dropWhile isSpace)).bind fun s =>
      (afterSpaces s).bind fun s => (identifier u s).map Prod.fst).toList

/-- The word `const` or `constexpr` at the start. -/
def constKeyword (s : List Char) : Bool :=
  ["const".toList, "constexpr".toList].any fun keyword =>
    (afterText keyword s).any fun rest => !rest.head?.any u.isWord

/-- `_CONSTANT_DECLARATION`: from the keyword up to a semicolon or the end. -/
def constantDeclarations : Nat → Option Char → List Char → List (List Char)
  | 0, _, _ => []
  | _ + 1, _, [] => []
  | fuel + 1, previous, c :: cs =>
    if !previous.any u.isWord && constKeyword u (c :: cs) then
      ((c :: cs).takeWhile (· ≠ ';') ++ ((c :: cs).dropWhile (· ≠ ';')).take 1) ::
        constantDeclarations fuel (some ';') (((c :: cs).dropWhile (· ≠ ';')).drop 1)
    else constantDeclarations fuel (some c) cs

/-- `_IDENTIFIER`: the words that start like an identifier. -/
def identifiers (s : List Char) : List String :=
  ((s.splitOnP fun c => !u.isWord c).filter fun w => w.head?.any isIdentStart).map String.ofList

/-- All identifiers in the declarations of constants on a line. -/
def constantCandidates (line : List Char) : List String :=
  (constantDeclarations u line.length none line).flatMap (identifiers u)

end Patterns

/-! ## The index -/

/-- The logical lines of a text, joined. -/
def logicalSource (text : List Char) : List Char :=
  ['\n'].intercalate ((logicalLines (numberedLines text)).map LogicalLine.text)

/-- What the patterns find in a text. -/
def candidatesIn (u : WordTable) (text : List Char) : Symbol → List String
  | .function _ => functionCandidates u none (logicalSource text)
  | .definition .macros _ =>
    (logicalLines (numberedLines text)).flatMap fun l => macroCandidates u l.text
  | .definition .constants _ =>
    (logicalLines (numberedLines text)).flatMap fun l => constantCandidates u l.text

/-- The name of a symbol. -/
def Symbol.name : Symbol → String
  | .function name => name
  | .definition _ name => name

/-- `add` takes the symbol for the file. -/
def adds (u : WordTable) (text : List Char) (s : Symbol) : Bool :=
  s.name ∈ candidatesIn u text s ∧ s.name ≠ "" ∧ s.name ∉ nonFunctionSymbols

/-- `build_symbol_candidate_index`: the paths listed for a symbol, sorted. -/
def buildSymbolCandidateIndex (u : WordTable) (commit : SourceUniverse) (s : Symbol) :
    List String :=
  DependencyResolver.sortedNames ((commit.files.filter fun file => adds u file.2 s).map Prod.fst)

/-- What can be asked of the index. -/
def Queryable (u : WordTable) : Symbol → Prop
  | .function name => isName u name = true ∧ name ∉ nonFunctionSymbols
  | .definition _ name => name ∉ DependencyResolver.nonDependencyTokens

/-- The analyser finds the symbol in the file. -/
def Extracted (u : WordTable) (file : String × List Char) (s : Symbol) : Prop :=
  s.entriesIn file.1 (analyze u file.2 file.1) ≠ []

/-- The index lists the file for everything the analyser finds in it. -/
def Recalls (u : WordTable) (commit : SourceUniverse) (file : String × List Char) : Prop :=
  ∀ s, Queryable u s → Extracted u file s → file.1 ∈ buildSymbolCandidateIndex u commit s

theorem mem_buildSymbolCandidateIndex {u : WordTable} {commit : SourceUniverse}
    {file : String × List Char} (hf : file ∈ commit.files) (s : Symbol) :
    file.1 ∈ buildSymbolCandidateIndex u commit s ↔ adds u file.2 s = true := by
  unfold buildSymbolCandidateIndex
  rw [mem_sortedNames, List.mem_map]
  constructor
  · rintro ⟨other, hother, hpath⟩
    obtain ⟨hmem, hadds⟩ := List.mem_filter.1 hother
    rwa [List.inj_on_of_nodup_map commit.nodup hmem hf hpath] at hadds
  · intro hadds
    exact ⟨file, List.mem_filter.2 ⟨hf, hadds⟩, rfl⟩

/-! ## Functions -/

/-- The name stands in the text as a whole word in front of an opening parenthesis. -/
def CalledIn (u : WordTable) (s : List Char) (name : String) : Prop :=
  ∃ before space behind, s = before ++ name.toList ++ space ++ '(' :: behind ∧
    (∀ c ∈ before.getLast?, u.isWord c = false) ∧ ∀ c ∈ space, isSpace c = true

section Functions

variable {u : WordTable}

theorem isWord_eq_false_of_isSpace (u : WordTable) {c : Char} (h : isSpace c = true) :
    u.isWord c = false := by
  unfold WordTable.isWord
  rw [u.space c h, Bool.or_false, beq_eq_false_iff_ne]
  rintro rfl
  exact absurd h (by decide)

theorem isWord_of_ascii (u : WordTable) {c : Char} (h : c.toNat < 128) :
    u.isWord c = (c == '_' || c.isAlphanum) := by
  unfold WordTable.isWord
  rw [u.ascii c h]

theorem lt_of_isAlpha {c : Char} (h : c.isAlpha = true) : c.toNat < 128 := by
  rw [isAlpha_iff] at h
  omega

/-- A word ends where something else follows. -/
theorem takeWhile_word {w rest : List Char} (hw : ∀ c ∈ w, u.isWord c = true)
    (hrest : ∀ c ∈ rest.head?, u.isWord c = false) :
    (w ++ rest).takeWhile u.isWord = w ∧ (w ++ rest).dropWhile u.isWord = rest := by
  rw [List.takeWhile_append_of_pos hw, List.dropWhile_append_of_pos hw]
  cases rest with
  | nil => simp
  | cons c rest =>
    have hc : ¬ u.isWord c = true := Bool.eq_false_iff.1 (hrest c rfl)
    rw [List.takeWhile_cons_of_neg hc, List.dropWhile_cons_of_neg hc, List.append_nil]
    exact ⟨rfl, rfl⟩

/-- A word that the pattern matches at the start of a text stands there, with white space and a
parenthesis behind it. -/
theorem candidate_at_start {previous : Option Char} {s : List Char}
    (hprevious : previous.any u.isWord = false)
    (hhead : ((s.dropWhile u.isWord).dropWhile isSpace).head? = some '(') :
    ∃ space behind, s = s.takeWhile u.isWord ++ space ++ '(' :: behind ∧
      (∀ c ∈ previous, u.isWord c = false) ∧ ∀ c ∈ space, isSpace c = true := by
  obtain ⟨behind, hbehind⟩ : ∃ behind, (s.dropWhile u.isWord).dropWhile isSpace =
      '(' :: behind := by
    generalize (s.dropWhile u.isWord).dropWhile isSpace = rest at hhead
    cases rest with
    | nil => cases hhead
    | cons d rest =>
      obtain rfl := Option.some.inj hhead
      exact ⟨rest, rfl⟩
  refine ⟨(s.dropWhile u.isWord).takeWhile isSpace, behind, ?_, ?_, ?_⟩
  · rw [← hbehind, List.append_assoc, List.takeWhile_append_dropWhile,
      List.takeWhile_append_dropWhile]
  · intro c hc
    obtain rfl := Option.mem_def.1 hc
    exact hprevious
  · exact fun c hc => List.mem_takeWhile_imp hc

/-- A name with white space and a parenthesis behind it is the word at the start, and the pattern
goes on to the parenthesis. -/
theorem word_at_start {name : String} (hname : isName u name = true) {c : Char}
    {cs space behind : List Char} (h : c :: cs = name.toList ++ space ++ '(' :: behind)
    (hspace : ∀ c ∈ space, isSpace c = true) :
    isIdentStart c = true ∧ (c :: cs).takeWhile u.isWord = name.toList ∧
    ((c :: cs).dropWhile u.isWord).dropWhile isSpace = '(' :: behind := by
  unfold isName at hname
  rw [Bool.and_eq_true, List.all_eq_true] at hname
  obtain ⟨hstart, hword⟩ := hname
  have hparen : u.isWord '(' = false := by
    rw [isWord_of_ascii u (by decide)]
    decide
  have hrest : ∀ d ∈ (space ++ '(' :: behind).head?, u.isWord d = false := by
    intro d hd
    cases space with
    | nil =>
      obtain rfl := Option.some.inj hd
      exact hparen
    | cons e space =>
      obtain rfl := Option.some.inj hd
      exact isWord_eq_false_of_isSpace u (hspace e List.mem_cons_self)
  rw [List.append_assoc] at h
  obtain ⟨htake, hdrop⟩ := takeWhile_word hword hrest
  rw [← h] at htake hdrop
  refine ⟨?_, htake, ?_⟩
  · cases hn : name.toList with
    | nil =>
      rw [hn] at hstart
      cases hstart
    | cons d ds =>
      rw [hn] at h hstart
      obtain ⟨rfl, _⟩ := List.cons.inj h
      exact hstart
  · rw [hdrop, List.dropWhile_append_of_pos hspace, List.dropWhile_cons_of_neg (by decide)]

/-- **The pattern finds a name exactly where it stands in front of a parenthesis.** -/
theorem mem_functionCandidates_iff {name : String} (hname : isName u name = true)
    (previous : Option Char) (s : List Char) :
    name ∈ functionCandidates u previous s ↔
      ∃ before space behind, s = before ++ name.toList ++ space ++ '(' :: behind ∧
        (∀ c ∈ (previous.toList ++ before).getLast?, u.isWord c = false) ∧
        ∀ c ∈ space, isSpace c = true := by
  induction s generalizing previous with
  | nil =>
    refine iff_of_false List.not_mem_nil ?_
    rintro ⟨before, space, behind, h, _⟩
    exact absurd (congrArg List.length h) (by simp)
  | cons c cs ih =>
    rw [functionCandidates, List.mem_append]
    refine (or_congr Iff.rfl (ih (some c))).trans ?_
    constructor
    · rintro (hhere | ⟨before, space, behind, rfl, hbefore, hspace⟩)
      · split at hhere
        · rename_i hmatch
          simp only [Bool.and_eq_true, Bool.not_eq_true', beq_iff_eq] at hmatch
          obtain ⟨⟨hprevious, _⟩, hhead⟩ := hmatch
          obtain rfl := List.mem_singleton.1 hhere
          obtain ⟨space, behind, htext, hprevious, hspace⟩ := candidate_at_start hprevious hhead
          refine ⟨[], space, behind, ?_, fun d hd => hprevious d ?_, hspace⟩
          · rw [List.nil_append, String.toList_ofList]
            exact htext
          · cases previous with
            | none => cases hd
            | some p => exact hd
        · cases hhere
      · refine ⟨c :: before, space, behind, rfl, ?_, hspace⟩
        intro d hd
        refine hbefore d ?_
        cases previous <;> simpa using hd
    · rintro ⟨before, space, behind, h, hbefore, hspace⟩
      cases before with
      | cons d before =>
        obtain ⟨rfl, hcs⟩ := List.cons.inj h
        refine .inr ⟨before, space, behind, hcs, ?_, hspace⟩
        intro d hd
        refine hbefore d ?_
        cases previous <;> simpa using hd
      | nil =>
        obtain ⟨hhead, htake, hskip⟩ := word_at_start hname h hspace
        have hprevious : (previous.any u.isWord) = false := by
          cases previous with
          | none => rfl
          | some p => exact hbefore p (by simp)
        left
        rw [htake, hskip, hhead, hprevious, if_pos (by simp), String.ofList_toList]
        exact List.mem_singleton.2 rfl

theorem function_recalled_iff {name : String} (h : Queryable u (.function name))
    (text : List Char) :
    adds u text (.function name) = true ↔ CalledIn u (logicalSource text) name := by
  obtain ⟨hname, hallowed⟩ := h
  have hne : name ≠ "" := by
    rintro rfl
    exact absurd hname (by simp [isName])
  unfold adds
  rw [decide_eq_true_eq]
  change (name ∈ functionCandidates u none (logicalSource text) ∧ name ≠ "" ∧ _) ↔ _
  rw [mem_functionCandidates_iff hname]
  exact ⟨fun h => h.1, fun h => ⟨h, hne, hallowed⟩⟩

end Functions

/-! ## Macros and constants -/

section Definitions

variable {u : WordTable} {line : List Char} {name : String} {tokens : List String}

/-- **Every macro is found.** -/
theorem macro_recalled (h : macroOf u line = some (name, tokens)) :
    name ∈ macroCandidates u line := by
  unfold macroOf at h
  simp only [Option.bind_eq_bind, Option.bind_eq_some_iff, Option.pure_def, Option.some.injEq] at h
  obtain ⟨s₁, h₁, s₂, h₂, s₃, h₃, w, h₄, hname⟩ := h
  obtain ⟨rfl, _⟩ := Prod.mk.inj hname
  unfold macroCandidates
  rw [h₁, Option.bind_some, h₂, Option.bind_some, h₃, Option.bind_some, h₄, Option.map_some]
  exact List.mem_singleton.2 rfl

theorem afterText_eq_some {pattern s rest : List Char} (h : afterText pattern s = some rest) :
    s = pattern ++ rest := by
  unfold afterText at h
  split at h
  · rename_i hprefix
    obtain ⟨t, rfl⟩ := List.isPrefixOf_iff_prefix.1 hprefix
    rw [← Option.some.inj h, List.drop_left]
  · cases h

theorem afterSpaces_eq_some {s rest : List Char} (h : afterSpaces s = some rest) :
    ∃ c space, s = c :: space ++ rest ∧ ∀ d ∈ c :: space, isSpace d = true := by
  unfold afterSpaces at h
  split at h
  · rename_i hhead
    cases s with
    | nil => cases hhead
    | cons c cs =>
      have hc : isSpace c = true := hhead
      rw [List.dropWhile_cons_of_pos hc] at h
      refine ⟨c, cs.takeWhile isSpace, ?_, ?_⟩
      · rw [← Option.some.inj h, List.cons_append, List.takeWhile_append_dropWhile]
      · intro d hd
        rcases List.mem_cons.1 hd with rfl | hd
        · exact hc
        · exact List.mem_takeWhile_imp hd
  · cases h

theorem identifier_eq_some {s rest : List Char} (h : identifier u s = some (name, rest)) :
    s = name.toList ++ rest ∧ (name.toList.head?.any isIdentStart) = true ∧
      (∀ c ∈ name.toList, u.isWord c = true) ∧ ∀ c ∈ rest.head?, u.isWord c = false := by
  unfold identifier at h
  split at h
  · rename_i hhead
    obtain ⟨rfl, rfl⟩ := Prod.mk.inj (Option.some.inj h)
    rw [String.toList_ofList]
    refine ⟨List.takeWhile_append_dropWhile.symm, ?_, fun c hc => List.mem_takeWhile_imp hc, ?_⟩
    · cases s with
      | nil => cases hhead
      | cons c cs =>
        have hc : isIdentStart c = true := hhead
        have hword : u.isWord c = true := by
          unfold isIdentStart at hc
          rw [Bool.or_eq_true, beq_iff_eq] at hc
          rcases hc with hc | rfl
          · rw [isWord_of_ascii u, Char.isAlphanum, hc]
            · simp
            · exact lt_of_isAlpha hc
          · simp [WordTable.isWord]
        rw [List.takeWhile_cons_of_pos hword]
        exact hc
    · intro c hc
      cases hd : s.dropWhile u.isWord with
      | nil =>
        rw [hd] at hc
        cases hc
      | cons d rest =>
        rw [hd] at hc
        obtain rfl := Option.some.inj hc
        have hstop := List.head_dropWhile_not u.isWord (l := s)
          (by rw [hd]; exact List.cons_ne_nil _ _)
        simpa [hd] using hstop
  · cases h

/-- A constant stands behind its keyword, with spaces and the type between them. -/
theorem constantOf_shape (h : constantOf u line = some (name, tokens)) :
    ∃ keyword ∈ ["const".toList, "constexpr".toList], ∃ c between d behind,
      line.dropWhile isSpace = keyword ++ c :: between ++ d :: (name.toList ++ behind) ∧
        isSpace c = true ∧ isSpace d = true ∧ (∀ e ∈ between, e ≠ ';') ∧
        (name.toList.head?.any isIdentStart) = true ∧ (∀ e ∈ name.toList, u.isWord e = true) ∧
        ∀ e ∈ behind.head?, u.isWord e = false := by
  unfold constantOf at h
  simp only [Option.bind_eq_bind, Option.bind_eq_some_iff, Option.pure_def] at h
  obtain ⟨s₁, hkeyword, h⟩ := h
  split at h
  · cases h
  simp only [Option.bind_eq_some_iff] at h
  obtain ⟨s₂, htype, w, hname, _, _, hw⟩ := h
  obtain ⟨rfl, _⟩ := Prod.mk.inj (Option.some.inj hw)
  obtain ⟨keyword, hmem, s₀, htext, hspaces⟩ : ∃ keyword ∈ ["const".toList, "constexpr".toList],
      ∃ s₀, line.dropWhile isSpace = keyword ++ s₀ ∧ afterSpaces s₀ = some s₁ := by
    rcases Option.or_eq_some_iff.1 hkeyword with hexpr | ⟨_, hconst⟩
    · obtain ⟨s₀, h₀, h₁⟩ := Option.bind_eq_some_iff.1 hexpr
      exact ⟨_, by simp, s₀, afterText_eq_some h₀, h₁⟩
    · obtain ⟨s₀, h₀, h₁⟩ := Option.bind_eq_some_iff.1 hconst
      exact ⟨_, by simp, s₀, afterText_eq_some h₀, h₁⟩
  obtain ⟨c, space, rfl, hspace⟩ := afterSpaces_eq_some hspaces
  obtain ⟨d, space', htail, hspace'⟩ := afterSpaces_eq_some htype
  obtain ⟨rfl, hhead, hword, hbehind⟩ := identifier_eq_some hname
  have hsemicolon : u.isWord ';' = false := by
    rw [isWord_of_ascii u (by decide)]
    decide
  have hnot : ∀ e, isSpace e = true → e ≠ ';' := by
    rintro e he rfl
    exact absurd he (by decide)
  -- the last space before the name is the one to cut at
  obtain ⟨front, last, hlast⟩ : ∃ front last, d :: space' = front ++ [last] := by
    rcases List.eq_nil_or_concat (d :: space') with hnil | ⟨front, last, hcat⟩
    · cases hnil
    · exact ⟨front, last, by rw [hcat, List.concat_eq_append]⟩
  obtain ⟨type, hs₁, htypeChars⟩ : ∃ type,
      s₁ = type ++ (front ++ [last] ++ (w.1.toList ++ w.2)) ∧ ∀ e ∈ type, e ≠ ';' := by
    refine ⟨s₁.takeWhile fun c => u.isWord c || c ∈ [':', '<', '>'], ?_, fun e he => ?_⟩
    · rw [← hlast, ← htail]
      exact List.takeWhile_append_dropWhile.symm
    · rintro rfl
      have htypeChar := List.mem_takeWhile_imp he
      rw [hsemicolon] at htypeChar
      exact absurd htypeChar (by decide)
  refine ⟨keyword, hmem, c, space ++ type ++ front, last, w.2, ?_, hspace c List.mem_cons_self, ?_,
    ?_, hhead, hword, hbehind⟩
  · rw [htext, hs₁]
    simp only [List.append_assoc, List.cons_append, List.nil_append]
  · exact hspace' last (by rw [hlast]; simp)
  · intro e he
    rcases List.mem_append.1 he with he | he
    · rcases List.mem_append.1 he with he | he
      · exact hnot e (hspace e (List.mem_cons_of_mem _ he))
      · exact htypeChars e he
    · exact hnot e (hspace' e (by rw [hlast]; exact List.mem_append_left _ he))

/-- A whole word between other characters is one of the identifiers. -/
theorem mem_identifiers {front behind : List Char} {d : Char} (hd : u.isWord d = false)
    (hhead : (name.toList.head?.any isIdentStart) = true)
    (hword : ∀ e ∈ name.toList, u.isWord e = true)
    (hbehind : ∀ e ∈ behind.head?, u.isWord e = false) :
    name ∈ identifiers u (front ++ d :: (name.toList ++ behind)) := by
  have hplain : ∀ e ∈ name.toList, (!u.isWord e) = false := fun e he => by rw [hword e he]; rfl
  unfold identifiers
  refine List.mem_map.2 ⟨name.toList, List.mem_filter.2 ⟨?_, hhead⟩, String.ofList_toList⟩
  rw [List.splitOnP_append_cons _ _ (by rw [hd]; rfl)]
  refine List.mem_append_right _ ?_
  cases behind with
  | nil =>
    rw [List.append_nil, List.splitOnP_eq_singleton hplain]
    exact List.mem_singleton.2 rfl
  | cons e behind =>
    have he := hbehind e rfl
    rw [List.splitOnP_append_cons _ _ (by rw [he]; rfl), List.splitOnP_eq_singleton hplain]
    exact List.mem_append_left _ (List.mem_singleton.2 rfl)

/-- The first declaration of a line starts at its first keyword. -/
theorem mem_constantDeclarations {fuel : Nat} {previous : Option Char} {s : List Char}
    (hfuel : s.length ≤ fuel) (hprevious : previous.any u.isWord = false)
    (hkeyword : constKeyword u (s.dropWhile isSpace) = true) :
    (s.dropWhile isSpace).takeWhile (· ≠ ';') ++
        ((s.dropWhile isSpace).dropWhile (· ≠ ';')).take 1 ∈
      constantDeclarations u fuel previous s := by
  induction s generalizing fuel previous with
  | nil => exact absurd hkeyword (by simp [constKeyword, afterText])
  | cons c cs ih =>
    obtain ⟨fuel, rfl⟩ : ∃ n, fuel = n + 1 := by
      rw [List.length_cons] at hfuel
      exact ⟨fuel - 1, by omega⟩
    rw [List.length_cons] at hfuel
    rw [constantDeclarations]
    by_cases hc : isSpace c = true
    · have hno : constKeyword u (c :: cs) = false := by
        have hne : c ≠ 'c' := by
          rintro rfl
          exact absurd hc (by decide)
        simp [constKeyword, afterText, Ne.symm hne]
      rw [List.dropWhile_cons_of_pos hc] at hkeyword ⊢
      rw [hno, Bool.and_false, if_neg (by simp)]
      exact ih (by omega) (isWord_eq_false_of_isSpace u hc) hkeyword
    · rw [List.dropWhile_cons_of_neg hc] at hkeyword ⊢
      rw [hprevious, hkeyword, if_pos (by simp)]
      exact List.mem_cons_self

/-- **Every constant is found.** -/
theorem constant_recalled (h : constantOf u line = some (name, tokens)) :
    name ∈ constantCandidates u line := by
  obtain ⟨keyword, hmem, c, between, d, behind, htext, hc, hd, hbetween, hhead, hword, hbehind⟩ :=
    constantOf_shape h
  have hsemicolon : u.isWord ';' = false := by
    rw [isWord_of_ascii u (by decide)]
    decide
  have hkeyword : constKeyword u (line.dropWhile isSpace) = true := by
    unfold constKeyword
    refine List.any_eq_true.2 ⟨keyword, hmem, ?_⟩
    unfold afterText
    rw [htext, List.append_assoc, if_pos (List.isPrefixOf_iff_prefix.2 (List.prefix_append _ _)),
      List.drop_left]
    simp [isWord_eq_false_of_isSpace u hc]
  refine List.mem_flatMap.2 ⟨_, mem_constantDeclarations le_rfl rfl hkeyword, ?_⟩
  -- no semicolon stands before the name, so the declaration goes on to it
  have hplain : ∀ e ∈ keyword ++ c :: between ++ d :: name.toList, decide (e ≠ ';') = true := by
    intro e he
    rw [decide_eq_true_eq]
    rintro rfl
    simp only [List.mem_append, List.mem_cons] at he
    rcases he with (he | he | he) | he | he
    · revert he
      rcases List.mem_cons.1 hmem with rfl | hmem
      · decide
      · rw [List.mem_singleton.1 hmem]
        decide
    · rw [← he] at hc
      exact absurd hc (by decide)
    · exact hbetween _ he rfl
    · rw [← he] at hd
      exact absurd hd (by decide)
    · exact absurd (hword _ he) (by rw [hsemicolon]; decide)
  have hsplit : line.dropWhile isSpace =
      (keyword ++ c :: between ++ d :: name.toList) ++ behind := by
    rw [htext]
    simp [List.append_assoc]
  rw [hsplit, List.takeWhile_append_of_pos hplain, List.dropWhile_append_of_pos hplain,
    List.append_assoc, List.append_assoc, List.cons_append]
  refine mem_identifiers (isWord_eq_false_of_isSpace u hd) hhead hword ?_
  intro e he
  cases behind with
  | nil => cases he
  | cons b behind =>
    refine hbehind e ?_
    by_cases hb : b = ';'
    · subst hb
      simpa using he
    · rw [List.takeWhile_cons_of_pos (by simpa using hb)] at he
      exact he

/-- A definition the analyser finds is one of a logical line. -/
theorem exists_line_of_extracted {file : String × List Char} {kind : DefinitionKind}
    (h : Extracted u file (.definition kind name)) :
    ∃ l ∈ logicalLines (numberedLines file.2), ∃ tokens,
      kind.recognise u l.text = some (name, tokens) := by
  unfold Extracted Symbol.entriesIn at h
  dsimp only at h
  rw [lookup_analyze] at h
  have hsome : (occurrences u kind file name).getLast? ≠ none := by
    intro hnone
    rw [hnone] at h
    exact h rfl
  obtain ⟨d, hd⟩ := Option.ne_none_iff_exists'.1 hsome
  have hmem := List.mem_of_getLast? hd
  unfold occurrences at hmem
  split at hmem
  · obtain ⟨l, hl, hat⟩ := List.mem_filterMap.1 hmem
    refine ⟨l, hl, ?_⟩
    unfold definitionAt at hat
    split at hat
    · rename_i n tokens hrecognise
      split at hat
      · rename_i hn
        exact ⟨tokens, by rw [hrecognise, hn]⟩
      · cases hat
    · cases hat
  · cases hmem

theorem nonFunctionSymbols_subset {name : String}
    (h : name ∉ DependencyResolver.nonDependencyTokens) : name ∉ nonFunctionSymbols := by
  have hsub : ∀ n ∈ nonFunctionSymbols, n ∈ DependencyResolver.nonDependencyTokens := by decide
  exact fun hmem => h (hsub name hmem)

/-- **Every macro and every constant of a file is listed for it.** -/
theorem definition_recalled {file : String × List Char} {kind : DefinitionKind}
    (hquery : Queryable u (.definition kind name))
    (h : Extracted u file (.definition kind name)) :
    adds u file.2 (.definition kind name) = true := by
  obtain ⟨l, hl, tokens, hrecognise⟩ := exists_line_of_extracted h
  unfold adds
  rw [decide_eq_true_eq]
  refine ⟨?_, ?_, nonFunctionSymbols_subset hquery⟩
  · cases kind with
    | macros => exact List.mem_flatMap.2 ⟨l, hl, macro_recalled hrecognise⟩
    | constants => exact List.mem_flatMap.2 ⟨l, hl, constant_recalled hrecognise⟩
  · change name ≠ ""
    rintro rfl
    cases kind with
    | macros =>
      have hmem := macro_recalled hrecognise
      unfold macroCandidates at hmem
      simp only [Option.mem_toList, Option.bind_eq_some_iff,
        Option.map_eq_some_iff] at hmem
      obtain ⟨_, _, _, _, s, _, w, hw, hname⟩ := hmem
      have hw : identifier u s = some (w.1, w.2) := hw
      have hhead := (identifier_eq_some hw).2.1
      rw [hname] at hhead
      cases hhead
    | constants =>
      obtain ⟨_, _, _, _, _, _, _, _, _, _, hhead, _⟩ := constantOf_shape hrecognise
      cases hhead

end Definitions

/-! ## Recall -/

/-- **When the index lists a file for all it defines**: exactly when every function of it stands
somewhere in the text as a whole word in front of an opening parenthesis. -/
theorem recalls_iff {u : WordTable} {commit : SourceUniverse} {file : String × List Char}
    (hf : file ∈ commit.files) :
    Recalls u commit file ↔
      ∀ f ∈ (analyze u file.2 file.1).functions, Queryable u (.function f.identity.name) →
        CalledIn u (logicalSource file.2) f.identity.name := by
  constructor
  · intro h f hmem hquery
    have hextracted : Extracted u file (.function f.identity.name) := by
      unfold Extracted Symbol.entriesIn
      refine List.ne_nil_of_mem (List.mem_map_of_mem (List.mem_filter.2 ⟨hmem, ?_⟩))
      simp
    rw [← function_recalled_iff hquery, ← mem_buildSymbolCandidateIndex hf]
    exact h _ hquery hextracted
  · intro h s hquery hextracted
    rw [mem_buildSymbolCandidateIndex hf]
    cases s with
    | function name =>
      rw [function_recalled_iff hquery]
      obtain ⟨e, he⟩ := List.exists_mem_of_ne_nil _ hextracted
      obtain ⟨f, hfound, _⟩ := List.mem_map.1 he
      obtain ⟨hmem, hname⟩ := List.mem_filter.1 hfound
      have hname : f.identity.name = name := by simpa using hname
      rw [← hname] at hquery ⊢
      exact h f hmem hquery
    | definition kind name => exact definition_recalled hquery hextracted

/-! ## Examples of both outcomes -/

namespace Sample

/-- A commit of one file with a function, with something between its name and its parameters. -/
def withHeader (between : String) : SourceUniverse :=
  ⟨[("a.cpp", ("int foo" ++ between ++ "(int a) \x7b\n\x7d").toList)], by simp⟩

end Sample

/-- A space and a line break before the parameters do no harm. -/
theorem recalls_sample :
    Recalls .asciiOnly (Sample.withHeader " \n ")
      ("a.cpp", "int foo \n (int a) \x7b\n\x7d".toList) := by
  refine (recalls_iff (by decide +kernel)).2 fun f hf _ => ?_
  have hname : ∀ f ∈ (analyze .asciiOnly "int foo \n (int a) \x7b\n\x7d".toList "a.cpp").functions,
      f.identity.name = "foo" := by decide +kernel
  have hname := hname f hf
  rw [hname]
  refine ⟨"int ".toList, " \n ".toList, "int a) \x7b\n\x7d".toList, by decide +kernel, ?_, ?_⟩
  · rintro c hc
    obtain rfl : ' ' = c := Option.some.inj hc
    decide
  · exact List.all_eq_true.1 (by decide +kernel)

/-- A comment before the parameters: the analyser finds the function, the index does not. -/
theorem commented_header_is_lost :
    ¬ Recalls .asciiOnly (Sample.withHeader " /* c */ ")
      ("a.cpp", "int foo /* c */ (int a) \x7b\n\x7d".toList) := by
  intro h
  have hlisted := h (.function "foo") ⟨by decide +kernel, by decide⟩
    (by unfold Extracted; decide +kernel)
  exact absurd hlisted (by decide +kernel)

end FosCoverage
