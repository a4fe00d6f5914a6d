import FosCoverage.Cpp.Functions

/-!
# Changed callees

When does a changed function stop the lines that call it?  The comparison takes a function by its
name, once for each name the physical line calls, and compares identity and body.  The body is what
stands on the lines behind that of the opening brace (`PlainIn.tail`), so

* what stands on the line of the opening brace, like the whole body of a one-line function, is not
  compared, and
* a function that is called in a control header on another line is not looked up at all.

`changed_callee_blocks` is the exact condition.
-/

set_option autoImplicit false

namespace FosCoverage

open Text CppLexer CppSourceAnalyzer

/-! ## Definitions in a commit -/

/-- The tokens of the lines of a text. -/
def tokenLines (text : List Char) : List (Nat × List String) :=
  enumerate 1 ((tokenizeLines (splitLines (newlines text))).map LexedLine.tokens)

/-- What the scan for functions works on. -/
def fileTokens (file : String × List Char) : FileTokens :=
  ⟨file.1, tokenLines file.2, uncertain (tokenizeLines (splitLines (newlines file.2)))⟩

theorem functions_analyze {u : WordTable} {file : String × List Char} (h : supported file.1 = true) :
    (analyze u file.2 file.1).functions = functions (fileTokens file) := by
  unfold analyze
  rw [if_pos h]
  rfl

/-- A plain definition of a function in a file of a commit. -/
structure PlainIn (commit : SourceUniverse) (name : String) where
  /-- The file. -/
  file : String × List Char
  /-- It is one of the commit. -/
  mem : file ∈ commit.files
  /-- It is a source file. -/
  isSource : supported file.1 = true
  /-- The line of the opening brace. -/
  start : Nat
  /-- The line of the closing brace. -/
  stop : Nat
  /-- The tokens between the braces. -/
  body : List String
  /-- The definition. -/
  definition : PlainDefinition (tokenLines file.2) name start stop body

/-- The tokens on the lines behind that of the opening brace, up to the end of the line of the
closing brace. -/
def PlainIn.tail {commit : SourceUniverse} {name : String} (d : PlainIn commit name) :
    List String :=
  (fileTokens d.file).body d.start d.stop

section Compare

variable {u : WordTable} {fingerprint : List String → String} {old new : SourceUniverse}
  {name : String}

/-- A plain definition is among the functions of its name. -/
theorem PlainIn.mem_functions {commit : SourceUniverse} (d : PlainIn commit name)
    (file : String × List Char) (text : List Char) (n : Nat) :
    ∃ f ∈ (commit.side u file text n).functions name, f.bodyTokens = d.tail := by
  obtain ⟨f, hf, hname, _, _, hbody⟩ := PlainDefinition.found (fileTokens d.file) d.definition
  have hmem : f ∈ (commit.index u).functionsNamed name := by
    refine List.mem_flatMap.2 ⟨(d.file.1, analyze u d.file.2 d.file.1), ?_, ?_⟩
    · exact (List.mem_insertionSort _).2 (List.mem_map.2 ⟨d.file, d.mem, rfl⟩)
    · rw [List.mem_filter, functions_analyze d.isSource]
      exact ⟨hf, by simpa using hname⟩
  refine ⟨f, ?_, hbody⟩
  unfold LineSide.functions SourceAnalysisIndex.functions
  dsimp only
  rw [if_pos (List.ne_nil_of_mem (show f ∈ (commit.side u file text n).index.functionsNamed name
    from hmem))]
  exact hmem

variable (fingerprint name)

/-- Every check of `compare_line` passes except perhaps that of the function. -/
def OtherCalleesPass (u : WordTable) (side side' : LineSide) : Prop :=
  SamePlace side side' ∧
    (∀ n ∈ DependencyResolver.consulted u side side', ∀ k, DefinitionsAgree side side' k n) ∧
    ∀ n ∈ side.calls ++ side'.calls, n ≠ name → CalleeAgrees fingerprint side side' n

/-- The analyser finds one function of the name on each side, understands both, and takes them for
the same. -/
def SameFunction (side side' : LineSide) : Prop :=
  ∃ f g, side.functions name = [f] ∧ side'.functions name = [g] ∧ f.uncertain = false ∧
    g.uncertain = false ∧ f.identity = g.identity

variable {fingerprint name}

/-- **What the comparison of a callee sees.** -/
theorem calleeAgrees_iff (hfp : Function.Injective fingerprint) (d : PlainIn old name)
    (d' : PlainIn new name) (file file' : String × List Char) (text text' : List Char) (m n : Nat) :
    CalleeAgrees fingerprint (old.side u file text m) (new.side u file' text' n) name ↔
      SameFunction name (old.side u file text m) (new.side u file' text' n) ∧ d.tail = d'.tail := by
  obtain ⟨f, hf, hbody⟩ := d.mem_functions (u := u) file text m
  obtain ⟨g, hg, hbody'⟩ := d'.mem_functions (u := u) file' text' n
  unfold CalleeAgrees SameFunction
  constructor
  · intro h
    unfold DependencyResolver.calleeReason at h
    split at h
    · rename_i hnil _
      rw [hnil] at hf
      cases hf
    · rename_i f' g' hone hone'
      rw [hone, List.mem_singleton] at hf
      rw [hone', List.mem_singleton] at hg
      subst hf hg
      split at h
      · cases h
      · split at h
        · cases h
        · split at h
          · cases h
          · rename_i h₁ h₂ h₃
            simp only [Bool.or_eq_true, not_or, Bool.not_eq_true] at h₁
            refine ⟨⟨f, g, hone, hone', h₁.1, h₁.2, not_not.1 h₂⟩, ?_⟩
            rw [← hbody, ← hbody']
            exact hfp (not_not.1 h₃)
    · cases h
  · rintro ⟨⟨f', g', hone, hone', hu, hu', hid⟩, htail⟩
    rw [hone, List.mem_singleton] at hf
    rw [hone', List.mem_singleton] at hg
    subst hf hg
    rw [hone, hone']
    have hsame : f.bodyTokens = g.bodyTokens := by rw [hbody, hbody', htail]
    simp [DependencyResolver.calleeReason, hu, hu', hid, hsame]

/-- **When a changed callee stops a line**: exactly when another check does, or the line itself calls
the function and the analyser does not take the two for the same, or they differ behind the line of
the opening brace. -/
theorem changed_callee_blocks (hfp : Function.Injective fingerprint) (d : PlainIn old name)
    (d' : PlainIn new name) (file file' : String × List Char) (text text' : List Char) (m n : Nat) :
    compareLine u fingerprint (old.side u file text m) (new.side u file' text' n) ≠ none ↔
      ¬ OtherCalleesPass fingerprint name u (old.side u file text m) (new.side u file' text' n) ∨
        (name ∈ (old.side u file text m).calls ++ (new.side u file' text' n).calls ∧
          (¬ SameFunction name (old.side u file text m) (new.side u file' text' n) ∨
            d.tail ≠ d'.tail)) := by
  have hagree := calleeAgrees_iff (u := u) hfp d d' file file' text text' m n
  have hpass : compareLine u fingerprint (old.side u file text m) (new.side u file' text' n) =
      none ↔ OtherCalleesPass fingerprint name u (old.side u file text m)
        (new.side u file' text' n) ∧
      (name ∈ (old.side u file text m).calls ++ (new.side u file' text' n).calls →
        SameFunction name (old.side u file text m) (new.side u file' text' n) ∧
          d.tail = d'.tail) := by
    rw [compareLine_eq_none_iff, ← hagree]
    constructor
    · rintro ⟨hplace, hdefs, hcalls⟩
      exact ⟨⟨hplace, hdefs, fun n hn _ => hcalls n hn⟩, hcalls name⟩
    · rintro ⟨⟨hplace, hdefs, hcalls⟩, hname⟩
      refine ⟨hplace, hdefs, fun n hn => ?_⟩
      by_cases heq : n = name
      · subst heq
        exact hname hn
      · exact hcalls n hn heq
  rw [Ne, hpass, not_and_or]
  refine or_congr Iff.rfl ?_
  rw [Classical.not_imp, not_and_or]

end Compare

/-! ## Examples of both outcomes -/

namespace Sample

/-- The characters of a token, each behind a mark, and the end of it. -/
def markToken : List Char → List Char
  | [] => ['.']
  | c :: cs => '-' :: c :: markToken cs

/-- A fingerprint that keeps all lists of tokens apart. -/
def markTokens (tokens : List String) : String :=
  String.ofList (tokens.flatMap fun t => markToken t.toList)

theorem markToken_append_inj {s t x y : List Char}
    (h : markToken s ++ x = markToken t ++ y) : s = t ∧ x = y := by
  induction s generalizing t with
  | nil =>
    cases t with
    | nil => simpa [markToken] using h
    | cons d t => simp [markToken] at h
  | cons c s ih =>
    cases t with
    | nil => simp [markToken] at h
    | cons d t =>
      simp only [markToken, List.cons_append, List.cons.injEq, true_and] at h
      obtain ⟨rfl, hrest⟩ := h
      obtain ⟨rfl, hxy⟩ := ih hrest
      exact ⟨rfl, hxy⟩

theorem markTokens_injective : Function.Injective markTokens := by
  have hne : ∀ (s : List Char) (x : List Char), markToken s ++ x ≠ [] := by
    intro s x
    cases s <;> simp [markToken]
  intro l l' h
  have h := String.ofList_injective h
  induction l generalizing l' with
  | nil =>
    cases l' with
    | nil => rfl
    | cons t l' => exact absurd h.symm (hne _ _)
  | cons s l ih =>
    cases l' with
    | nil => exact absurd h (hne _ _)
    | cons t l' =>
      rw [List.flatMap_cons, List.flatMap_cons] at h
      obtain ⟨hst, hrest⟩ := markToken_append_inj h
      rw [String.toList_injective hst, ih (congrArg String.ofList hrest) hrest]

/-- A file that starts with the function `int g()`, with the first `n` tokens behind its header. -/
def StartsWith (lines : List (Nat × List String)) (n : Nat) (o c : Located) : Prop :=
  located lines = (located lines).take 4 ++ o :: (((located lines).drop 5).take n ++
    c :: (located lines).drop (n + 6)) ∧
  ((located lines).take 4).map Located.token = ["int", "g", "(", ")"] ∧
  (∀ x ∈ (located lines).take 4, x.inDirective = false) ∧
  (o.token = "\x7b" ∧ o.inDirective = false) ∧ c.token = "\x7d" ∧
  ∀ x ∈ ((located lines).drop 5).take n, x.token ≠ "\x7b" ∧ x.token ≠ "\x7d"

instance (lines : List (Nat × List String)) (n : Nat) (o c : Located) :
    Decidable (StartsWith lines n o c) :=
  inferInstanceAs (Decidable (_ ∧ _ ∧ _ ∧ _ ∧ _ ∧ _))

theorem StartsWith.plain {lines : List (Nat × List String)} {n : Nat} {o c : Located}
    (h : StartsWith lines n o c) :
    PlainDefinition lines "g" o.line c.line
      ((((located lines).drop 5).take n).map Located.token) := by
  obtain ⟨hsplit, htokens, hdirective, ho, hc, hinner⟩ := h
  refine @PlainDefinition.mk lines [] _ _ _ o c ["int"] [] "g" hsplit ?_ htokens ?_ ?_ ?_ ?_ ho
    (Balanced.of_no_braces hinner) hc
  · simp [Complete]
  · intro x hx
    refine ⟨fun hmem => ?_, hdirective x hx⟩
    have hx := List.mem_map_of_mem (f := Located.token) hx
    rw [htokens] at hx
    revert hmem hx
    generalize x.token = t
    intro hmem hx
    simp only [List.mem_cons, List.not_mem_nil, or_false] at hmem hx
    rcases hmem with rfl | rfl | rfl <;> exact absurd hx (by decide)
  · simp
  · simp
  · decide

/-- The commit of one file. -/
def single (path text : String) : SourceUniverse := ⟨[(path, text.toList)], by simp⟩

/-- The function at the start of its file. -/
def plainIn (text : String) (n : Nat) (o c : Located)
    (h : StartsWith (tokenLines text.toList) n o c) : PlainIn (single "a.cpp" text) "g" where
  file := ("a.cpp", text.toList)
  mem := List.mem_singleton.2 rfl
  isSource := by
    change supported "a.cpp" = true
    decide +kernel
  start := o.line
  stop := c.line
  body := _
  definition := h.plain

/-- A line of the file. -/
def lineOf (text : String) (line : String) (n : Nat) : LineSide :=
  (single "a.cpp" text).side .asciiOnly ("a.cpp", text.toList) line.toList n

end Sample

/-- A function of several lines with a changed body stops the line that calls it. -/
theorem changed_callee_blocks_sample :
    compareLine .asciiOnly Sample.markTokens
      (Sample.lineOf "int g() \x7b\n  return 1;\n\x7d\nint f() \x7b\n  return g();\n\x7d" "  return g();" 5)
      (Sample.lineOf "int g() \x7b\n  return 2;\n\x7d\nint f() \x7b\n  return g();\n\x7d" "  return g();" 5) ≠
        none := by
  refine (changed_callee_blocks Sample.markTokens_injective
    (Sample.plainIn "int g() \x7b\n  return 1;\n\x7d\nint f() \x7b\n  return g();\n\x7d" 3
      ⟨1, "\x7b", ["int", "g", "(", ")"], false, true⟩ ⟨3, "\x7d", [], false, true⟩ (by decide +kernel))
    (Sample.plainIn "int g() \x7b\n  return 2;\n\x7d\nint f() \x7b\n  return g();\n\x7d" 3
      ⟨1, "\x7b", ["int", "g", "(", ")"], false, true⟩ ⟨3, "\x7d", [], false, true⟩ (by decide +kernel))
    _ _ _ _ _ _).2 (.inr ⟨?_, .inr ?_⟩)
  · decide +kernel
  · decide +kernel

/-- A function on one line: its body is changed, and the line that calls it passes. -/
theorem one_line_callee_is_missed :
    (∃ (d : PlainIn (Sample.single "a.cpp" "int g() \x7b return 1; \x7d\nint f() \x7b\n  return g();\n\x7d")
          "g")
        (d' : PlainIn (Sample.single "a.cpp" "int g() \x7b return 2; \x7d\nint f() \x7b\n  return g();\n\x7d")
          "g"), d.body ≠ d'.body) ∧
    "g" ∈ (Sample.lineOf "int g() \x7b return 1; \x7d\nint f() \x7b\n  return g();\n\x7d"
      "  return g();" 3).calls ∧
    compareLine .asciiOnly Sample.markTokens
      (Sample.lineOf "int g() \x7b return 1; \x7d\nint f() \x7b\n  return g();\n\x7d" "  return g();" 3)
      (Sample.lineOf "int g() \x7b return 2; \x7d\nint f() \x7b\n  return g();\n\x7d" "  return g();" 3) =
        none := by
  refine ⟨⟨Sample.plainIn _ 3 ⟨1, "\x7b", ["int", "g", "(", ")"], false, false⟩
    ⟨1, "\x7d", ["int", "g", "(", ")", "\x7b", "return", "1", ";"], false, true⟩ (by decide +kernel),
    Sample.plainIn _ 3 ⟨1, "\x7b", ["int", "g", "(", ")"], false, false⟩
    ⟨1, "\x7d", ["int", "g", "(", ")", "\x7b", "return", "2", ";"], false, true⟩ (by decide +kernel), ?_⟩,
    ?_, ?_⟩
  · decide +kernel
  · decide +kernel
  · decide +kernel

end FosCoverage
