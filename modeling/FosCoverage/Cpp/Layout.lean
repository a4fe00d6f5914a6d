import FosCoverage.Cpp.Renumber

/-!
# Layout

Blank lines and comments on lines of their own may be put in anywhere without a line losing its
inheritance: that is what the rules promise, and all but one of the checks keep it.

* `Padded` says how one file comes from another by putting in such lines, one at a time, and where
  every line has gone.  `Padding` says it of a whole commit.
* `Padded.renumbered` carries the result for one line over to any number of them, and
  `Padding.lastDefinitions_eq`, `Padding.functions_view` from one file to a commit.
* The one thing that does change is the line number of a macro or constant, and the comparison looks
  at it.  So `layout_insensitive_iff`: the shifted line inherits exactly when nothing was put in
  above the definitions it depends on.
-/

set_option autoImplicit false

namespace FosCoverage

open Text CppLexer CppSourceAnalyzer

/-! ## Putting in lines -/

/-- The second list of lines is the first with blank lines put in, and the function says which line
has become which. -/
inductive Padded (lines : List (List Char)) : List (List Char) → (Nat → Nat) → Prop
  /-- Nothing is put in. -/
  | refl : Padded lines lines id
  /-- One more line, at a place where nothing is open. -/
  | insert {before after : List (List Char)} {line : List Char} {φ : Nat → Nat}
      (padded : Padded lines (before ++ after) φ) (boundary : Boundary before)
      (blank : BlankLine line) :
      Padded lines (before ++ line :: after) (shiftBehind before.length ∘ φ)

theorem Padded.strictMono {lines lines' : List (List Char)} {φ : Nat → Nat}
    (h : Padded lines lines' φ) : StrictMono φ := by
  induction h with
  | refl => exact strictMono_id
  | insert _ _ _ ih => exact (shiftBehind_strictMono _).comp ih

/-- **Any number of blank lines change nothing but the numbers.** -/
theorem Padded.renumbered {lines lines' : List (List Char)} {φ : Nat → Nat} (u : WordTable)
    (path : String) (h : Padded lines lines' φ) :
    Renumbered φ (analyzeLines u path lines) (analyzeLines u path lines') := by
  induction h with
  | refl => exact .refl _
  | insert _ hboundary hblank ih => exact ih.trans (renumbered_analyzeLines u path hboundary hblank)

/-- The lines of a text. -/
def textLines (text : List Char) : List (List Char) := splitLines (newlines text)

theorem Padded.renumbered_analyze {text text' : List Char} {φ : Nat → Nat} (u : WordTable)
    (path : String) (h : Padded (textLines text) (textLines text') φ) :
    Renumbered φ (analyze u text path) (analyze u text' path) := by
  unfold analyze
  split
  · exact h.renumbered u path
  · refine ⟨rfl, fun _ => rfl, fun _ => rfl, fun _ => rfl, fun kind _ => ?_, rfl⟩
    cases kind <;> rfl

/-- One commit is the other with blank lines put in anywhere in its files. -/
structure Padding (old new : SourceUniverse) where
  /-- Where the lines of each file have gone. -/
  shift : String → Nat → Nat
  /-- The files, one by one. -/
  files : List.Forall₂ (fun f f' => f'.1 = f.1 ∧
    Padded (textLines f.2) (textLines f'.2) (shift f.1)) old.files new.files

namespace Padding

variable {old new : SourceUniverse} {u : WordTable}

/-- A file has become the one of the same path. -/
theorem padded (P : Padding old new) {file file' : String × List Char} (hf : file ∈ old.files)
    (hf' : file' ∈ new.files) (hpath : file'.1 = file.1) :
    Padded (textLines file.2) (textLines file'.2) (P.shift file.1) := by
  have hnodup := new.nodup
  have hall := P.files
  generalize old.files = files at hf hall
  generalize new.files = files' at hf' hall hnodup
  induction hall with
  | nil => cases hf
  | @cons f f' fs fs' hhead htail ih =>
    rw [List.map_cons, List.nodup_cons] at hnodup
    -- no two files have one path, so the pairs of the lists are the pairs of equal path
    have hpaths : fs'.map Prod.fst = fs.map Prod.fst := by
      clear ih hf hf' hnodup
      induction htail with
      | nil => rfl
      | cons h _ ih => rw [List.map_cons, List.map_cons, h.1, ih]
    rcases List.mem_cons.1 hf with rfl | hf
    · rcases List.mem_cons.1 hf' with rfl | hf'
      · exact hhead.2
      · refine absurd ?_ hnodup.1
        rw [hhead.1, ← hpath]
        exact List.mem_map_of_mem hf'
    · rcases List.mem_cons.1 hf' with rfl | hf'
      · refine absurd ?_ hnodup.1
        rw [hpath, hpaths]
        exact List.mem_map_of_mem hf
      · exact ih hf hf' hnodup.2

/-! ## Definitions and functions of a commit -/

/-- **The definitions of a name are at their new lines.** -/
theorem lastDefinitions_eq (P : Padding old new) (kind : DefinitionKind) (name : String) :
    lastDefinitions u kind new name = (lastDefinitions u kind old name).map fun e =>
      (e.1, e.2.renumber (P.shift e.1)) := by
  have hall := P.files
  unfold lastDefinitions
  generalize old.files = files at hall
  generalize new.files = files' at hall
  induction hall with
  | nil => rfl
  | @cons f f' fs fs' hhead _ ih =>
    have hone : (occurrences u kind f' name).getLast? =
        ((occurrences u kind f name).getLast?).map (Definition.renumber (P.shift f.1)) := by
      rw [← lookup_analyze, ← lookup_analyze, hhead.1,
        (hhead.2.renumbered_analyze u f.1).definitions kind name]
    rw [List.filterMap_cons, List.filterMap_cons, hone, ih, hhead.1]
    cases (occurrences u kind f name).getLast? <;> rfl

/-- What the comparison reads of a function. -/
def view (f : FunctionRange) : FunctionIdentity × List String × Bool :=
  (f.identity, f.bodyTokens, f.uncertain)

theorem view_named {φ : Nat → Nat} {a a' : SourceAnalysis} (h : Renumbered φ a a')
    (name : String) :
    (a'.functions.filter fun f => f.identity.name = name).map view =
      (a.functions.filter fun f => f.identity.name = name).map view := by
  rw [h.functions, List.filter_map, List.map_map]
  rfl

theorem insertionSort_forall₂ {α : Type} {R : α → α → Prop} {r : α → α → Prop} [DecidableRel r]
    (hr : ∀ a a' b b', R a a' → R b b' → (r a b ↔ r a' b')) {l l' : List α}
    (h : List.Forall₂ R l l') : List.Forall₂ R (l.insertionSort r) (l'.insertionSort r) := by
  have hinsert : ∀ {a a' : α} {l l' : List α}, R a a' → List.Forall₂ R l l' →
      List.Forall₂ R (l.orderedInsert r a) (l'.orderedInsert r a') := by
    intro a a' l l' ha hl
    induction hl with
    | nil => exact .cons ha .nil
    | @cons b b' bs bs' hb hbs ih =>
      rw [List.orderedInsert_cons, List.orderedInsert_cons]
      by_cases hab : r a b
      · rw [if_pos hab, if_pos ((hr a a' b b' ha hb).1 hab)]
        exact .cons ha (.cons hb hbs)
      · rw [if_neg hab, if_neg fun h => hab ((hr a a' b b' ha hb).2 h)]
        exact .cons hb ih
  induction h with
  | nil => exact .nil
  | cons ha _ ih => exact hinsert ha ih

/-- The functions of a name are the same but for their lines. -/
theorem functionsNamed_view (P : Padding old new) (name : String) :
    ((new.index u).functionsNamed name).map view =
      ((old.index u).functionsNamed name).map view := by
  have hindex : List.Forall₂ (fun e e' : String × SourceAnalysis => e'.1 = e.1 ∧
      Renumbered (P.shift e.1) e.2 e'.2) (old.index u) (new.index u) := by
    unfold SourceUniverse.index
    rw [List.forall₂_map_left_iff, List.forall₂_map_right_iff]
    refine P.files.imp fun f f' h => ⟨h.1, ?_⟩
    have hview := h.2.renumbered_analyze u f.1
    dsimp only
    rwa [h.1]
  have hsorted := insertionSort_forall₂ (r := fun a b : String × SourceAnalysis => a.1 ≤ b.1)
    (fun a a' b b' ha hb => by rw [ha.1, hb.1]) hindex
  unfold SourceAnalysisIndex.functionsNamed SourceAnalysisIndex.sorted
  generalize (old.index u).insertionSort (fun a b => a.1 ≤ b.1) = l at hsorted
  generalize (new.index u).insertionSort (fun a b => a.1 ≤ b.1) = l' at hsorted
  induction hsorted with
  | nil => rfl
  | cons h _ ih =>
    rw [List.flatMap_cons, List.flatMap_cons, List.map_append, List.map_append, ih,
      view_named h.2]

end Padding

/-! ## The comparison -/

section Compare

variable {u : WordTable} {fingerprint : List String → String} {old new : SourceUniverse}

/-- The comparison of functions sees their views only. -/
theorem calleeReason_view {fs gs : List FunctionRange}
    (h : gs.map Padding.view = fs.map Padding.view)
    (hself : DependencyResolver.calleeReason fingerprint fs fs = none) :
    DependencyResolver.calleeReason fingerprint fs gs = none := by
  match fs, gs with
  | [], [] => rfl
  | [f], [g] =>
    obtain ⟨hidentity, hbody, huncertain⟩ :
        g.identity = f.identity ∧ g.bodyTokens = f.bodyTokens ∧ g.uncertain = f.uncertain := by
      simpa [Padding.view] using h
    unfold DependencyResolver.calleeReason at hself ⊢
    dsimp only at hself ⊢
    rw [hidentity, hbody, huncertain]
    exact hself
  | f :: f' :: fs, _ => cases hself
  | [], _ :: _ => cases h
  | [_], [] => cases h
  | [_], _ :: _ :: _ => simp at h

variable {file file' : String × List Char} {text : List Char} {n : Nat}

/-- The shifted line is in the same function. -/
theorem function_shifted (P : Padding old new) (hf : file ∈ old.files) (hf' : file' ∈ new.files)
    (hpath : file'.1 = file.1) (text : List Char) :
    (new.side u file' text (P.shift file.1 n)).function =
      (old.side u file text n).function.map (FunctionRange.renumber (P.shift file.1)) := by
  have hpadded := P.padded hf hf' hpath
  have hmono := hpadded.strictMono
  have hfunctions := (hpadded.renumbered_analyze u file.1).functions
  unfold LineSide.function functionForLine SourceUniverse.side
  dsimp only
  rw [hpath, hfunctions, List.filter_map]
  have hfilter : ((fun f : FunctionRange => decide (f.startLine ≤ P.shift file.1 n ∧
      P.shift file.1 n ≤ f.endLine)) ∘ FunctionRange.renumber (P.shift file.1)) =
      fun f => decide (f.startLine ≤ n ∧ n ≤ f.endLine) := by
    funext f
    simp only [Function.comp, FunctionRange.renumber, hmono.le_iff_le]
  rw [hfilter]
  generalize (analyze u file.2 file.1).functions.filter
    (fun f => decide (f.startLine ≤ n ∧ n ≤ f.endLine)) = fs
  rcases fs with _ | ⟨f, _ | ⟨f', fs⟩⟩
  · rfl
  · rfl
  · rfl

/-- The shifted line sees the same functions. -/
theorem functions_view (P : Padding old new) (hf : file ∈ old.files) (hf' : file' ∈ new.files)
    (hpath : file'.1 = file.1) (name : String) :
    ((new.side u file' text (P.shift file.1 n)).functions name).map Padding.view =
      ((old.side u file text n).functions name).map Padding.view := by
  have hnamed := P.functionsNamed_view (u := u) name
  have hlocal := Padding.view_named ((P.padded hf hf' hpath).renumbered_analyze u file.1) name
  have hnil : (new.index u).functionsNamed name = [] ↔ (old.index u).functionsNamed name = [] := by
    rw [← List.map_eq_nil_iff (f := Padding.view), hnamed, List.map_eq_nil_iff]
  unfold LineSide.functions SourceAnalysisIndex.functions SourceUniverse.side
  dsimp only
  by_cases h : (old.index u).functionsNamed name = []
  · rw [if_neg (by simpa using hnil.2 h), if_neg (by simpa using h), hpath]
    exact hlocal
  · rw [if_pos h, if_pos fun h' => h (hnil.1 h')]
    exact hnamed

/-- The shifted line has the same contexts and calls. -/
theorem contexts_shifted (P : Padding old new) (hf : file ∈ old.files) (hf' : file' ∈ new.files)
    (hpath : file'.1 = file.1) (text : List Char) (n : Nat) :
    (new.side u file' text (P.shift file.1 n)).controls = (old.side u file text n).controls ∧
      (new.side u file' text (P.shift file.1 n)).preprocessor =
        (old.side u file text n).preprocessor ∧
      (new.side u file' text (P.shift file.1 n)).calls = (old.side u file text n).calls := by
  have hview := (P.padded hf hf' hpath).renumbered_analyze u file.1
  rw [← hpath] at hview
  unfold LineSide.controls LineSide.preprocessor LineSide.calls SourceUniverse.side
  dsimp only
  rw [← hpath, hview.controls, hview.preprocessor, hview.calls]
  exact ⟨rfl, rfl, rfl⟩

theorem names_shifted (P : Padding old new) (hf : file ∈ old.files) (hf' : file' ∈ new.files)
    (hpath : file'.1 = file.1) (text : List Char) :
    (new.side u file' text (P.shift file.1 n)).names u = (old.side u file text n).names u := by
  obtain ⟨hcontrols, hpreprocessor, _⟩ := contexts_shifted (u := u) P hf hf' hpath text n
  unfold LineSide.names LineSide.texts
  rw [hcontrols, hpreprocessor]
  rfl

/-- What the comparison of a name sees of the shift: whether the definition has moved. -/
theorem agree_iff_unmoved (P : Padding old new) (hf : file ∈ old.files) (hf' : file' ∈ new.files)
    {m : Nat} {text' : List Char} {kind : DefinitionKind} {name : String}
    (hself : DefinitionsAgree (old.side u file text n) (old.side u file text n) kind name) :
    DefinitionsAgree (old.side u file text n) (new.side u file' text' m) kind name ↔
      ∀ f ∈ old.files, ∀ d ∈ (occurrences u kind f name).getLast?,
        P.shift f.1 d.line = d.line := by
  have hmem : ∀ e : String × Definition, e ∈ lastDefinitions u kind old name ↔
      ∃ f ∈ old.files, e.2 ∈ (occurrences u kind f name).getLast? ∧ e.1 = f.1 := by
    intro e
    unfold lastDefinitions
    rw [List.mem_filterMap]
    refine exists_congr fun f => and_congr Iff.rfl ?_
    rw [Option.map_eq_some_iff]
    constructor
    · rintro ⟨d, hd, rfl⟩
      exact ⟨hd, rfl⟩
    · rintro ⟨hd, hpath⟩
      exact ⟨e.2, hd, by rw [← hpath]⟩
  have hmoved := P.lastDefinitions_eq (u := u) kind name
  rw [definitionsAgree_iff hf hf']
  unfold LooksUnchanged
  rw [hmoved]
  rw [definitionsAgree_iff hf hf] at hself
  rcases hself with ⟨hnone, _⟩ | ⟨p, p', d, hone, _⟩
  · -- the name is not defined at all
    rw [hnone]
    refine iff_of_true (.inl ⟨rfl, rfl⟩) fun f hfile d hd => ?_
    have hin := (hmem (f.1, d)).2 ⟨f, hfile, hd, rfl⟩
    rw [hnone] at hin
    cases hin
  · rw [hone] at hmem ⊢
    constructor
    · rintro (⟨hnil, _⟩ | ⟨q, q', d', hq, hq'⟩) f hfile e he
      · cases hnil
      · have hin := (hmem (f.1, e)).2 ⟨f, hfile, he, rfl⟩
        obtain ⟨rfl, rfl⟩ := Prod.mk.inj (List.mem_singleton.1 hin)
        obtain ⟨_, rfl⟩ := Prod.mk.inj (List.singleton_inj.1 hq)
        have hsame := (Prod.mk.inj (List.singleton_inj.1 hq')).2
        exact congrArg Definition.line hsame
    · intro hunmoved
      obtain ⟨f, hfile, hd, hpath⟩ := (hmem (p, d)).1 (List.mem_singleton.2 rfl)
      have hline := hunmoved f hfile d hd
      refine .inr ⟨p, p, d, rfl, ?_⟩
      rw [List.map_cons, List.map_nil]
      dsimp only at hpath ⊢
      rw [hpath, Definition.renumber, hline]

/-- **When a shifted line still inherits**: exactly when no line was put in above the macros and
constants it depends on. -/
theorem layout_insensitive_iff (P : Padding old new) (hf : file ∈ old.files)
    (hf' : file' ∈ new.files) (hpath : file'.1 = file.1) (text : List Char) (n : Nat)
    (hself : compareLine u fingerprint (old.side u file text n) (old.side u file text n) = none) :
    compareLine u fingerprint (old.side u file text n)
        (new.side u file' text (P.shift file.1 n)) = none ↔
      ∀ name ∈ DependencyResolver.consulted u (old.side u file text n) (old.side u file text n),
        ∀ kind, ∀ f ∈ old.files, ∀ d ∈ (occurrences u kind f name).getLast?,
          P.shift f.1 d.line = d.line := by
  obtain ⟨hcontrols, hpreprocessor, hcalls⟩ := contexts_shifted (u := u) P hf hf' hpath text n
  have hnames := names_shifted (u := u) (n := n) P hf hf' hpath text
  have hfunction := function_shifted (u := u) (n := n) P hf hf' hpath text
  obtain ⟨hplace, hdefs, hcallees⟩ := compareLine_eq_none_iff.1 hself
  have hplace' : SamePlace (old.side u file text n)
      (new.side u file' text (P.shift file.1 n)) := by
    obtain ⟨f, g, hfun, hgun, _, hsure, _⟩ := hplace.function
    refine ⟨rfl, ⟨f, f.renumber (P.shift file.1), hfun, ?_, rfl, hsure, hsure⟩, hcontrols.symm,
      hpreprocessor.symm⟩
    rw [hfunction, hfun, Option.map_some]
  have hconsulted : DependencyResolver.consulted u (old.side u file text n)
      (new.side u file' text (P.shift file.1 n)) =
      DependencyResolver.consulted u (old.side u file text n) (old.side u file text n) := by
    unfold DependencyResolver.consulted
    rw [hnames]
  have hcallees' : ∀ name ∈ (old.side u file text n).calls ++
      (new.side u file' text (P.shift file.1 n)).calls,
      CalleeAgrees fingerprint (old.side u file text n)
        (new.side u file' text (P.shift file.1 n)) name := by
    rw [hcalls]
    exact fun name hname =>
      calleeReason_view (functions_view P hf hf' hpath name) (hcallees name hname)
  rw [compareLine_eq_none_iff, hconsulted]
  constructor
  · rintro ⟨_, hagree, _⟩ name hname kind f hfile d hd
    exact (agree_iff_unmoved P hf hf' (hdefs name hname kind)).1 (hagree name hname kind) f hfile d
      hd
  · intro hunmoved
    refine ⟨hplace', fun name hname kind => ?_, hcallees'⟩
    exact (agree_iff_unmoved P hf hf' (hdefs name hname kind)).2 (hunmoved name hname kind)

end Compare

/-! ## Examples of both outcomes -/

namespace Sample

/-- The commit of one file. -/
def oneFile (text : String) : SourceUniverse := ⟨[("a.cpp", text.toList)], by simp⟩

/-- The line that returns the macro. -/
def returnLine (text : String) (n : Nat) : LineSide :=
  (oneFile text).side .asciiOnly ("a.cpp", text.toList) "  return A;".toList n

theorem padded_commentBehind :
    Padded (textLines "#define A 1\nint f() \x7b\n  return A;\n\x7d".toList)
      (textLines "#define A 1\n// the answer\nint f() \x7b\n  return A;\n\x7d".toList)
      (shiftBehind 1 ∘ id) := by
  have hold : textLines "#define A 1\nint f() \x7b\n  return A;\n\x7d".toList =
      ["#define A 1".toList] ++ ["int f() \x7b".toList, "  return A;".toList, "\x7d".toList] := by
    decide +kernel
  have hnew : textLines "#define A 1\n// the answer\nint f() \x7b\n  return A;\n\x7d".toList =
      ["#define A 1".toList] ++
        "// the answer".toList :: ["int f() \x7b".toList, "  return A;".toList, "\x7d".toList] := by
    decide +kernel
  rw [hold, hnew]
  exact .insert .refl ⟨by decide +kernel, by decide +kernel⟩
    ⟨by decide +kernel, by decide +kernel, by decide +kernel⟩

theorem padded_blankAbove :
    Padded (textLines "#define A 1\nint f() \x7b\n  return A;\n\x7d".toList)
      (textLines "\n#define A 1\nint f() \x7b\n  return A;\n\x7d".toList) (shiftBehind 0 ∘ id) := by
  have hnew : textLines "\n#define A 1\nint f() \x7b\n  return A;\n\x7d".toList =
      [] ++ [] :: textLines "#define A 1\nint f() \x7b\n  return A;\n\x7d".toList := by
    decide +kernel
  rw [hnew]
  exact .insert .refl ⟨rfl, by simp⟩ ⟨rfl, rfl, rfl⟩

/-- A comment behind the macro. -/
def commentBehind :
    Padding (oneFile "#define A 1\nint f() \x7b\n  return A;\n\x7d")
      (oneFile "#define A 1\n// the answer\nint f() \x7b\n  return A;\n\x7d") :=
  ⟨fun _ => shiftBehind 1 ∘ id, .cons ⟨rfl, padded_commentBehind⟩ .nil⟩

end Sample

/-- A comment behind the macro does not stop the line that uses it. -/
theorem layout_insensitive_sample :
    compareLine .asciiOnly CppSourceAnalyzer.join
      (Sample.returnLine "#define A 1\nint f() \x7b\n  return A;\n\x7d" 3)
      (Sample.returnLine "#define A 1\n// the answer\nint f() \x7b\n  return A;\n\x7d" 4) = none := by
  have hunmoved : ∀ kind, ∀ name ∈ DependencyResolver.consulted .asciiOnly
      (Sample.returnLine "#define A 1\nint f() \x7b\n  return A;\n\x7d" 3)
      (Sample.returnLine "#define A 1\nint f() \x7b\n  return A;\n\x7d" 3),
      ∀ f ∈ (Sample.oneFile "#define A 1\nint f() \x7b\n  return A;\n\x7d").files,
      ∀ d ∈ (occurrences .asciiOnly kind f name).getLast?,
        Sample.commentBehind.shift f.1 d.line = d.line := by
    intro kind
    cases kind <;> decide +kernel
  exact (layout_insensitive_iff Sample.commentBehind List.mem_cons_self List.mem_cons_self rfl
    "  return A;".toList 3 (by decide +kernel)).2 fun name hname kind => hunmoved kind name hname

/-- A blank line above the macro stops the line that uses it. -/
theorem blank_line_above_macro_blocks :
    (∃ P : Padding (Sample.oneFile "#define A 1\nint f() \x7b\n  return A;\n\x7d")
      (Sample.oneFile "\n#define A 1\nint f() \x7b\n  return A;\n\x7d"), P.shift "a.cpp" 3 = 4) ∧
    compareLine .asciiOnly CppSourceAnalyzer.join
      (Sample.returnLine "#define A 1\nint f() \x7b\n  return A;\n\x7d" 3)
      (Sample.returnLine "#define A 1\nint f() \x7b\n  return A;\n\x7d" 3) = none ∧
    compareLine .asciiOnly CppSourceAnalyzer.join
      (Sample.returnLine "#define A 1\nint f() \x7b\n  return A;\n\x7d" 3)
      (Sample.returnLine "\n#define A 1\nint f() \x7b\n  return A;\n\x7d" 4) =
        some "MACRO_CHANGED" := by
  refine ⟨⟨⟨fun _ => shiftBehind 0 ∘ id, .cons ⟨rfl, Sample.padded_blankAbove⟩ .nil⟩, rfl⟩, ?_, ?_⟩
  · decide +kernel
  · decide +kernel

end FosCoverage
