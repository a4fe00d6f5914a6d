import Mathlib.Data.List.Dedup
import FosCoverage.Cpp.Parser

/-!
# Dependencies of a line

Whether the line of one commit may inherit from the line of another: `SourceAnalysisIndex`,
`DependencyResolver.compare` and `compare_line`.

* An index holds the analyses of all source files of a commit and answers by name.
* `compare` checks the macros and constants of every name on the line and in its contexts, and every
  function the line calls.
* `compareLine` adds the line's own text, function and contexts.  Its outcome is `none` when the line
  may inherit, else the reason why it may not (`compareLine_eq_none_iff` says what passes).

The SHA-256 fingerprint of a function body is a parameter.
-/

set_option autoImplicit false

namespace FosCoverage

open Text CppLexer CppSourceAnalyzer

/-! ## The index -/

/-- The two kinds of definitions. -/
inductive DefinitionKind
  /-- `macros` -/
  | macros
  /-- `constants` -/
  | constants
  deriving DecidableEq, Repr

/-- The definitions of one kind in a file. -/
def SourceAnalysis.definitions (a : SourceAnalysis) : DefinitionKind → List (String × Definition)
  | .macros => a.macros
  | .constants => a.constants

/-- `SourceAnalysisIndex`: the analyses of a commit by path. -/
abbrev SourceAnalysisIndex := List (String × SourceAnalysis)

namespace SourceAnalysisIndex

/-- `sorted(self.analyses.items())` -/
def sorted (index : SourceAnalysisIndex) : SourceAnalysisIndex :=
  index.insertionSort fun a b => a.1 ≤ b.1

/-- The functions of a name in all files. -/
def functionsNamed (index : SourceAnalysisIndex) (name : String) : List FunctionRange :=
  (sorted index).flatMap fun file => file.2.functions.filter fun f => f.identity.name = name

/-- `functions` -/
def functions (index : SourceAnalysisIndex) (name : String) (localAnalysis : SourceAnalysis) :
    List FunctionRange :=
  let values := functionsNamed index name
  if values ≠ [] then values
  else localAnalysis.functions.filter fun f => f.identity.name = name

/-- The definitions of a name in all files, with the path of each. -/
def definitionsNamed (index : SourceAnalysisIndex) (kind : DefinitionKind) (name : String) :
    List (String × Definition) :=
  (sorted index).filterMap fun file =>
    ((file.2.definitions kind).lookup name).map fun d => (file.1, d)

/-- `definitions` -/
def definitions (index : SourceAnalysisIndex) (kind : DefinitionKind) (name : String)
    (localAnalysis : SourceAnalysis) : List (String × Definition) :=
  let values := definitionsNamed index kind name
  if values ≠ [] then values
  else (((localAnalysis.definitions kind).lookup name).map fun d =>
    (localAnalysis.path, d)).toList

end SourceAnalysisIndex

/-! ## The resolver -/

namespace DependencyResolver

/-- `_NON_DEPENDENCY_TOKENS` -/
def nonDependencyTokens : List String :=
  ["alignas", "alignof", "and", "and_eq", "asm", "auto", "bitand", "bitor", "bool", "break",
    "case", "catch", "char", "char8_t", "char16_t", "char32_t", "class", "compl", "concept",
    "const", "consteval", "constexpr", "constinit", "const_cast", "continue", "co_await",
    "co_return", "co_yield", "decltype", "default", "delete", "do", "double", "dynamic_cast",
    "else", "enum", "explicit", "export", "extern", "false", "float", "for", "friend", "goto",
    "if", "inline", "int", "long", "mutable", "namespace", "new", "noexcept", "not", "not_eq",
    "nullptr", "operator", "or", "or_eq", "private", "protected", "public", "register",
    "reinterpret_cast", "requires", "return", "short", "signed", "sizeof", "static",
    "static_assert", "static_cast", "struct", "switch", "template", "this", "thread_local",
    "throw", "true", "try", "typedef", "typeid", "typename", "union", "unsigned", "using",
    "virtual", "void", "volatile", "wchar_t", "while", "xor", "xor_eq"]

/-- A definition must be the only one of its name on both sides, and the same. -/
def definitionReason (code : String) :
    List (String × Definition) → List (String × Definition) → Option String
  | [], [] => none
  | [old], [new] => if old.2 = new.2 then none else some code
  | _, _ => some code

/-- A function must be the only one of its name on both sides, understood, and the same.  A name
without a function on both sides is one of a library. -/
def calleeReason (fingerprint : List String → String) :
    List FunctionRange → List FunctionRange → Option String
  | [], [] => none
  | [old], [new] =>
    if old.uncertain || new.uncertain then some "CALLEE_UNRESOLVED"
    else if old.identity ≠ new.identity then some "CALLEE_CHANGED"
    else if fingerprint old.bodyTokens ≠ fingerprint new.bodyTokens then some "CALLEE_CHANGED"
    else none
  | _, _ => some "CALLEE_UNRESOLVED"

/-- The reason code of a changed definition. -/
def changedCode : DefinitionKind → String
  | .macros => "MACRO_CHANGED"
  | .constants => "CONST_CHANGED"

/-- `sorted` of a set of names. -/
def sortedNames (names : List String) : List String := names.dedup.insertionSort (· ≤ ·)

end DependencyResolver

/-! ## Lines -/

/-- One side of a comparison: a line of a file of a commit. -/
structure LineSide where
  /-- The text of the line. -/
  text : List Char
  /-- Its number. -/
  number : Nat
  /-- The analysis of its file. -/
  analysis : SourceAnalysis
  /-- The index of the commit. -/
  index : SourceAnalysisIndex

namespace LineSide

/-- The control headers around the line. -/
def controls (s : LineSide) : List String := (s.analysis.controls.lookup s.number).getD []

/-- The conditional groups around the line. -/
def preprocessor (s : LineSide) : List String := (s.analysis.preprocessor.lookup s.number).getD []

/-- The names the line calls. -/
def calls (s : LineSide) : List String := (s.analysis.calls.lookup s.number).getD []

/-- The function the line is in. -/
def function (s : LineSide) : Option FunctionRange := functionForLine s.analysis s.number

/-- `_dependency_context` and the line itself. -/
def texts (s : LineSide) : List (List Char) :=
  s.text :: (s.controls ++ s.preprocessor).map String.toList

/-- The names on the line and in its contexts. -/
def names (u : WordTable) (s : LineSide) : List String :=
  s.texts.flatMap fun text => (tokenize text).filter (isName u)

/-- The definitions of a name the line may see. -/
def definitions (s : LineSide) (kind : DefinitionKind) (name : String) :
    List (String × Definition) :=
  s.index.definitions kind name s.analysis

/-- The functions of a name the line may see. -/
def functions (s : LineSide) (name : String) : List FunctionRange :=
  s.index.functions name s.analysis

end LineSide

section Compare

variable (u : WordTable) (fingerprint : List String → String) (old new : LineSide)

open DependencyResolver

/-- The names whose definitions are compared. -/
def DependencyResolver.consulted : List String :=
  (old.names u ++ new.names u).filter fun n => n ∉ nonDependencyTokens

/-- The outcome for the definitions of one kind of a name. -/
def DependencyResolver.kindReason (kind : DefinitionKind) (name : String) : Option String :=
  definitionReason (changedCode kind) (old.definitions kind name) (new.definitions kind name)

/-- `DependencyResolver.compare` -/
def DependencyResolver.compare : Option String :=
  ((sortedNames (consulted u old new)).findSome? fun name =>
    (kindReason old new .macros name).or (kindReason old new .constants name)).or
  ((sortedNames (old.calls ++ new.calls)).findSome? fun name =>
    calleeReason fingerprint (old.functions name) (new.functions name))

/-- `compare_line` -/
def compareLine : Option String :=
  if tokenize old.text ≠ tokenize new.text then some "LINE_CODE_CHANGED"
  else match old.function, new.function with
    | some f, some g =>
      if f.identity ≠ g.identity then some "FUNCTION_CHANGED"
      else if f.uncertain || g.uncertain then some "PARSER_UNRELIABLE"
      else if old.controls ≠ new.controls then some "CONTROL_CONTEXT_CHANGED"
      else if old.preprocessor ≠ new.preprocessor then some "PP_CONTEXT_CHANGED"
      else DependencyResolver.compare u fingerprint old new
    | _, _ => some "FUNCTION_ID_UNRESOLVED"

/-! ## What passes -/

/-- The definitions of a name are the same on both sides. -/
def DefinitionsAgree (kind : DefinitionKind) (name : String) : Prop :=
  kindReason old new kind name = none

/-- The functions of a name are the same on both sides. -/
def CalleeAgrees (name : String) : Prop :=
  calleeReason fingerprint (old.functions name) (new.functions name) = none

/-- The line itself, its function and its contexts are the same. -/
structure SamePlace : Prop where
  /-- The tokens of the line. -/
  text : tokenize old.text = tokenize new.text
  /-- The function, understood on both sides. -/
  function : ∃ f g, old.function = some f ∧ new.function = some g ∧ f.identity = g.identity ∧
    f.uncertain = false ∧ g.uncertain = false
  /-- The control headers. -/
  controls : old.controls = new.controls
  /-- The conditional groups. -/
  preprocessor : old.preprocessor = new.preprocessor

variable {u fingerprint old new}

theorem mem_sortedNames {names : List String} {name : String} :
    name ∈ sortedNames names ↔ name ∈ names := by
  unfold sortedNames
  rw [List.mem_insertionSort, List.mem_dedup]

theorem compare_eq_none_iff :
    DependencyResolver.compare u fingerprint old new = none ↔
      (∀ name ∈ consulted u old new, ∀ kind, DefinitionsAgree old new kind name) ∧
      ∀ name ∈ old.calls ++ new.calls, CalleeAgrees fingerprint old new name := by
  unfold DependencyResolver.compare DefinitionsAgree CalleeAgrees
  simp only [Option.or_eq_none_iff, List.findSome?_eq_none_iff, mem_sortedNames]
  refine and_congr ⟨fun h name hn kind => ?_, fun h name hn => ?_⟩ Iff.rfl
  · cases kind with
    | macros => exact (h name hn).1
    | constants => exact (h name hn).2
  · exact ⟨h name hn .macros, h name hn .constants⟩

/-- **A line may inherit exactly when every check passes.** -/
theorem compareLine_eq_none_iff :
    compareLine u fingerprint old new = none ↔ SamePlace old new ∧
      (∀ name ∈ consulted u old new, ∀ kind, DefinitionsAgree old new kind name) ∧
      ∀ name ∈ old.calls ++ new.calls, CalleeAgrees fingerprint old new name := by
  rw [← compare_eq_none_iff]
  unfold compareLine
  by_cases ht : tokenize old.text = tokenize new.text
  · rw [if_neg (not_not.2 ht)]
    cases hf : old.function with
    | none =>
      refine ⟨fun h => (nomatch h), fun h => ?_⟩
      obtain ⟨f, _, h₁, _⟩ := h.1.function
      rw [hf] at h₁
      cases h₁
    | some f =>
      cases hg : new.function with
      | none =>
        refine ⟨fun h => (nomatch h), fun h => ?_⟩
        obtain ⟨_, g, _, h₂, _⟩ := h.1.function
        rw [hg] at h₂
        cases h₂
      | some g =>
        dsimp only
        constructor
        · intro h
          split at h
          · cases h
          · split at h
            · cases h
            · split at h
              · cases h
              · split at h
                · cases h
                · rename_i h₁ h₂ h₃ h₄
                  simp only [Bool.or_eq_true, not_or, Bool.not_eq_true] at h₂
                  exact ⟨⟨ht, ⟨f, g, hf, hg, not_not.1 h₁, h₂⟩, not_not.1 h₃, not_not.1 h₄⟩, h⟩
        · rintro ⟨⟨_, ⟨f', g', hf', hg', hid, hu, hu'⟩, hc, hp⟩, h⟩
          obtain rfl := Option.some.inj (hf.symm.trans hf')
          obtain rfl := Option.some.inj (hg.symm.trans hg')
          simp [hid, hu, hu', hc, hp, h]
  · rw [if_pos ht]
    exact ⟨fun h => (nomatch h), fun h => absurd h.1.text ht⟩

end Compare

/-! ## Universes -/

/-- The source files of a commit, by path. -/
structure SourceUniverse where
  /-- The files. -/
  files : List (String × List Char)
  /-- A path has one file. -/
  nodup : (files.map Prod.fst).Nodup

/-- The logical lines of a text with their tokens. -/
def logicalGroups (text : List Char) : List LineGroup :=
  lineGroups (enumerate 1 (tokenizeLines (splitLines (newlines text))))

/-- The index of a universe. -/
def SourceUniverse.index (commit : SourceUniverse) (u : WordTable) : SourceAnalysisIndex :=
  commit.files.map fun file => (file.1, analyze u file.2 file.1)

/-- A line of a file of a universe. -/
def SourceUniverse.side (commit : SourceUniverse) (u : WordTable) (file : String × List Char)
    (text : List Char) (number : Nat) : LineSide :=
  ⟨text, number, analyze u file.2 file.1, commit.index u⟩

end FosCoverage
