import FosCoverage.Cpp.Callees
import FosCoverage.Cpp.Definitions
import FosCoverage.Cpp.LazyIndex
import FosCoverage.Cpp.Toolchain

/-!
# Parser uncertainty

`compare_line` with the analyses of either parser and with dependency indexes of any kind, and when
it lets a line inherit although a parser was uncertain of a file it rests on.

* `DependencyIndex` is the full index or the lazy one, with what happens around its lookups;
  `DependencyIndexes` is the pair that is compared, which may be one and the same index.
* `compareLineOn` is `compare_line`.  With full indexes it is `compareLine` (`compareLineOn_full`).
* `Agree` says that the two lines agree in all that is compared besides what the parsers say of
  their own certainty, and `FlagReaches` where that reaches a line: in the mark of the one function
  around it, or of the one function that an index has of a name it calls.  The flags of a file reach
  no line.  So the comparison fails closed exactly when lines that agree are reached by a mark:
  `failsClosed_iff`.
* `marked_failsClosed`: it does so whenever the parser marks every function of a file it is
  uncertain of and the indexes give the answers of all their files.  The analyser of the repository
  does (`builtin_failsClosed`); a helper need not (`uncertain_helper_inherits`).
-/

set_option autoImplicit false

namespace FosCoverage

open Text CppLexer CppSourceAnalyzer DependencyResolver

variable {t : UnicodeTables} {u : WordTable}

/-! ## Indexes -/

/-- A source file with its accepted analysis. -/
structure AcceptedFile (t : UnicodeTables) (u : WordTable) where
  /-- The path. -/
  path : String
  /-- The analysis. -/
  analysis : AcceptedAnalysis t u
  /-- The size, in bytes. -/
  size : Nat

/-- What the lazy index holds of a file. -/
def AcceptedFile.loadedFile (f : AcceptedFile t u) : LoadedFile :=
  ⟨f.path, f.analysis.analysis.toSourceAnalysis, f.size⟩

/-- The source files of a commit. -/
structure AcceptedFiles (t : UnicodeTables) (u : WordTable) where
  /-- The files. -/
  files : List (AcceptedFile t u)
  /-- A path has one file. -/
  nodup : (files.map AcceptedFile.path).Nodup

/-- What can be loaded. -/
def AcceptedFiles.fileMap (files : AcceptedFiles t u) : FileMap where
  files := files.files.map AcceptedFile.loadedFile
  nodup := by
    rw [List.map_map]
    exact files.nodup

/-- What happens around one lookup of a lazy index. -/
structure LookupEvent where
  /-- The loads that raise. -/
  raises : String → Bool
  /-- The owner marks the index. -/
  marks : Bool

/-- A dependency index. -/
inductive DependencyIndex (t : UnicodeTables) (u : WordTable)
  /-- `SourceAnalysisIndex` -/
  | full (analyses : List (String × AcceptedAnalysis t u))
  /-- `LazySourceAnalysisIndex` in any state, with what happens around its lookups to come. -/
  | onDemand (files : AcceptedFiles t u) (events : Nat → LookupEvent)
    (st : LazySourceAnalysisIndex)

/-- The analyses of the files an index is about. -/
def DependencyIndex.analyses : DependencyIndex t u → List (String × AcceptedAnalysis t u)
  | .full analyses => analyses
  | .onDemand files _ _ => files.files.map fun f => (f.path, f.analysis)

/-- The analyses without their flags. -/
def sourceIndex (analyses : List (String × AcceptedAnalysis t u)) : SourceAnalysisIndex :=
  analyses.map fun a => (a.1, a.2.analysis.toSourceAnalysis)

/-- `functions` and `definitions`: the index behind the lookup, and the answer. -/
def DependencyIndex.lookup (index : DependencyIndex t u) (s : Symbol)
    (localAnalysis : SourceAnalysis) : DependencyIndex t u × List SymbolEntry :=
  match index with
  | .full analyses => (.full analyses, s.answer (sourceIndex analyses) (some localAnalysis))
  | .onDemand files events st =>
    let r := LazySourceAnalysisIndex.lookup files.fileMap st
      ⟨s, some localAnalysis, (events 0).raises, (events 0).marks⟩
    (.onDemand files (fun n => events (n + 1)) r.1, r.2)

/-- `_functions` and `_definitions`, which read the analysis itself where there is no index. -/
def lookupIn (index : Option (DependencyIndex t u)) (s : Symbol) (localAnalysis : SourceAnalysis) :
    Option (DependencyIndex t u) × List SymbolEntry :=
  match index with
  | none => (none, s.entriesIn localAnalysis.path localAnalysis)
  | some index => (some (index.lookup s localAnalysis).1, (index.lookup s localAnalysis).2)

/-- The two indexes of a comparison. -/
inductive DependencyIndexes (t : UnicodeTables) (u : WordTable)
  /-- One for each side, or none. -/
  | separate (old new : Option (DependencyIndex t u))
  /-- The same one for both. -/
  | shared (index : DependencyIndex t u)

namespace DependencyIndexes

/-- Those that are there. -/
def toList : DependencyIndexes t u → List (DependencyIndex t u)
  | separate old new => old.toList ++ new.toList
  | shared index => [index]

/-- A flag of a lazy index. -/
def anyFlag (d : DependencyIndexes t u) (flag : LazySourceAnalysisIndex → Bool) : Bool :=
  d.toList.any fun
    | .full _ => false
    | .onDemand _ _ st => flag st

/-- `dependency_index_memory_budget_exhausted` of one of them. -/
def memoryBudgetExhausted (d : DependencyIndexes t u) : Bool :=
  d.anyFlag LazySourceAnalysisIndex.memoryBudgetExhausted

/-- `_unresolved_reason` -/
def unresolvedReason (d : DependencyIndexes t u) : Option String :=
  if d.memoryBudgetExhausted then some "DEPENDENCY_INDEX_MEMORY_BUDGET_EXHAUSTED"
  else if d.anyFlag LazySourceAnalysisIndex.candidateIndexUnavailable then
    some "DEPENDENCY_CANDIDATE_INDEX_UNAVAILABLE"
  else if d.anyFlag LazySourceAnalysisIndex.budgetExhausted then
    some "DEPENDENCY_BUDGET_EXHAUSTED"
  else none

/-- A symbol is looked up on both sides, on the old one first. -/
def ask (old new : SourceAnalysis) (d : DependencyIndexes t u) (s : Symbol) :
    DependencyIndexes t u × List SymbolEntry × List SymbolEntry :=
  match d with
  | separate i j =>
    (separate (lookupIn i s old).1 (lookupIn j s new).1, (lookupIn i s old).2, (lookupIn j s new).2)
  | shared i =>
    (shared ((i.lookup s old).1.lookup s new).1, (i.lookup s old).2,
      ((i.lookup s old).1.lookup s new).2)

end DependencyIndexes

/-! ## The comparison -/

/-- One side of a comparison. -/
structure ComparedLine (t : UnicodeTables) (u : WordTable) where
  /-- The text of the line. -/
  text : List Char
  /-- Its number. -/
  number : Nat
  /-- The analysis of its file. -/
  analysis : AcceptedAnalysis t u

/-- The line with its analysis, without an index. -/
def ComparedLine.side (l : ComparedLine t u) : LineSide :=
  ⟨l.text, l.number, l.analysis.analysis.toSourceAnalysis, []⟩

/-- The functions of an answer. -/
def functionsIn (answer : List SymbolEntry) : List FunctionRange :=
  answer.filterMap fun
    | .function f => some f
    | .definition _ _ => none

/-- The definitions of an answer. -/
def definitionsIn (answer : List SymbolEntry) : List (String × Definition) :=
  answer.filterMap fun
    | .function _ => none
    | .definition path d => some (path, d)

/-- What the checks before the dependencies say. -/
def placeReason (old new : LineSide) : Option String :=
  if tokenize old.text ≠ tokenize new.text then some "LINE_CODE_CHANGED"
  else match old.function, new.function with
    | some f, some g =>
      if f.identity ≠ g.identity then some "FUNCTION_CHANGED"
      else if f.uncertain || g.uncertain then some "PARSER_UNRELIABLE"
      else if old.controls ≠ new.controls then some "CONTROL_CONTEXT_CHANGED"
      else if old.preprocessor ≠ new.preprocessor then some "PP_CONTEXT_CHANGED"
      else none
    | _, _ => some "FUNCTION_ID_UNRESOLVED"

/-- What is looked up for a pair of lines, in order: macro and constant of every name, then the
functions that are called. -/
def lookedUp (u : WordTable) (old new : LineSide) : List Symbol :=
  (sortedNames (consulted u old new)).flatMap (fun name =>
    [.definition .macros name, .definition .constants name]) ++
  (sortedNames (old.calls ++ new.calls)).map .function

section Compare

variable (fingerprint : List String → String) (old new : ComparedLine t u)

/-- What two answers to one lookup say. -/
def symbolReason : Symbol → List SymbolEntry → List SymbolEntry → Option String
  | .function _, answer, answer' =>
    calleeReason fingerprint (functionsIn answer) (functionsIn answer')
  | .definition kind _, answer, answer' =>
    definitionReason (changedCode kind) (definitionsIn answer) (definitionsIn answer')

/-- The lookups of the two sides. -/
def askFor (d : DependencyIndexes t u) (s : Symbol) :
    DependencyIndexes t u × List SymbolEntry × List SymbolEntry :=
  d.ask old.side.analysis new.side.analysis s

/-- The indexes behind a lookup. -/
def behind (d : DependencyIndexes t u) (s : Symbol) : DependencyIndexes t u :=
  (askFor old new d s).1

/-- The loops of `DependencyResolver.compare`: the indexes behind them, and the first reason. -/
def checkSymbols : DependencyIndexes t u → List Symbol → DependencyIndexes t u × Option String
  | d, [] => (d, none)
  | d, s :: symbols =>
    let (d', answer, answer') := askFor old new d s
    match d'.unresolvedReason.or (symbolReason fingerprint s answer answer') with
    | some reason => (d', some reason)
    | none => checkSymbols d' symbols

/-- `DependencyResolver.compare` -/
def compareOn (d : DependencyIndexes t u) : DependencyIndexes t u × Option String :=
  match d.unresolvedReason with
  | some reason => (d, some reason)
  | none => checkSymbols fingerprint old new d (lookedUp u old.side new.side)

/-- `compare_line`: `none` is `ok`. -/
def compareLineOn (d : DependencyIndexes t u) : Option String :=
  if d.memoryBudgetExhausted then some "DEPENDENCY_INDEX_MEMORY_BUDGET_EXHAUSTED"
  else match placeReason old.side new.side with
    | some reason => some reason
    | none =>
      if (compareOn fingerprint old new d).1.memoryBudgetExhausted then
        some "DEPENDENCY_INDEX_MEMORY_BUDGET_EXHAUSTED"
      else (compareOn fingerprint old new d).2

/-! ## What passes -/

/-- A lookup sets no flag, and its answers agree. -/
def Clears (d : DependencyIndexes t u) (s : Symbol) : Prop :=
  (askFor old new d s).1.unresolvedReason = none ∧
    symbolReason fingerprint s (askFor old new d s).2.1 (askFor old new d s).2.2 = none

variable {fingerprint old new} {d : DependencyIndexes t u}

theorem memoryBudgetExhausted_of_clear (h : d.unresolvedReason = none) :
    d.memoryBudgetExhausted = false := by
  unfold DependencyIndexes.unresolvedReason at h
  cases hm : d.memoryBudgetExhausted with
  | false => rfl
  | true =>
    rw [hm, if_pos rfl] at h
    cases h

theorem checkSymbols_eq_none_iff {symbols : List Symbol} :
    (checkSymbols fingerprint old new d symbols).2 = none ↔
      Trace.Along (behind old new) (Clears fingerprint old new) d symbols := by
  induction symbols generalizing d with
  | nil => exact ⟨fun _ => trivial, fun _ => rfl⟩
  | cons s symbols ih =>
    unfold checkSymbols
    dsimp only
    cases hr : (askFor old new d s).1.unresolvedReason.or
        (symbolReason fingerprint s (askFor old new d s).2.1 (askFor old new d s).2.2) with
    | none => exact ih.trans ⟨fun h => ⟨Option.or_eq_none_iff.1 hr, h⟩, And.right⟩
    | some reason =>
      refine ⟨fun h => (nomatch h), fun h => ?_⟩
      rw [Option.or_eq_none_iff.2 h.1] at hr
      cases hr

/-- Behind lookups that all passed no flag is set. -/
theorem checkSymbols_clear {symbols : List Symbol} (hd : d.unresolvedReason = none)
    (h : (checkSymbols fingerprint old new d symbols).2 = none) :
    (checkSymbols fingerprint old new d symbols).1.unresolvedReason = none := by
  induction symbols generalizing d with
  | nil => exact hd
  | cons s symbols ih =>
    unfold checkSymbols at h ⊢
    dsimp only at h ⊢
    cases hr : (askFor old new d s).1.unresolvedReason.or
        (symbolReason fingerprint s (askFor old new d s).2.1 (askFor old new d s).2.2) with
    | none =>
      rw [hr] at h
      exact ih (Option.or_eq_none_iff.1 hr).1 h
    | some reason =>
      rw [hr] at h
      cases h

/-- **A line may inherit exactly when** no index is flagged, its place is the same and every lookup
passes. -/
theorem compareLineOn_eq_none_iff :
    compareLineOn fingerprint old new d = none ↔ d.unresolvedReason = none ∧
      placeReason old.side new.side = none ∧
      Trace.Along (behind old new) (Clears fingerprint old new) d
        (lookedUp u old.side new.side) := by
  rw [← checkSymbols_eq_none_iff]
  constructor
  · intro h
    unfold compareLineOn at h
    split at h
    · cases h
    · cases hp : placeReason old.side new.side with
      | some reason =>
        rw [hp] at h
        cases h
      | none =>
        rw [hp] at h
        dsimp only at h
        split at h
        · cases h
        · unfold compareOn at h
          cases hd : d.unresolvedReason with
          | some reason =>
            rw [hd] at h
            cases h
          | none =>
            rw [hd] at h
            exact ⟨rfl, rfl, h⟩
  · rintro ⟨hd, hp, h⟩
    have hcompare : compareOn fingerprint old new d =
        checkSymbols fingerprint old new d (lookedUp u old.side new.side) := by
      unfold compareOn
      rw [hd]
    unfold compareLineOn
    rw [memoryBudgetExhausted_of_clear hd, if_neg Bool.false_ne_true, hp]
    dsimp only
    rw [hcompare, memoryBudgetExhausted_of_clear (checkSymbols_clear hd h),
      if_neg Bool.false_ne_true, h]

end Compare

/-! ## Full indexes -/

section Full

/-- The functions of a lookup are what it answers. -/
theorem functionsIn_map (fs : List FunctionRange) :
    functionsIn (fs.map SymbolEntry.function) = fs := by
  unfold functionsIn
  rw [List.filterMap_map]
  exact List.filterMap_some

theorem definitionsIn_map (ds : List (String × Definition)) :
    definitionsIn (ds.map fun d => SymbolEntry.definition d.1 d.2) = ds := by
  unfold definitionsIn
  rw [List.filterMap_map]
  exact List.filterMap_some

/-- The checks before the dependencies, and these. -/
theorem compareLine_eq_place (u : WordTable) (fingerprint : List String → String)
    (old new : LineSide) : compareLine u fingerprint old new =
      (placeReason old new).or (DependencyResolver.compare u fingerprint old new) := by
  unfold compareLine placeReason
  by_cases ht : tokenize old.text ≠ tokenize new.text
  · rw [if_pos ht, if_pos ht]
    rfl
  · rw [if_neg ht, if_neg ht]
    cases old.function with
    | none => rfl
    | some f =>
      cases new.function with
      | none => rfl
      | some g =>
        dsimp only
        split_ifs <;> rfl

variable {fingerprint : List String → String} {old new : ComparedLine t u}

/-- The line with a full index. -/
def ComparedLine.sideIn (l : ComparedLine t u) (analyses : List (String × AcceptedAnalysis t u)) :
    LineSide :=
  { l.side with index := sourceIndex analyses }

variable {i j : List (String × AcceptedAnalysis t u)}

theorem checkSymbols_full (symbols : List Symbol) :
    (checkSymbols fingerprint old new (.separate (some (.full i)) (some (.full j))) symbols) =
      (.separate (some (.full i)) (some (.full j)), symbols.findSome? fun s =>
        symbolReason fingerprint s (s.answer (sourceIndex i) (some old.side.analysis))
          (s.answer (sourceIndex j) (some new.side.analysis))) := by
  induction symbols with
  | nil => rfl
  | cons s symbols ih =>
    rw [List.findSome?_cons]
    unfold checkSymbols
    change (match (none : Option String).or (symbolReason fingerprint s
      (s.answer (sourceIndex i) (some old.side.analysis))
      (s.answer (sourceIndex j) (some new.side.analysis))) with
      | some reason => _
      | none => _) = _
    rw [Option.none_or]
    cases symbolReason fingerprint s (s.answer (sourceIndex i) (some old.side.analysis))
      (s.answer (sourceIndex j) (some new.side.analysis)) with
    | none => exact ih
    | some reason => rfl

theorem findSome?_pairs {α : Type} {β : Type} (f : α → Option β) (g h : String → α)
    (names : List String) :
    (names.flatMap fun name => [g name, h name]).findSome? f =
      names.findSome? fun name => (f (g name)).or (f (h name)) := by
  induction names with
  | nil => rfl
  | cons name names ih =>
    rw [List.flatMap_cons, List.findSome?_append, ih, List.findSome?_cons]
    cases hg : f (g name) with
    | some b => simp [hg]
    | none => cases hh : f (h name) <;> simp [hg, hh]

/-- **With full indexes** the comparison is the one of the two sides. -/
theorem compareLineOn_full :
    compareLineOn fingerprint old new (.separate (some (.full i)) (some (.full j))) =
      compareLine u fingerprint (old.sideIn i) (new.sideIn j) := by
  have hplace : placeReason (old.sideIn i) (new.sideIn j) = placeReason old.side new.side := rfl
  have hcompare : (compareOn fingerprint old new (.separate (some (.full i)) (some (.full j)))).2 =
      DependencyResolver.compare u fingerprint (old.sideIn i) (new.sideIn j) := by
    change (checkSymbols fingerprint old new _ (lookedUp u old.side new.side)).2 = _
    rw [checkSymbols_full]
    unfold lookedUp DependencyResolver.compare
    rw [List.findSome?_append, findSome?_pairs, List.findSome?_map]
    dsimp only
    refine congrArg₂ Option.or (congrArg₂ List.findSome? (funext fun name => ?_) rfl)
      (congrArg₂ List.findSome? (funext fun name => ?_) rfl)
    · simp only [symbolReason, Symbol.answer, definitionsIn_map]
      rfl
    · simp only [Function.comp, symbolReason, Symbol.answer, functionsIn_map]
      rfl
  have hclear : (compareOn fingerprint old new
      (.separate (some (.full i)) (some (.full j)))).1.memoryBudgetExhausted = false := by
    change (checkSymbols fingerprint old new _
      (lookedUp u old.side new.side)).1.memoryBudgetExhausted = false
    rw [checkSymbols_full]
    rfl
  rw [compareLine_eq_place, hplace, ← hcompare]
  unfold compareLineOn
  rw [hclear]
  change (match placeReason old.side new.side with
    | some reason => some reason
    | none => (compareOn fingerprint old new
        (.separate (some (.full i)) (some (.full j)))).2) = _
  cases placeReason old.side new.side <;> rfl

end Full

/-! ## What the comparison sees of an uncertain parser -/

section FailsClosed

variable (fingerprint : List String → String) (old new : ComparedLine t u)
  (d : DependencyIndexes t u)

/-- The symbols a pair of lines depends on: the macros and constants of the names on the lines and
around them, and the functions they call. -/
def DependsOn : Symbol → Prop
  | .definition _ name => name ∈ consulted u old.side new.side
  | .function name => name ∈ old.side.calls ++ new.side.calls

/-- What the indexes have of a symbol at its turn.  A lazy index may have loaded and evicted files
for the symbols before it. -/
def answersTo (s : Symbol) : DependencyIndexes t u × List SymbolEntry × List SymbolEntry :=
  askFor old new (Trace.run (behind old new) d
    ((lookedUp u old.side new.side).takeWhile (· ≠ s))) s

/-- The function is the only one around the line. -/
def ComparedLine.Within (l : ComparedLine t u) (f : FunctionRange) : Prop :=
  (l.analysis.analysis.functions.filter fun g => g.startLine ≤ l.number ∧ l.number ≤ g.endLine) =
    [f]

/-- There is no definition, or one on each side, and these are the same. -/
def SameDefinitions (ds ds' : List (String × Definition)) : Prop :=
  (ds = [] ∧ ds' = []) ∨ ∃ p p' d, ds = [(p, d)] ∧ ds' = [(p', d)]

/-- There is no function, or one on each side, and these have the same identity and body. -/
def SameFunctions (fs gs : List FunctionRange) : Prop :=
  (fs = [] ∧ gs = []) ∨ ∃ f g, fs = [f] ∧ gs = [g] ∧ f.identity = g.identity ∧
    fingerprint f.bodyTokens = fingerprint g.bodyTokens

/-- **The two lines agree**, whatever the parsers say of their own certainty. -/
structure Agree : Prop where
  /-- The tokens of the lines. -/
  text : tokenize old.text = tokenize new.text
  /-- Each is in one function, and these have the same identity. -/
  function : ∃ f g, old.Within f ∧ new.Within g ∧ f.identity = g.identity
  /-- The control headers. -/
  controls : old.side.controls = new.side.controls
  /-- The conditional groups. -/
  preprocessor : old.side.preprocessor = new.side.preprocessor
  /-- No index is flagged. -/
  unflagged : d.unresolvedReason = none
  /-- No lookup sets a flag. -/
  resolved : ∀ s, DependsOn old new s → (answersTo old new d s).1.unresolvedReason = none
  /-- The macros and constants. -/
  definitions : ∀ kind, ∀ name ∈ consulted u old.side new.side,
    SameDefinitions (definitionsIn (answersTo old new d (.definition kind name)).2.1)
      (definitionsIn (answersTo old new d (.definition kind name)).2.2)
  /-- The functions that are called. -/
  callees : ∀ name ∈ old.side.calls ++ new.side.calls,
    SameFunctions fingerprint (functionsIn (answersTo old new d (.function name)).2.1)
      (functionsIn (answersTo old new d (.function name)).2.2)

/-- **What a parser says of its certainty reaches the lines**: where the function around one of them
is marked, or the only function of a name they call. -/
inductive FlagReaches : Prop
  /-- The function around the old line. -/
  | old (f : FunctionRange) (within : old.Within f) (marked : f.uncertain = true)
  /-- The function around the new line. -/
  | new (f : FunctionRange) (within : new.Within f) (marked : f.uncertain = true)
  /-- A callee on one of the sides. -/
  | callee (name : String) (called : name ∈ old.side.calls ++ new.side.calls)
    (f g : FunctionRange) (only : functionsIn (answersTo old new d (.function name)).2.1 = [f])
    (only' : functionsIn (answersTo old new d (.function name)).2.2 = [g])
    (marked : f.uncertain = true ∨ g.uncertain = true)

/-- A parser was uncertain of a file the comparison rests on: that of one of the lines, which may
also be one it does not support, or one that defines a function they call. -/
def RestsOnUncertainty : Prop :=
  old.analysis.analysis.Flagged ∨ new.analysis.analysis.Flagged ∨
    ∃ name ∈ old.side.calls ++ new.side.calls, ∃ i ∈ d.toList, ∃ a ∈ i.analyses,
      a.2.analysis.uncertain = true ∧ ∃ f ∈ a.2.analysis.functions, f.identity.name = name

/-- Parser uncertainty fails closed. -/
def FailsClosed : Prop :=
  RestsOnUncertainty old new d → compareLineOn fingerprint old new d ≠ none

variable {fingerprint old new d}

theorem placeReason_eq_none_iff {side side' : LineSide} :
    placeReason side side' = none ↔ SamePlace side side' := by
  constructor
  · intro h
    unfold placeReason at h
    split at h
    · cases h
    · rename_i ht
      cases hf : side.function with
      | none =>
        rw [hf] at h
        cases h
      | some f =>
        cases hg : side'.function with
        | none =>
          rw [hf, hg] at h
          cases h
        | some g =>
          rw [hf, hg] at h
          dsimp only at h
          split at h
          · cases h
          · split at h
            · cases h
            · split at h
              · cases h
              · split at h
                · cases h
                · rename_i h₁ h₂ h₃ h₄
                  simp only [Bool.or_eq_true, not_or, Bool.not_eq_true] at h₂
                  exact ⟨not_not.1 ht, ⟨f, g, hf, hg, not_not.1 h₁, h₂⟩, not_not.1 h₃, not_not.1 h₄⟩
  · rintro ⟨ht, ⟨f, g, hf, hg, hid, hu, hu'⟩, hc, hp⟩
    simp [placeReason, ht, hf, hg, hid, hu, hu', hc, hp]

theorem functionForLine_eq_some_iff {a : SourceAnalysis} {n : Nat} {f : FunctionRange} :
    functionForLine a n = some f ↔
      (a.functions.filter fun g => g.startLine ≤ n ∧ n ≤ g.endLine) = [f] := by
  unfold functionForLine
  generalize a.functions.filter _ = around
  match around with
  | [] => simp
  | [g] => simp
  | _ :: _ :: _ => simp

theorem within_iff {l : ComparedLine t u} {f : FunctionRange} :
    l.Within f ↔ l.side.function = some f :=
  functionForLine_eq_some_iff.symm

/-- Two functions agree when they are the same and neither is marked. -/
theorem calleeReason_eq_none_iff {fs gs : List FunctionRange} :
    calleeReason fingerprint fs gs = none ↔ SameFunctions fingerprint fs gs ∧
      ¬ ∃ f g, fs = [f] ∧ gs = [g] ∧ (f.uncertain = true ∨ g.uncertain = true) := by
  unfold SameFunctions
  match fs, gs with
  | [], [] => simp [calleeReason]
  | [], _ :: _ => simp [calleeReason]
  | _ :: _, [] => simp [calleeReason]
  | [f], [g] =>
    cases hf : f.uncertain <;> cases hg : g.uncertain <;> simp [calleeReason, hf, hg]
    split_ifs <;> simp [*]
  | [_], _ :: _ :: _ => simp [calleeReason]
  | _ :: _ :: _, _ :: _ => simp [calleeReason]

theorem symbolReason_definition_eq_none_iff {kind : DefinitionKind} {name : String}
    {answer answer' : List SymbolEntry} :
    symbolReason fingerprint (.definition kind name) answer answer' = none ↔
      SameDefinitions (definitionsIn answer) (definitionsIn answer') :=
  definitionReason_eq_none_iff

theorem symbolReason_function_eq_none_iff {name : String} {answer answer' : List SymbolEntry} :
    symbolReason fingerprint (.function name) answer answer' = none ↔
      SameFunctions fingerprint (functionsIn answer) (functionsIn answer') ∧
        ¬ ∃ f g, functionsIn answer = [f] ∧ functionsIn answer' = [g] ∧
          (f.uncertain = true ∨ g.uncertain = true) :=
  calleeReason_eq_none_iff

/-- What a symbol contributes to the checks at its turn. -/
theorem clears_answersTo {s : Symbol} :
    Clears fingerprint old new (Trace.run (behind old new) d
        ((lookedUp u old.side new.side).takeWhile (· ≠ s))) s ↔
      (answersTo old new d s).1.unresolvedReason = none ∧
        symbolReason fingerprint s (answersTo old new d s).2.1 (answersTo old new d s).2.2 =
          none := by
  unfold Clears answersTo
  exact Iff.rfl

theorem mem_lookedUp {s : Symbol} : s ∈ lookedUp u old.side new.side ↔ DependsOn old new s := by
  unfold lookedUp DependsOn
  rw [List.mem_append, List.mem_flatMap, List.mem_map]
  cases s with
  | function name => simp [mem_sortedNames]
  | definition kind name => cases kind <;> simp [mem_sortedNames]

theorem nodup_sortedNames (names : List String) : (sortedNames names).Nodup :=
  (List.perm_insertionSort _ _).nodup_iff.2 (List.nodup_dedup names)

/-- Every symbol has one turn. -/
theorem nodup_lookedUp (side side' : LineSide) : (lookedUp u side side').Nodup := by
  unfold lookedUp
  refine List.nodup_append.2 ⟨List.nodup_flatMap.2 ⟨fun name _ => by simp, ?_⟩,
    (nodup_sortedNames _).map fun a b h => Symbol.function.inj h, ?_⟩
  · refine (nodup_sortedNames _).imp fun {a b} hne s hs hs' => hne ?_
    simp only [List.mem_cons, List.not_mem_nil, or_false] at hs hs'
    rcases hs with rfl | rfl <;> simpa using hs'
  · intro s hs s' hs' heq
    obtain ⟨name, -, rfl⟩ := List.mem_map.1 hs'
    obtain ⟨name', -, hs⟩ := List.mem_flatMap.1 hs
    subst heq
    simp at hs

/-- **A line may inherit exactly when** the two agree and no mark reaches them. -/
theorem compareLineOn_passes_iff :
    compareLineOn fingerprint old new d = none ↔
      Agree fingerprint old new d ∧ ¬ FlagReaches old new d := by
  rw [compareLineOn_eq_none_iff, placeReason_eq_none_iff,
    Trace.along_iff_forall_mem (nodup_lookedUp _ _)]
  simp only [mem_lookedUp, clears_answersTo]
  constructor
  · rintro ⟨hd, ⟨htext, ⟨f, g, hf, hg, hid, hu, hu'⟩, hc, hp⟩, hall⟩
    have hdefinition : ∀ kind, ∀ name ∈ consulted u old.side new.side, _ := fun kind name hname =>
      symbolReason_definition_eq_none_iff.1 (hall (.definition kind name) hname).2
    have hcallee : ∀ name ∈ old.side.calls ++ new.side.calls, _ := fun name hname =>
      symbolReason_function_eq_none_iff.1 (hall (.function name) hname).2
    refine ⟨⟨htext, ⟨f, g, within_iff.2 hf, within_iff.2 hg, hid⟩, hc, hp, hd,
      fun s hs => (hall s hs).1, hdefinition, fun name hname => (hcallee name hname).1⟩, ?_⟩
    intro hmark
    cases hmark with
    | old k hk hm =>
      obtain rfl := Option.some.inj (hf.symm.trans (within_iff.1 hk))
      rw [hu] at hm
      cases hm
    | new k hk hm =>
      obtain rfl := Option.some.inj (hg.symm.trans (within_iff.1 hk))
      rw [hu'] at hm
      cases hm
    | callee name hname k l hk hl hm => exact (hcallee name hname).2 ⟨k, l, hk, hl, hm⟩
  · rintro ⟨h, hmark⟩
    obtain ⟨f, g, hf, hg, hid⟩ := h.function
    refine ⟨h.unflagged, ⟨h.text, ⟨f, g, within_iff.1 hf, within_iff.1 hg, hid, ?_, ?_⟩,
      h.controls, h.preprocessor⟩, fun s hs => ⟨h.resolved s hs, ?_⟩⟩
    · rw [← Bool.not_eq_true]
      exact fun hm => hmark (.old f hf hm)
    · rw [← Bool.not_eq_true]
      exact fun hm => hmark (.new g hg hm)
    · cases s with
      | definition kind name =>
        exact symbolReason_definition_eq_none_iff.2 (h.definitions kind name hs)
      | function name =>
        refine symbolReason_function_eq_none_iff.2 ⟨h.callees name hs, ?_⟩
        rintro ⟨k, l, hk, hl, hm⟩
        exact hmark (.callee name hs k l hk hl hm)

variable (fingerprint old new d)

/-- **When parser uncertainty fails closed**: exactly when two lines that agree, and rest on a
flagged file, are reached by the mark of a function.  The flags of the files stop no line. -/
theorem failsClosed_iff :
    FailsClosed fingerprint old new d ↔
      (RestsOnUncertainty old new d → Agree fingerprint old new d → FlagReaches old new d) := by
  unfold FailsClosed
  rw [Ne, compareLineOn_passes_iff, not_and, not_not]

end FailsClosed

/-! ## A helper that flags the file and marks no function -/

namespace Sample

/-- An answer with a function, uncertain of the file. -/
def uncertainAnswer : Json :=
  .object [("functions", .array [.object [("name", .text "f"), ("start_line", .int 1),
    ("end_line", .int 3)]]), ("uncertain", .bool true)]

/-- What is made of it. -/
def uncertainAnalysis : AcceptedAnalysis .asciiOnly .asciiOnly where
  analysis :=
    { functions := [⟨⟨"a.cpp", [], "f", [], [], []⟩, 1, 3, [], false⟩]
      controls := [], preprocessor := [], macros := [], constants := [], calls := []
      path := "a.cpp"
      supported := true
      uncertain := true }
  accepted := .external uncertainAnswer "a.cpp" _ (by decide +kernel)

/-- The second line of the function. -/
def uncertainLine : ComparedLine .asciiOnly .asciiOnly :=
  ⟨"  return 1;".toList, 2, uncertainAnalysis⟩

end Sample

/-- The line inherits, although the parser is uncertain of the file on both sides. -/
theorem uncertain_helper_inherits :
    ¬ FailsClosed Sample.markTokens Sample.uncertainLine Sample.uncertainLine
      (.separate none none) := by
  intro h
  refine h (.inl (.inl rfl)) ?_
  decide +kernel

/-! ## Parsers that mark the functions -/

section Marked

variable {fingerprint : List String → String} {old new : ComparedLine t u}
  {d : DependencyIndexes t u}

/-- The analyses one side of the comparison looks in. -/
def analysesOf (index : Option (DependencyIndex t u)) : List (String × AcceptedAnalysis t u) :=
  index.elim [] DependencyIndex.analyses

/-- The index of each side. -/
def DependencyIndexes.sides :
    DependencyIndexes t u → Option (DependencyIndex t u) × Option (DependencyIndex t u)
  | .separate i j => (i, j)
  | .shared i => (some i, some i)

/-- A lookup sets a flag, or each answer is in the class of that of all files. -/
def AnswersAll (old new : ComparedLine t u) (d : DependencyIndexes t u) (s : Symbol) : Prop :=
  (askFor old new d s).1.unresolvedReason ≠ none ∨
    SameClass (askFor old new d s).2.1
      (s.answer (sourceIndex (analysesOf d.sides.1)) (some old.side.analysis)) ∧
    SameClass (askFor old new d s).2.2
      (s.answer (sourceIndex (analysesOf d.sides.2)) (some new.side.analysis))

theorem analyses_lookup (index : DependencyIndex t u) (s : Symbol) (a : SourceAnalysis) :
    (index.lookup s a).1.analyses = index.analyses := by
  cases index <;> rfl

theorem analysesOf_lookupIn (index : Option (DependencyIndex t u)) (s : Symbol)
    (a : SourceAnalysis) : analysesOf (lookupIn index s a).1 = analysesOf index := by
  cases index with
  | none => rfl
  | some index => exact analyses_lookup index s a

/-- A lookup leaves the files of the indexes alone. -/
theorem analysesOf_behind (s : Symbol) :
    analysesOf (behind old new d s).sides.1 = analysesOf d.sides.1 ∧
      analysesOf (behind old new d s).sides.2 = analysesOf d.sides.2 := by
  cases d with
  | separate i j => exact ⟨analysesOf_lookupIn i s _, analysesOf_lookupIn j s _⟩
  | shared i =>
    have h : ((i.lookup s old.side.analysis).1.lookup s new.side.analysis).1.analyses =
        i.analyses := (analyses_lookup _ _ _).trans (analyses_lookup _ _ _)
    exact ⟨h, h⟩

theorem entriesIn_eq_answer (s : Symbol) (a : SourceAnalysis) :
    s.entriesIn a.path a = s.answer [] (some a) := by
  cases s with
  | function name => rfl
  | definition kind name =>
    simp only [Symbol.entriesIn, Symbol.answer, SourceAnalysisIndex.definitions]
    cases (a.definitions kind).lookup name <;> rfl

/-- The answer to the lookup of a function has functions only. -/
theorem answer_function (name : String) (index : SourceAnalysisIndex) (a : SourceAnalysis) :
    (Symbol.function name).answer index (some a) =
      (index.functions name a).map SymbolEntry.function := rfl

theorem lookupIn_function (index : Option (DependencyIndex t u)) (name : String)
    (a : SourceAnalysis) :
    ∃ fs : List FunctionRange, (lookupIn index (.function name) a).2 = fs.map .function := by
  match index with
  | none => exact ⟨_, rfl⟩
  | some (.full analyses) => exact ⟨_, rfl⟩
  | some (.onDemand files events st) =>
    change ∃ fs : List FunctionRange, (LazySourceAnalysisIndex.lookup files.fileMap st
      ⟨.function name, some a, (events 0).raises, (events 0).marks⟩).2 = fs.map .function
    unfold LazySourceAnalysisIndex.lookup
    dsimp only
    split
    · exact ⟨[], rfl⟩
    · exact ⟨_, rfl⟩

theorem askFor_function (old new : ComparedLine t u) (d : DependencyIndexes t u)
    (name : String) :
    ∃ fs gs : List FunctionRange, (askFor old new d (.function name)).2.1 = fs.map .function ∧
      (askFor old new d (.function name)).2.2 = gs.map .function := by
  cases d with
  | separate i j =>
    obtain ⟨fs, hfs⟩ := lookupIn_function i name old.side.analysis
    obtain ⟨gs, hgs⟩ := lookupIn_function j name new.side.analysis
    exact ⟨fs, gs, hfs, hgs⟩
  | shared i =>
    obtain ⟨fs, hfs⟩ := lookupIn_function (some i) name old.side.analysis
    obtain ⟨gs, hgs⟩ := lookupIn_function
      (some (i.lookup (.function name) old.side.analysis).1) name new.side.analysis
    exact ⟨fs, gs, hfs, hgs⟩

/-- A function among all of its name leaves an answer with it alone, or with several. -/
theorem SameClass.of_mem {fs : List FunctionRange} {index : SourceAnalysisIndex} {name : String}
    {a : SourceAnalysis} {f : FunctionRange}
    (h : SameClass (fs.map SymbolEntry.function) ((Symbol.function name).answer index (some a)))
    (hf : f ∈ index.functionsNamed name) : fs = [f] ∨ 1 < fs.length := by
  have hne : index.functionsNamed name ≠ [] := List.ne_nil_of_mem hf
  have hall : (Symbol.function name).answer index (some a) =
      (index.functionsNamed name).map SymbolEntry.function := by
    rw [answer_function]
    unfold SourceAnalysisIndex.functions
    dsimp only
    rw [if_pos hne]
  rw [hall] at h
  rcases h with ⟨_, h⟩ | ⟨e, hfs, h⟩ | ⟨h, _⟩
  · exact absurd (List.map_eq_nil_iff.1 h) hne
  · obtain ⟨g, hg, rfl⟩ := List.map_eq_singleton_iff.1 h
    rw [hg, List.mem_singleton] at hf
    subst hf
    obtain ⟨g', rfl, hg'⟩ := List.map_eq_singleton_iff.1 hfs
    exact .inl (by rw [SymbolEntry.function.inj hg'])
  · rw [List.length_map] at h
    exact .inr h

/-- Neither answer that is left passes. -/
theorem calleeReason_of_marked {fs gs : List FunctionRange} {f : FunctionRange}
    (h : fs = [f] ∨ 1 < fs.length) (hm : f.uncertain = true) :
    calleeReason fingerprint fs gs ≠ none ∧ calleeReason fingerprint gs fs ≠ none := by
  match fs, gs, h with
  | [], _, h => simp at h
  | [g], [], h =>
    simp [calleeReason]
  | [g], [g'], h =>
    obtain rfl : g = f := by simpa using h
    simp [calleeReason, hm]
  | [_], _ :: _ :: _, _ => simp [calleeReason]
  | _ :: _ :: _, [], _ => simp [calleeReason]
  | _ :: _ :: _, [_], _ => simp [calleeReason]
  | _ :: _ :: _, _ :: _ :: _, _ => simp [calleeReason]

theorem mem_functionsNamed {analyses : List (String × AcceptedAnalysis t u)}
    {a : String × AcceptedAnalysis t u} (ha : a ∈ analyses) {f : FunctionRange}
    (hf : f ∈ a.2.analysis.functions) :
    f ∈ (sourceIndex analyses).functionsNamed f.identity.name := by
  refine List.mem_flatMap.2 ⟨(a.1, a.2.analysis.toSourceAnalysis), ?_, ?_⟩
  · exact (List.mem_insertionSort _).2 (List.mem_map.2 ⟨a, ha, rfl⟩)
  · exact List.mem_filter.2 ⟨hf, by simp⟩

/-- An index of a comparison is the one of a side. -/
theorem analyses_of_mem {i : DependencyIndex t u} (hi : i ∈ d.toList) :
    i.analyses = analysesOf d.sides.1 ∨ i.analyses = analysesOf d.sides.2 := by
  cases d with
  | separate j k =>
    rcases List.mem_append.1 hi with hi | hi
    · obtain rfl := Option.mem_toList.1 hi
      exact .inl rfl
    · obtain rfl := Option.mem_toList.1 hi
      exact .inr rfl
  | shared j =>
    obtain rfl := List.mem_singleton.1 hi
    exact .inl rfl

/-- **Parsers that mark every function of a file they are uncertain of** fail closed, with indexes
that answer for all their files. -/
theorem marked_failsClosed (hold : old.analysis.analysis.Marked)
    (hnew : new.analysis.analysis.Marked)
    (hindex : ∀ i ∈ d.toList, ∀ a ∈ i.analyses, a.2.analysis.Marked)
    (hall : Trace.Along (behind old new) (AnswersAll old new) d (lookedUp u old.side new.side)) :
    FailsClosed fingerprint old new d := by
  intro hrests hpass
  obtain ⟨_, hplace, hlookups⟩ := compareLineOn_eq_none_iff.1 hpass
  obtain ⟨_, ⟨f, g, hf, hg, _, hu, hu'⟩, _, _⟩ := placeReason_eq_none_iff.1 hplace
  -- a line of a flagged file is in a marked function, or in none
  have enclosed : ∀ {a : ParsedAnalysis} {n : Nat} {k : FunctionRange}, a.Marked →
      functionForLine a.toSourceAnalysis n = some k → k.uncertain = false → ¬ a.Flagged := by
    intro a n k hmarked hk hunmarked hflag
    have hmem : k ∈ a.functions := by
      unfold functionForLine at hk
      split at hk
      · rename_i k' hone
        obtain rfl := Option.some.inj hk
        have : k' ∈ a.functions.filter fun f => f.startLine ≤ n ∧ n ≤ f.endLine := by
          rw [hone]
          exact List.mem_singleton_self k'
        exact (List.mem_filter.1 this).1
      · cases hk
    rcases hflag with hflag | hflag
    · rw [hmarked.1 hflag k hmem] at hunmarked
      cases hunmarked
    · rw [hmarked.2 hflag] at hmem
      cases hmem
  rcases hrests with h | h | ⟨name, hname, i, hi, a, ha, hflag, k, hk, rfl⟩
  · exact enclosed hold hf hu h
  · exact enclosed hnew hg hu' h
  · have hmarked := (hindex i hi a ha).1 hflag k hk
    have hsymbol : Symbol.function k.identity.name ∈ lookedUp u old.side new.side :=
      List.mem_append_right _ (List.mem_map_of_mem (mem_sortedNames.2 hname))
    obtain ⟨before, after, hsplit⟩ := List.append_of_mem hsymbol
    rw [Trace.along_iff_forall] at hall hlookups
    obtain ⟨hclear, hagree⟩ := hlookups before _ after hsplit
    obtain ⟨hsame, hsame'⟩ := (hall before _ after hsplit).resolve_left (not_not.2 hclear)
    have hsides : analysesOf (Trace.run (behind old new) d before).sides.1 =
          analysesOf d.sides.1 ∧
        analysesOf (Trace.run (behind old new) d before).sides.2 = analysesOf d.sides.2 :=
      Trace.run_inv (I := fun d' : DependencyIndexes t u =>
        analysesOf d'.sides.1 = analysesOf d.sides.1 ∧ analysesOf d'.sides.2 = analysesOf d.sides.2)
        (fun d' s h => ⟨(analysesOf_behind s).1.trans h.1, (analysesOf_behind s).2.trans h.2⟩)
        ⟨rfl, rfl⟩ before
    obtain ⟨fs, gs, hfs, hgs⟩ :=
      askFor_function old new (Trace.run (behind old new) d before) k.identity.name
    rw [hfs, hsides.1] at hsame
    rw [hgs, hsides.2] at hsame'
    rw [hfs, hgs] at hagree
    simp only [symbolReason, functionsIn_map] at hagree
    rcases analyses_of_mem hi with hside | hside
    · have hmem := mem_functionsNamed (hside ▸ ha) hk
      exact (calleeReason_of_marked (hsame.of_mem hmem) hmarked).1 hagree
    · have hmem := mem_functionsNamed (hside ▸ ha) hk
      exact (calleeReason_of_marked (hsame'.of_mem hmem) hmarked).2 hagree

/-- An analysis of the analyser of the repository. -/
def AcceptedAnalysis.Builtin (a : AcceptedAnalysis t u) : Prop :=
  ∃ text path, a.analysis = parse u text path

theorem AcceptedAnalysis.Builtin.marked {a : AcceptedAnalysis t u} (h : a.Builtin) :
    a.analysis.Marked := by
  obtain ⟨text, path, ha⟩ := h
  rw [ha]
  exact parse_marked u text path

/-- A full index stays as it is, and so does no index. -/
theorem lookupIn_full (k : Option (List (String × AcceptedAnalysis t u))) (s : Symbol)
    (a : SourceAnalysis) : lookupIn (k.map DependencyIndex.full) s a =
      (k.map .full, s.answer (sourceIndex (analysesOf (k.map DependencyIndex.full))) (some a)) := by
  cases k with
  | none => exact congrArg (Prod.mk none) (entriesIn_eq_answer s a)
  | some analyses => rfl

theorem askFor_full (i j : Option (List (String × AcceptedAnalysis t u))) (s : Symbol) :
    askFor old new (.separate (i.map .full) (j.map .full)) s =
      (.separate (i.map .full) (j.map .full),
        s.answer (sourceIndex (analysesOf (i.map DependencyIndex.full))) (some old.side.analysis),
        s.answer (sourceIndex (analysesOf (j.map DependencyIndex.full)))
          (some new.side.analysis)) := by
  unfold askFor DependencyIndexes.ask
  dsimp only
  rw [lookupIn_full, lookupIn_full]

theorem run_full (i j : Option (List (String × AcceptedAnalysis t u))) (before : List Symbol) :
    Trace.run (behind old new) (.separate (i.map .full) (j.map .full)) before =
      .separate (i.map .full) (j.map .full) :=
  Trace.run_inv (I := fun d' => d' = DependencyIndexes.separate (i.map .full) (j.map .full))
    (fun d' s h => by rw [h, behind, askFor_full]) rfl before

/-- **With full indexes or none** the answers to a symbol are those of all files, whatever is looked
up before. -/
theorem answersTo_full (i j : Option (List (String × AcceptedAnalysis t u))) (s : Symbol) :
    (answersTo old new (.separate (i.map .full) (j.map .full)) s).2 =
      (s.answer (sourceIndex (analysesOf (i.map DependencyIndex.full))) (some old.side.analysis),
        s.answer (sourceIndex (analysesOf (j.map DependencyIndex.full)))
          (some new.side.analysis)) := by
  rw [answersTo, run_full, askFor_full]

/-- **The analyser of the repository fails closed**, with full indexes or none. -/
theorem builtin_failsClosed {i j : Option (List (String × AcceptedAnalysis t u))}
    (hold : old.analysis.Builtin) (hnew : new.analysis.Builtin)
    (hi : ∀ analyses ∈ i, ∀ a ∈ analyses, a.2.Builtin)
    (hj : ∀ analyses ∈ j, ∀ a ∈ analyses, a.2.Builtin) :
    FailsClosed fingerprint old new (.separate (i.map .full) (j.map .full)) := by
  refine marked_failsClosed hold.marked hnew.marked ?_ ?_
  · intro index hindex a ha
    rcases List.mem_append.1 hindex with h | h
    · obtain ⟨analyses, han, rfl⟩ := Option.map_eq_some_iff.1 (Option.mem_toList.1 h)
      exact (hi analyses han a ha).marked
    · obtain ⟨analyses, han, rfl⟩ := Option.map_eq_some_iff.1 (Option.mem_toList.1 h)
      exact (hj analyses han a ha).marked
  · rw [Trace.along_iff_forall]
    intro before s after _
    rw [run_full, AnswersAll, askFor_full]
    exact .inr ⟨LazySourceAnalysisIndex.SameClass.of_perm (List.Perm.refl _),
      LazySourceAnalysisIndex.SameClass.of_perm (List.Perm.refl _)⟩

end Marked

end FosCoverage
