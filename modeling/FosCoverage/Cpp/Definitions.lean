import Mathlib.Data.List.Induction
import FosCoverage.Cpp.Dependencies

/-!
# Changed definitions

When does a changed macro or constant stop a line from inheriting?  The definitions of a name are
those of all files (`collection`): the `#define` directives, and the declarations that say `const`
or `constexpr` in front of the name and have a value.  They are read from the tokens of the files.
What the comparison sees of them is less:

* only the definitions that the patterns of `_definitions` recognise on a line, so none of
  `static const int A = 1;`;
* of several recognised ones in a file only the last (`lookup_definitions`), since the file has a
  dictionary of its macros and constants;
* of the files only how many define the name, since the path is not compared;
* and nothing at all for the names of `_NON_DEPENDENCY_TOKENS`, and for the names that stand neither
  on the line nor in a header or a condition that is recorded for it.

`changed_definition_blocks` is the exact condition that is left, for every name.
-/

set_option autoImplicit false

namespace FosCoverage

open Text CppLexer CppSourceAnalyzer

/-! ## All definitions of a name -/

/-- A declarator without array bounds: its tokens from the last one on, `inBounds` behind a closing
bracket. -/
def declarator : Bool → List String → List String
  | _, [] => []
  | inBounds, t :: ts =>
    if t = "]" then declarator true ts
    else if inBounds then declarator (t ≠ "[") ts
    else t :: ts

/-- The constant that an equals sign defines, the tokens before it from the last one on: a name with
`const` or `constexpr` in front of it, in a statement and in no parentheses. -/
def constantBefore (before : List String) : Option String :=
  match declarator false before with
  | [] => none
  | name :: specifiers =>
    let statement := specifiers.takeWhile (· ∉ [";", "\x7b", "\x7d"])
    if ("const" ∈ statement ∨ "constexpr" ∈ statement) ∧
        statement.count "(" ≤ statement.count ")" then some name
    else none

/-- The constants that are defined in some tokens, behind others, each with the tokens of its
value. -/
def constantsFrom (before : List String) : List String → List (String × List String)
  | [] => []
  | t :: ts =>
    (if t = "=" then (constantBefore before).toList.map (·, ts.takeWhile (· ≠ ";")) else []) ++
      constantsFrom (t :: before) ts

/-- The macro that a logical line defines. -/
def macroDefined : List String → Option (String × List String)
  | "#" :: "define" :: name :: tokens => some (name, tokens)
  | _ => none

/-- What a text defines: names with the tokens of parameters and value. -/
def defined (text : List Char) : DefinitionKind → List (String × List String)
  | .macros => (logicalGroups text).filterMap fun line => macroDefined line.tokens
  | .constants =>
    constantsFrom [] (((logicalGroups text).map LineGroup.tokens).filter fun tokens =>
      tokens.head? ≠ some "#").flatten

/-- All definitions of a name in a commit: path, parameters and value. -/
def collection (kind : DefinitionKind) (commit : SourceUniverse) (name : String) :
    List (String × List String) :=
  commit.files.flatMap fun file =>
    ((defined file.2 kind).filter fun d => d.1 = name).map fun d => (file.1, d.2)

/-! ## The definitions that are recognised -/

/-- How a line of each kind is recognised. -/
def DefinitionKind.recognise (u : WordTable) :
    DefinitionKind → List Char → Option (String × List String)
  | .macros => macroOf u
  | .constants => constantOf u

section Recognised

variable (u : WordTable) (kind : DefinitionKind)

/-- The recognised definition of the name on a logical line. -/
def definitionAt (name : String) (line : LogicalLine) : Option Definition :=
  match kind.recognise u line.text with
  | some (n, tokens) => if n = name then some ⟨line.startLine, tokens⟩ else none
  | none => none

/-- The recognised definitions of a name in a file, in the order of its lines. -/
def occurrences (file : String × List Char) (name : String) : List Definition :=
  if supported file.1 then
    (logicalLines (numberedLines file.2)).filterMap (definitionAt u kind name)
  else []

/-- The last recognised definition of a name in every file that has one. -/
def lastDefinitions (commit : SourceUniverse) (name : String) : List (String × Definition) :=
  commit.files.filterMap fun file =>
    (occurrences u kind file name).getLast?.map fun d => (file.1, d)

end Recognised

/-! ## What an index knows of them -/

section Lookup

variable {u : WordTable} {kind : DefinitionKind}

theorem lookup_put (d : List (String × Definition)) (name other : String) (value : Definition) :
    (put d name value).lookup other = if other = name then some value else d.lookup other := by
  unfold put
  split
  · rename_i hsome
    induction d with
    | nil => simp at hsome
    | cons e d ih =>
      obtain ⟨k, v⟩ := e
      by_cases hk : k = name
      · subst hk
        by_cases ho : other = k
        · subst ho
          simp
        · -- entries of other names are looked up as before
          have hrest : ∀ l : List (String × Definition),
              (l.map fun e => if e.1 = k then (k, value) else e).lookup other = l.lookup other := by
            intro l
            induction l with
            | nil => rfl
            | cons e l ihl =>
              rw [List.map_cons]
              by_cases he : e.1 = k
              · rw [if_pos he, List.lookup_cons, List.lookup_cons, ihl,
                  beq_eq_false_iff_ne.2 ho, beq_eq_false_iff_ne.2 (by rw [he]; exact ho)]
              · rw [if_neg he, List.lookup_cons, List.lookup_cons, ihl]
          rw [hrest, if_neg ho]
      · have hsome' : (d.lookup name).isSome := by
          rw [List.lookup_cons, beq_eq_false_iff_ne.2 (fun h => hk h.symm)] at hsome
          exact hsome
        rw [List.map_cons, if_neg hk, List.lookup_cons, ih hsome', List.lookup_cons]
        by_cases ho : other = k
        · subst ho
          simp [hk]
        · rw [beq_eq_false_iff_ne.2 ho]
  · rename_i hnone
    rw [List.lookup_append]
    by_cases ho : other = name
    · subst ho
      rw [Option.not_isSome_iff_eq_none.1 hnone]
      simp
    · have : List.lookup other [(name, value)] = none := by
        rw [List.lookup_cons, beq_eq_false_iff_ne.2 ho]
        rfl
      rw [this, if_neg ho, Option.or_none]

/-- **The dictionary of a file has the last definition of every name.** -/
theorem lookup_definitions (lines : List LogicalLine) (name : String) :
    (definitions (kind.recognise u) lines).lookup name =
      (lines.filterMap (definitionAt u kind name)).getLast? := by
  unfold definitions
  induction lines using List.reverseRecOn with
  | nil => rfl
  | append_singleton lines line ih =>
    rw [List.foldl_append, List.foldl_cons, List.foldl_nil, List.filterMap_append]
    cases hr : kind.recognise u line.text with
    | none => simpa [definitionAt, hr] using ih
    | some d =>
      obtain ⟨n, tokens⟩ := d
      dsimp only
      rw [lookup_put, ih]
      by_cases hn : name = n
      · subst hn
        simp [definitionAt, hr]
      · simp [definitionAt, hr, hn, Ne.symm hn]

theorem lookup_analyze (file : String × List Char) (name : String) :
    ((analyze u file.2 file.1).definitions kind).lookup name =
      (occurrences u kind file name).getLast? := by
  unfold analyze occurrences
  split
  · rw [← lookup_definitions]
    cases kind <;> rfl
  · cases kind <;> rfl

theorem definitionsNamed_perm (u : WordTable) (kind : DefinitionKind) (commit : SourceUniverse) (name : String) :
    ((commit.index u).definitionsNamed kind name).Perm (lastDefinitions u kind commit name) := by
  unfold SourceAnalysisIndex.definitionsNamed SourceAnalysisIndex.sorted
  refine ((List.perm_insertionSort _ _).filterMap _).trans ?_
  unfold SourceUniverse.index lastDefinitions
  rw [List.filterMap_map]
  refine List.Perm.of_eq (List.filterMap_congr fun file _ => ?_)
  exact congrArg _ (lookup_analyze file name)

/-- A line sees no definition besides those of its commit. -/
theorem side_definitions_perm (u : WordTable) (kind : DefinitionKind) {commit : SourceUniverse} {file : String × List Char}
    (hf : file ∈ commit.files) (text : List Char) (n : Nat) (name : String) :
    ((commit.side u file text n).definitions kind name).Perm
      (lastDefinitions u kind commit name) := by
  have hperm := definitionsNamed_perm u kind commit name
  unfold LineSide.definitions SourceAnalysisIndex.definitions
  dsimp only
  split
  · exact hperm
  · rename_i hnil
    have hnone : lastDefinitions u kind commit name = [] := by
      rw [not_not] at hnil
      exact (hnil ▸ hperm).nil_eq.symm
    have hfile := List.filterMap_eq_nil_iff.1 hnone file hf
    have hlookup : ((commit.side u file text n).analysis.definitions kind).lookup name = none :=
      (lookup_analyze file name).trans (Option.map_eq_none_iff.1 hfile)
    rw [hlookup, hnone]
    exact List.Perm.refl _

end Lookup

/-! ## The comparison -/

section Compare

variable (u : WordTable) (fingerprint : List String → String) (kind : DefinitionKind)
  (old new : SourceUniverse) (name : String)

/-- The definitions of the name differ between the commits, or there is more than one in one. -/
def Clash : Prop :=
  ¬ (collection kind old name).Perm (collection kind new name) ∨
    1 < (collection kind old name).length ∨ 1 < (collection kind new name).length

/-- No file has a recognised definition of the name; or one file of each commit does, and its last
ones are on the same line and have the same tokens. -/
def LooksUnchanged : Prop :=
  (lastDefinitions u kind old name = [] ∧ lastDefinitions u kind new name = []) ∨
    ∃ p p' d, lastDefinitions u kind old name = [(p, d)] ∧
      lastDefinitions u kind new name = [(p', d)]

/-- Every check of `compare_line` passes except perhaps that of the name. -/
def OtherChecksPass (side side' : LineSide) : Prop :=
  SamePlace side side' ∧
    (∀ n ∈ DependencyResolver.consulted u side side', ∀ k, ¬ (n = name ∧ k = kind) →
      DefinitionsAgree side side' k n) ∧
    ∀ n ∈ side.calls ++ side'.calls, CalleeAgrees fingerprint side side' n

variable {u fingerprint kind old new name}

theorem definitionReason_eq_none_iff {code : String} {ds ds' : List (String × Definition)} :
    DependencyResolver.definitionReason code ds ds' = none ↔
      (ds = [] ∧ ds' = []) ∨ ∃ p p' d, ds = [(p, d)] ∧ ds' = [(p', d)] := by
  constructor
  · intro h
    unfold DependencyResolver.definitionReason at h
    split at h
    · exact .inl ⟨rfl, rfl⟩
    · rename_i e e'
      split at h
      · rename_i heq
        exact .inr ⟨e.1, e'.1, e.2, rfl, by rw [heq]⟩
      · cases h
    · cases h
  · rintro (⟨rfl, rfl⟩ | ⟨p, p', d, rfl, rfl⟩)
    · rfl
    · simp [DependencyResolver.definitionReason]

/-- **What the comparison of a name sees.** -/
theorem definitionsAgree_iff {file file' : String × List Char} (hf : file ∈ old.files)
    (hf' : file' ∈ new.files) {text text' : List Char} {m n : Nat} :
    DefinitionsAgree (old.side u file text m) (new.side u file' text' n) kind name ↔
      LooksUnchanged u kind old new name := by
  have hperm := side_definitions_perm u kind hf text m name
  have hperm' := side_definitions_perm u kind hf' text' n name
  unfold DefinitionsAgree DependencyResolver.kindReason LooksUnchanged
  rw [definitionReason_eq_none_iff]
  refine or_congr (and_congr ?_ ?_) ?_
  · exact ⟨fun h => (h ▸ hperm).nil_eq.symm, fun h => (h ▸ hperm).eq_nil⟩
  · exact ⟨fun h => (h ▸ hperm').nil_eq.symm, fun h => (h ▸ hperm').eq_nil⟩
  · refine exists_congr fun p => exists_congr fun p' => exists_congr fun d => and_congr ?_ ?_
    · exact ⟨fun h => (h ▸ hperm).singleton_eq.symm, fun h => (h ▸ hperm).eq_singleton⟩
    · exact ⟨fun h => (h ▸ hperm').singleton_eq.symm, fun h => (h ▸ hperm').eq_singleton⟩

/-- What lets a line pass, as far as one name is concerned. -/
theorem compareLine_passes_iff (kind : DefinitionKind) (name : String)
    {file file' : String × List Char} (hf : file ∈ old.files) (hf' : file' ∈ new.files)
    {text text' : List Char} {m n : Nat} :
    compareLine u fingerprint (old.side u file text m) (new.side u file' text' n) = none ↔
      OtherChecksPass u fingerprint kind name (old.side u file text m)
          (new.side u file' text' n) ∧
        (name ∈ (old.side u file text m).names u ++ (new.side u file' text' n).names u →
          name ∉ DependencyResolver.nonDependencyTokens → LooksUnchanged u kind old new name) := by
  have hconsulted : name ∈ DependencyResolver.consulted u (old.side u file text m)
        (new.side u file' text' n) ↔
      name ∈ (old.side u file text m).names u ++ (new.side u file' text' n).names u ∧
        name ∉ DependencyResolver.nonDependencyTokens := by
    unfold DependencyResolver.consulted
    rw [List.mem_filter, decide_eq_true_eq]
  rw [compareLine_eq_none_iff, ← definitionsAgree_iff hf hf', ← and_imp, ← hconsulted]
  constructor
  · rintro ⟨hplace, hdefs, hcalls⟩
    exact ⟨⟨hplace, fun n hn k _ => hdefs n hn k, hcalls⟩, fun hname => hdefs name hname kind⟩
  · rintro ⟨⟨hplace, hdefs, hcalls⟩, hsame⟩
    refine ⟨hplace, fun n hn k => ?_, hcalls⟩
    by_cases hnk : n = name ∧ k = kind
    · obtain ⟨rfl, rfl⟩ := hnk
      exact hsame hn
    · exact hdefs n hn k hnk

/-- **When a changed definition stops a line**: exactly when another check does; or when the name is
looked up, since it stands on the line or in what is recorded as its contexts and is no word of the
language, and the last recognised definitions in the files do not look unchanged. -/
theorem changed_definition_blocks {file file' : String × List Char} (hf : file ∈ old.files)
    (hf' : file' ∈ new.files) {text text' : List Char} {m n : Nat} :
    (Clash kind old new name → compareLine u fingerprint (old.side u file text m)
        (new.side u file' text' n) ≠ none) ↔
      (Clash kind old new name → ¬ OtherChecksPass u fingerprint kind name
          (old.side u file text m) (new.side u file' text' n) ∨
        (name ∈ (old.side u file text m).names u ++ (new.side u file' text' n).names u ∧
          name ∉ DependencyResolver.nonDependencyTokens ∧
            ¬ LooksUnchanged u kind old new name)) := by
  refine imp_congr_right fun _ => ?_
  rw [Ne, compareLine_passes_iff kind name hf hf', not_and_or]
  refine or_congr_right ?_
  simp only [Classical.not_imp]

end Compare

/-! ## Examples of both outcomes -/

namespace Sample

/-- A file with a macro of the given value and a function that returns it. -/
def macroFile (value : String) : String × List Char :=
  ("a.cpp", ("#define A " ++ value ++ "\nint f() \x7b\n  return A;\n\x7d").toList)

/-- The commit with that file. -/
def macroCommit (value : String) : SourceUniverse := ⟨[macroFile value], by simp⟩

end Sample

theorem changed_definition_blocks_sample :
    compareLine .asciiOnly CppSourceAnalyzer.join
      ((Sample.macroCommit "1").side .asciiOnly (Sample.macroFile "1") "  return A;".toList 3)
      ((Sample.macroCommit "2").side .asciiOnly (Sample.macroFile "2") "  return A;".toList 3) ≠
        none := by
  have hone : lastDefinitions .asciiOnly .macros (Sample.macroCommit "1") "A" =
      [("a.cpp", ⟨1, ["1"]⟩)] := by decide +kernel
  have htwo : lastDefinitions .asciiOnly .macros (Sample.macroCommit "2") "A" =
      [("a.cpp", ⟨1, ["2"]⟩)] := by decide +kernel
  have hclash : Clash .macros (Sample.macroCommit "1") (Sample.macroCommit "2") "A" := by
    refine .inl fun hperm => ?_
    have hmem := hperm.subset (show ("a.cpp", ["1"]) ∈ _ by decide +kernel)
    exact absurd hmem (by decide +kernel)
  refine (changed_definition_blocks (List.mem_singleton.2 rfl) (List.mem_singleton.2 rfl)).2
    (fun _ => .inr ⟨by decide +kernel, by decide, ?_⟩) hclash
  rintro (⟨h, -⟩ | ⟨p, p', d, h, h'⟩)
  · exact absurd (hone.symm.trans h) (by simp)
  · have hd : p = "a.cpp" ∧ d = ⟨1, ["1"]⟩ := by simpa using (hone.symm.trans h).symm
    have hd' : p' = "a.cpp" ∧ d = ⟨1, ["2"]⟩ := by simpa using (htwo.symm.trans h').symm
    exact absurd (hd.2.symm.trans hd'.2) (by decide)

namespace Sample

/-- A file in which a macro has a definition in each branch of a conditional group. -/
def branches : SourceUniverse where
  files := [("a.cpp",
    "#ifdef X\n#define A 1\n#else\n#define A 2\n#endif\nint f() \x7b\n  return A;\n\x7d".toList)]
  nodup := by decide

/-- The file in which the definition of the macro is another one. -/
def rebranched : SourceUniverse where
  files := [("a.cpp",
    "#ifdef X\n#define A 7\n#else\n#define A 2\n#endif\nint f() \x7b\n  return A;\n\x7d".toList)]
  nodup := by decide

/-- The line that uses the macro. -/
def useOfMacro (commit : SourceUniverse) : LineSide :=
  commit.side .asciiOnly (commit.files.headD ("", [])) "  return A;".toList 7

end Sample

/-- A macro with two definitions, one of them changed, does not stop the line that uses it. -/
theorem redefinition_in_branch_is_missed :
    "A" ∈ (Sample.useOfMacro Sample.branches).names .asciiOnly ∧
    1 < (collection .macros Sample.branches "A").length ∧
    collection .macros Sample.branches "A" ≠ collection .macros Sample.rebranched "A" ∧
    compareLine .asciiOnly CppSourceAnalyzer.join (Sample.useOfMacro Sample.branches)
      (Sample.useOfMacro Sample.rebranched) = none := by
  decide +kernel

/-- A constant that is not recognised. -/
example : constantsFrom [] ["static", "const", "int", "A", "[", "2", "]", "=", "\x7b", "1", ",", "2",
      "\x7d", ";"] = [("A", ["\x7b", "1", ",", "2", "\x7d"])] ∧
    constantOf .asciiOnly "static const int A[2] = \x7b1, 2\x7d;".toList = none := by
  decide +kernel

end FosCoverage
