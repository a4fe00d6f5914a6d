import Mathlib.Data.List.Flatten
import FosCoverage.Lib.Cache
import FosCoverage.Lib.Trace
import FosCoverage.Cpp.Dependencies

/-!
# The lazy index

`LazySourceAnalysisIndex` loads the files of a commit only when a symbol is looked up that they may
define, and keeps them in a cache with a byte budget.  Its answers should be those of the index over
all files, or else one of its flags should be set.

* `lookup` is `functions` and `definitions`: the candidate files of the symbol are loaded one after
  the other, which may raise and may evict other files, and the answer is read off the cache.
* `Undisturbed` says, of the state before a lookup, that every file that defines the symbol is cached
  or can be loaded, and that making room for the candidates evicts none of them.
* `lazy_agrees_with_eager`: in a run of such lookups every answer is in the class of the full one.

The memory of earlier path lookups (`_resolution_cache`) holds what the candidate index says and is
left out, as are the metrics.  The owner of the index may mark it at any time (`marks`).
-/

set_option autoImplicit false

namespace FosCoverage

open BoundedCache

/-! ## Symbols -/

/-- What is looked up: `functions(name)` or `definitions(kind, name)`. -/
inductive Symbol
  /-- The functions of a name. -/
  | function (name : String)
  /-- The macros or constants of a name. -/
  | definition (kind : DefinitionKind) (name : String)
  deriving DecidableEq, Repr

/-- One element of an answer. -/
inductive SymbolEntry
  /-- A function. -/
  | function (f : FunctionRange)
  /-- A definition in a file. -/
  | definition (path : String) (d : Definition)
  deriving DecidableEq, Repr

/-- What one file contributes to the answer. -/
def Symbol.entriesIn (path : String) (a : SourceAnalysis) : Symbol → List SymbolEntry
  | .function name => (a.functions.filter fun f => f.identity.name = name).map .function
  | .definition kind name =>
    (((a.definitions kind).lookup name).map fun d => SymbolEntry.definition path d).toList

/-- The answer of an index, with the analysis of the current file to fall back on. -/
def Symbol.answer (s : Symbol) (index : SourceAnalysisIndex)
    (localAnalysis : Option SourceAnalysis) : List SymbolEntry :=
  match s, localAnalysis with
  | .function name, none => (index.functionsNamed name).map .function
  | .function name, some a => (index.functions name a).map .function
  | .definition kind name, none =>
    (index.definitionsNamed kind name).map fun d => .definition d.1 d.2
  | .definition kind name, some a =>
    (index.definitions kind name a).map fun d => .definition d.1 d.2

/-- The part of an answer that comes from the index. -/
def Symbol.found (s : Symbol) (index : SourceAnalysisIndex) : List SymbolEntry :=
  s.answer index none

/-- None, exactly one and the same, or more than one. -/
def SameClass (l l' : List SymbolEntry) : Prop :=
  (l = [] ∧ l' = []) ∨ (∃ e, l = [e] ∧ l' = [e]) ∨ (1 < l.length ∧ 1 < l'.length)

/-! ## The index -/

/-- A file with its analysis and its size. -/
structure LoadedFile where
  /-- The path. -/
  path : String
  /-- The analysis. -/
  analysis : SourceAnalysis
  /-- The size, in bytes. -/
  size : Nat
  deriving DecidableEq, Repr

/-- The files of a commit. -/
structure FileMap where
  /-- The files. -/
  files : List LoadedFile
  /-- A path has one file. -/
  nodup : (files.map LoadedFile.path).Nodup

/-- The files as an index. -/
def indexOf (files : List LoadedFile) : SourceAnalysisIndex :=
  files.map fun f => (f.path, f.analysis)

/-- Where the candidate paths of a symbol come from. -/
inductive CandidateSource
  /-- Neither an index nor a loader: all paths are candidates.  The provider lists each once. -/
  | allPaths (paths : List String) (nodup : paths.Nodup)
  /-- A candidate index, given or loaded. -/
  | index (paths : Symbol → List String)
  /-- A loader that raises. -/
  | unavailable

/-- The candidate paths of a symbol; those of an index are a sorted set. -/
def CandidateSource.pathsOf : CandidateSource → Symbol → Option (List String)
  | .allPaths paths _, _ => some paths
  | .index paths, s => some ((paths s).dedup.insertionSort (· ≤ ·))
  | .unavailable, _ => none

/-- `LazySourceAnalysisIndex` -/
structure LazySourceAnalysisIndex where
  /-- `_cache` and `analyses`, least recently loaded first. -/
  cache : List LoadedFile
  /-- `_pinned` -/
  pinned : List String
  /-- `_max_cached_bytes` -/
  maxCachedBytes : Nat
  /-- The candidate index. -/
  candidates : CandidateSource
  /-- `budget_exhausted` -/
  budgetExhausted : Bool
  /-- `candidate_index_unavailable` -/
  candidateIndexUnavailable : Bool
  /-- `dependency_index_memory_budget_exhausted` -/
  memoryBudgetExhausted : Bool

namespace LazySourceAnalysisIndex

/-- A new index with the pinned files. -/
def start (pinned : List LoadedFile) (maxCachedBytes : Nat) (candidates : CandidateSource) :
    LazySourceAnalysisIndex :=
  { cache := pinned.insertionSort fun a b => a.path ≤ b.path
    pinned := pinned.map LoadedFile.path
    maxCachedBytes := max 1 maxCachedBytes
    candidates := candidates
    budgetExhausted := max 1 maxCachedBytes < bytes LoadedFile.size pinned
    candidateIndexUnavailable := false
    memoryBudgetExhausted := false }

/-- One of the fail-closed flags is set. -/
def flagged (st : LazySourceAnalysisIndex) : Bool :=
  st.budgetExhausted || st.candidateIndexUnavailable || st.memoryBudgetExhausted

/-- The file is in the cache. -/
def cached (st : LazySourceAnalysisIndex) (path : String) : Bool :=
  st.cache.any fun f => f.path = path

/-- The file must not be evicted. -/
def isPinned (st : LazySourceAnalysisIndex) (f : LoadedFile) : Bool := f.path ∈ st.pinned

/-- `_load_path` behind the loader: room is made for the file, or the budget is exhausted. -/
def takeIn (st : LazySourceAnalysisIndex) (file : LoadedFile) : LazySourceAnalysisIndex × Bool :=
  if st.maxCachedBytes < file.size then ({ st with budgetExhausted := true }, false)
  else
    let room := makeRoom LoadedFile.size st.isPinned st.maxCachedBytes file.size st.cache.length
      st.cache
    if room.2 then ({ st with cache := room.1 ++ [file] }, true)
    else ({ st with cache := room.1, budgetExhausted := true }, false)

/-- The file a loader returns for a path, unless it raises. -/
def loaded (files : FileMap) (raises : String → Bool) (path : String) : Option LoadedFile :=
  if raises path then none else files.files.find? fun f => f.path = path

/-- The loop of `_ensure_symbol`. -/
def ensureFrom (files : FileMap) (raises : String → Bool) (s : Symbol) :
    List String → LazySourceAnalysisIndex → LazySourceAnalysisIndex
  | [], st => st
  | path :: paths, st =>
    if 1 < (s.found (indexOf st.cache)).length then st
    else if st.cached path then ensureFrom files raises s paths st
    else match loaded files raises path with
      | none => if st.budgetExhausted then st else ensureFrom files raises s paths st
      | some file =>
        let (st, admitted) := st.takeIn file
        if !admitted && st.budgetExhausted then st else ensureFrom files raises s paths st

/-- `_ensure_symbol` -/
def ensureSymbol (files : FileMap) (raises : String → Bool) (st : LazySourceAnalysisIndex)
    (s : Symbol) : LazySourceAnalysisIndex :=
  match st.candidates.pathsOf s with
  | none => { st with candidateIndexUnavailable := true }
  | some paths => ensureFrom files raises s paths st

/-- A lookup with what happens around it: which loads raise, and whether the owner of the index marks
it. -/
structure Request where
  /-- The symbol. -/
  symbol : Symbol
  /-- `local_analysis` -/
  localAnalysis : Option SourceAnalysis
  /-- The loads that raise. -/
  raises : String → Bool
  /-- The index is marked during the lookup. -/
  marks : Bool

/-- `functions` and `definitions`: the index behind the lookup, and the answer. -/
def lookup (files : FileMap) (st : LazySourceAnalysisIndex) (r : Request) :
    LazySourceAnalysisIndex × List SymbolEntry :=
  let st := ensureSymbol files r.raises st r.symbol
  let st := { st with memoryBudgetExhausted := st.memoryBudgetExhausted || r.marks }
  (st, if st.budgetExhausted then []
    else r.symbol.answer (indexOf st.cache) r.localAnalysis)

/-- The index behind a lookup. -/
def exec (files : FileMap) (st : LazySourceAnalysisIndex) (r : Request) :
    LazySourceAnalysisIndex :=
  (lookup files st r).1

/-! ## One lookup -/

/-- The file contributes to the answer. -/
def Defines (f : LoadedFile) (s : Symbol) : Prop := s.entriesIn f.path f.analysis ≠ []

/-- The cache holds files of the commit. -/
structure CacheOk (files : FileMap) (st : LazySourceAnalysisIndex) : Prop where
  /-- Every cached file is one of the commit. -/
  mem : ∀ f ∈ st.cache, f ∈ files.files
  /-- No path is cached twice. -/
  nodup : (st.cache.map LoadedFile.path).Nodup

/-- The candidate index lists at least the files that define a symbol. -/
def Complete (files : FileMap) (candidates : CandidateSource) : Prop :=
  ∀ s paths, candidates.pathsOf s = some paths →
    ∀ f ∈ files.files, Defines f s → f.path ∈ paths

/-- The candidates that have to be loaded and can be. -/
def incoming (files : FileMap) (raises : String → Bool) (st : LazySourceAnalysisIndex)
    (paths : List String) : List LoadedFile :=
  paths.filterMap fun path => if st.cached path then none else loaded files raises path

/-- What has to be evicted for the candidates to fit. -/
def evicted (files : FileMap) (raises : String → Bool) (st : LazySourceAnalysisIndex)
    (paths : List String) : List LoadedFile :=
  let all := st.cache ++ incoming files raises st paths
  dropped LoadedFile.size st.isPinned (bytes LoadedFile.size all - st.maxCachedBytes) all

/-- Every file that defines the symbol is cached or can be loaded, and making room for the candidates
evicts none of them; or a flag is already set. -/
def Undisturbed (files : FileMap) (st : LazySourceAnalysisIndex) (r : Request) : Prop :=
  st.flagged = true ∨ ∀ paths, st.candidates.pathsOf r.symbol = some paths →
    (∀ f ∈ files.files, Defines f r.symbol → st.cached f.path = true ∨ r.raises f.path = false) ∧
    ∀ f ∈ evicted files r.raises st paths, f.path ∉ paths

section Lookup

variable {files : FileMap} {raises : String → Bool} {s : Symbol} {st : LazySourceAnalysisIndex}

theorem cached_iff {path : String} : st.cached path = true ↔ ∃ f ∈ st.cache, f.path = path := by
  simp [cached]

theorem loaded_eq_some {path : String} {file : LoadedFile}
    (h : loaded files raises path = some file) : file ∈ files.files ∧ file.path = path := by
  unfold loaded at h
  split at h
  · cases h
  · exact ⟨List.mem_of_find?_eq_some h, by simpa using List.find?_some h⟩

/-- A file of the commit is what is loaded for its path. -/
theorem loaded_of_mem {f : LoadedFile} (hf : f ∈ files.files) (hr : raises f.path = false) :
    loaded files raises f.path = some f := by
  unfold loaded
  rw [hr, if_neg Bool.false_ne_true]
  cases hfind : files.files.find? fun g => g.path = f.path with
  | none =>
    have := List.find?_eq_none.1 hfind f hf
    simp at this
  | some g =>
    have hg : g.path = f.path := by simpa using List.find?_some hfind
    rw [List.inj_on_of_nodup_map files.nodup (List.mem_of_find?_eq_some hfind) hf hg]

/-- What a lookup leaves alone. -/
structure Frame (st st' : LazySourceAnalysisIndex) : Prop where
  /-- The pinned files. -/
  pinned : st'.pinned = st.pinned
  /-- The budget. -/
  maxCachedBytes : st'.maxCachedBytes = st.maxCachedBytes
  /-- The candidate index. -/
  candidates : st'.candidates = st.candidates
  /-- Two of the flags; the third is never taken back. -/
  flags : st'.candidateIndexUnavailable = st.candidateIndexUnavailable ∧
    st'.memoryBudgetExhausted = st.memoryBudgetExhausted ∧
    (st.budgetExhausted = true → st'.budgetExhausted = true)

theorem Frame.refl (st : LazySourceAnalysisIndex) : Frame st st := ⟨rfl, rfl, rfl, rfl, rfl, id⟩

theorem Frame.trans {st st' st'' : LazySourceAnalysisIndex} (h : Frame st st')
    (h' : Frame st' st'') : Frame st st'' :=
  ⟨h'.pinned.trans h.pinned, h'.maxCachedBytes.trans h.maxCachedBytes,
    h'.candidates.trans h.candidates, h'.flags.1.trans h.flags.1,
    h'.flags.2.1.trans h.flags.2.1, fun hb => h'.flags.2.2 (h.flags.2.2 hb)⟩

theorem takeIn_frame (st : LazySourceAnalysisIndex) (file : LoadedFile) : Frame st (st.takeIn file).1 := by
  unfold takeIn
  split
  · exact ⟨rfl, rfl, rfl, rfl, rfl, fun _ => rfl⟩
  · dsimp only
    split
    · exact ⟨rfl, rfl, rfl, rfl, rfl, id⟩
    · exact ⟨rfl, rfl, rfl, rfl, rfl, fun _ => rfl⟩

theorem ensureFrom_frame (files : FileMap) (raises : String → Bool) (s : Symbol)
    (paths : List String) (st : LazySourceAnalysisIndex) :
    Frame st (ensureFrom files raises s paths st) := by
  induction paths generalizing st with
  | nil => exact Frame.refl st
  | cons path paths ih =>
    rw [ensureFrom]
    split
    · exact Frame.refl st
    · split
      · exact ih st
      · split
        · split
          · exact Frame.refl st
          · exact ih st
        · dsimp only
          split
          · exact takeIn_frame st _
          · exact (takeIn_frame st _).trans (ih _)

/-- A file that is not admitted exhausts the budget. -/
theorem takeIn_fails {file : LoadedFile} (h : (st.takeIn file).2 = false) :
    (st.takeIn file).1.budgetExhausted = true := by
  unfold takeIn at h ⊢
  split
  · rfl
  · rename_i hsize
    rw [if_neg hsize] at h
    dsimp only at h ⊢
    split
    · rename_i hfits
      rw [if_pos hfits] at h
      cases h
    · rfl

theorem CacheOk.sublist (h : CacheOk files st) {cache : List LoadedFile}
    (hsub : cache.Sublist st.cache) : CacheOk files { st with cache := cache } :=
  ⟨fun f hf => h.mem f (hsub.subset hf), h.nodup.sublist (hsub.map _)⟩

theorem CacheOk.takeIn (h : CacheOk files st) {file : LoadedFile} (hf : file ∈ files.files)
    (hnew : st.cached file.path = false) : CacheOk files (st.takeIn file).1 := by
  have hsub := makeRoom_sublist LoadedFile.size st.isPinned st.maxCachedBytes file.size
    st.cache.length st.cache
  unfold LazySourceAnalysisIndex.takeIn
  split
  · exact ⟨h.mem, h.nodup⟩
  · dsimp only
    split
    · have hroom := h.sublist hsub
      refine ⟨fun f hmem => ?_, ?_⟩
      · rcases List.mem_append.1 hmem with hmem | hmem
        · exact hroom.mem f hmem
        · obtain rfl := List.mem_singleton.1 hmem
          exact hf
      · rw [List.map_append, List.nodup_append]
        refine ⟨hroom.nodup, List.nodup_singleton _, fun p hp q hq => ?_⟩
        obtain rfl := List.mem_singleton.1 hq
        obtain ⟨g, hg, rfl⟩ := List.mem_map.1 hp
        intro heq
        rw [Bool.eq_false_iff] at hnew
        exact hnew (cached_iff.2 ⟨g, hsub.subset hg, heq⟩)
    · exact ⟨(h.sublist hsub).mem, (h.sublist hsub).nodup⟩

/-- **Admitting a candidate** evicts no candidate and leaves nothing more to evict for the others. -/
theorem takeIn_keeps {path : String} {paths all : List String} {file : LoadedFile}
    (hnew : st.cached path = false) (hload : loaded files raises path = some file)
    (hpath : path ∉ paths) (hall : ∀ q ∈ paths, q ∈ all)
    (hev : ∀ f ∈ evicted files raises st (path :: paths), f.path ∉ all)
    (hadm : (st.takeIn file).2 = true) :
    file ∈ (st.takeIn file).1.cache ∧
    (∀ f ∈ st.cache, f.path ∈ all → f ∈ (st.takeIn file).1.cache) ∧
    incoming files raises (st.takeIn file).1 paths = incoming files raises st paths ∧
    ∀ f ∈ evicted files raises (st.takeIn file).1 paths, f.path ∉ all := by
  have hincoming : incoming files raises st (path :: paths) =
      file :: incoming files raises st paths := by
    unfold incoming
    rw [List.filterMap_cons_some (b := file)]
    rw [hnew, if_neg Bool.false_ne_true, hload]
  unfold evicted at hev
  dsimp only at hev
  rw [hincoming] at hev
  generalize htake : st.takeIn file = result at hadm ⊢
  unfold takeIn at htake
  split at htake
  · subst htake
    cases hadm
  · dsimp only at htake
    generalize hroom : makeRoom LoadedFile.size st.isPinned st.maxCachedBytes file.size
      st.cache.length st.cache = room at htake
    obtain ⟨cache, fits⟩ := room
    cases fits with
    | false =>
      rw [if_neg Bool.false_ne_true] at htake
      subst htake
      cases hadm
    | true =>
      rw [if_pos rfl] at htake
      subst htake
      have hneed : file.size ≤
          bytes LoadedFile.size (file :: incoming files raises st paths) := by
        rw [bytes_cons]
        omega
      obtain ⟨hsub, _, hkept, hfewer⟩ := makeRoom_spec hneed hroom
      have hkeep : ∀ f ∈ st.cache, f.path ∈ all → f ∈ cache :=
        fun f hf hp => (hkept f hf).resolve_right fun hd => hev f hd hp
      have hcached : ∀ q ∈ paths,
          ({ st with cache := cache ++ [file] } : LazySourceAnalysisIndex).cached q =
            st.cached q := by
        intro q hq
        rw [Bool.eq_iff_iff, cached_iff, cached_iff]
        constructor
        · rintro ⟨g, hg, rfl⟩
          rcases List.mem_append.1 hg with hg | hg
          · exact ⟨g, hsub.subset hg, rfl⟩
          · obtain rfl := List.mem_singleton.1 hg
            rw [(loaded_eq_some hload).2] at hq
            exact absurd hq hpath
        · rintro ⟨g, hg, rfl⟩
          exact ⟨g, List.mem_append_left _ (hkeep g hg (hall _ hq)), rfl⟩
      have hsame : incoming files raises
          { st with cache := cache ++ [file] } paths = incoming files raises st paths :=
        List.filterMap_congr fun q hq => by rw [hcached q hq]
      refine ⟨List.mem_append_right _ (List.mem_singleton.2 rfl),
        fun f hf hp => List.mem_append_left _ (hkeep f hf hp), hsame, fun f hf => ?_⟩
      unfold evicted at hf
      dsimp only at hf
      rw [hsame, List.append_assoc, List.singleton_append] at hf
      exact hev f (hfewer f hf)

/-- **What a lookup achieves**: the budget is exhausted, or more than one entry is known, or every
file that defines the symbol is cached. -/
theorem ensureFrom_spec {all : List String} (paths : List String) (hok : CacheOk files st)
    (hnodup : paths.Nodup) (hall : ∀ q ∈ paths, q ∈ all)
    (hev : ∀ f ∈ evicted files raises st paths, f.path ∉ all)
    (hdef : ∀ f ∈ files.files, Defines f s → f ∈ st.cache ∨ f ∈ incoming files raises st paths)
    (hcand : ∀ f ∈ files.files, Defines f s → f.path ∈ all) :
    CacheOk files (ensureFrom files raises s paths st) ∧
    ((ensureFrom files raises s paths st).budgetExhausted = true ∨
      1 < (s.found (indexOf (ensureFrom files raises s paths st).cache)).length ∨
      ∀ f ∈ files.files, Defines f s → f ∈ (ensureFrom files raises s paths st).cache) := by
  induction paths generalizing st with
  | nil =>
    exact ⟨hok, .inr (.inr fun f hf hd => (hdef f hf hd).resolve_right (by
      simp [incoming]))⟩
  | cons path paths ih =>
    rw [List.nodup_cons] at hnodup
    have hall' : ∀ q ∈ paths, q ∈ all := fun q hq => hall q (List.mem_cons_of_mem _ hq)
    rw [ensureFrom]
    split
    · rename_i hmany
      exact ⟨hok, .inr (.inl hmany)⟩
    · -- a path that is cached or cannot be loaded adds nothing to what is to come
      have skip : (if st.cached path then none else loaded files raises path) = none →
          incoming files raises st (path :: paths) = incoming files raises st paths :=
        fun hnone => List.filterMap_cons_none hnone
      split
      · rename_i hc
        have hsame := skip (by rw [hc, if_pos rfl])
        refine ih hok hnodup.2 hall' ?_ (fun f hf hd => hsame ▸ hdef f hf hd)
        unfold evicted at hev ⊢
        rwa [hsame] at hev
      · rename_i hc
        rw [Bool.not_eq_true] at hc
        split
        · rename_i hload
          have hsame := skip (by rw [hc, if_neg Bool.false_ne_true, hload])
          split
          · rename_i hb
            exact ⟨hok, .inl hb⟩
          · refine ih hok hnodup.2 hall' ?_ (fun f hf hd => hsame ▸ hdef f hf hd)
            unfold evicted at hev ⊢
            rwa [hsame] at hev
        · rename_i file hload
          obtain ⟨hmem, hfp⟩ := loaded_eq_some hload
          have hok' := hok.takeIn hmem (by rw [hfp]; exact hc)
          dsimp only
          split
          · rename_i hstop
            rw [Bool.and_eq_true] at hstop
            exact ⟨hok', .inl hstop.2⟩
          · rename_i hgo
            have hadm : (st.takeIn file).2 = true := by
              cases hadm : (st.takeIn file).2 with
              | true => rfl
              | false => simp [hadm, takeIn_fails hadm] at hgo
            obtain ⟨hin, hkeep, hsame, hev'⟩ := takeIn_keeps hc hload hnodup.1 hall' hev hadm
            refine ih hok' hnodup.2 hall' hev' fun f hf hd => ?_
            rcases hdef f hf hd with hcache | hinc
            · exact .inl (hkeep f hcache (hcand f hf hd))
            · unfold incoming at hinc
              rw [List.filterMap_cons_some (b := file) (by
                rw [hc, if_neg Bool.false_ne_true, hload])] at hinc
              rcases List.mem_cons.1 hinc with rfl | hinc
              · exact .inl hin
              · exact .inr (hsame ▸ hinc)

end Lookup

/-! ## Answers -/

/-- The answer of an index is what its files contribute, in some order. -/
theorem found_perm (s : Symbol) (files : List LoadedFile) :
    (s.found (indexOf files)).Perm (files.flatMap fun f => s.entriesIn f.path f.analysis) := by
  have hsort := List.perm_insertionSort (fun a b : String × SourceAnalysis => a.1 ≤ b.1)
    (indexOf files)
  cases s with
  | function name =>
    refine ((hsort.flatMap_right _).map _).trans (List.Perm.of_eq ?_)
    rw [indexOf, List.flatMap_map, List.map_flatMap]
    rfl
  | definition kind name =>
    refine ((hsort.filterMap _).map _).trans (List.Perm.of_eq ?_)
    rw [indexOf, List.filterMap_map, List.map_filterMap]
    induction files with
    | nil => rfl
    | cons f files ih =>
      rw [List.flatMap_cons, ← ih (List.perm_insertionSort _ _)]
      cases hd : (f.analysis.definitions kind).lookup name with
      | none => simp [Symbol.entriesIn, hd]
      | some d => simp [Symbol.entriesIn, hd]

theorem SameClass.of_perm {l l' : List SymbolEntry} (h : l.Perm l') : SameClass l l' := by
  match l, h with
  | [], h => exact .inl ⟨rfl, h.nil_eq.symm⟩
  | [e], h => exact .inr (.inl ⟨e, rfl, h.singleton_eq.symm⟩)
  | e :: e' :: l, h =>
    refine .inr (.inr ⟨by simp, ?_⟩)
    rw [← h.length_eq]
    simp

/-- The class of the answer is decided by what the index finds. -/
theorem SameClass.answer {s : Symbol} {index index' : SourceAnalysisIndex}
    (h : SameClass (s.found index) (s.found index')) (localAnalysis : Option SourceAnalysis) :
    SameClass (s.answer index localAnalysis) (s.answer index' localAnalysis) := by
  cases localAnalysis with
  | none => exact h
  | some a =>
    have hlocal : ∃ own : List SymbolEntry, ∀ idx : SourceAnalysisIndex,
        s.answer idx (some a) = if s.found idx = [] then own else s.found idx := by
      cases s with
      | function name =>
        refine ⟨(a.functions.filter fun f => f.identity.name = name).map .function, fun idx => ?_⟩
        by_cases hnil : idx.functionsNamed name = []
        · simp [Symbol.answer, Symbol.found, SourceAnalysisIndex.functions, hnil]
        · simp [Symbol.answer, Symbol.found, SourceAnalysisIndex.functions, hnil]
      | definition kind name =>
        refine ⟨((((a.definitions kind).lookup name).map fun d => (a.path, d)).toList).map
          fun d => .definition d.1 d.2, fun idx => ?_⟩
        by_cases hnil : idx.definitionsNamed kind name = []
        · simp [Symbol.answer, Symbol.found, SourceAnalysisIndex.definitions, hnil]
        · simp [Symbol.answer, Symbol.found, SourceAnalysisIndex.definitions, hnil]
    obtain ⟨own, hown⟩ := hlocal
    rw [hown, hown]
    rcases h with ⟨h₁, h₂⟩ | ⟨e, h₁, h₂⟩ | ⟨h₁, h₂⟩
    · rw [if_pos h₁, if_pos h₂]
      exact SameClass.of_perm (List.Perm.refl own)
    · rw [h₁, h₂]
      exact .inr (.inl ⟨e, rfl, rfl⟩)
    · rw [if_neg (List.ne_nil_of_length_pos (by omega)),
        if_neg (List.ne_nil_of_length_pos (by omega))]
      exact .inr (.inr ⟨h₁, h₂⟩)

theorem flatMap_eq_filter {α β : Type} (e : α → List β) (l : List α) :
    l.flatMap e = (l.filter fun a => !(e a).isEmpty).flatMap e := by
  induction l with
  | nil => rfl
  | cons a l ih =>
    cases ha : e a with
    | nil => simp [ha, ih]
    | cons b bs => simp [ha, ih]

section Answers

variable {files : FileMap} {st : LazySourceAnalysisIndex} {s : Symbol}

/-- With all files that define the symbol in the cache the answers are the same. -/
theorem CacheOk.found_perm_of_all (h : CacheOk files st)
    (hall : ∀ f ∈ files.files, Defines f s → f ∈ st.cache) :
    (s.found (indexOf st.cache)).Perm (s.found (indexOf files.files)) := by
  refine (found_perm s _).trans (List.Perm.trans ?_ (found_perm s _).symm)
  rw [flatMap_eq_filter _ st.cache, flatMap_eq_filter _ files.files]
  refine List.Perm.flatMap_right _ ?_
  rw [List.perm_ext_iff_of_nodup (h.nodup.of_map.filter _) (files.nodup.of_map.filter _)]
  intro f
  rw [List.mem_filter, List.mem_filter]
  refine and_congr_left fun hd => ⟨h.mem f, fun hf => hall f hf ?_⟩
  simpa [Defines, List.isEmpty_iff] using hd

/-- The cache never has more than there is. -/
theorem CacheOk.found_length_le (h : CacheOk files st) :
    (s.found (indexOf st.cache)).length ≤ (s.found (indexOf files.files)).length := by
  obtain ⟨l, hl, hsub⟩ := List.subperm_of_subset h.nodup.of_map h.mem
  have hperm : (l.flatMap fun f => s.entriesIn f.path f.analysis).length =
      (st.cache.flatMap fun f => s.entriesIn f.path f.analysis).length :=
    (hl.flatMap_right _).length_eq
  rw [(found_perm s st.cache).length_eq, (found_perm s files.files).length_eq, ← hperm]
  exact (hsub.flatMap _).length_le

end Answers

/-! ## Runs of lookups -/

section Runs

variable {files : FileMap} {st : LazySourceAnalysisIndex}

theorem CandidateSource.nodup_pathsOf {c : CandidateSource} {s : Symbol} {paths : List String}
    (h : c.pathsOf s = some paths) : paths.Nodup := by
  cases c with
  | allPaths ps hps =>
    obtain rfl := Option.some.inj h
    exact hps
  | index ps =>
    obtain rfl := Option.some.inj h
    exact (List.perm_insertionSort _ _).nodup_iff.2 (List.nodup_dedup _)
  | unavailable => cases h

/-- The index behind a lookup is flagged, or the answer has the class of the full one. -/
def Agrees (files : FileMap) (st : LazySourceAnalysisIndex) (r : Request) : Prop :=
  (lookup files st r).1.flagged = true ∨
    SameClass (lookup files st r).2
      (r.symbol.answer (indexOf files.files) r.localAnalysis)

theorem flagged_iff : st.flagged = true ↔ st.budgetExhausted = true ∨
    st.candidateIndexUnavailable = true ∨ st.memoryBudgetExhausted = true := by
  simp [flagged, or_assoc]

/-- A lookup keeps the candidate index and takes no flag back. -/
theorem exec_frame (r : Request) : (exec files st r).candidates = st.candidates ∧
    (st.flagged = true → (exec files st r).flagged = true) := by
  simp only [exec, lookup, ensureSymbol, flagged_iff]
  split
  · refine ⟨rfl, fun h => .inr (.inl rfl)⟩
  · rename_i paths _
    obtain ⟨_, _, hcand, hun, hmem, hb⟩ := ensureFrom_frame files r.raises r.symbol paths
      st
    refine ⟨hcand, fun h => ?_⟩
    rcases h with h | h | h
    · exact .inl (hb h)
    · exact .inr (.inl (hun.trans h))
    · exact .inr (.inr (by rw [hmem, h, Bool.true_or]))

/-- **One lookup**: in a sound index that is not flagged, an undisturbed lookup agrees and leaves the
index sound. -/
theorem lookup_spec {r : Request} (hok : CacheOk files st)
    (hcomplete : Complete files st.candidates) (hclear : st.flagged = false)
    (h : Undisturbed files st r) :
    CacheOk files (exec files st r) ∧ Agrees files st r := by
  rcases h with h | h
  · rw [hclear] at h
    cases h
  cases hpaths : st.candidates.pathsOf r.symbol with
  | none =>
    simp only [exec, Agrees, lookup, ensureSymbol, hpaths]
    exact ⟨⟨hok.mem, hok.nodup⟩, .inl (flagged_iff.2 (.inr (.inl rfl)))⟩
  | some paths =>
    obtain ⟨hload, hev⟩ := h paths hpaths
    have hcand := hcomplete r.symbol paths hpaths
    have hdef : ∀ f ∈ files.files, Defines f r.symbol →
        f ∈ st.cache ∨ f ∈ incoming files r.raises st paths := by
      intro f hf hd
      cases hc : st.cached f.path with
      | true =>
        obtain ⟨g, hg, hp⟩ := cached_iff.1 hc
        rw [← List.inj_on_of_nodup_map files.nodup (hok.mem g hg) hf hp]
        exact .inl hg
      | false =>
        have hr := (hload f hf hd).resolve_left (by rw [hc]; exact Bool.false_ne_true)
        refine .inr (List.mem_filterMap.2 ⟨f.path, hcand f hf hd, ?_⟩)
        rw [hc, if_neg Bool.false_ne_true, loaded_of_mem hf hr]
    obtain ⟨hok', hdone⟩ := ensureFrom_spec (s := r.symbol) paths hok
      (CandidateSource.nodup_pathsOf hpaths) (fun q hq => hq) hev hdef hcand
    simp only [exec, Agrees, lookup, ensureSymbol, hpaths]
    refine ⟨⟨hok'.mem, hok'.nodup⟩, ?_⟩
    cases hb : (ensureFrom files r.raises r.symbol paths st).budgetExhausted with
    | true => exact .inl (flagged_iff.2 (.inl rfl))
    | false =>
      rw [hb] at hdone
      refine .inr (SameClass.answer ?_ r.localAnalysis)
      rcases hdone with hb | hmany | hall
      · cases hb
      · exact .inr (.inr ⟨hmany, Nat.lt_of_lt_of_le hmany hok'.found_length_le⟩)
      · exact SameClass.of_perm (hok'.found_perm_of_all hall)

/-- **The lazy index agrees with the full one** after every lookup of a run whose lookups are
undisturbed. -/
theorem lazy_agrees_with_eager {candidates : CandidateSource} {pinned : List LoadedFile}
    {maxCachedBytes : Nat} (requests : List Request) (hcomplete : Complete files candidates)
    (hpinned : pinned.Sublist files.files)
    (h : Trace.Along (exec files) (Undisturbed files) (start pinned maxCachedBytes candidates)
      requests) :
    ∀ pre r post, requests = pre ++ r :: post →
      Agrees files (Trace.run (exec files) (start pinned maxCachedBytes candidates) pre) r := by
  rintro pre r post rfl
  have hstart : CacheOk files (start pinned maxCachedBytes candidates) := by
    have hperm := List.perm_insertionSort (fun a b : LoadedFile => a.path ≤ b.path) pinned
    refine ⟨fun f hf => hpinned.subset (hperm.subset hf), ?_⟩
    exact (hperm.map _).nodup_iff.2 (files.nodup.sublist (hpinned.map _))
  have hinv := Trace.run_inv_along
    (I := fun st : LazySourceAnalysisIndex => st.candidates = candidates ∧
      (st.flagged = true ∨ CacheOk files st)) ?_ ⟨rfl, .inr hstart⟩ (Trace.along_append.1 h).1
  · obtain ⟨hcand, hflag | hok⟩ := hinv
    · exact .inl ((exec_frame r).2 hflag)
    · cases hclear : (Trace.run (exec files) (start pinned maxCachedBytes candidates)
          pre).flagged with
      | true => exact .inl ((exec_frame r).2 hclear)
      | false =>
        exact (lookup_spec hok (by rw [hcand]; exact hcomplete) hclear (Trace.along_at h)).2
  · rintro st q ⟨hcand, hst⟩ hq
    refine ⟨(exec_frame q).1.trans hcand, ?_⟩
    cases hclear : st.flagged with
    | true => exact .inl ((exec_frame q).2 hclear)
    | false =>
      rcases hst with hst | hok
      · rw [hst] at hclear
        cases hclear
      · exact .inr (lookup_spec hok (by rw [hcand]; exact hcomplete) hclear hq).1

end Runs

end LazySourceAnalysisIndex

/-! ## Two files and a budget -/

namespace Sample

open LazySourceAnalysisIndex

/-- A file with a function `f`. -/
def functionFile (path : String) : LoadedFile :=
  ⟨path, CppSourceAnalyzer.analyze .asciiOnly "int f() \x7b\n  return 1;\n\x7d".toList path, 10⟩

/-- Two files that define the same function. -/
def twoFunctions : FileMap := ⟨[functionFile "a.c", functionFile "b.c"], by decide⟩

/-- A candidate index that lists both files. -/
def bothPaths : CandidateSource := .index fun _ => ["a.c", "b.c"]

/-- The lookup of the function. -/
def requestF : Request := ⟨.function "f", none, fun _ => false, false⟩

theorem complete_bothPaths : Complete twoFunctions bothPaths := by
  intro s paths hpaths f hf _
  obtain rfl := Option.some.inj hpaths
  rw [List.mem_insertionSort, List.mem_dedup]
  rcases List.mem_cons.1 hf with rfl | hf
  · exact List.mem_cons_self
  · obtain rfl := List.mem_singleton.1 hf
    exact List.mem_cons_of_mem _ List.mem_cons_self

end Sample

namespace LazySourceAnalysisIndex

/-- A budget for both files. -/
theorem lazy_agrees_with_eager_sample :
    Complete Sample.twoFunctions Sample.bothPaths ∧
    Agrees Sample.twoFunctions (start [] 20 Sample.bothPaths) Sample.requestF := by
  refine ⟨Sample.complete_bothPaths, lazy_agrees_with_eager [Sample.requestF]
    Sample.complete_bothPaths (List.nil_sublist _) ⟨.inr fun paths hpaths => ?_, trivial⟩ []
    Sample.requestF [] rfl⟩
  obtain rfl := Option.some.inj hpaths
  refine ⟨fun f _ _ => .inr rfl, fun f hf => ?_⟩
  have hnone : evicted Sample.twoFunctions Sample.requestF.raises (start [] 20 Sample.bothPaths)
      (["a.c", "b.c"].dedup.insertionSort (· ≤ ·)) = [] := by decide +kernel
  rw [show (Sample.requestF.symbol) = .function "f" from rfl] at hf
  rw [hnone] at hf
  cases hf

/-- With a budget for one file the second load evicts the first: the answer is a single function,
and no flag is set. -/
theorem eviction_hides_a_definition :
    Complete Sample.twoFunctions Sample.bothPaths ∧
    ¬ Agrees Sample.twoFunctions (start [] 10 Sample.bothPaths) Sample.requestF := by
  refine ⟨Sample.complete_bothPaths, ?_⟩
  have hflag : (lookup Sample.twoFunctions (start [] 10 Sample.bothPaths)
      Sample.requestF).1.flagged = false := by decide +kernel
  have hone : (lookup Sample.twoFunctions (start [] 10 Sample.bothPaths)
      Sample.requestF).2.length = 1 := by decide +kernel
  have htwo : (Sample.requestF.symbol.answer (indexOf Sample.twoFunctions.files)
      Sample.requestF.localAnalysis).length = 2 := by decide +kernel
  rintro (h | ⟨h, _⟩ | ⟨e, _, h⟩ | ⟨h, _⟩)
  · rw [hflag] at h
    cases h
  · rw [h] at hone
    cases hone
  · rw [h] at htwo
    cases htwo
  · omega

end LazySourceAnalysisIndex

end FosCoverage
