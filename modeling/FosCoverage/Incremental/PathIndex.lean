import FosCoverage.Lib.Table
import FosCoverage.Lib.Text
import Mathlib.Data.List.Induction
import Mathlib.Data.List.Nodup
import Mathlib.Data.List.TakeDrop
import Mathlib.Tactic.Tauto

/-!
# Paths of LCOV and paths of a repository

`app/incremental/path_index.py`: a path of an LCOV file is looked up among the target paths of one
repository, by four dictionaries that are asked in turn.

* `normalizeLcovPath` is the form under which two spellings of a path are the same one.  A path with
  a parent segment has none, and a path without a segment is not entered.
* `RepoIndex.Describes` says what the four dictionaries hold, as a relation between keys and targets;
  `describes_build` follows it through the paths (`SetsOf.addTo` for one entry).
* `Resolves` says which target a query stands for: the target itself, the only one of its form, the
  only one with the longest common end.  **The index finds exactly that one**
  (`resolvePath_eq_some_iff`), so it depends on nothing but the set of targets of the repository.
-/

set_option autoImplicit false

namespace FosCoverage.PathIndex

open Relational

/-- A path, as its characters. -/
abbrev Path := List Char

/-! ## Normal forms -/

/-- `split("/")` -/
def segments (path : Path) : List (List Char) := path.splitOn '/'

/-- `"/".join` -/
def join (parts : List (List Char)) : Path := ['/'].intercalate parts

/-- `normalize_lcov_path`; none stands for its `ValueError`. -/
def normalizeLcovPath (path : Path) : Option Path :=
  let clean := (Text.strip (path.map fun c => if c = '\\' then '/' else c)).dropWhile (· = '/')
  let parts := (segments clean).filter fun p => p ≠ [] ∧ p ≠ ['.']
  if ['.', '.'] ∈ parts then none else some (join parts)

/-- What a list of parts is when its path is split again. -/
structure Parts (parts : List (List Char)) : Prop where
  /-- There is a part. -/
  nonempty : parts ≠ []
  /-- A part has no separator. -/
  plain : ∀ p ∈ parts, '/' ∉ p

theorem plain_of_mem_segments {path : Path} {p : List Char} (h : p ∈ segments path) : '/' ∉ p := by
  unfold segments at h
  induction path generalizing p with
  | nil =>
    rw [List.splitOn_nil, List.mem_singleton] at h
    exact h ▸ List.not_mem_nil
  | cons c path ih =>
    rw [List.splitOn_cons_eq_if_modifyHead] at h
    split at h
    · rcases List.mem_cons.1 h with rfl | h
      · exact List.not_mem_nil
      · exact ih h
    · next hc =>
      obtain ⟨q, rest, hq⟩ := List.exists_cons_of_ne_nil (List.splitOn_ne_nil '/' path)
      rw [hq] at h ih
      rcases List.mem_cons.1 h with rfl | h
      · rw [List.mem_cons, not_or]
        exact ⟨fun he => hc (beq_iff_eq.2 he.symm), ih List.mem_cons_self⟩
      · exact ih (List.mem_cons_of_mem q h)

theorem Parts.segments_join {parts : List (List Char)} (h : Parts parts) :
    segments (join parts) = parts :=
  List.splitOn_intercalate '/' h.plain h.nonempty

theorem join_segments (path : Path) : join (segments path) = path :=
  List.intercalate_splitOn '/'

theorem Parts.join_inj {parts parts' : List (List Char)} (h : Parts parts) (h' : Parts parts') :
    join parts = join parts' ↔ parts = parts' :=
  ⟨fun he => by rw [← h.segments_join, he, h'.segments_join], fun he => he ▸ rfl⟩

theorem parts_segments (path : Path) : Parts (segments path) :=
  ⟨List.splitOn_ne_nil '/' path, fun _ => plain_of_mem_segments⟩

/-- The path is entered, and its form is this one. -/
def HasForm (path form : Path) : Prop := normalizeLcovPath path = some form ∧ form ≠ []

/-- A path with a parent segment has no form. -/
def HasParent (path : Path) : Prop :=
  ['.', '.'] ∈ segments (path.map fun c => if c = '\\' then '/' else c)

/-! ## Sets by key -/

/-- `setdefault(key, set()).add(path)` -/
def addTo (m : Keyed Path (List Path)) (key path : Path) : Keyed Path (List Path) :=
  m.put key (((m.get? key).getD []).insert path)

/-- The dictionary holds the sets of a relation, and no empty one. -/
def SetsOf (m : Keyed Path (List Path)) (R : Path → Path → Prop) : Prop :=
  ∀ key, (m.get? key = none ∧ ∀ path, ¬ R key path) ∨
    ∃ set, m.get? key = some set ∧ set ≠ [] ∧ set.Nodup ∧
      ∀ path, path ∈ set ↔ R key path

section Sets

variable {m : Keyed Path (List Path)} {R R' : Path → Path → Prop}

theorem SetsOf.congr (h : SetsOf m R) (hR : ∀ key path, R key path ↔ R' key path) : SetsOf m R' := by
  have : R = R' := by
    funext key path
    exact propext (hR key path)
  exact this ▸ h

theorem setsOf_empty : SetsOf Keyed.empty fun _ _ => False :=
  fun _ => .inl ⟨rfl, fun _ h => h⟩

/-- One entry. -/
theorem SetsOf.addTo (h : SetsOf m R) (key path : Path) :
    SetsOf (addTo m key path) fun key' path' => R key' path' ∨ key' = key ∧ path' = path := by
  intro key'
  rw [PathIndex.addTo, Keyed.get?_put]
  by_cases hkey : key' = key
  · subst hkey
    have hset : ((m.get? key').getD []).Nodup ∧
        ∀ path, path ∈ (m.get? key').getD [] ↔ R key' path := by
      rcases h key' with ⟨hnone, hR⟩ | ⟨set, hset, -, hnodup, hR⟩
      · rw [hnone]
        exact ⟨List.nodup_nil, fun path => iff_of_false List.not_mem_nil (hR path)⟩
      · rw [hset]
        exact ⟨hnodup, hR⟩
    refine .inr ⟨_, if_pos rfl, ?_, hset.1.insert, fun path' => ?_⟩
    · exact List.ne_nil_of_mem List.mem_insert_self
    · rw [List.mem_insert_iff, hset.2]
      tauto
  · rw [if_neg hkey]
    rcases h key' with ⟨hnone, hR⟩ | ⟨set, hset, hne, hnodup, hR⟩
    · exact .inl ⟨hnone, fun path' h => h.elim (hR path') fun h => hkey h.1⟩
    · exact .inr ⟨set, hset, hne, hnodup, fun path' => by rw [hR]; tauto⟩

/-- Some entries of one path. -/
theorem SetsOf.foldl_addTo {ι : Type} (h : SetsOf m R) (key : ι → Path) (path : Path)
    (is : List ι) : SetsOf (is.foldl (fun m i => PathIndex.addTo m (key i) path) m)
      fun key' path' => R key' path' ∨ (∃ i ∈ is, key' = key i) ∧ path' = path := by
  induction is generalizing m R with
  | nil => exact h.congr fun _ _ => by simp
  | cons i is ih =>
    refine (ih (h.addTo (key i) path)).congr fun key' path' => ?_
    simp only [List.mem_cons, exists_eq_or_imp]
    tauto

theorem SetsOf.get?_isSome_iff (h : SetsOf m R) (key : Path) :
    (m.get? key).isSome = true ↔ ∃ path, R key path := by
  rcases h key with ⟨hnone, hR⟩ | ⟨set, hset, hne, -, hR⟩
  · rw [hnone]
    exact iff_of_false (by simp) (by simpa using hR)
  · obtain ⟨path, hpath⟩ := List.exists_mem_of_ne_nil set hne
    rw [hset]
    exact iff_of_true rfl ⟨path, (hR path).1 hpath⟩

/-- The only element of a set. -/
theorem SetsOf.eq_singleton_iff (h : SetsOf m R) {key path : Path} :
    m.get? key = some [path] ↔ R key path ∧ ∀ path', R key path' → path' = path := by
  rcases h key with ⟨hnone, hR⟩ | ⟨set, hset, -, hnodup, hR⟩
  · rw [hnone]
    exact iff_of_false (by simp) fun h => hR path h.1
  · rw [hset, Option.some.injEq]
    simp only [← hR]
    constructor
    · rintro rfl
      exact ⟨List.mem_singleton_self path, fun path' h => List.mem_singleton.1 h⟩
    · rintro ⟨hmem, hall⟩
      by_contra hne
      rcases (hnodup.ne_singleton_iff path).1 hne with rfl | ⟨path', hmem', hne'⟩
      · exact absurd hmem List.not_mem_nil
      · exact hne' (hall path' hmem')

end Sets

/-! ## The index -/

/-- The four dictionaries of a repository. -/
structure RepoIndex where
  /-- `exact_map` -/
  exact : Keyed Path Path
  /-- `normalized_map` -/
  normalized : Keyed Path (List Path)
  /-- `suffix_map` -/
  suffix : Keyed Path (List Path)
  /-- `basename_map` -/
  basename : Keyed Path (List Path)

/-- The index without a path. -/
def RepoIndex.empty : RepoIndex := ⟨Keyed.empty, Keyed.empty, Keyed.empty, Keyed.empty⟩

/-- `"/".join(parts[i:])` -/
def suffixFrom (form : Path) (i : Nat) : Path := join ((segments form).drop i)

/-- `range(len(parts) - 1)`: where an end of two parts or more starts. -/
def suffixStarts (form : Path) : List Nat := List.range ((segments form).length - 1)

/-- `parts[-1]` -/
def lastPart (form : Path) : Path := (segments form).getLast?.getD form

/-- One turn of the loop of `_build_single_repo_index`. -/
def addPath (idx : RepoIndex) (path : Path) : RepoIndex :=
  match normalizeLcovPath path with
  | none => idx
  | some form =>
    if form = [] then idx
    else
      { exact := idx.exact.put path path
        normalized := addTo idx.normalized form path
        suffix := (suffixStarts form).foldl (fun m i => addTo m (suffixFrom form i) path) idx.suffix
        basename := addTo idx.basename (lastPart form) path }

/-- `_build_single_repo_index` -/
def buildSingleRepoIndex (paths : List Path) : RepoIndex := paths.foldl addPath RepoIndex.empty

/-- The second part of an answer. -/
inductive MatchType
  | repoNotFound
  | exact
  | invalidPath
  | normalized
  | ambiguousNormalized
  | uniqueSuffix
  | ambiguousSuffix
  | basenameOnlyRejected
  | miss
  deriving DecidableEq, Repr

/-- The text of it. -/
def MatchType.text : MatchType → String
  | repoNotFound => "repo_not_found"
  | exact => "exact"
  | invalidPath => "invalid_path"
  | normalized => "normalized"
  | ambiguousNormalized => "ambiguous_normalized"
  | uniqueSuffix => "unique_suffix"
  | ambiguousSuffix => "ambiguous_suffix"
  | basenameOnlyRejected => "basename_only_rejected"
  | miss => "miss"

/-- The path of a set with one element. -/
def single (unique ambiguous : MatchType) : List Path → Option Path × MatchType
  | [path] => (some path, unique)
  | _ => (none, ambiguous)

/-- `resolve_path` within one repository. -/
def RepoIndex.resolve (idx : RepoIndex) (query : Path) : Option Path × MatchType :=
  match idx.exact.get? query with
  | some path => (some path, .exact)
  | none =>
    match normalizeLcovPath query with
    | none => (none, .invalidPath)
    | some form =>
      if form = [] then (none, .invalidPath)
      else
        match idx.normalized.get? form with
        | some set => single .normalized .ambiguousNormalized set
        | none =>
          match (suffixStarts form).findSome? fun i => idx.suffix.get? (suffixFrom form i) with
          | some set => single .uniqueSuffix .ambiguousSuffix set
          | none =>
            if (idx.basename.get? (lastPart form)).isSome then (none, .basenameOnlyRejected)
            else (none, .miss)

/-- `LCOVPathLookupIndex` of the target paths of some repositories. -/
def lookupIndex (repoTargetPaths : Keyed String (List Path)) : Keyed String RepoIndex :=
  repoTargetPaths.rows.foldl (fun indexes r => indexes.put r.1 (buildSingleRepoIndex r.2))
    Keyed.empty

/-- `resolve_path` -/
def resolvePath (indexes : Keyed String RepoIndex) (repoName : String) (query : Path) :
    Option Path × MatchType :=
  match indexes.get? repoName with
  | none => (none, .repoNotFound)
  | some idx => idx.resolve query

theorem get?_lookupIndex (repoTargetPaths : Keyed String (List Path)) (repoName : String) :
    (lookupIndex repoTargetPaths).get? repoName =
      (repoTargetPaths.get? repoName).map buildSingleRepoIndex := by
  have hrows : ∀ rows : List (String × List Path),
      rows.foldl (fun indexes r => indexes.put r.1 (buildSingleRepoIndex r.2)) Keyed.empty =
        (rows.map fun r => (r.1, buildSingleRepoIndex r.2)).foldl
          (fun t r => t.put r.1 r.2) Keyed.empty := fun rows => by rw [List.foldl_map]
  have hkeys : ((repoTargetPaths.rows.map fun r => (r.1, buildSingleRepoIndex r.2)).map
      Prod.fst).Nodup := by
    rw [List.map_map]
    exact repoTargetPaths.nodup
  rw [lookupIndex, hrows]
  cases hget : repoTargetPaths.get? repoName with
  | none =>
    refine Keyed.get?_puts_of_ne Keyed.empty fun r hr hkey => ?_
    obtain ⟨row, hrow, rfl⟩ := List.mem_map.1 hr
    exact Keyed.get?_eq_none_iff.1 hget row.2 (hkey ▸ hrow)
  | some paths =>
    have hmem := Keyed.get?_eq_some_iff.1 hget
    exact Keyed.get?_puts_of_mem Keyed.empty hkeys
      (List.mem_map.2 ⟨(repoName, paths), hmem, rfl⟩)

/-! ### What the dictionaries hold -/

/-- Some end of two parts or more of the target's form. -/
def EndsWith (path suffix : Path) : Prop :=
  ∃ form, HasForm path form ∧ ∃ i ∈ suffixStarts form, suffix = suffixFrom form i

/-- **What the dictionaries hold of some targets.** -/
structure RepoIndex.Describes (idx : RepoIndex) (paths : List Path) : Prop where
  /-- The targets themselves. -/
  exact : ∀ query path, idx.exact.get? query = some path ↔
    path = query ∧ query ∈ paths ∧ ∃ form, HasForm query form
  /-- The targets of each form. -/
  normalized : SetsOf idx.normalized fun form path => path ∈ paths ∧ HasForm path form
  /-- The targets of each end. -/
  suffix : SetsOf idx.suffix fun suffix path => path ∈ paths ∧ EndsWith path suffix
  /-- The targets of each last part. -/
  basename : SetsOf idx.basename fun name path =>
    path ∈ paths ∧ ∃ form, HasForm path form ∧ name = lastPart form

section Build

variable {idx : RepoIndex} {paths : List Path} {path : Path}

theorem HasForm.unique {form form' : Path} (h : HasForm path form) (h' : HasForm path form') :
    form = form' :=
  Option.some.inj (h.1.symm.trans h'.1)

/-- A path without a form is not entered. -/
theorem RepoIndex.Describes.skip (h : idx.Describes paths) (hform : ∀ form, ¬ HasForm path form) :
    idx.Describes (paths ++ [path]) := by
  have hmem : ∀ {path' : Path} {form : Path}, HasForm path' form →
      (path' ∈ paths ↔ path' ∈ paths ++ [path]) := by
    intro path' form hf
    have hne : path' ≠ path := fun he => hform form (he ▸ hf)
    rw [List.mem_append, List.mem_singleton, or_iff_left hne]
  refine ⟨fun query path' => ?_, h.normalized.congr fun form path' => ?_,
    h.suffix.congr fun suffix path' => ?_, h.basename.congr fun name path' => ?_⟩
  · rw [h.exact]
    refine and_congr_right fun _ => and_congr_left ?_
    rintro ⟨form, hf⟩
    exact hmem hf
  · exact and_congr_left hmem
  · refine and_congr_left ?_
    rintro ⟨form, hf, _⟩
    exact hmem hf
  · refine and_congr_left ?_
    rintro ⟨form, hf, _⟩
    exact hmem hf

/-- One path. -/
theorem RepoIndex.Describes.addPath (h : idx.Describes paths) (path : Path) :
    (addPath idx path).Describes (paths ++ [path]) := by
  unfold PathIndex.addPath
  split
  · next hnone =>
    refine h.skip fun form hf => ?_
    rw [hf.1] at hnone
    cases hnone
  · next form hform =>
    split
    · next hempty =>
      refine h.skip fun form' hf => hf.2 ?_
      rw [← Option.some.inj (hform.symm.trans hf.1)]
      exact hempty
    · next hne =>
      have hf : HasForm path form := ⟨hform, hne⟩
      have hmem : ∀ path', path' ∈ paths ++ [path] ↔ path' ∈ paths ∨ path' = path := by
        intro path'
        rw [List.mem_append, List.mem_singleton]
      refine ⟨fun query path' => ?_, (h.normalized.addTo form path).congr fun form' path' => ?_,
        (h.suffix.foldl_addTo (suffixFrom form) path _).congr fun suffix path' => ?_,
        (h.basename.addTo (lastPart form) path).congr fun name path' => ?_⟩
      · rw [Keyed.get?_put]
        by_cases hq : query = path
        · subst hq
          rw [if_pos rfl, Option.some.injEq]
          exact ⟨fun he => ⟨he.symm, (hmem query).2 (.inr rfl), form, hf⟩, fun h => h.1.symm⟩
        · rw [if_neg hq, h.exact, hmem, or_iff_left hq]
      · rw [hmem]
        constructor
        · rintro (⟨hin, hform'⟩ | ⟨rfl, rfl⟩)
          · exact ⟨.inl hin, hform'⟩
          · exact ⟨.inr rfl, hf⟩
        · rintro ⟨hin | rfl, hform'⟩
          · exact .inl ⟨hin, hform'⟩
          · exact .inr ⟨hform'.unique hf, rfl⟩
      · rw [hmem]
        constructor
        · rintro (⟨hin, hends⟩ | ⟨hi, rfl⟩)
          · exact ⟨.inl hin, hends⟩
          · exact ⟨.inr rfl, form, hf, hi⟩
        · rintro ⟨hin | rfl, hends⟩
          · exact .inl ⟨hin, hends⟩
          · obtain ⟨form', hform', hi⟩ := hends
            obtain rfl := hform'.unique hf
            exact .inr ⟨hi, rfl⟩
      · rw [hmem]
        constructor
        · rintro (⟨hin, hform'⟩ | ⟨rfl, rfl⟩)
          · exact ⟨.inl hin, hform'⟩
          · exact ⟨.inr rfl, form, hf, rfl⟩
        · rintro ⟨hin | rfl, form', hform', hname⟩
          · exact .inl ⟨hin, form', hform', hname⟩
          · obtain rfl := hform'.unique hf
            exact .inr ⟨hname, rfl⟩

theorem describes_empty : RepoIndex.empty.Describes [] :=
  ⟨fun _ _ => iff_of_false (by simp [RepoIndex.empty]) fun h => absurd h.2.1 List.not_mem_nil,
    setsOf_empty.congr fun _ _ => by simp, setsOf_empty.congr fun _ _ => by simp,
    setsOf_empty.congr fun _ _ => by simp⟩

/-- **All paths.** -/
theorem describes_build (paths : List Path) : (buildSingleRepoIndex paths).Describes paths := by
  induction paths using List.reverseRecOn with
  | nil => exact describes_empty
  | append_singleton paths path ih =>
    rw [buildSingleRepoIndex, List.foldl_append]
    exact ih.addPath path

end Build

/-! ## What a query stands for -/

/-- The target has this end, in whole parts. -/
def SharesEnd (path : Path) (parts : List (List Char)) : Prop :=
  ∃ form, HasForm path form ∧ parts <:+ segments form

/-- The path is one of the targets, and is entered. -/
def IsTarget (paths : List Path) (path : Path) : Prop := path ∈ paths ∧ ∃ form, HasForm path form

/-- The longest end that a form has in common with a target. -/
structure LongestEnd (paths : List Path) (form : Path) (parts : List (List Char)) : Prop where
  /-- It is an end of the form. -/
  suffix : parts <:+ segments form
  /-- It is one of a target. -/
  shared : ∃ path ∈ paths, SharesEnd path parts
  /-- No target has a longer one. -/
  longest : ∀ path ∈ paths, ∀ parts', parts' <:+ segments form → SharesEnd path parts' →
    parts'.length ≤ parts.length

/-- **What a query stands for among some targets.** -/
inductive Resolves (paths : List Path) (query : Path) : Path → Prop
  /-- Itself, when it is a target. -/
  | exact : IsTarget paths query → Resolves paths query query
  /-- Else the only target of its form. -/
  | normalized {form path : Path} : ¬ IsTarget paths query → HasForm query form →
    path ∈ paths → HasForm path form → (∀ path' ∈ paths, HasForm path' form → path' = path) →
    Resolves paths query path
  /-- Else, when no target has its form, the only one with the longest end in common, if that has
  two parts or more. -/
  | suffix {form path : Path} {parts : List (List Char)} : ¬ IsTarget paths query →
    HasForm query form → (∀ path' ∈ paths, ¬ HasForm path' form) → LongestEnd paths form parts →
    2 ≤ parts.length → path ∈ paths → SharesEnd path parts →
    (∀ path' ∈ paths, SharesEnd path' parts → path' = path) → Resolves paths query path

section Ends

variable {idx : RepoIndex} {paths : List Path} {path form query : Path}
  {parts parts' : List (List Char)}

theorem LongestEnd.unique (h : LongestEnd paths form parts) (h' : LongestEnd paths form parts') :
    parts = parts' := by
  obtain ⟨path, hpath, hshares⟩ := h.shared
  obtain ⟨path', hpath', hshares'⟩ := h'.shared
  have hle := h'.longest path hpath parts h.suffix hshares
  have hle' := h.longest path' hpath' parts' h'.suffix hshares'
  rw [List.suffix_iff_eq_drop.1 h.suffix, List.suffix_iff_eq_drop.1 h'.suffix,
    Nat.le_antisymm hle hle']

/-- The keys of `suffix_map` are the ends of two parts or more. -/
theorem endsWith_join_iff (hparts : Parts parts) :
    EndsWith path (join parts) ↔ 2 ≤ parts.length ∧ SharesEnd path parts := by
  constructor
  · rintro ⟨form, hf, i, hi, heq⟩
    have hi : i < (segments form).length - 1 := List.mem_range.1 hi
    have hdrop : Parts ((segments form).drop i) :=
      ⟨by rw [Ne, List.drop_eq_nil_iff]; omega,
        fun p hp => (parts_segments form).plain p (List.mem_of_mem_drop hp)⟩
    rw [suffixFrom, hparts.join_inj hdrop] at heq
    rw [heq, List.length_drop]
    exact ⟨by omega, form, hf, List.drop_suffix i _⟩
  · rintro ⟨hlength, form, hf, hsuffix⟩
    have hle := hsuffix.length_le
    refine ⟨form, hf, (segments form).length - parts.length, ?_, ?_⟩
    · exact List.mem_range.2 (by omega)
    · rw [suffixFrom, ← List.suffix_iff_eq_drop.1 hsuffix]

/-- The end that starts at a part. -/
theorem parts_drop {i : Nat} (hi : i ∈ suffixStarts form) :
    Parts ((segments form).drop i) ∧ 2 ≤ ((segments form).drop i).length := by
  have hi : i < (segments form).length - 1 := List.mem_range.1 hi
  rw [List.length_drop]
  exact ⟨⟨by rw [Ne, List.drop_eq_nil_iff]; omega,
    fun p hp => (parts_segments form).plain p (List.mem_of_mem_drop hp)⟩, by omega⟩

/-- What the dictionary of ends has for the end that starts at a part. -/
theorem RepoIndex.Describes.suffix_isSome_iff (h : idx.Describes paths) {i : Nat}
    (hi : i ∈ suffixStarts form) : (idx.suffix.get? (suffixFrom form i)).isSome = true ↔
      ∃ path ∈ paths, SharesEnd path ((segments form).drop i) := by
  obtain ⟨hparts, hlength⟩ := parts_drop hi
  rw [h.suffix.get?_isSome_iff, suffixFrom]
  simp only [endsWith_join_iff hparts, hlength, true_and]

/-- A shared end of two parts or more is found, and a longer one is found before it. -/
theorem RepoIndex.Describes.suffix_isSome (h : idx.Describes paths) (hpath : path ∈ paths)
    (hsuffix : parts <:+ segments form) (hshares : SharesEnd path parts)
    (hlength : 2 ≤ parts.length) : (segments form).length - parts.length ∈ suffixStarts form ∧
      (idx.suffix.get? (suffixFrom form ((segments form).length - parts.length))).isSome = true := by
  have hle := hsuffix.length_le
  have hi : (segments form).length - parts.length ∈ suffixStarts form :=
    List.mem_range.2 (by omega)
  rw [h.suffix_isSome_iff hi, ← List.suffix_iff_eq_drop.1 hsuffix]
  exact ⟨hi, path, hpath, hshares⟩

/-- The first end that is found is the longest one. -/
theorem RepoIndex.Describes.longestEnd (h : idx.Describes paths) {set : List Path}
    (hfind : (suffixStarts form).findSome? (fun i => idx.suffix.get? (suffixFrom form i)) =
      some set) :
    ∃ parts, LongestEnd paths form parts ∧ 2 ≤ parts.length ∧ Parts parts ∧
      idx.suffix.get? (join parts) = some set := by
  obtain ⟨before, i, behind, hstarts, hset, hbefore⟩ := List.findSome?_eq_some_iff.1 hfind
  have hi : i ∈ suffixStarts form := by rw [hstarts]; simp
  obtain ⟨hparts, hlength⟩ := parts_drop hi
  refine ⟨(segments form).drop i, ⟨List.drop_suffix i _, ?_, ?_⟩, hlength, hparts, hset⟩
  · exact (h.suffix_isSome_iff hi).1 (by rw [hset]; rfl)
  · intro path hpath parts' hsuffix hshares
    by_contra hlt
    obtain ⟨hj, hsome⟩ := h.suffix_isSome hpath hsuffix hshares (by omega)
    -- it starts before `i`, where nothing was found
    have hle := hsuffix.length_le
    rw [List.length_drop] at hlt
    have hmem : (segments form).length - parts'.length ∈ before := by
      have hordered : (before ++ i :: behind).Pairwise (· < ·) := hstarts ▸ List.pairwise_lt_range
      rw [hstarts, List.mem_append, List.mem_cons] at hj
      rcases hj with hj | rfl | hj
      · exact hj
      · omega
      · have := (List.pairwise_cons.1 (List.pairwise_append.1 hordered).2.1).1 _ hj
        omega
    rw [hbefore _ hmem] at hsome
    cases hsome

theorem single_eq_some_iff {unique ambiguous : MatchType} {set : List Path} :
    (single unique ambiguous set).1 = some path ↔ set = [path] := by
  unfold single
  split
  · simp
  · next hne => exact iff_of_false (by simp) fun he => hne path he

/-- A query that is no target stands for one only through its form. -/
theorem Resolves.hasForm (hr : Resolves paths query path) (hno : ¬ IsTarget paths query) :
    ∃ form, HasForm query form := by
  cases hr with
  | exact htarget => exact absurd htarget hno
  | normalized _ hq => exact ⟨_, hq⟩
  | suffix _ hq => exact ⟨_, hq⟩

/-- When a target has its form, the query stands for the only one of that form. -/
theorem resolves_of_form (hno : ¬ IsTarget paths query) (hq : HasForm query form)
    (hsome : ∃ path ∈ paths, HasForm path form) :
    Resolves paths query path ↔ (path ∈ paths ∧ HasForm path form) ∧
      ∀ path', path' ∈ paths ∧ HasForm path' form → path' = path := by
  constructor
  · intro hr
    cases hr with
    | exact htarget => exact absurd htarget hno
    | normalized _ hq' hmem hf hall =>
      obtain rfl := hq.unique hq'
      exact ⟨⟨hmem, hf⟩, fun path' h => hall path' h.1 h.2⟩
    | suffix _ hq' hnone =>
      obtain rfl := hq.unique hq'
      obtain ⟨path', hmem', hf'⟩ := hsome
      exact absurd hf' (hnone path' hmem')
  · rintro ⟨⟨hmem, hf⟩, hall⟩
    exact .normalized hno hq hmem hf fun path' hmem' hf' => hall path' ⟨hmem', hf'⟩

/-- When none has, but some share an end with it, the only one that shares the longest end. -/
theorem resolves_of_end (hno : ¬ IsTarget paths query) (hq : HasForm query form)
    (hforms : ∀ path' ∈ paths, ¬ HasForm path' form) (hlongest : LongestEnd paths form parts)
    (hlength : 2 ≤ parts.length) :
    Resolves paths query path ↔ (path ∈ paths ∧ SharesEnd path parts) ∧
      ∀ path', path' ∈ paths ∧ SharesEnd path' parts → path' = path := by
  constructor
  · intro hr
    cases hr with
    | exact htarget => exact absurd htarget hno
    | normalized _ hq' hmem hf =>
      obtain rfl := hq.unique hq'
      exact absurd hf (hforms path hmem)
    | suffix _ hq' _ hlongest' _ hmem hshares hall =>
      obtain rfl := hq.unique hq'
      obtain rfl := hlongest.unique hlongest'
      exact ⟨⟨hmem, hshares⟩, fun path' h => hall path' h.1 h.2⟩
  · rintro ⟨⟨hmem, hshares⟩, hall⟩
    exact .suffix hno hq hforms hlongest hlength hmem hshares
      fun path' hmem' hshares' => hall path' ⟨hmem', hshares'⟩

/-- When no end of it is found, the query stands for nothing. -/
theorem RepoIndex.Describes.not_resolves (h : idx.Describes paths) (hno : ¬ IsTarget paths query)
    (hq : HasForm query form) (hforms : ∀ path' ∈ paths, ¬ HasForm path' form)
    (hfind : (suffixStarts form).findSome? (fun i => idx.suffix.get? (suffixFrom form i)) = none) :
    ¬ Resolves paths query path := by
  intro hr
  cases hr with
  | exact htarget => exact hno htarget
  | normalized _ hq' hmem hf =>
    obtain rfl := hq.unique hq'
    exact hforms path hmem hf
  | suffix _ hq' _ hlongest hlength hmem hshares =>
    obtain rfl := hq.unique hq'
    obtain ⟨hi, hsome⟩ := h.suffix_isSome hmem hlongest.suffix hshares hlength
    rw [List.findSome?_eq_none_iff.1 hfind _ hi] at hsome
    cases hsome

/-- **A repository's index finds what the query stands for among the targets.** -/
theorem RepoIndex.Describes.resolve_eq_some_iff (h : idx.Describes paths) :
    (idx.resolve query).1 = some path ↔ Resolves paths query path := by
  unfold RepoIndex.resolve
  split
  · next path' hexact =>
    obtain ⟨rfl, htarget⟩ := (h.exact query path').1 hexact
    constructor
    · intro he
      obtain rfl := Option.some.inj he
      exact .exact htarget
    · intro hr
      cases hr with
      | exact => rfl
      | normalized hno => exact absurd htarget hno
      | suffix hno => exact absurd htarget hno
  · next hexact =>
    have hno : ¬ IsTarget paths query := fun htarget => by
      rw [(h.exact query query).2 ⟨rfl, htarget⟩] at hexact
      cases hexact
    split
    · next hnone =>
      refine iff_of_false (fun he => (nomatch he)) fun hr => ?_
      obtain ⟨form, hq⟩ := hr.hasForm hno
      rw [hq.1] at hnone
      cases hnone
    · next form hnormal =>
      split
      · next hempty =>
        refine iff_of_false (fun he => (nomatch he)) fun hr => ?_
        obtain ⟨form', hq⟩ := hr.hasForm hno
        exact hq.2 ((Option.some.inj (hq.1.symm.trans hnormal)).trans hempty)
      · next hne =>
        have hq : HasForm query form := ⟨hnormal, hne⟩
        split
        · next set hset =>
          have hsingle : idx.normalized.get? form = some [path] ↔ _ :=
            h.normalized.eq_singleton_iff
          rw [hset, Option.some.injEq] at hsingle
          rw [single_eq_some_iff, hsingle, resolves_of_form hno hq]
          exact (h.normalized.get?_isSome_iff form).1 (by rw [hset]; rfl)
        · next hnone =>
          have hforms : ∀ path' ∈ paths, ¬ HasForm path' form := by
            intro path' hmem' hf'
            have := (h.normalized.get?_isSome_iff form).2 ⟨path', hmem', hf'⟩
            rw [hnone] at this
            cases this
          split
          · next set hset =>
            obtain ⟨parts, hlongest, hlength, hparts, hget⟩ := h.longestEnd hset
            have hsingle : idx.suffix.get? (join parts) = some [path] ↔ _ :=
              h.suffix.eq_singleton_iff
            rw [hget, Option.some.injEq] at hsingle
            simp only [endsWith_join_iff hparts, hlength, true_and] at hsingle
            rw [single_eq_some_iff, hsingle, resolves_of_end hno hq hforms hlongest hlength]
          · next hfind =>
            refine iff_of_false ?_ (h.not_resolves hno hq hforms hfind)
            split <;> exact fun he => (nomatch he)

end Ends

/-! ## Parent segments -/

/-- A part of a path stands between separators or at an end of it. -/
theorem mem_segments_iff {path part : List Char} : part ∈ segments path ↔ '/' ∉ part ∧
    ∃ before behind, path = before ++ part ++ behind ∧
      (before = [] ∨ ∃ b, before = b ++ ['/']) ∧ (behind = [] ∨ ∃ b, behind = '/' :: b) := by
  constructor
  · intro h
    refine ⟨plain_of_mem_segments h, ?_⟩
    rw [← join_segments path]
    generalize segments path = parts at h
    induction parts with
    | nil => exact absurd h List.not_mem_nil
    | cons p parts ih =>
      cases parts with
      | nil =>
        obtain rfl := List.mem_singleton.1 h
        exact ⟨[], [], by simp [join, List.intercalate], .inl rfl, .inl rfl⟩
      | cons q parts =>
        have hjoin : join (p :: q :: parts) = p ++ '/' :: join (q :: parts) := by
          simp [join, List.intercalate]
        rw [hjoin]
        rcases List.mem_cons.1 h with rfl | h
        · exact ⟨[], _, rfl, .inl rfl, .inr ⟨_, rfl⟩⟩
        · obtain ⟨before, behind, heq, hbefore, hbehind⟩ := ih h
          refine ⟨p ++ '/' :: before, behind, by rw [heq]; simp, .inr ?_, hbehind⟩
          rcases hbefore with rfl | ⟨b, rfl⟩
          · exact ⟨p, rfl⟩
          · exact ⟨p ++ '/' :: b, by simp⟩
  · rintro ⟨hpart, before, behind, rfl, hbefore, hbehind⟩
    have hsingle : part ∈ segments (part ++ behind) := by
      rcases hbehind with rfl | ⟨b, rfl⟩
      · rw [List.append_nil, segments, List.splitOn_eq_singleton hpart]
        exact List.mem_singleton_self part
      · rw [segments, List.splitOn_append_cons_self, List.splitOn_eq_singleton hpart]
        exact List.mem_cons_self
    rw [List.append_assoc]
    rcases hbefore with rfl | ⟨b, rfl⟩
    · exact hsingle
    · rw [List.append_assoc, List.singleton_append, segments, List.splitOn_append_cons_self]
      exact List.mem_append_right _ hsingle

/-- What is dropped in front of a part ends before it. -/
theorem mem_segments_dropWhile {path part : List Char} {p : Char → Bool} {c : Char}
    (h : c :: part ∈ segments path) (hc : p c = false) :
    c :: part ∈ segments (path.dropWhile p) := by
  obtain ⟨hplain, before, behind, rfl, hbefore, hbehind⟩ := mem_segments_iff.1 h
  refine mem_segments_iff.2 ⟨hplain, before.dropWhile p, behind, ?_, ?_, hbehind⟩
  · rw [List.append_assoc, List.append_assoc, List.dropWhile_append]
    split
    · next hempty =>
      rw [List.isEmpty_iff.1 hempty, List.nil_append, List.cons_append, List.dropWhile_cons,
        if_neg (by rw [hc]; exact Bool.false_ne_true)]
    · rfl
  · rcases (before.dropWhile p).eq_nil_or_concat with hnil | ⟨b, d, hb⟩
    · exact .inl hnil
    · rw [List.concat_eq_append] at hb
      refine .inr ⟨b, ?_⟩
      obtain ⟨t, ht⟩ := List.dropWhile_suffix p (l := before)
      rcases hbefore with rfl | ⟨b', rfl⟩
      · exact absurd hb.symm (List.append_ne_nil_of_right_ne_nil b (List.cons_ne_nil d []))
      · rw [hb, ← List.append_assoc] at ht
        rw [hb, (List.append_inj' ht rfl).2]

theorem mem_segments_reverse {path part : List Char} (h : part ∈ segments path) :
    part.reverse ∈ segments path.reverse := by
  obtain ⟨hplain, before, behind, rfl, hbefore, hbehind⟩ := mem_segments_iff.1 h
  refine mem_segments_iff.2 ⟨by rwa [List.mem_reverse], behind.reverse, before.reverse,
    by simp, ?_, ?_⟩
  · rcases hbehind with rfl | ⟨b, rfl⟩
    · exact .inl rfl
    · exact .inr ⟨b.reverse, by simp⟩
  · rcases hbefore with rfl | ⟨b, rfl⟩
    · exact .inl rfl
    · exact .inr ⟨b.reverse, by simp⟩

/-- **A path with a parent segment has no form.** -/
theorem HasForm.not_hasParent {path form : Path} (h : HasForm path form) : ¬ HasParent path := by
  intro hparent
  unfold HasParent at hparent
  have hclean := h.1
  unfold normalizeLcovPath at hclean
  generalize path.map (fun c => if c = '\\' then '/' else c) = text at hparent hclean
  have hspace : Text.isSpace '.' = false := by decide
  have hfront := mem_segments_dropWhile hparent hspace
  have hback := mem_segments_reverse (mem_segments_dropWhile (mem_segments_reverse hfront) hspace)
  have hslash : ['.', '.'] ∈ segments ((Text.strip text).dropWhile (· = '/')) :=
    mem_segments_dropWhile hback (by decide)
  rw [if_pos (List.mem_filter.2 ⟨hslash, by decide⟩)] at hclean
  cases hclean

/-! ## The index of some repositories -/

/-- The index finds what the query stands for among the targets of the repository. -/
theorem resolvePath_eq_some_iff {repoTargetPaths : Keyed String (List Path)} {repoName : String}
    {query path : Path} : (resolvePath (lookupIndex repoTargetPaths) repoName query).1 = some path ↔
      ∃ paths, repoTargetPaths.get? repoName = some paths ∧ Resolves paths query path := by
  rw [resolvePath, get?_lookupIndex]
  cases repoTargetPaths.get? repoName with
  | none => exact iff_of_false (fun h => (nomatch h)) (by simp)
  | some paths =>
    simp only [Option.map_some, Option.some.injEq, exists_eq_left']
    exact (describes_build paths).resolve_eq_some_iff

theorem Resolves.isTarget {paths : List Path} {query path : Path} (h : Resolves paths query path) :
    IsTarget paths path := by
  cases h with
  | exact htarget => exact htarget
  | normalized _ _ hmem hf => exact ⟨hmem, _, hf⟩
  | suffix _ _ _ _ _ hmem hshares =>
    obtain ⟨form, hf, -⟩ := hshares
    exact ⟨hmem, form, hf⟩

/-- Two sets, or none, that an answer cannot tell apart. -/
def SameSet (set set' : Option (List Path)) : Prop :=
  (set = none ∧ set' = none) ∨ ∃ s s', set = some s ∧ set' = some s' ∧
    ∀ unique ambiguous, single unique ambiguous s = single unique ambiguous s'

/-- Two dictionaries of one relation have the same sets. -/
theorem SetsOf.sameSet {m m' : Keyed Path (List Path)} {R : Path → Path → Prop} (h : SetsOf m R)
    (h' : SetsOf m' R) (key : Path) : SameSet (m.get? key) (m'.get? key) := by
  rcases h key with ⟨hnone, hR⟩ | ⟨set, hset, hne, hnodup, hR⟩
  · rcases h' key with ⟨hnone', -⟩ | ⟨set', -, hne', -, hR'⟩
    · exact .inl ⟨hnone, hnone'⟩
    · obtain ⟨path, hpath⟩ := List.exists_mem_of_ne_nil set' hne'
      exact absurd ((hR' path).1 hpath) (hR path)
  · rcases h' key with ⟨-, hR'⟩ | ⟨set', hset', -, hnodup', hR'⟩
    · obtain ⟨path, hpath⟩ := List.exists_mem_of_ne_nil set hne
      exact absurd ((hR path).1 hpath) (hR' path)
    · have hperm : set.Perm set' :=
        (List.perm_ext_iff_of_nodup hnodup hnodup').2 fun path => by rw [hR, hR']
      refine .inr ⟨set, set', hset, hset', fun unique ambiguous => ?_⟩
      by_cases hone : ∃ path, set = [path]
      · obtain ⟨path, rfl⟩ := hone
        rw [List.singleton_perm.1 hperm]
      · have hnot : ∀ {s : List Path}, (∀ path, s ≠ [path]) →
            single unique ambiguous s = (none, ambiguous) := by
          intro s hs
          unfold single
          split
          · next path => exact absurd rfl (hs path)
          · rfl
        rw [hnot fun path he => hone ⟨path, he⟩, hnot fun path he => hone ⟨path, ?_⟩]
        exact List.perm_singleton.1 (he ▸ hperm)

theorem sameSet_findSome? {f g : Nat → Option (List Path)} (h : ∀ i, SameSet (f i) (g i))
    (is : List Nat) : SameSet (is.findSome? f) (is.findSome? g) := by
  induction is with
  | nil => exact .inl ⟨rfl, rfl⟩
  | cons i is ih =>
    rw [List.findSome?_cons, List.findSome?_cons]
    rcases h i with ⟨hf, hg⟩ | ⟨s, s', hf, hg, hsame⟩
    · rw [hf, hg]
      exact ih
    · rw [hf, hg]
      exact .inr ⟨s, s', rfl, rfl, hsame⟩

/-- **Two indexes of one set of targets give the same answers.** -/
theorem RepoIndex.Describes.resolve_eq {idx idx' : RepoIndex} {paths : List Path}
    (h : idx.Describes paths) (h' : idx'.Describes paths) (query : Path) :
    idx.resolve query = idx'.resolve query := by
  have hexact : idx.exact.get? query = idx'.exact.get? query :=
    Option.ext fun path => (h.exact query path).trans (h'.exact query path).symm
  unfold RepoIndex.resolve
  rw [hexact]
  split
  · rfl
  · split
    · rfl
    · next form _ =>
      split
      · rfl
      · rcases h.normalized.sameSet h'.normalized form with ⟨hn, hn'⟩ | ⟨s, s', hs, hs', hsame⟩
        · rw [hn, hn']
          rcases sameSet_findSome? (fun i => h.suffix.sameSet h'.suffix (suffixFrom form i))
            (suffixStarts form) with ⟨hf, hf'⟩ | ⟨s, s', hs, hs', hsame⟩
          · have hbase : (idx.basename.get? (lastPart form)).isSome =
                (idx'.basename.get? (lastPart form)).isSome := by
              rw [Bool.eq_iff_iff, h.basename.get?_isSome_iff, h'.basename.get?_isSome_iff]
            simp only [hf, hf', hbase]
          · simp only [hs, hs']
            exact hsame _ _
        · rw [hs, hs']
          exact hsame _ _

/-- What the dictionaries hold is a matter of the set of targets. -/
theorem RepoIndex.Describes.congr {idx : RepoIndex} {paths paths' : List Path}
    (h : idx.Describes paths) (hmem : ∀ path, path ∈ paths ↔ path ∈ paths') :
    idx.Describes paths' where
  exact query path := by rw [h.exact, hmem]
  normalized := h.normalized.congr fun _ path => by rw [hmem]
  suffix := h.suffix.congr fun _ path => by rw [hmem]
  basename := h.basename.congr fun _ path => by rw [hmem]

/-- **The path of a query**: the target it stands for, if there is one; the same whatever the order
and the repetition of the targets and whatever the other repositories; never a path with a parent
segment. -/
theorem resolvePath_spec (repoTargetPaths : Keyed String (List Path)) (repoName : String)
    (query : Path) :
    (∀ path, (resolvePath (lookupIndex repoTargetPaths) repoName query).1 = some path ↔
      ∃ paths, repoTargetPaths.get? repoName = some paths ∧ Resolves paths query path) ∧
    (∀ (others : Keyed String (List Path)) (paths paths' : List Path),
      repoTargetPaths.get? repoName = some paths → others.get? repoName = some paths' →
      (∀ path, path ∈ paths ↔ path ∈ paths') →
      resolvePath (lookupIndex others) repoName query =
        resolvePath (lookupIndex repoTargetPaths) repoName query) ∧
    ∀ path, (resolvePath (lookupIndex repoTargetPaths) repoName query).1 = some path →
      ¬ HasParent path := by
  refine ⟨fun path => resolvePath_eq_some_iff, fun others paths paths' hpaths hpaths' hmem => ?_,
    fun path h => ?_⟩
  · simp only [resolvePath, get?_lookupIndex, hpaths, hpaths', Option.map_some]
    exact (describes_build paths').resolve_eq ((describes_build paths).congr hmem) query
  · obtain ⟨paths, -, hresolves⟩ := resolvePath_eq_some_iff.1 h
    obtain ⟨-, form, hf⟩ := hresolves.isTarget
    exact hf.not_hasParent

/-- A target without a segment is not found by itself. -/
theorem resolvePath_current_directory :
    resolvePath (lookupIndex (Keyed.empty.put "repo" [".".toList])) "repo" ".".toList =
      (none, .invalidPath) := by
  decide +kernel

end FosCoverage.PathIndex
