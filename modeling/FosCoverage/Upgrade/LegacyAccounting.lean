import Mathlib.Data.List.Dedup
import FosCoverage.Upgrade.LegacySource

/-!
# What the contexts account for

Whether every legacy row is in a context depends on the rows alone.

* `Filed` says what the contexts of one hash are after some of its rows: one context for each path a
  row is filed under, whose maps are dictionaries of the rows with that path (`LastWrite.filed`).
  `filed_legacyFileContexts` has it for all rows, by one step lemma for each of the two loops.
* `flatMap_perm_iff` puts projects and hashes together: the contexts have every row once if and only
  if every row has a key the pages can reach and no two rows fall on the same entry.
* `Accounts` is the promise, `Accountable` the condition on the rows (`accounts_iff`).
-/

set_option autoImplicit false

namespace FosCoverage

namespace LegacyMigration

/-! ## Regrouping one hash -/

@[simp] theorem LegacyContext.putLine_filePath (line : LineFact) (c : LegacyContext) :
    (c.putLine line).filePath = c.filePath := rfl

@[simp] theorem LegacyContext.putAnalysis_filePath (analysis : AnalysisFact) (c : LegacyContext) :
    (c.putAnalysis analysis).filePath = c.filePath := rfl

namespace Regrouping

variable (g : Regrouping)

/-- What is true of the context of a path, after some lines and analyses. -/
structure Holds (ls : List LineFact) (as : List AnalysisFact) (c : LegacyContext) : Prop where
  /-- The key is that of the path. -/
  key : c.key = (g.blank c.filePath).key
  /-- The last line of every number filed under the path. -/
  source : c.sourceLines = LastWrite.filed LineFact.lineNumber g.linePath ls c.filePath
  /-- The last analysis of every number filed under the path. -/
  analyses : c.analyses = LastWrite.filed AnalysisFact.lineNumber g.analysisPath as c.filePath
  /-- Every analysed line has an entry. -/
  indexed : ∀ a ∈ c.analyses, ∃ l ∈ c.lines, l.lineNumber = a.lineNumber

/-- The contexts after some lines and analyses, one for each of the paths in `P`. -/
structure Filed (ls : List LineFact) (as : List AnalysisFact) (P : String → Prop)
    (contexts : List LegacyContext) : Prop where
  /-- One context a path. -/
  nodup : (contexts.map LegacyContext.filePath).Nodup
  /-- The paths. -/
  paths : ∀ p, p ∈ contexts.map LegacyContext.filePath ↔ P p
  /-- Every line has its context. -/
  lines : ∀ l ∈ ls, P (g.linePath l)
  /-- Every analysis has its context. -/
  analyses : ∀ a ∈ as, P (g.analysisPath a)
  /-- Every context is as it should be. -/
  holds : ∀ c ∈ contexts, g.Holds ls as c

variable {g} {ls : List LineFact} {as : List AnalysisFact} {P : String → Prop}
  {contexts : List LegacyContext}

@[simp] theorem blank_filePath (path : String) : (g.blank path).filePath = path := rfl

/-- The path is one `context_for` leaves as it is. -/
def Plain (g : Regrouping) (path : String) : Prop :=
  (if path = "" then g.fileHash else path) = path

theorem plain_linePath (line : LineFact) : g.Plain (g.linePath line) := by
  unfold Plain linePath
  split <;> simp_all

theorem plain_fileHash : g.Plain g.fileHash := by
  simp [Plain]

theorem ne_empty_of_mem_pathsByLine {lines : List LineFact} {number : Int} {path : String}
    (h : path ∈ pathsByLine lines number) : path ≠ "" := by
  rw [pathsByLine, List.mem_dedup, List.mem_map] at h
  obtain ⟨l, hl, rfl⟩ := h
  exact (of_decide_eq_true (List.mem_filter.1 hl).2).2

theorem plain_analysisPath (analysis : AnalysisFact) : g.Plain (g.analysisPath analysis) := by
  unfold analysisPath
  split
  · rename_i hne
    exact if_neg hne
  · split
    · rename_i path hpath
      exact if_neg (ne_empty_of_mem_pathsByLine (hpath ▸ List.mem_singleton_self path))
    · exact plain_fileHash

/-- The context `context_for` finds or makes. -/
theorem Filed.contextFor (h : g.Filed ls as P contexts) {path : String} (hpath : g.Plain path) :
    g.Holds ls as (g.contextFor contexts path) ∧ (g.contextFor contexts path).filePath = path := by
  have hdef : g.contextFor contexts path =
      (contexts.find? fun c => c.key = (g.blank path).key).getD (g.blank path) := by
    have hplain : (if path = "" then g.fileHash else path) = path := hpath
    simp only [Regrouping.contextFor, hplain]
  rw [hdef]
  cases hfind : contexts.find? fun c => c.key = (g.blank path).key with
  | some c =>
    have hkey : c.key = (g.blank path).key := by simpa using List.find?_some hfind
    exact ⟨h.holds c (List.mem_of_find?_eq_some hfind), congrArg (fun k => k.2.2) hkey⟩
  | none =>
    -- no row is filed under the path yet
    have hnot : ¬ P path := by
      rw [← h.paths path]
      intro hmem
      obtain ⟨c, hc, hcp⟩ := List.mem_map.1 hmem
      refine List.find?_eq_none.1 hfind c hc ?_
      rw [(h.holds c hc).key, hcp]
      simp
    refine ⟨⟨rfl, ?_, ?_, fun a ha => (by cases ha)⟩, rfl⟩
    · rw [LastWrite.filed, List.filter_eq_nil_iff.2]
      · rfl
      · intro l hl he
        have hp : g.linePath l = path := of_decide_eq_true he
        exact hnot (hp ▸ h.lines l hl)
    · rw [LastWrite.filed, List.filter_eq_nil_iff.2]
      · rfl
      · intro a ha he
        have hp : g.analysisPath a = path := of_decide_eq_true he
        exact hnot (hp ▸ h.analyses a ha)

/-- **A change of one context**: the rows filed so far may change if what holds of the context of
the path and of the others follows. -/
theorem Filed.modify {ls' : List LineFact} {as' : List AnalysisFact} {path : String}
    {f : LegacyContext → LegacyContext} (h : g.Filed ls as P contexts) (hpath : g.Plain path)
    (hlines : ∀ l ∈ ls', P (g.linePath l) ∨ g.linePath l = path)
    (hanalyses : ∀ a ∈ as', P (g.analysisPath a) ∨ g.analysisPath a = path)
    (hf : ∀ c, g.Holds ls as c → c.filePath = path → g.Holds ls' as' (f c) ∧ (f c).filePath = path)
    (hother : ∀ c, g.Holds ls as c → c.filePath ≠ path → g.Holds ls' as' c) :
    g.Filed ls' as' (fun p => P p ∨ p = path) (g.modify contexts path f) := by
  obtain ⟨hctx, hctxp⟩ := h.contextFor hpath
  obtain ⟨hnew, hnewp⟩ := hf _ hctx hctxp
  set c₀ := f (g.contextFor contexts path) with hc₀
  have hkey : ∀ c ∈ contexts, c.key = c₀.key ↔ c.filePath = path := by
    intro c hc
    rw [(h.holds c hc).key, hnew.key, hnewp]
    exact ⟨fun he => congrArg (fun k => k.2.2) he, fun he => by rw [he]⟩
  have hmem : ∀ c, c ∈ g.modify contexts path f ↔
      (c ∈ contexts ∧ c.filePath ≠ path) ∨ c = c₀ := by
    intro c
    rw [Regrouping.modify, LastWrite.mem_set]
    refine or_congr_left ⟨fun hc => ⟨hc.1, ?_⟩, fun hc => ⟨hc.1, ?_⟩⟩
    · exact fun he => hc.2 ((hkey c hc.1).2 he)
    · exact fun he => hc.2 ((hkey c hc.1).1 he)
  have hshape : ∀ c ∈ g.modify contexts path f, g.Holds ls' as' c := by
    intro c hc
    rcases (hmem c).1 hc with ⟨hc, hne⟩ | rfl
    · exact hother c (h.holds c hc) hne
    · exact hnew
  refine ⟨?_, fun p => ?_, hlines, hanalyses, hshape⟩
  · have hkeys : ((g.modify contexts path f).map LegacyContext.key).Nodup := by
      refine LastWrite.nodup_set ?_
      refine List.Nodup.of_map (fun k : String × String × String => k.2.2) ?_
      rw [List.map_map]
      exact h.nodup
    refine (List.nodup_map_iff_inj_on (List.Nodup.of_map _ hkeys)).2 fun a ha b hb he => ?_
    refine List.inj_on_of_nodup_map hkeys ha hb ?_
    rw [(hshape a ha).key, (hshape b hb).key, he]
  · simp only [List.mem_map, hmem]
    constructor
    · rintro ⟨c, ⟨hc, _⟩ | rfl, rfl⟩
      · exact .inl ((h.paths _).1 (List.mem_map_of_mem hc))
      · exact .inr hnewp
    · intro hp
      by_cases hpp : p = path
      · exact ⟨c₀, .inr rfl, hpp ▸ hnewp⟩
      · obtain ⟨c, hc, rfl⟩ := List.mem_map.1 ((h.paths p).2 (hp.resolve_right hpp))
        exact ⟨c, .inl ⟨hc, hpp⟩, rfl⟩

/-- **One line.** -/
theorem Filed.addLine (h : g.Filed ls as P contexts) (line : LineFact) :
    g.Filed (ls ++ [line]) as (fun p => P p ∨ p = g.linePath line) (g.addLine contexts line) := by
  unfold Regrouping.addLine
  refine h.modify (plain_linePath line) ?_ (fun a ha => .inl (h.analyses a ha)) ?_ ?_
  · intro l hl
    rcases List.mem_append.1 hl with hl | hl
    · exact .inl (h.lines l hl)
    · rw [List.mem_singleton.1 hl]
      exact .inr rfl
  · intro c hc hp
    refine ⟨⟨hc.key, ?_, hc.analyses, fun a ha => ?_⟩, hp⟩
    · rw [LegacyContext.putLine_filePath, LastWrite.filed_append_singleton, if_pos hp.symm,
        ← hc.source]
      rfl
    · obtain ⟨l, hl, hn⟩ := hc.indexed a ha
      by_cases he : l.lineNumber = line.lineNumber
      · exact ⟨line.entry, LastWrite.mem_set.2 (.inr rfl), he.symm.trans hn⟩
      · exact ⟨l, LastWrite.mem_set.2 (.inl ⟨hl, he⟩), hn⟩
  · intro c hc hp
    refine ⟨hc.key, ?_, hc.analyses, hc.indexed⟩
    rw [LastWrite.filed_append_singleton, if_neg (Ne.symm hp)]
    exact hc.source

/-- **One analysis.** -/
theorem Filed.addAnalysis (h : g.Filed ls as P contexts) (analysis : AnalysisFact) :
    g.Filed ls (as ++ [analysis]) (fun p => P p ∨ p = g.analysisPath analysis)
      (g.addAnalysis contexts analysis) := by
  -- a context made as evidence of an ambiguous path is the one the analysis is filed in
  have hfirst : ∃ Q, g.Filed ls as Q (if g.ambiguous analysis then g.modify contexts g.fileHash
        (LegacyContext.markAmbiguous analysis.lineNumber) else contexts) ∧
      ∀ p, (Q p ∨ p = g.analysisPath analysis) ↔ (P p ∨ p = g.analysisPath analysis) := by
    split
    · rename_i hamb
      have hpath : g.analysisPath analysis = g.fileHash := by
        simp only [ambiguous, decide_eq_true_eq] at hamb
        unfold analysisPath
        rw [if_neg (not_not.2 hamb.1)]
        split
        · rename_i path hp
          exact absurd (congrArg List.length hp) hamb.2
        · rfl
      refine ⟨_, h.modify plain_fileHash (fun l hl => .inl (h.lines l hl))
        (fun a ha => .inl (h.analyses a ha)) (fun c hc hp => ⟨⟨hc.key, hc.source, hc.analyses,
          hc.indexed⟩, hp⟩) (fun c hc _ => hc), fun p => ?_⟩
      rw [hpath, or_assoc, or_self]
    · exact ⟨P, h, fun p => Iff.rfl⟩
  obtain ⟨Q, hQ, hPQ⟩ := hfirst
  have hsecond : g.Filed ls (as ++ [analysis]) (fun p => Q p ∨ p = g.analysisPath analysis)
      (g.addAnalysis contexts analysis) := by
    unfold Regrouping.addAnalysis
    refine hQ.modify (plain_analysisPath analysis) (fun l hl => .inl (hQ.lines l hl)) ?_ ?_ ?_
    · intro a ha
      rcases List.mem_append.1 ha with ha | ha
      · exact .inl (hQ.analyses a ha)
      · rw [List.mem_singleton.1 ha]
        exact .inr rfl
    · intro c hc hp
      refine ⟨⟨hc.key, hc.source, ?_, fun a ha => ?_⟩, hp⟩
      · rw [LegacyContext.putAnalysis_filePath, LastWrite.filed_append_singleton, if_pos hp.symm,
          ← hc.analyses]
        rfl
      · -- an entry is made where the number has none
        have hmine : ∃ l ∈ (c.putAnalysis analysis).lines, l.lineNumber = analysis.lineNumber := by
          dsimp only [LegacyContext.putAnalysis]
          split
          · rename_i hany
            obtain ⟨l, hl, hn⟩ := List.any_eq_true.1 hany
            exact ⟨l, hl, of_decide_eq_true hn⟩
          · exact ⟨analysis.entry, LastWrite.mem_set.2 (.inr rfl), rfl⟩
        rcases LastWrite.mem_set.1 ha with ⟨ha, hne⟩ | rfl
        · obtain ⟨l, hl, hn⟩ := hc.indexed a ha
          refine ⟨l, ?_, hn⟩
          dsimp only [LegacyContext.putAnalysis]
          split
          · exact hl
          · exact LastWrite.mem_set.2 (.inl ⟨hl, fun he => hne (hn ▸ he)⟩)
        · exact hmine
    · intro c hc hp
      refine ⟨hc.key, hc.source, ?_, hc.indexed⟩
      rw [LastWrite.filed_append_singleton, if_neg (Ne.symm hp)]
      exact hc.analyses
  exact ⟨hsecond.nodup, fun p => (hsecond.paths p).trans (hPQ p),
    fun l hl => (hPQ _).1 (hsecond.lines l hl), fun a ha => (hPQ _).1 (hsecond.analyses a ha),
    hsecond.holds⟩

variable (g) in
/-- The paths the rows are filed under. -/
def filedPaths (ls : List LineFact) (as : List AnalysisFact) (p : String) : Prop :=
  (∃ l ∈ ls, g.linePath l = p) ∨ ∃ a ∈ as, g.analysisPath a = p

/-- **Both loops.** -/
theorem filed_foldl (ls : List LineFact) (as : List AnalysisFact) :
    g.Filed ls as (g.filedPaths ls as) (as.foldl g.addAnalysis (ls.foldl g.addLine [])) := by
  induction as using List.reverseRecOn with
  | nil =>
    induction ls using List.reverseRecOn with
    | nil =>
      refine ⟨List.nodup_nil, fun p => ?_, ?_, ?_, ?_⟩ <;> simp [filedPaths]
    | append_singleton ls l ih =>
      have h := ih.addLine l
      rw [List.foldl_nil] at ih h ⊢
      rw [List.foldl_append, List.foldl_cons, List.foldl_nil]
      refine ⟨h.nodup, fun p => (h.paths p).trans ?_, ?_, ?_, h.holds⟩
      · simp [filedPaths, eq_comm]
      · exact fun l hl => .inl ⟨l, hl, rfl⟩
      · exact fun a ha => .inr ⟨a, ha, rfl⟩
  | append_singleton as a ih =>
    have h := ih.addAnalysis a
    rw [List.foldl_append, List.foldl_cons, List.foldl_nil]
    refine ⟨h.nodup, fun p => (h.paths p).trans ?_, ?_, ?_, h.holds⟩
    · simp [filedPaths, eq_comm, or_and_right, exists_or, or_assoc]
    · exact fun l hl => .inl ⟨l, hl, rfl⟩
    · exact fun a ha => .inr ⟨a, ha, rfl⟩

theorem Filed.perm {contexts' : List LegacyContext} (h : g.Filed ls as P contexts)
    (hp : contexts'.Perm contexts) : g.Filed ls as P contexts' :=
  ⟨(hp.map _).nodup_iff.2 h.nodup, fun p => (hp.map _).mem_iff.trans (h.paths p), h.lines,
    h.analyses, fun c hc => h.holds c (hp.mem_iff.1 hc)⟩

/-- The source lines of the contexts, context by context. -/
theorem Filed.sourceLines (h : g.Filed ls as P contexts) :
    contexts.flatMap LegacyContext.sourceLines = (contexts.map LegacyContext.filePath).flatMap
      (LastWrite.filed LineFact.lineNumber g.linePath ls) := by
  rw [List.flatMap_map]
  exact List.flatMap_congr fun c hc => (h.holds c hc).source

/-- The analyses of the contexts, context by context. -/
theorem Filed.analysisRows (h : g.Filed ls as P contexts) :
    contexts.flatMap LegacyContext.analyses = (contexts.map LegacyContext.filePath).flatMap
      (LastWrite.filed AnalysisFact.lineNumber g.analysisPath as) := by
  rw [List.flatMap_map]
  exact List.flatMap_congr fun c hc => (h.holds c hc).analyses

end Regrouping

/-! ## Pages -/

/-- **The rows of a condition, page by page**: those behind key zero. -/
theorem iterLegacyRows_perm {α : Type} {id : α → Int} {rows : List α} (hn : (rows.map id).Nodup)
    (where_ : α → Bool) :
    (iterLegacyRows id rows where_).Perm (rows.filter fun r => where_ r && decide (0 < id r)) := by
  have hn' : ((rows.filter where_).map id).Nodup := hn.sublist (List.filter_sublist.map id)
  rw [iterLegacyRows, Paging.scan_eq_pages hn']
  refine (Paging.flatten_pages_perm hn' (by decide) 0).trans (List.Perm.of_eq ?_)
  rw [Paging.behind, List.filter_filter]
  exact List.filter_congr fun r _ => Bool.and_comm _ _

theorem mem_legacyFileKeys {db : LegacyDb} {projectName fileHash : String} :
    fileHash ∈ legacyFileKeys db projectName ↔
      (∃ r ∈ db.lines, r.projectName = projectName ∧ r.filePathHash = fileHash) ∨
      ∃ r ∈ db.analyses, r.projectName = projectName ∧ r.filePathHash = fileHash := by
  simp only [legacyFileKeys, List.mem_dedup, List.mem_append, List.mem_map, List.mem_filter,
    decide_eq_true_eq, and_assoc]

/-- The hashes the migration visits. -/
def visitedHashes (db : LegacyDb) (projectName : String) (batchSize : Nat) : List String :=
  (legacyFileHashPages db projectName batchSize).flatten

theorem visitedHashes_perm {db : LegacyDb} {projectName : String} {batchSize : Nat}
    (hb : 0 < batchSize) : (visitedHashes db projectName batchSize).Perm
      ((legacyFileKeys db projectName).filter fun h => "" < h) := by
  have hn : ((legacyFileKeys db projectName).map id).Nodup := by
    rw [List.map_id]
    exact List.nodup_dedup _
  rw [visitedHashes, legacyFileHashPages, Paging.scan_eq_pages hn]
  exact Paging.flatten_pages_perm hn hb ""

theorem nodup_visitedHashes {db : LegacyDb} {projectName : String} {batchSize : Nat}
    (hb : 0 < batchSize) : (visitedHashes db projectName batchSize).Nodup :=
  (visitedHashes_perm hb).nodup_iff.2 ((List.nodup_dedup _).filter _)

theorem empty_lt_iff {s : String} : "" < s ↔ s ≠ "" := by
  rw [String.lt_iff_toList_lt]
  constructor
  · rintro h rfl
    exact lt_irrefl _ h
  · intro h
    cases hs : s.toList with
    | nil => exact absurd (String.toList_eq_nil_iff.1 hs) h
    | cons c cs => exact List.Lex.nil

/-- **A hash is visited if it is not empty and some row of the project has it.** -/
theorem mem_visitedHashes {db : LegacyDb} {projectName fileHash : String} {batchSize : Nat}
    (hb : 0 < batchSize) : fileHash ∈ visitedHashes db projectName batchSize ↔
      fileHash ∈ legacyFileKeys db projectName ∧ fileHash ≠ "" := by
  rw [(visitedHashes_perm hb).mem_iff, List.mem_filter, decide_eq_true_eq, empty_lt_iff]

/-! ## Projects and hashes together -/

section Rows

variable {ρ α κ : Type} (id : ρ → Int) (project hash : ρ → String) (fact : ρ → α) (rows : List ρ)

/-- The facts of one project and hash that the pages reach. -/
def groupFacts (p h : String) : List α :=
  (rows.filter fun r => (decide (project r = p ∧ hash r = h)) && decide (0 < id r)).map fact

variable {id project hash fact rows}

theorem mem_groupFacts {p h : String} {a : α} : a ∈ groupFacts id project hash fact rows p h ↔
    ∃ r ∈ rows, project r = p ∧ hash r = h ∧ 0 < id r ∧ fact r = a := by
  simp only [groupFacts, List.mem_map, List.mem_filter, Bool.and_eq_true, decide_eq_true_eq,
    and_assoc]

/-- The groups of all hashes of a project are its rows, and those of all projects all rows. -/
theorem flatMap_groupFacts_perm {hashes : String → List String} {projects : List String}
    (hhashes : ∀ p, (hashes p).Nodup) (hprojects : projects.Nodup)
    (hkeys : ∀ r ∈ rows, project r ≠ "" → 0 < id r ∧ hash r ∈ hashes (project r))
    (hmem : ∀ r ∈ rows, project r ∈ projects ↔ project r ≠ "") :
    (projects.flatMap fun p => (hashes p).flatMap fun h =>
      groupFacts id project hash fact rows p h).Perm
        ((rows.filter fun r => project r ≠ "").map fact) := by
  have hproject : ∀ p ∈ projects, ((hashes p).flatMap fun h =>
      groupFacts id project hash fact rows p h).Perm
        ((rows.filter fun r => project r = p).map fact) := by
    intro p hp
    have hgroup : ∀ h, groupFacts id project hash fact rows p h =
        ((rows.filter fun r => project r = p).filter fun r => hash r = h).map fact := by
      intro h
      rw [groupFacts, List.filter_filter]
      refine congrArg (List.map fact) (List.filter_congr fun r hr => ?_)
      by_cases hr' : project r = p
      · have := (hkeys r hr ((hmem r hr).1 (hr' ▸ hp))).1
        simp [hr', this]
      · simp [hr']
    rw [funext hgroup, ← List.map_flatMap]
    refine List.Perm.map fact ((Paging.flatMap_filter_perm hash (hhashes p) _).trans ?_)
    refine List.Perm.of_eq (List.filter_eq_self.2 fun r hr => decide_eq_true ?_)
    rw [List.mem_filter, decide_eq_true_eq] at hr
    obtain ⟨hr, rfl⟩ := hr
    exact (hkeys r hr ((hmem r hr).1 hp)).2
  refine (List.Perm.flatMap_left projects hproject).trans ?_
  rw [← List.map_flatMap]
  refine List.Perm.map fact ((Paging.flatMap_filter_perm project hprojects rows).trans ?_)
  exact List.Perm.of_eq (List.filter_congr fun r hr => by rw [decide_eq_decide, hmem r hr])

/-- **Every row once**: what the groups keep is all rows exactly when every row is reached and no
two rows of a group share their key. -/
theorem flatMap_perm_iff {hashes : String → List String} {projects : List String}
    {kept : String → String → List α} (key : String → String → α → κ)
    (hrows : rows.Nodup) (hinj : ∀ r ∈ rows, ∀ r' ∈ rows, fact r = fact r' → r = r')
    (hhashes : ∀ p, (hashes p).Nodup)
    (hvisited : ∀ r ∈ rows, hash r ∈ hashes (project r) ↔ hash r ≠ "")
    (hprojects : projects.Nodup) (hmem : ∀ r ∈ rows, project r ∈ projects ↔ project r ≠ "")
    (hsub : ∀ p h, ∀ a ∈ kept p h, a ∈ groupFacts id project hash fact rows p h)
    (hkept : ∀ p h, ((kept p h).map (key p h)).Nodup)
    (hall : ∀ p h, ((groupFacts id project hash fact rows p h).map (key p h)).Nodup →
      (kept p h).Perm (groupFacts id project hash fact rows p h)) :
    (projects.flatMap fun p => (hashes p).flatMap (kept p)).Perm
        ((rows.filter fun r => project r ≠ "").map fact) ↔
      (∀ r ∈ rows, project r ≠ "" → 0 < id r ∧ hash r ≠ "") ∧
      ∀ r ∈ rows, ∀ r' ∈ rows, project r ≠ "" → project r = project r' → hash r = hash r' →
        key (project r) (hash r) (fact r) = key (project r) (hash r) (fact r') → r = r' := by
  constructor
  · intro hperm
    have hin : ∀ r ∈ rows, project r ≠ "" →
        0 < id r ∧ hash r ≠ "" ∧ fact r ∈ kept (project r) (hash r) := by
      intro r hr hp
      have hmap : fact r ∈ (rows.filter fun r => project r ≠ "").map fact :=
        List.mem_map_of_mem (List.mem_filter.2 ⟨hr, decide_eq_true hp⟩)
      obtain ⟨p, hpp, hmem'⟩ := List.mem_flatMap.1 (hperm.mem_iff.2 hmap)
      obtain ⟨h, hh, hk⟩ := List.mem_flatMap.1 hmem'
      obtain ⟨r', hr', rfl, rfl, hid, he⟩ := mem_groupFacts.1 (hsub p h _ hk)
      obtain rfl := hinj r' hr' r hr he
      exact ⟨hid, (hvisited r' hr').1 hh, hk⟩
    refine ⟨fun r hr hp => ⟨(hin r hr hp).1, (hin r hr hp).2.1⟩, ?_⟩
    intro r hr r' hr' hp hproj hhash hkey
    have hk := (hin r hr hp).2.2
    have hk' := (hin r' hr' (hproj ▸ hp)).2.2
    rw [← hproj, ← hhash] at hk'
    exact hinj r hr r' hr' (List.inj_on_of_nodup_map (hkept _ _) hk hk' hkey)
  · rintro ⟨hkeys, hone⟩
    have hgroup : ∀ p ∈ projects, ∀ h, (kept p h).Perm
        (groupFacts id project hash fact rows p h) := by
      intro p hp h
      refine hall p h ?_
      rw [groupFacts, List.map_map, List.nodup_map_iff_inj_on (hrows.filter _)]
      intro r hr r' hr' he
      simp only [List.mem_filter, Bool.and_eq_true, decide_eq_true_eq] at hr hr'
      obtain ⟨hr, ⟨rfl, rfl⟩, _⟩ := hr
      obtain ⟨hr', ⟨hproj, hhash⟩, _⟩ := hr'
      exact hone r hr r' hr' ((hmem r hr).1 hp) hproj.symm hhash.symm he
    refine List.Perm.trans (List.Perm.flatMap_left projects fun p hp =>
      List.Perm.flatMap_left (hashes p) fun h _ => hgroup p hp h) ?_
    exact flatMap_groupFacts_perm hhashes hprojects (fun r hr hp =>
      ⟨(hkeys r hr hp).1, (hvisited r hr).2 (hkeys r hr hp).2⟩) hmem

end Rows

/-! ## The contexts of a database -/

variable {d : Digests} {db : LegacyDb}

/-- The hash of a project with the lines the migration reads. -/
def readGroup (d : Digests) (db : LegacyDb) (projectName fileHash : String) : Regrouping :=
  ⟨d, fileHash, groupLines d db projectName fileHash⟩

theorem groupLines_perm (d : Digests) (db : LegacyDb) (projectName fileHash : String) :
    (groupLines d db projectName fileHash).Perm (groupFacts LegacyLine.id LegacyLine.projectName
      LegacyLine.filePathHash (legacyLineFact d) db.lines projectName fileHash) :=
  (iterLegacyRows_perm db.lineKey _).map _

theorem groupAnalyses_perm (d : Digests) (db : LegacyDb) (projectName fileHash : String) :
    (groupAnalyses d db projectName fileHash).Perm (groupFacts LegacyAnalysis.id
      LegacyAnalysis.projectName LegacyAnalysis.filePathHash (legacyAnalysisFact d) db.analyses
      projectName fileHash) :=
  (iterLegacyRows_perm db.analysisKey _).map _

/-- **The contexts of one hash** file its lines and analyses. -/
theorem filed_legacyFileContexts (d : Digests) (db : LegacyDb) (projectName fileHash : String) :
    (readGroup d db projectName fileHash).Filed (groupLines d db projectName fileHash)
      (groupAnalyses d db projectName fileHash)
      ((readGroup d db projectName fileHash).filedPaths (groupLines d db projectName fileHash)
        (groupAnalyses d db projectName fileHash))
      (legacyFileContexts d db projectName fileHash) :=
  (Regrouping.filed_foldl _ _).perm (List.perm_insertionSort _ _)

/-- The contexts of all projects. -/
def allContexts (d : Digests) (db : LegacyDb) (batchSize : Nat) : List LegacyContext :=
  (projectNames db).flatMap fun projectName =>
    iterLegacyFileContexts d db projectName batchSize

/-- The target identity of a context within its project. -/
def LegacyContext.identity (c : LegacyContext) : String × String :=
  (c.repositoryName, c.filePathHash)

/-- The lines of named projects, as facts. -/
def LegacyDb.lineFacts (d : Digests) (db : LegacyDb) : List LineFact :=
  (db.lines.filter fun r => r.projectName ≠ "").map (legacyLineFact d)

/-- The analyses of named projects, as facts. -/
def LegacyDb.analysisFacts (d : Digests) (db : LegacyDb) : List AnalysisFact :=
  (db.analyses.filter fun r => r.projectName ≠ "").map (legacyAnalysisFact d)

/-- **The contexts account for every legacy row.** -/
structure Accounts (d : Digests) (db : LegacyDb) (batchSize : Nat) : Prop where
  /-- Every line row once. -/
  lines : ((allContexts d db batchSize).flatMap LegacyContext.sourceLines).Perm (db.lineFacts d)
  /-- Every analysis row once. -/
  analyses : ((allContexts d db batchSize).flatMap LegacyContext.analyses).Perm
    (db.analysisFacts d)
  /-- Every analysed line has a line entry in its context. -/
  indexed : ∀ c ∈ allContexts d db batchSize, ∀ a ∈ c.analyses,
    ∃ l ∈ c.lines, l.lineNumber = a.lineNumber
  /-- Different contexts of a project have different identities. -/
  identities : ∀ projectName ∈ projectNames db,
    ((iterLegacyFileContexts d db projectName batchSize).map LegacyContext.identity).Nodup

theorem mem_projectNames {name : String} : name ∈ projectNames db ↔ name ≠ "" ∧
    ((∃ r ∈ db.analyses, r.projectName = name) ∨ (∃ r ∈ db.lines, r.projectName = name) ∨
      name ∈ db.otherProjects) := by
  simp only [projectNames, List.mem_insertionSort, List.mem_dedup, List.mem_filter,
    List.mem_append, List.mem_map, decide_eq_true_eq, or_assoc]
  exact and_comm

theorem nodup_projectNames : (projectNames db).Nodup :=
  (List.perm_insertionSort _ _).nodup_iff.2 (List.nodup_dedup _)

/-- The lines of all contexts, hash by hash. -/
theorem allContexts_sourceLines (batchSize : Nat) :
    (allContexts d db batchSize).flatMap LegacyContext.sourceLines =
      (projectNames db).flatMap fun p => (visitedHashes db p batchSize).flatMap fun h =>
        (legacyFileContexts d db p h).flatMap LegacyContext.sourceLines := by
  simp only [allContexts, iterLegacyFileContexts, visitedHashes, List.flatMap_assoc]

/-- The analyses of all contexts, hash by hash. -/
theorem allContexts_analyses (batchSize : Nat) :
    (allContexts d db batchSize).flatMap LegacyContext.analyses =
      (projectNames db).flatMap fun p => (visitedHashes db p batchSize).flatMap fun h =>
        (legacyFileContexts d db p h).flatMap LegacyContext.analyses := by
  simp only [allContexts, iterLegacyFileContexts, visitedHashes, List.flatMap_assoc]

/-- What a hash keeps of its rows, given the dictionaries of its paths. -/
theorem kept_group {α : Type} {column : α → String} (number : α → Int) {paths : List String}
    {rows group : List α} (hpaths : paths.Nodup) (hall : ∀ r ∈ rows, column r ∈ paths)
    (hgroup : rows.Perm group) :
    (∀ a ∈ paths.flatMap (LastWrite.filed number column rows), a ∈ group) ∧
    ((paths.flatMap (LastWrite.filed number column rows)).map
      fun a => (column a, number a)).Nodup ∧
    ((group.map fun a => (column a, number a)).Nodup →
      (paths.flatMap (LastWrite.filed number column rows)).Perm group) := by
  refine ⟨fun a ha => ?_, LastWrite.nodup_flatMap_filed hpaths, fun hn => ?_⟩
  · obtain ⟨p, _, ha⟩ := List.mem_flatMap.1 ha
    exact hgroup.mem_iff.1 (LastWrite.mem_filed ha).1
  · exact (LastWrite.flatMap_filed_perm hpaths hall ((hgroup.map _).nodup_iff.2 hn)).trans hgroup

/-- **The lines**: every row once exactly when all are reached and none shares its path and number
with another. -/
theorem lines_perm_iff {batchSize : Nat} (hb : 0 < batchSize) :
    ((allContexts d db batchSize).flatMap LegacyContext.sourceLines).Perm (db.lineFacts d) ↔
      (∀ r ∈ db.lines, r.projectName ≠ "" → 0 < r.id ∧ r.filePathHash ≠ "") ∧
      ∀ r ∈ db.lines, ∀ r' ∈ db.lines, r.projectName ≠ "" → r.projectName = r'.projectName →
        r.filePathHash = r'.filePathHash →
        ((readGroup d db r.projectName r.filePathHash).linePath (legacyLineFact d r),
          (legacyLineFact d r).lineNumber) =
        ((readGroup d db r.projectName r.filePathHash).linePath (legacyLineFact d r'),
          (legacyLineFact d r').lineNumber) → r = r' := by
  have hkept : ∀ p h, _ ∧ _ ∧ _ := fun p h =>
    let hf := filed_legacyFileContexts d db p h
    kept_group LineFact.lineNumber hf.nodup
      (fun l hl => (hf.paths _).2 (.inl ⟨l, hl, rfl⟩)) (groupLines_perm d db p h)
  simp only [← (filed_legacyFileContexts d db _ _).sourceLines] at hkept
  rw [allContexts_sourceLines, LegacyDb.lineFacts]
  refine flatMap_perm_iff (fun p h l => ((readGroup d db p h).linePath l, l.lineNumber))
    (db.lineKey.of_map _) ?_ (fun p => nodup_visitedHashes hb) ?_ nodup_projectNames ?_
    (fun p h => (hkept p h).1) (fun p h => (hkept p h).2.1) (fun p h => (hkept p h).2.2)
  · intro r hr r' hr' he
    exact List.inj_on_of_nodup_map db.lineKey hr hr' (congrArg LineFact.sourcePk he)
  · intro r hr
    rw [mem_visitedHashes hb, mem_legacyFileKeys, and_iff_right]
    exact .inl ⟨r, hr, rfl, rfl⟩
  · intro r hr
    rw [mem_projectNames, and_iff_left]
    exact .inr (.inl ⟨r, hr, rfl⟩)

/-- **The analyses**, likewise. -/
theorem analyses_perm_iff {batchSize : Nat} (hb : 0 < batchSize) :
    ((allContexts d db batchSize).flatMap LegacyContext.analyses).Perm (db.analysisFacts d) ↔
      (∀ r ∈ db.analyses, r.projectName ≠ "" → 0 < r.id ∧ r.filePathHash ≠ "") ∧
      ∀ r ∈ db.analyses, ∀ r' ∈ db.analyses, r.projectName ≠ "" → r.projectName = r'.projectName →
        r.filePathHash = r'.filePathHash →
        ((readGroup d db r.projectName r.filePathHash).analysisPath (legacyAnalysisFact d r),
          (legacyAnalysisFact d r).lineNumber) =
        ((readGroup d db r.projectName r.filePathHash).analysisPath (legacyAnalysisFact d r'),
          (legacyAnalysisFact d r').lineNumber) → r = r' := by
  have hkept : ∀ p h, _ ∧ _ ∧ _ := fun p h =>
    let hf := filed_legacyFileContexts d db p h
    kept_group AnalysisFact.lineNumber hf.nodup
      (fun a ha => (hf.paths _).2 (.inr ⟨a, ha, rfl⟩)) (groupAnalyses_perm d db p h)
  simp only [← (filed_legacyFileContexts d db _ _).analysisRows] at hkept
  rw [allContexts_analyses, LegacyDb.analysisFacts]
  refine flatMap_perm_iff (fun p h a => ((readGroup d db p h).analysisPath a, a.lineNumber))
    (db.analysisKey.of_map _) ?_ (fun p => nodup_visitedHashes hb) ?_ nodup_projectNames ?_
    (fun p h => (hkept p h).1) (fun p h => (hkept p h).2.1) (fun p h => (hkept p h).2.2)
  · intro r hr r' hr' he
    exact List.inj_on_of_nodup_map db.analysisKey hr hr' (congrArg AnalysisFact.sourcePk he)
  · intro r hr
    rw [mem_visitedHashes hb, mem_legacyFileKeys, and_iff_right]
    exact .inr ⟨r, hr, rfl, rfl⟩
  · intro r hr
    rw [mem_projectNames, and_iff_left]
    exact .inl ⟨r, hr, rfl⟩

/-- **The identities** of a project are different exactly when the repository name of a hash tells
its paths apart. -/
theorem identities_nodup_iff {projectName : String} {batchSize : Nat} (hb : 0 < batchSize) :
    ((iterLegacyFileContexts d db projectName batchSize).map LegacyContext.identity).Nodup ↔
      ∀ h ∈ visitedHashes db projectName batchSize, ∀ x y,
        (readGroup d db projectName h).filedPaths (groupLines d db projectName h)
          (groupAnalyses d db projectName h) x →
        (readGroup d db projectName h).filedPaths (groupLines d db projectName h)
          (groupAnalyses d db projectName h) y →
        repositoryFor d (pathConflict (groupLines d db projectName h)) x =
          repositoryFor d (pathConflict (groupLines d db projectName h)) y → x = y := by
  have hidentity : ∀ h, ∀ c ∈ legacyFileContexts d db projectName h, c.identity =
      (repositoryFor d (pathConflict (groupLines d db projectName h)) c.filePath, h) := by
    intro h c hc
    have hkey := ((filed_legacyFileContexts d db projectName h).holds c hc).key
    exact Prod.ext (congrArg (fun k => k.1) hkey) (congrArg (fun k => k.2.1) hkey)
  change (List.map _ ((visitedHashes db projectName batchSize).flatMap
    (legacyFileContexts d db projectName))).Nodup ↔ _
  rw [List.map_flatMap, List.nodup_flatMap, and_iff_left]
  · refine forall₂_congr fun h _ => ?_
    have hf := filed_legacyFileContexts d db projectName h
    rw [List.nodup_map_iff_inj_on hf.nodup.of_map]
    constructor
    · intro hinj x y hx hy he
      obtain ⟨c, hc, rfl⟩ := List.mem_map.1 ((hf.paths x).2 hx)
      obtain ⟨c', hc', rfl⟩ := List.mem_map.1 ((hf.paths y).2 hy)
      rw [hinj c hc c' hc' (by rw [hidentity h c hc, hidentity h c' hc', he])]
    · intro hinj c hc c' hc' he
      rw [hidentity h c hc, hidentity h c' hc'] at he
      exact List.inj_on_of_nodup_map hf.nodup hc hc' (hinj _ _
        ((hf.paths _).1 (List.mem_map_of_mem hc)) ((hf.paths _).1 (List.mem_map_of_mem hc'))
        (congrArg Prod.fst he))
  · refine (nodup_visitedHashes hb).imp fun {h h'} hne => ?_
    intro i hi hi'
    obtain ⟨c, hc, rfl⟩ := List.mem_map.1 hi
    obtain ⟨c', hc', he⟩ := List.mem_map.1 hi'
    rw [hidentity h c hc, hidentity h' c' hc'] at he
    exact hne (congrArg Prod.snd he).symm

/-! ## The condition on the rows -/

/-- The lines of a project and hash, as the table has them. -/
def LegacyDb.group (d : Digests) (db : LegacyDb) (projectName fileHash : String) : Regrouping :=
  ⟨d, fileHash, (db.lines.filter fun r =>
    r.projectName = projectName ∧ r.filePathHash = fileHash).map (legacyLineFact d)⟩

/-- The path a line row is filed under. -/
def LegacyDb.linePath (d : Digests) (db : LegacyDb) (r : LegacyLine) : String :=
  (db.group d r.projectName r.filePathHash).linePath (legacyLineFact d r)

/-- The path an analysis row is filed under. -/
def LegacyDb.analysisPath (d : Digests) (db : LegacyDb) (r : LegacyAnalysis) : String :=
  (db.group d r.projectName r.filePathHash).analysisPath (legacyAnalysisFact d r)

/-- Some row of the project and hash is filed under the path. -/
def LegacyDb.Files (d : Digests) (db : LegacyDb) (projectName fileHash path : String) : Prop :=
  (∃ r ∈ db.lines, r.projectName = projectName ∧ r.filePathHash = fileHash ∧
    db.linePath d r = path) ∨
  ∃ r ∈ db.analyses, r.projectName = projectName ∧ r.filePathHash = fileHash ∧
    db.analysisPath d r = path

/-- **The rows can be accounted for.** -/
structure Accountable (d : Digests) (db : LegacyDb) : Prop where
  /-- Every line row has a positive key and a hash. -/
  lineKeys : ∀ r ∈ db.lines, r.projectName ≠ "" → 0 < r.id ∧ r.filePathHash ≠ ""
  /-- Every analysis row has a positive key and a hash. -/
  analysisKeys : ∀ r ∈ db.analyses, r.projectName ≠ "" → 0 < r.id ∧ r.filePathHash ≠ ""
  /-- No two line rows of a hash have the same number and path. -/
  lines : ∀ r ∈ db.lines, ∀ r' ∈ db.lines, r.projectName ≠ "" → r.projectName = r'.projectName →
    r.filePathHash = r'.filePathHash → r.lineNumber = r'.lineNumber →
    db.linePath d r = db.linePath d r' → r = r'
  /-- No two analysis rows of a hash have the same number and path. -/
  analyses : ∀ r ∈ db.analyses, ∀ r' ∈ db.analyses, r.projectName ≠ "" →
    r.projectName = r'.projectName → r.filePathHash = r'.filePathHash →
    r.lineNumber = r'.lineNumber → db.analysisPath d r = db.analysisPath d r' → r = r'
  /-- Two paths of a hash conflict on some line, and their hashes start differently. -/
  paths : ∀ projectName ≠ "", ∀ fileHash x y, db.Files d projectName fileHash x →
    db.Files d projectName fileHash y → x ≠ y →
    pathConflict (db.group d projectName fileHash).lines = true ∧
      conflictDigits d x ≠ conflictDigits d y

theorem repositoryFor_eq_iff {conflict : Bool} {x y : String} :
    repositoryFor d conflict x = repositoryFor d conflict y ↔
      (conflict = true → conflictDigits d x = conflictDigits d y) := by
  cases conflict with
  | false => simp [repositoryFor]
  | true => simp [repositoryFor]

theorem pathsByLine_perm {ls ls' : List LineFact} (h : ls.Perm ls') (number : Int) :
    (pathsByLine ls number).Perm (pathsByLine ls' number) :=
  ((h.filter _).map _).dedup

theorem pathConflict_perm {ls ls' : List LineFact} (h : ls.Perm ls') :
    pathConflict ls = pathConflict ls' := by
  rw [Bool.eq_iff_iff, pathConflict, pathConflict, List.any_eq_true, List.any_eq_true]
  simp only [h.mem_iff, (pathsByLine_perm h _).length_eq]

theorem analysisPath_perm {g g' : Regrouping} (h : g.lines.Perm g'.lines)
    (hh : g.fileHash = g'.fileHash) (a : AnalysisFact) : g.analysisPath a = g'.analysisPath a := by
  have hp := pathsByLine_perm h a.lineNumber
  unfold Regrouping.analysisPath
  split
  · rfl
  · split
    · rename_i path he
      rw [he, List.singleton_perm] at hp
      rw [← hp]
    · rename_i hne
      split
      · rename_i path he
        rw [he, List.perm_singleton] at hp
        exact absurd hp (hne path)
      · exact hh

/-- With positive keys the migration reads all rows of a project and hash. -/
theorem groupFacts_eq {ρ α : Type} {id : ρ → Int} {project hash : ρ → String} {fact : ρ → α}
    {rows : List ρ} {p h : String} (hp : p ≠ "")
    (hkeys : ∀ r ∈ rows, project r ≠ "" → 0 < id r ∧ hash r ≠ "") :
    groupFacts id project hash fact rows p h =
      (rows.filter fun r => project r = p ∧ hash r = h).map fact := by
  refine congrArg (List.map fact) (List.filter_congr fun r hr => ?_)
  by_cases hr' : project r = p
  · have := (hkeys r hr (hr' ▸ hp)).1
    simp [this]
  · simp [hr']

theorem readGroup_linePath (projectName fileHash : String) (l : LineFact) :
    (readGroup d db projectName fileHash).linePath l =
      (db.group d projectName fileHash).linePath l := rfl

section Keys

variable (hlines : ∀ r ∈ db.lines, r.projectName ≠ "" → 0 < r.id ∧ r.filePathHash ≠ "")
  (hanalyses : ∀ r ∈ db.analyses, r.projectName ≠ "" → 0 < r.id ∧ r.filePathHash ≠ "")

include hlines in
theorem readGroup_perm {projectName : String} (hp : projectName ≠ "") (fileHash : String) :
    (groupLines d db projectName fileHash).Perm (db.group d projectName fileHash).lines := by
  have h := groupLines_perm d db projectName fileHash
  rwa [groupFacts_eq hp hlines] at h

include hlines in
theorem readGroup_analysisPath {projectName : String} (hp : projectName ≠ "") (fileHash : String)
    (a : AnalysisFact) : (readGroup d db projectName fileHash).analysisPath a =
      (db.group d projectName fileHash).analysisPath a :=
  analysisPath_perm (show (readGroup d db projectName fileHash).lines.Perm _ from
    readGroup_perm hlines hp fileHash) rfl a

include hlines hanalyses in
/-- The paths of the contexts are those of the rows. -/
theorem filedPaths_iff {projectName : String} (hp : projectName ≠ "") (fileHash path : String) :
    (readGroup d db projectName fileHash).filedPaths (groupLines d db projectName fileHash)
        (groupAnalyses d db projectName fileHash) path ↔
      db.Files d projectName fileHash path := by
  have hl : ∀ l, l ∈ groupLines d db projectName fileHash ↔ _ := fun l =>
    (groupLines_perm d db projectName fileHash).mem_iff.trans mem_groupFacts
  have ha : ∀ a, a ∈ groupAnalyses d db projectName fileHash ↔ _ := fun a =>
    (groupAnalyses_perm d db projectName fileHash).mem_iff.trans mem_groupFacts
  simp only [Regrouping.filedPaths, hl, ha, LegacyDb.Files]
  refine or_congr ⟨?_, ?_⟩ ⟨?_, ?_⟩
  · rintro ⟨_, ⟨r, hr, rfl, rfl, _, rfl⟩, rfl⟩
    exact ⟨r, hr, rfl, rfl, rfl⟩
  · rintro ⟨r, hr, rfl, rfl, rfl⟩
    exact ⟨_, ⟨r, hr, rfl, rfl, (hlines r hr hp).1, rfl⟩, rfl⟩
  · rintro ⟨_, ⟨r, hr, rfl, rfl, _, rfl⟩, rfl⟩
    exact ⟨r, hr, rfl, rfl, (readGroup_analysisPath hlines hp _ _).symm⟩
  · rintro ⟨r, hr, rfl, rfl, rfl⟩
    exact ⟨_, ⟨r, hr, rfl, rfl, (hanalyses r hr hp).1, rfl⟩, readGroup_analysisPath hlines hp _ _⟩

end Keys

/-- **When the migration accounts for every row**: the condition is one on the rows alone, so it
does not depend on the batch size. -/
theorem accounts_iff (d : Digests) (db : LegacyDb) (batchSize : Nat) (hb : 0 < batchSize) :
    Accounts d db batchSize ↔ Accountable d db := by
  constructor
  · intro h
    obtain ⟨hlk, hl⟩ := (lines_perm_iff hb).1 h.lines
    obtain ⟨hak, ha⟩ := (analyses_perm_iff hb).1 h.analyses
    refine ⟨hlk, hak, ?_, ?_, ?_⟩
    · intro r hr r' hr' hp hproj hhash hnum hpath
      refine hl r hr r' hr' hp hproj hhash (Prod.ext ?_ hnum)
      simpa only [readGroup_linePath, LegacyDb.linePath, ← hproj, ← hhash] using hpath
    · intro r hr r' hr' hp hproj hhash hnum hpath
      refine ha r hr r' hr' hp hproj hhash (Prod.ext ?_ hnum)
      simpa only [readGroup_analysisPath hlk hp, LegacyDb.analysisPath, ← hproj, ← hhash]
        using hpath
    · intro p hp fileHash x y hx hy hne
      -- the hash has a row, so the migration visits it
      have hvisit : p ∈ projectNames db ∧ fileHash ∈ visitedHashes db p batchSize := by
        rw [mem_projectNames, mem_visitedHashes hb, mem_legacyFileKeys]
        rcases hx with ⟨r, hr, rfl, rfl, _⟩ | ⟨r, hr, rfl, rfl, _⟩
        · exact ⟨⟨hp, .inr (.inl ⟨r, hr, rfl⟩)⟩, .inl ⟨r, hr, rfl, rfl⟩, (hlk r hr hp).2⟩
        · exact ⟨⟨hp, .inl ⟨r, hr, rfl⟩⟩, .inr ⟨r, hr, rfl, rfl⟩, (hak r hr hp).2⟩
      have hid := (identities_nodup_iff hb).1 (h.identities p hvisit.1) fileHash hvisit.2 x y
        ((filedPaths_iff hlk hak hp fileHash x).2 hx) ((filedPaths_iff hlk hak hp fileHash y).2 hy)
      rw [repositoryFor_eq_iff, pathConflict_perm (readGroup_perm hlk hp fileHash)] at hid
      by_contra hc
      refine hne (hid fun hconf => ?_)
      by_contra hd
      exact hc ⟨hconf, hd⟩
  · intro h
    refine ⟨?_, ?_, ?_, ?_⟩
    · refine (lines_perm_iff hb).2 ⟨h.lineKeys, fun r hr r' hr' hp hproj hhash he => ?_⟩
      refine h.lines r hr r' hr' hp hproj hhash (congrArg Prod.snd he) ?_
      simpa only [readGroup_linePath, LegacyDb.linePath, ← hproj, ← hhash]
        using congrArg Prod.fst he
    · refine (analyses_perm_iff hb).2 ⟨h.analysisKeys, fun r hr r' hr' hp hproj hhash he => ?_⟩
      refine h.analyses r hr r' hr' hp hproj hhash (congrArg Prod.snd he) ?_
      simpa only [readGroup_analysisPath h.lineKeys hp, LegacyDb.analysisPath, ← hproj, ← hhash]
        using congrArg Prod.fst he
    · intro c hc
      obtain ⟨p, _, hc⟩ := List.mem_flatMap.1 hc
      obtain ⟨fileHash, _, hc⟩ := List.mem_flatMap.1 hc
      exact ((filed_legacyFileContexts d db p fileHash).holds c hc).indexed
    · intro p hp
      have hne := (mem_projectNames.1 hp).1
      refine (identities_nodup_iff hb).2 fun fileHash _ x y hx hy he => ?_
      by_contra hxy
      obtain ⟨hconf, hdigits⟩ := h.paths p hne fileHash x y
        ((filedPaths_iff h.lineKeys h.analysisKeys hne fileHash x).1 hx)
        ((filedPaths_iff h.lineKeys h.analysisKeys hne fileHash y).1 hy) hxy
      rw [repositoryFor_eq_iff, pathConflict_perm (readGroup_perm h.lineKeys hne fileHash)] at he
      exact hdigits (he hconf)

/-! ## Two legacy databases -/

namespace Sample

/-- The hashes of the two paths below. -/
def digests : Digests where
  md5 := fun path => if path = "src/one.c" then "abef3dc3e46a249f3d38b3e8f380762e"
    else if path = "src/two.c" then "c7ef3b4b314bd540bcc06c47eb8b7466" else ""
  sha256 := fun path =>
    if path = "src/one.c" then "1d70d460c0f4fbae1b290aeb339b9e76c65fb78638b65d08b1941cbb98d424f9"
    else if path = "src/two.c" then
      "cbad318bbb2580fb0d9590788b80e04ebe8e9901d9d77842b3ebcd63310f3a09"
    else ""
  linePayload := fun r => toString r.id
  analysisPayload := fun r => toString r.id

/-- Two paths with one hash on the same line, and an analysis of the first. -/
def conflictDb : LegacyDb where
  lines := [
    { id := 1, projectName := "project-a", filePath := "src/one.c", filePathHash := "f",
      lineNumber := 10 },
    { id := 2, projectName := "project-a", filePath := "src/two.c", filePathHash := "f",
      lineNumber := 10 }]
  analyses := [
    { id := 1, projectName := "project-a", filePath := "src/one.c", filePathHash := "f",
      lineNumber := 10, status := some "可覆盖" }]
  otherProjects := ["project-a"]
  lineKey := by decide
  analysisKey := by decide

/-- A line and its analysis from before the hash column was filled. -/
def hashlessDb : LegacyDb where
  lines := [
    { id := 1, projectName := "project-a", filePath := "src/one.c", filePathHash := "",
      lineNumber := 10 }]
  analyses := [
    { id := 1, projectName := "project-a", filePath := "src/one.c", filePathHash := "",
      lineNumber := 10, status := some "可覆盖" }]
  otherProjects := ["project-a"]
  lineKey := by decide
  analysisKey := by decide

end Sample

/-- The conflicting paths get two contexts, and all rows are in them. -/
theorem accounts_iff_sample :
    (allContexts Sample.digests Sample.conflictDb 1).length = 2 ∧
      Accountable Sample.digests Sample.conflictDb :=
  ⟨by decide +kernel, (accounts_iff Sample.digests Sample.conflictDb 1 (by decide)).1
    ⟨by decide +kernel, by decide +kernel, by decide +kernel, by decide +kernel⟩⟩

/-- Rows without a hash are in no context, although `_legacy_key` has a hash for them. -/
theorem hashless_rows_escape :
    (Sample.hashlessDb.analysisFacts Sample.digests).map AnalysisFact.filePathHash =
        ["abef3dc3e46a249f3d38b3e8f380762e"] ∧
      allContexts Sample.digests Sample.hashlessDb 500 = [] ∧
      ¬ Accounts Sample.digests Sample.hashlessDb 500 := by
  have hnone : allContexts Sample.digests Sample.hashlessDb 500 = [] := by decide +kernel
  refine ⟨by decide +kernel, hnone, fun h => ?_⟩
  have hlen := h.analyses.length_eq
  rw [hnone] at hlen
  exact absurd hlen (by decide +kernel)

end LegacyMigration

end FosCoverage
