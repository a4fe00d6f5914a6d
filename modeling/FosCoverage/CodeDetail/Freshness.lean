import FosCoverage.CodeDetail.Requests
import FosCoverage.Lib.Trace

/-!
# Overlays are never stale

A request reads the data version with its identity and the overlay later, maybe from a cache entry
that another thread made, and any number of transactions may commit in between.

* `Entry` is what holds of every entry of the two caches: an identity was found at a state with the
  version of its key, and an overlay was loaded from a state with **at least** the version of its
  key.
* `Progress` is what holds of a thread where it stands: the version of its identity was seen by a
  query of this request or of the one that loaded it, and the overlay is one that may stand in the
  cache.
* Every step of the system keeps both (`FreshWorld.exec`), so they hold in every run.

A state with at least the version a mutation left has seen the mutation (`Committed.seen`); the rest
is `loadOverlay_visible`.
-/

set_option autoImplicit false

namespace FosCoverage

namespace CodeDetail

open Relational

variable {env : Env} {cfg : Config} {commits : List Action}

/-! ## Entries -/

/-- The data version of a project after so many commits. -/
def versionAt (env : Env) (commits : List Action) (n p : Nat) : Nat :=
  ((Db.upTo env commits n).stateOf p).dataVersion

theorem versionAt_append {n : Nat} (h : n ≤ commits.length) (more : List Action) (p : Nat) :
    versionAt env (commits ++ more) n p = versionAt env commits n p := by
  rw [versionAt, Db.upTo_append h, versionAt]

theorem versionAt_mono {i j : Nat} (h : i ≤ j) (p : Nat) :
    versionAt env commits i p ≤ versionAt env commits j p :=
  Db.versions_upTo h p

/-- The file query found the row at some moment, the latest the one after `n` commits. -/
def FoundBy (env : Env) (commits : List Action) (n : Nat) (base : BaseKey) (row : FileVersion) :
    Prop :=
  ∃ w ≤ n, findFile env (Db.upTo env commits w) base = some row

/-- The overlay was loaded from a state that had the version. -/
def LoadedFrom (env : Env) (commits : List Action) (key : OverlayKey) (overlay : Overlay) : Prop :=
  ∃ w ≤ commits.length, ∃ p db', ScanOf env commits key.scanId p ∧
    key.dataVersion ≤ versionAt env commits w p ∧
    overlay = loadOverlay (Db.upTo env commits w) db' key.scanId key.fileId key.ranges

/-- What holds of an entry of a cache. -/
def Entry (env : Env) (commits : List Action) : (n : CacheName) → n.Key → n.Value → Prop
  | .identity, key, identity => FoundBy env commits commits.length key.base identity.fileRow ∧
      key.dataVersion = identity.fileRow.dataVersion
  | .overlay, key, overlay => LoadedFrom env commits key overlay

theorem FoundBy.mono {n n' : Nat} {base : BaseKey} {row : FileVersion}
    (h : FoundBy env commits n base row) (hn : n ≤ n') : FoundBy env commits n' base row := by
  obtain ⟨w, hw, hf⟩ := h
  exact ⟨w, Nat.le_trans hw hn, hf⟩

theorem FoundBy.append {n : Nat} {base : BaseKey} {row : FileVersion}
    (h : FoundBy env commits n base row) (hn : n ≤ commits.length) (more : List Action) :
    FoundBy env (commits ++ more) n base row := by
  obtain ⟨w, hw, hf⟩ := h
  exact ⟨w, hw, by rw [Db.upTo_append (Nat.le_trans hw hn)]; exact hf⟩

/-- The row has the project of its scan, and the version its project had. -/
theorem FoundBy.spec {n : Nat} {base : BaseKey} {row : FileVersion}
    (h : FoundBy env commits n base row) (hn : n ≤ commits.length) :
    ScanOf env commits base.scanId row.projectId ∧
      ∃ w ≤ n, versionAt env commits w row.projectId = row.dataVersion := by
  obtain ⟨w, hw, hf⟩ := h
  obtain ⟨_, _, scan, hscan, hp, hv⟩ := findFile_spec hf
  exact ⟨⟨w, Nat.le_trans hw hn, by rw [hscan, Option.map_some, hp]⟩, w, hw, hv.symm⟩

theorem LoadedFrom.append {key : OverlayKey} {overlay : Overlay}
    (h : LoadedFrom env commits key overlay) (more : List Action) :
    LoadedFrom env (commits ++ more) key overlay := by
  obtain ⟨w, hw, p, db', hs, hv, ho⟩ := h
  refine ⟨w, ?_, p, db', hs.append more, ?_, ?_⟩
  · rw [List.length_append]
    omega
  · rw [versionAt_append hw]
    exact hv
  · rw [Db.upTo_append hw]
    exact ho

theorem Entry.append {n : CacheName} {key : n.Key} {value : n.Value}
    (h : Entry env commits n key value) (more : List Action) :
    Entry env (commits ++ more) n key value := by
  cases n with
  | identity =>
    refine ⟨?_, h.2⟩
    exact (h.1.append (Nat.le_refl _) more).mono (by rw [List.length_append]; omega)
  | overlay => exact LoadedFrom.append h more

/-! ## The caches -/

/-- Every entry is sound, and the index names entries of its file. -/
structure CachesOk (P : (n : CacheName) → n.Key → n.Value → Prop) (s : Service) : Prop where
  /-- The entries of the two caches. -/
  entries : ∀ n key value, (s.cache n).get? key = some value → P n key value
  /-- The index. -/
  index : ∀ base key, s.identityIndex.get? base = some key → key.base = base

namespace CachesOk

variable {P : (n : CacheName) → n.Key → n.Value → Prop} {s s' : Service}

/-- A section that adds nothing. -/
theorem of_sub (h : CachesOk P s)
    (hcache : ∀ n key value, (s'.cache n).get? key = some value →
      (s.cache n).get? key = some value)
    (hindex : ∀ base key, s'.identityIndex.get? base = some key →
      s.identityIndex.get? base = some key) : CachesOk P s' :=
  ⟨fun n key value hk => h.entries n key value (hcache n key value hk),
    fun base key hk => h.index base key (hindex base key hk)⟩

/-- A section that touches neither the caches nor the index. -/
theorem of_eq (h : CachesOk P s) (hi : s'.identityCache = s.identityCache)
    (ho : s'.overlayCache = s.overlayCache) (hx : s'.identityIndex = s.identityIndex) :
    CachesOk P s' := by
  refine h.of_sub (fun n key value hk => ?_) (fun base key hk => by rw [← hx]; exact hk)
  cases n with
  | identity => rw [← hk]; exact congrArg (fun c => SizedCache.get? c key) hi.symm
  | overlay => rw [← hk]; exact congrArg (fun c => SizedCache.get? c key) ho.symm

theorem init (P : (n : CacheName) → n.Key → n.Value → Prop) (cfg : Config) :
    CachesOk P (Service.init cfg) := by
  refine ⟨fun n key value h => ?_, fun base key h => (nomatch h)⟩
  cases n <;> cases h

theorem remove (h : CachesOk P s) (n : CacheName) (key : n.Key) :
    CachesOk P (s.removeServiceEntryLocked n key) := by
  unfold Service.removeServiceEntryLocked
  split
  · refine h.of_sub (fun n' key' value hk => ?_) (fun base key' hk => ?_)
    · cases n with
      | identity =>
        cases n' with
        | identity =>
          replace hk : (s.identityCache.remove key).get? key' = some value := hk
          rw [SizedCache.get?_remove] at hk
          split at hk
          · cases hk
          · exact hk
        | overlay =>
          replace hk : (s.forgetIndex .identity key).overlayCache.get? key' = some value := hk
          simp only [Service.forgetIndex] at hk
          split at hk <;> exact hk
      | overlay =>
        cases n' with
        | identity => exact hk
        | overlay =>
          replace hk : (s.overlayCache.remove key).get? key' = some value := hk
          rw [SizedCache.get?_remove] at hk
          split at hk
          · cases hk
          · exact hk
    · cases n with
      | identity =>
        replace hk : (s.forgetIndex .identity key).identityIndex.get? base = some key' := hk
        simp only [Service.forgetIndex] at hk
        split at hk
        · rw [Keyed.get?_erase] at hk
          split at hk
          · cases hk
          · exact hk
        · exact hk
      | overlay => exact hk
  · exact h

theorem makeRoom (h : CachesOk P s) (cfg : Config) (n : CacheName) (key : n.Key) (size : Nat) :
    CachesOk P (s.makeRoom cfg n key size) := by
  refine evictWhile_inv (fun t t' ht he => ?_) (h.remove n key) _
  obtain ⟨key', _, rfl⟩ := Option.map_eq_some_iff.1 he
  exact ht.remove n key'

/-- A sound value may be stored. -/
theorem store (h : CachesOk P s) (cfg : Config) {n : CacheName} {key : n.Key} {value : n.Value}
    (hp : P n key value) : CachesOk P (s.storeServiceEntryLocked cfg n key value) := by
  unfold Service.storeServiceEntryLocked
  dsimp only
  split
  · exact h
  · have hroom := h.makeRoom cfg n key (estimateCacheBytes (cfg.text n value))
    generalize s.makeRoom cfg n key (estimateCacheBytes (cfg.text n value)) = t at hroom ⊢
    split
    · exact hroom
    · split
      · exact hroom
      · refine ⟨fun n' key' value' hk => ?_, fun base key' hk => ?_⟩
        · cases n with
          | identity =>
            cases n' with
            | identity =>
              replace hk : (t.identityCache.push key value _).get? key' = some value' := hk
              rw [SizedCache.get?_push] at hk
              split at hk
              · rename_i he
                obtain rfl := Option.some.inj hk
                rw [he]
                exact hp
              · exact hroom.entries .identity key' value' hk
            | overlay => exact hroom.entries .overlay key' value' hk
          | overlay =>
            cases n' with
            | identity => exact hroom.entries .identity key' value' hk
            | overlay =>
              replace hk : (t.overlayCache.push key value _).get? key' = some value' := hk
              rw [SizedCache.get?_push] at hk
              split at hk
              · rename_i he
                obtain rfl := Option.some.inj hk
                rw [he]
                exact hp
              · exact hroom.entries .overlay key' value' hk
        · cases n <;> exact hroom.index base key' hk

theorem touchIdentity (h : CachesOk P s) (key : IdentityKey) :
    CachesOk P { s with identityCache := s.identityCache.touch key } := by
  refine h.of_sub (fun n key' value hk => ?_) fun _ _ hk => hk
  cases n with
  | identity =>
    replace hk : (s.identityCache.touch key).get? key' = some value := hk
    rw [SizedCache.get?_touch] at hk
    exact hk
  | overlay => exact hk

theorem lookupIdentity (h : CachesOk P s) (base : BaseKey) :
    CachesOk P (s.lookupIdentity base).1 ∧ ∀ key identity,
      (s.lookupIdentity base).2 = some (key, identity) → key.base = base ∧
        P .identity key identity := by
  unfold Service.lookupIdentity
  split
  · exact ⟨h, fun _ _ hk => (nomatch hk)⟩
  · rename_i key hindex
    split
    · exact ⟨h, fun _ _ hk => (nomatch hk)⟩
    · rename_i identity hcache
      refine ⟨h.touchIdentity key, fun key' identity' hk => ?_⟩
      obtain ⟨rfl, rfl⟩ := Prod.mk.inj (Option.some.inj hk)
      exact ⟨h.index base key hindex, h.entries .identity key identity hcache⟩

theorem recheckIdentity (h : CachesOk P s) (base : BaseKey) (key : IdentityKey) :
    CachesOk P (s.recheckIdentity base key).1 ∧ ∀ identity,
      (s.recheckIdentity base key).2 = some identity → P .identity key identity := by
  unfold Service.recheckIdentity
  split
  · exact ⟨h, fun _ hk => (nomatch hk)⟩
  · rename_i identity hcache
    split
    · refine ⟨h.touchIdentity key, fun identity' hk => ?_⟩
      obtain rfl := Option.some.inj hk
      exact h.entries .identity key identity hcache
    · exact ⟨h, fun _ hk => (nomatch hk)⟩

theorem dropIdentity (h : CachesOk P s) (base : BaseKey) (key : IdentityKey) :
    CachesOk P (s.dropIdentity base key) := by
  unfold Service.dropIdentity
  split
  · refine CachesOk.remove ?_ .identity key
    refine h.of_sub (fun n key' value hk => ?_) fun base' key' hk => ?_
    · cases n <;> exact hk
    · replace hk : (s.identityIndex.erase base).get? base' = some key' := hk
      rw [Keyed.get?_erase] at hk
      split at hk
      · cases hk
      · exact hk
  · exact h

theorem enterIdentity (h : CachesOk P s) (base : BaseKey) :
    CachesOk P (s.enterIdentity base).1 := by
  unfold Service.enterIdentity
  split
  · exact h
  · exact h.of_eq rfl rfl rfl

theorem publishIdentity (h : CachesOk P s) (cfg : Config) {base : BaseKey} {identity : Identity}
    (hp : P .identity ⟨base, identity.fileRow.dataVersion, identity.report.assetIdentity⟩
      identity) : CachesOk P (s.publishIdentity cfg base identity) := by
  have hstored := h.store cfg hp
  unfold Service.publishIdentity
  dsimp only
  generalize s.storeServiceEntryLocked cfg .identity
    ⟨base, identity.fileRow.dataVersion, identity.report.assetIdentity⟩ identity = t at hstored ⊢
  refine ⟨fun n key value hk => hstored.entries n key value ?_, fun base' key hk => ?_⟩
  · cases n <;> exact hk
  · dsimp only at hk
    split at hk
    · rw [Keyed.get?_put] at hk
      split at hk
      · rename_i he
        obtain rfl := Option.some.inj hk
        exact he.symm
      · exact hstored.index base' key hk
    · exact hstored.index base' key hk

theorem enterOverlay (h : CachesOk P s) (key : OverlayKey) :
    CachesOk P (s.enterOverlay key).1 ∧ ∀ overlay,
      (s.enterOverlay key).2 = .hit overlay → P .overlay key overlay := by
  unfold Service.enterOverlay
  split
  · rename_i overlay hcache
    refine ⟨h.of_sub (fun n key' value hk => ?_) fun _ _ hk => hk, fun overlay' hk => ?_⟩
    · cases n with
      | identity => exact hk
      | overlay =>
        replace hk : (s.overlayCache.touch key).get? key' = some value := hk
        rw [SizedCache.get?_touch] at hk
        exact hk
    · injection hk with hk
      subst hk
      exact h.entries .overlay key _ hcache
  · split
    · exact ⟨h, fun _ hk => (nomatch hk)⟩
    · exact ⟨h.of_eq rfl rfl rfl, fun _ hk => (nomatch hk)⟩

theorem publishOverlay (h : CachesOk P s) (cfg : Config) {key : OverlayKey} {overlay : Overlay}
    (hp : P .overlay key overlay) : CachesOk P (s.publishOverlay cfg key overlay).1 ∧
      P .overlay key (s.publishOverlay cfg key overlay).2 := by
  have hstored := h.store cfg hp
  unfold Service.publishOverlay
  dsimp only
  generalize s.storeServiceEntryLocked cfg .overlay key overlay = t at hstored ⊢
  refine ⟨hstored.of_eq rfl rfl rfl, ?_⟩
  cases hcache : t.overlayCache.get? key with
  | none => exact hp
  | some overlay' => exact hstored.entries .overlay key overlay' hcache

theorem withStore (h : CachesOk P s) (id : Nat)
    (f : SidecarStore.Account → SidecarStore.Account) : CachesOk P (s.withStore id f) := by
  unfold Service.withStore
  split
  · exact h
  · exact h.of_eq rfl rfl rfl

theorem findSidecarStore (h : CachesOk P s) (key : String × String) :
    CachesOk P (s.findSidecarStore key).1 := by
  unfold Service.findSidecarStore
  split
  · exact h
  · exact h.of_eq rfl rfl rfl

theorem insertSidecarStore (h : CachesOk P s) (cfg : Config) (key : String × String) :
    CachesOk P (s.insertSidecarStore cfg key).1 := by
  unfold Service.insertSidecarStore
  split
  · exact h.of_eq rfl rfl rfl
  · have hpush : CachesOk P { s with
        heap := s.heap.put s.nextStore .empty
        nextStore := s.nextStore + 1
        sidecarStores := s.sidecarStores.push key s.nextStore } := h.of_eq rfl rfl rfl
    refine evictWhile_inv (fun t t' ht he => ?_) hpush _
    obtain ⟨key', _, he⟩ := Option.bind_eq_some_iff.1 he
    obtain ⟨id, _, rfl⟩ := Option.map_eq_some_iff.1 he
    refine CachesOk.withStore ?_ id _
    exact ht.of_eq rfl rfl rfl

end CachesOk

/-! ## Threads -/

/-- The identity was found by the request or by another one, and a query has seen its version. -/
structure Resolved (env : Env) (commits : List Action) (since : Nat) (base : BaseKey)
    (identity : Identity) : Prop where
  /-- The file was found. -/
  found : FoundBy env commits commits.length base identity.fileRow
  /-- The version was seen. -/
  observed : ∃ w ≤ since, versionAt env commits w identity.fileRow.projectId =
    identity.fileRow.dataVersion

/-- The ranges of `_overlay` are those of the request. -/
def RangesOf (r : Request) (ranges : List LineRange) : Prop :=
  match r.ranges with
  | none => ranges = []
  | some items => ranges = items.map RangeItem.range

/-- The domain had no row for the file at a moment that had the version of the identity. -/
def NoRow (env : Env) (commits : List Action) (base : BaseKey) (since : Nat) (identity : Identity)
    (ranges : List LineRange) : Prop :=
  ∃ w ≤ since,
    identity.fileRow.dataVersion ≤ versionAt env commits w identity.fileRow.projectId ∧
    readFile (Db.upTo env commits w) base.scanId identity.fileRow.id (overlayRanges ranges) = []

/-- What holds of a thread where it stands, by its request and its latest query. -/
def Progress (env : Env) (commits : List Action) (r : Request) (since : Nat) : Pc → Prop
  | .idle | .lookup | .drop _ | .enter | .waitIdentity _ | .load | .raised => True
  | .query key cached => key.base = r.base ∧ Entry env commits .identity key cached
  | .recheck key => key.base = r.base ∧ ∃ p, ScanOf env commits key.base.scanId p ∧
      ∃ w ≤ since, versionAt env commits w p = key.dataVersion
  | .findStore _ row | .insertStore _ row => FoundBy env commits since r.base row
  | .publish identity | .metadata identity => Resolved env commits since r.base identity
  | .enterOverlay identity ranges | .waitOverlay identity ranges _ | .readDomain identity ranges =>
    Resolved env commits since r.base identity ∧ RangesOf r ranges
  | .readLegacy identity ranges => Resolved env commits since r.base identity ∧
      RangesOf r ranges ∧ NoRow env commits r.base since identity ranges
  | .publishOverlay identity ranges overlay | .render identity ranges overlay
  | .done identity ranges overlay => Resolved env commits since r.base identity ∧
      RangesOf r ranges ∧ LoadedFrom env commits (overlayKey r.base identity ranges) overlay

theorem Resolved.append {since : Nat} {base : BaseKey} {identity : Identity}
    (h : Resolved env commits since base identity) (hs : since ≤ commits.length)
    (more : List Action) : Resolved env (commits ++ more) since base identity := by
  obtain ⟨w, hw, hv⟩ := h.observed
  refine ⟨(h.found.append (Nat.le_refl _) more).mono (by rw [List.length_append]; omega),
    w, hw, ?_⟩
  rw [versionAt_append (Nat.le_trans hw hs)]
  exact hv

/-- The scan of the request has the project of the identity. -/
theorem Resolved.scanOf {since : Nat} {base : BaseKey} {identity : Identity}
    (h : Resolved env commits since base identity) :
    ScanOf env commits base.scanId identity.fileRow.projectId :=
  (h.found.spec (Nat.le_refl _)).1

/-- A later query has seen at least the version of the identity. -/
theorem Resolved.version_le {since seen : Nat} {base : BaseKey} {identity : Identity}
    (h : Resolved env commits since base identity) (hs : since ≤ seen) :
    identity.fileRow.dataVersion ≤ versionAt env commits seen identity.fileRow.projectId := by
  obtain ⟨w, hw, hv⟩ := h.observed
  rw [← hv]
  exact versionAt_mono (Nat.le_trans hw hs) _

theorem Resolved.later {since seen : Nat} {base : BaseKey} {identity : Identity}
    (h : Resolved env commits since base identity) (hs : since ≤ seen) :
    Resolved env commits seen base identity := by
  obtain ⟨w, hw, hv⟩ := h.observed
  exact ⟨h.found, w, Nat.le_trans hw hs, hv⟩

theorem NoRow.append {base : BaseKey} {since : Nat} {identity : Identity} {ranges : List LineRange}
    (h : NoRow env commits base since identity ranges) (hs : since ≤ commits.length)
    (more : List Action) : NoRow env (commits ++ more) base since identity ranges := by
  obtain ⟨w, hw, hv, hr⟩ := h
  refine ⟨w, hw, ?_, ?_⟩
  · rw [versionAt_append (Nat.le_trans hw hs)]
    exact hv
  · rw [Db.upTo_append (Nat.le_trans hw hs)]
    exact hr

/-- A commit takes nothing from a thread. -/
theorem Progress.append {r : Request} {since : Nat} {pc : Pc}
    (h : Progress env commits r since pc) (hs : since ≤ commits.length) (more : List Action) :
    Progress env (commits ++ more) r since pc := by
  cases pc with
  | idle => trivial
  | lookup => trivial
  | drop => trivial
  | enter => trivial
  | waitIdentity => trivial
  | load => trivial
  | raised => trivial
  | query key cached => exact ⟨h.1, h.2.append more⟩
  | recheck key =>
    obtain ⟨hb, p, hp, w, hw, hv⟩ := h
    refine ⟨hb, p, hp.append more, w, hw, ?_⟩
    rw [versionAt_append (Nat.le_trans hw hs)]
    exact hv
  | findStore report row => exact FoundBy.append h hs more
  | insertStore report row => exact FoundBy.append h hs more
  | publish identity => exact Resolved.append h hs more
  | metadata identity => exact Resolved.append h hs more
  | enterOverlay identity ranges => exact ⟨h.1.append hs more, h.2⟩
  | waitOverlay identity ranges event => exact ⟨h.1.append hs more, h.2⟩
  | readDomain identity ranges => exact ⟨h.1.append hs more, h.2⟩
  | readLegacy identity ranges => exact ⟨h.1.append hs more, h.2.1, h.2.2.append hs more⟩
  | publishOverlay identity ranges overlay =>
    exact ⟨h.1.append hs more, h.2.1, h.2.2.append more⟩
  | render identity ranges overlay => exact ⟨h.1.append hs more, h.2.1, h.2.2.append more⟩
  | done identity ranges overlay => exact ⟨h.1.append hs more, h.2.1, h.2.2.append more⟩

/-! ## Steps -/

/-- The service and a thread after a step. -/
structure StepOk (env : Env) (commits : List Action) (r : Service × Thread) : Prop where
  /-- The caches. -/
  caches : CachesOk (Entry env commits) r.1
  /-- The latest query. -/
  since : r.2.since ≤ commits.length
  /-- The thread. -/
  progress : Progress env commits r.2.request r.2.since r.2.pc

section Steps

variable {s : Service} {t : Thread} {e : Event}

theorem StepOk.fail (hc : CachesOk (Entry env commits) s) (hs : t.since ≤ commits.length) :
    StepOk env commits (t.fail s) := by
  unfold Thread.fail
  split <;> exact ⟨hc.of_eq rfl rfl rfl, hs, trivial⟩

/-- The thread has seen the state of a query. -/
theorem sees_iff {seen : Nat} :
    t.sees commits.length seen = true ↔ t.since ≤ seen ∧ seen ≤ commits.length := by
  rw [Thread.sees, decide_eq_true_eq]

/-- **The steps of `_identity`.** -/
theorem StepOk.identity (hc : CachesOk (Entry env commits) s) (hs : t.since ≤ commits.length)
    (hp : Progress env commits t.request t.since t.pc) :
    StepOk env commits (t.stepIdentity env cfg (Db.upTo env commits) commits.length s e) := by
  unfold Thread.stepIdentity
  dsimp only
  split
  · obtain ⟨hc', hfound⟩ := hc.lookupIdentity t.request.base
    split
    · rename_i heq
      rw [heq] at hc' hfound
      obtain ⟨hb, he⟩ := hfound _ _ rfl
      exact ⟨hc', hs, hb, he⟩
    · rename_i heq
      rw [heq] at hc'
      exact ⟨hc', hs, trivial⟩
  · rename_i key cached seen hpc
    rw [hpc] at hp
    obtain ⟨hb, hfound, hkey⟩ := hp
    split
    · rename_i hsees
      obtain ⟨_, hle⟩ := sees_iff.1 hsees
      refine ⟨hc, hle, ?_⟩
      show Progress env commits t.request seen (if _ then _ else _)
      split
      · rename_i hv
        exact ⟨hb, _, (hfound.spec (Nat.le_refl _)).1, seen, Nat.le_refl _, hv.trans hkey.symm⟩
      · trivial
    · refine ⟨hc, hs, ?_⟩
      rw [hpc]
      exact ⟨hb, hfound, hkey⟩
  · rename_i key hpc
    rw [hpc] at hp
    obtain ⟨hb, p, hscan, w, hw, hv⟩ := hp
    obtain ⟨hc', hentry⟩ := hc.recheckIdentity t.request.base key
    split
    · rename_i identity heq
      rw [heq] at hc' hentry
      obtain ⟨hfound, hkey⟩ := hentry identity rfl
      obtain rfl := hscan.unique (hfound.spec (Nat.le_refl _)).1
      refine ⟨hc', hs, ?_⟩
      show Resolved env commits t.since t.request.base identity
      rw [← hb]
      exact ⟨hfound, w, hw, hv.trans hkey⟩
    · rename_i heq
      rw [heq] at hc'
      exact ⟨hc', hs, trivial⟩
  · exact ⟨hc.dropIdentity _ _, hs, trivial⟩
  · have hc' := hc.enterIdentity t.request.base
    split <;> (rename_i heq; rw [heq] at hc'; exact ⟨hc', hs, trivial⟩)
  · split
    · exact ⟨hc, hs, hp⟩
    · exact ⟨hc, hs, trivial⟩
  · rename_i report seen hpc
    split
    · rename_i hsees
      obtain ⟨_, hle⟩ := sees_iff.1 hsees
      split
      · exact .fail hc hs
      · rename_i row hrow
        exact ⟨hc, hle, seen, Nat.le_refl _, hrow⟩
    · exact ⟨hc, hs, hp⟩
  · rename_i report row hpc
    rw [hpc] at hp
    have hc' := hc.findSidecarStore (report.reportRoot, report.assetIdentity)
    split
    · rename_i heq
      rw [heq] at hc'
      exact ⟨hc', hs, FoundBy.mono hp hs, (FoundBy.spec hp hs).2⟩
    · rename_i heq
      rw [heq] at hc'
      exact ⟨hc', hs, hp⟩
  · rename_i report row hpc
    rw [hpc] at hp
    exact ⟨hc.insertSidecarStore cfg _, hs, FoundBy.mono hp hs, (FoundBy.spec hp hs).2⟩
  · rename_i identity hpc
    rw [hpc] at hp
    exact ⟨hc.publishIdentity cfg ⟨hp.found, rfl⟩, hs, hp⟩
  · exact ⟨hc, hs, hp⟩

/-- The steps between identity and overlay. -/
theorem StepOk.sidecar (hc : CachesOk (Entry env commits) s) (hs : t.since ≤ commits.length)
    (hp : Progress env commits t.request t.since t.pc) :
    StepOk env commits (t.stepSidecar cfg s e) := by
  unfold Thread.stepSidecar
  split
  · rename_i identity sec _
    exact ⟨hc.withStore identity.sidecar fun a => SidecarStore.runSection cfg.storeLimits a sec, hs,
      hp⟩
  · rename_i identity _ _ sec _
    exact ⟨hc.withStore identity.sidecar fun a => SidecarStore.runSection cfg.storeLimits a sec, hs,
      hp⟩
  · rename_i identity totalLines hpc
    rw [hpc] at hp
    split
    · rename_i hr
      refine ⟨hc, hs, hp, ?_⟩
      show RangesOf t.request []
      rw [RangesOf, hr]
    · rename_i items hr
      split
      · exact ⟨hc, hs, trivial⟩
      · rename_i ranges hn
        refine ⟨hc, hs, hp, ?_⟩
        unfold normalizeBatchRanges at hn
        dsimp only at hn
        split at hn
        · obtain rfl := Option.some.inj hn
          show RangesOf t.request _
          rw [RangesOf, hr]
        · cases hn
  · rename_i identity ranges overlay hpc
    rw [hpc] at hp
    exact ⟨hc, hs, hp⟩
  · exact ⟨hc, hs, hp⟩

/-- **The steps of `_overlay`.** -/
theorem StepOk.overlay (hc : CachesOk (Entry env commits) s) (hs : t.since ≤ commits.length)
    (hp : Progress env commits t.request t.since t.pc) :
    StepOk env commits (t.stepOverlay cfg (Db.upTo env commits) commits.length s e) := by
  unfold Thread.stepOverlay
  dsimp only
  split
  · rename_i identity ranges hpc
    rw [hpc] at hp
    obtain ⟨hc', hhit⟩ := hc.enterOverlay (overlayKey t.request.base identity ranges)
    split
    · rename_i overlay heq
      rw [heq] at hc' hhit
      exact ⟨hc', hs, hp.1, hp.2, hhit overlay rfl⟩
    · rename_i heq
      rw [heq] at hc'
      exact ⟨hc', hs, hp⟩
    · rename_i heq
      rw [heq] at hc'
      exact ⟨hc', hs, hp⟩
  · rename_i identity ranges event hpc
    rw [hpc] at hp
    split
    · refine ⟨hc, hs, ?_⟩
      rw [hpc]
      exact hp
    · exact ⟨hc, hs, hp⟩
  · rename_i identity ranges seen hpc
    split
    · rename_i hsees
      obtain ⟨hge, hle⟩ := sees_iff.1 hsees
      rw [hpc] at hp
      obtain ⟨hres, hranges⟩ := hp
      split
      · rename_i hread
        exact ⟨hc, hle, hres.later hge, hranges, seen, Nat.le_refl _, hres.version_le hge, hread⟩
      · rename_i hne
        refine ⟨hc, hle, hres.later hge, hranges, seen, hle, identity.fileRow.projectId,
          Db.upTo env commits seen, hres.scanOf, hres.version_le hge, ?_⟩
        exact (loadOverlay_of_ne _ hne).symm
    · exact ⟨hc, hs, hp⟩
  · rename_i identity ranges seen hpc
    split
    · rename_i hsees
      obtain ⟨hge, hle⟩ := sees_iff.1 hsees
      rw [hpc] at hp
      obtain ⟨hres, hranges, w, hw, hv, hread⟩ := hp
      refine ⟨hc, hle, hres.later hge, hranges, w, Nat.le_trans hw hs, identity.fileRow.projectId,
        Db.upTo env commits seen, hres.scanOf, hv, ?_⟩
      exact (loadOverlay_of_nil _ hread).symm
    · exact ⟨hc, hs, hp⟩
  · rename_i identity ranges overlay hpc
    rw [hpc] at hp
    obtain ⟨hres, hranges, hloaded⟩ := hp
    have hpub := @CachesOk.publishOverlay _ s hc cfg (overlayKey t.request.base identity ranges)
      overlay hloaded
    exact ⟨hpub.1, hs, hres, hranges, hpub.2⟩
  · exact ⟨hc, hs, hp⟩

/-- Where a free thread stands when it has taken a request. -/
theorem taken_cases (now : Nat) (r : Request) : ∃ pc, (pc = .idle ∨ pc = .lookup ∨ pc = .raised) ∧
    (match r.ranges with
      | some [] => (⟨r, now, .idle⟩ : Thread)
      | some items => if maxBatchRanges < items.length then ⟨r, now, .raised⟩ else ⟨r, now, .lookup⟩
      | none => ⟨r, now, .lookup⟩) = ⟨r, now, pc⟩ := by
  split
  · exact ⟨_, .inl rfl, rfl⟩
  · split
    · exact ⟨_, .inr (.inr rfl), rfl⟩
    · exact ⟨_, .inr (.inl rfl), rfl⟩
  · exact ⟨_, .inr (.inl rfl), rfl⟩

/-- A thread that is free takes the request. -/
theorem Thread.submit_cases (t : Thread) (now : Nat) (r : Request) : t.submit now r = t ∨
    ∃ pc, (pc = .idle ∨ pc = .lookup ∨ pc = .raised) ∧ t.submit now r = ⟨r, now, pc⟩ := by
  unfold Thread.submit
  split
  · exact .inr (taken_cases now r)
  · exact .inr (taken_cases now r)
  · exact .inr (taken_cases now r)
  · exact .inl rfl

/-- **Every step of a thread keeps the caches sound and the thread fresh.** -/
theorem StepOk.step (hc : CachesOk (Entry env commits) s) (hs : t.since ≤ commits.length)
    (hp : Progress env commits t.request t.since t.pc) :
    StepOk env commits (t.step env cfg (Db.upTo env commits) commits.length s e) := by
  unfold Thread.step
  split
  · exact .fail hc hs
  · split
    · exact ⟨hc, hs, hp⟩
    · exact ⟨hc, hs, hp⟩
    · exact ⟨hc, hs, hp⟩
    · exact .sidecar hc hs hp
    · exact .sidecar hc hs hp
    · exact .overlay hc hs hp
    · exact .overlay hc hs hp
    · exact .overlay hc hs hp
    · exact .overlay hc hs hp
    · exact .overlay hc hs hp
    · exact .identity hc hs hp

end Steps

/-! ## Runs -/

/-- What holds of the system after every step. -/
structure FreshWorld (env : Env) (w : World) : Prop where
  /-- The caches. -/
  caches : CachesOk (Entry env w.commits) w.service
  /-- No thread has seen more than there is. -/
  since : ∀ i, (w.threads i).since ≤ w.commits.length
  /-- The threads. -/
  progress : ∀ i, Progress env w.commits (w.threads i).request (w.threads i).since (w.threads i).pc

namespace FreshWorld

variable {w : World}

theorem init (env : Env) (cfg : Config) : FreshWorld env (World.init cfg) :=
  ⟨CachesOk.init _ cfg, fun _ => Nat.le_refl _, fun _ => trivial⟩

/-- A thread and the service are replaced. -/
theorem setThread (h : FreshWorld env w) (i : Nat) {r : Service × Thread}
    (hr : StepOk env w.commits r) :
    FreshWorld env ({ w with service := r.1 }.setThread i r.2) := by
  refine ⟨hr.caches, fun j => ?_, fun j => ?_⟩
  · show (if j = i then r.2 else w.threads j).since ≤ w.commits.length
    split
    · exact hr.since
    · exact h.since j
  · show Progress env w.commits (if j = i then r.2 else w.threads j).request
      (if j = i then r.2 else w.threads j).since (if j = i then r.2 else w.threads j).pc
    split
    · exact hr.progress
    · exact h.progress j

theorem exec (h : FreshWorld env w) (step : Step) : FreshWorld env (w.exec env cfg step) := by
  cases step with
  | commit a =>
    refine ⟨⟨fun n key value hk => (h.caches.entries n key value hk).append [a], h.caches.index⟩,
      fun i => ?_, fun i => (h.progress i).append (h.since i) [a]⟩
    show (w.threads i).since ≤ (w.commits ++ [a]).length
    rw [List.length_append]
    exact Nat.le_add_right_of_le (h.since i)
  | submit i r =>
    refine h.setThread i (r := (w.service, (w.threads i).submit w.commits.length r)) ?_
    rcases (w.threads i).submit_cases w.commits.length r with heq | ⟨pc, hpc, heq⟩
    · rw [heq]
      exact ⟨h.caches, h.since i, h.progress i⟩
    · rw [heq]
      refine ⟨h.caches, Nat.le_refl _, ?_⟩
      rcases hpc with rfl | rfl | rfl <;> trivial
  | run i e => exact h.setThread i (.step h.caches (h.since i) (h.progress i))

theorem run (env : Env) (cfg : Config) (steps : List Step) :
    FreshWorld env (Trace.run (World.exec env cfg) (World.init cfg) steps) :=
  Trace.run_inv (fun _ step h => h.exec step) (init env cfg) steps

end FreshWorld

/-- A line of the request passes the test of the query. -/
theorem RangesOf.inRanges {r : Request} {ranges : List LineRange} (h : RangesOf r ranges) {n : Nat}
    (hn : r.covers n = true) : inRanges (overlayRanges ranges) n = true := by
  unfold RangesOf at h
  unfold Request.covers at hn
  split at h
  · subst h
    rfl
  · rename_i items hr
    rw [hr] at hn
    obtain ⟨item, hitem, hin⟩ := List.any_eq_true.1 hn
    subst h
    exact inRanges_of_mem (List.mem_map_of_mem (f := RangeItem.range) hitem) hin

/-- **No overlay is stale.**  After any run, the overlay of a request that was answered shows the
lines of the request as they were in one state of the database, and that state has seen every
mutation that left a data version no later than the one of the request's identity. -/
theorem overlay_fresh (env : Env) (cfg : Config) (steps : List Step) (i : Nat)
    {identity : Identity} {ranges : List LineRange} {overlay : Overlay}
    (hdone : ((Trace.run (World.exec env cfg) (World.init cfg) steps).threads i).pc =
      .done identity ranges overlay) :
    let w := Trace.run (World.exec env cfg) (World.init cfg) steps
    let request := (w.threads i).request
    ∃ seen ≤ w.commits.length, ∀ k m l line, Committed env w.commits k m l →
      m.scanId = request.base.scanId →
      (Db.upTo env w.commits (k + 1)).facts.lines.get? l = some line →
      line.fileId = identity.fileRow.id → request.covers line.facts.lineNumber = true →
      versionAt env w.commits (k + 1) identity.fileRow.projectId ≤ identity.fileRow.dataVersion →
      k < seen ∧ ∃ row ∈ lineRows (Db.upTo env w.commits seen) request.base.scanId l line,
        overlay.get? line.facts.lineNumber = some (.domain (domainOverlayRow row)) := by
  intro w request
  have hprogress := (FreshWorld.run env cfg steps).progress i
  rw [hdone] at hprogress
  obtain ⟨hres, hranges, seen, hseen, p, db', hscan, hversion, rfl⟩ := hprogress
  obtain rfl : p = identity.fileRow.projectId := hscan.unique hres.scanOf
  refine ⟨seen, hseen, fun k m l line hm hs hline hfile hcovers hv => ?_⟩
  have hlt : k < seen := hm.seen (by rw [hs]; exact hscan) (Nat.le_trans hv hversion)
  refine ⟨hlt, ?_⟩
  have hvisible := hm.visible hlt
  rw [hs] at hvisible
  exact loadOverlay_visible (Db.reachable_upTo env w.commits seen).factsOk db'
    (Db.line_upTo hlt hline) hfile (hranges.inRanges hcovers) hvisible

/-- The thread has an answer. -/
def Pc.isDone : Pc → Bool
  | .done _ _ _ => true
  | _ => false

theorem Pc.exists_of_isDone {pc : Pc} (h : pc.isDone = true) :
    ∃ identity ranges overlay, pc = .done identity ranges overlay := by
  cases pc <;> first | exact ⟨_, _, _, rfl⟩ | cases h

/-- The layout of a file with two reviewed lines. -/
theorem overlay_fresh_opened :
    let w := Trace.run (World.exec FosCoverage.Sample.env Sample.config) (World.init Sample.config)
      (Sample.opened "a")
    let request := (w.threads 0).request
    ∃ identity ranges overlay, (w.threads 0).pc = .done identity ranges overlay ∧
      ∃ seen ≤ w.commits.length, ∀ k m l line,
        Committed FosCoverage.Sample.env w.commits k m l → m.scanId = request.base.scanId →
        (Db.upTo FosCoverage.Sample.env w.commits (k + 1)).facts.lines.get? l = some line →
        line.fileId = identity.fileRow.id → request.covers line.facts.lineNumber = true →
        versionAt FosCoverage.Sample.env w.commits (k + 1) identity.fileRow.projectId ≤
          identity.fileRow.dataVersion →
        k < seen ∧ ∃ row ∈ lineRows (Db.upTo FosCoverage.Sample.env w.commits seen)
          request.base.scanId l line,
            overlay.get? line.facts.lineNumber = some (.domain (domainOverlayRow row)) := by
  intro w request
  have hanswered : (w.threads 0).pc.isDone = true := by decide +kernel
  obtain ⟨identity, ranges, overlay, hdone⟩ := Pc.exists_of_isDone hanswered
  exact ⟨identity, ranges, overlay, hdone,
    overlay_fresh FosCoverage.Sample.env Sample.config (Sample.opened "a") 0 hdone⟩

end CodeDetail

end FosCoverage
