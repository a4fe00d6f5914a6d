import FosCoverage.CodeDetail.Overlay
import FosCoverage.CodeDetail.SidecarStore

/-!
# The caches of the code detail service

The sections of `VNextCodeDetailService` that run under its cache lock, each as one function on the
state of the service.

* The identity cache and the overlay cache are keyed by a data version.  `_identity_index` names the
  key of the latest identity, `_identity_inflight` and `_overlay_inflight` hold the event of the
  request that is loading.
* A sidecar store is an object that outlives its place in `_sidecar_stores`: identities and requests
  keep their reference.  `heap` has all stores by number, `sidecarStores` the numbers that are held.
* `json.dumps` of an identity and of an overlay, and the name of a sidecar file, are parameters of
  the configuration.

The reports, their registry and the checks on them are the business of the caller: a request that
passes them arrives with the asset identity and the root of its report.
-/

set_option autoImplicit false

namespace FosCoverage

namespace CodeDetail

open Relational

/-! ## Identities -/

/-- `base_key` -/
structure BaseKey where
  /-- `scan_id` -/
  scanId : Nat
  /-- `report_id` -/
  reportId : String
  /-- `repository_name` -/
  repositoryName : String
  /-- `file_path`, normalised -/
  filePath : String
  deriving DecidableEq, Repr

/-- `full_key` of the identity cache. -/
structure IdentityKey where
  /-- The file that was asked for. -/
  base : BaseKey
  /-- The version it was read at. -/
  dataVersion : Nat
  /-- The asset of the report. -/
  assetIdentity : String
  deriving DecidableEq, Repr

/-- The report of a request, as far as it matters after the checks. -/
structure ReportRoot where
  /-- `asset_identity` -/
  assetIdentity : String
  /-- `report_root`, resolved -/
  reportRoot : String
  deriving DecidableEq, Repr

/-- A row of the file query: the file with the project of its scan and the project's version. -/
structure FileVersion where
  /-- `f.id` -/
  id : Nat
  /-- `f.*` -/
  file : FileRow
  /-- `s.project_id` -/
  projectId : Nat
  /-- `COALESCE(ps.data_version, 0)` -/
  dataVersion : Nat
  deriving DecidableEq, Repr

/-- What `_identity` returns: report, file, name of the sidecar file, and sidecar store. -/
structure Identity where
  /-- `report` -/
  report : ReportRoot
  /-- `file_row` -/
  fileRow : FileVersion
  /-- `key` -/
  key : String
  /-- `sidecar`, by number -/
  sidecar : Nat
  deriving DecidableEq, Repr

/-- `cache_key` of the overlay cache. -/
structure OverlayKey where
  /-- `report_id` -/
  reportId : String
  /-- `scan_id` -/
  scanId : Nat
  /-- `file_id` -/
  fileId : Nat
  /-- `data_version` -/
  dataVersion : Nat
  /-- `asset_identity` -/
  assetIdentity : String
  /-- `range_key` -/
  ranges : List LineRange
  deriving DecidableEq, Repr

/-- The rows of the file query for a base key and a test of the file. -/
def selectFiles (db : Db) (base : BaseKey) (p : FileRow → Bool) : List FileVersion :=
  (db.facts.files.select fun _ f => f.scanId = base.scanId ∧
    f.repositoryName = base.repositoryName ∧ p f = true).filterMap fun r =>
      (db.facts.scans.get? r.2.scanId).map fun scan =>
        ⟨r.1, r.2, scan.projectId, (db.stateOf scan.projectId).dataVersion⟩

/-- The file of a request: by the hash of its path, else by the path alone if that is unique. -/
def findFile (env : Env) (db : Db) (base : BaseKey) : Option FileVersion :=
  let hash := env.computeDbFilePathHash base.filePath base.repositoryName
  match selectFiles db base fun f => f.filePathHash = hash ∧ f.filePath = base.filePath with
  | row :: _ => some row
  | [] =>
    match selectFiles db base fun f => f.filePath = base.filePath with
    | [row] => some row
    | _ => none

/-- A file that was found is one of the scan, with the version of the scan's project. -/
theorem findFile_spec {env : Env} {db : Db} {base : BaseKey} {row : FileVersion}
    (h : findFile env db base = some row) :
    db.facts.files.get? row.id = some row.file ∧ row.file.scanId = base.scanId ∧
      ∃ scan, db.facts.scans.get? base.scanId = some scan ∧ scan.projectId = row.projectId ∧
        row.dataVersion = (db.stateOf row.projectId).dataVersion := by
  have hmem : ∀ p, row ∈ selectFiles db base p →
      db.facts.files.get? row.id = some row.file ∧ row.file.scanId = base.scanId ∧
        ∃ scan, db.facts.scans.get? base.scanId = some scan ∧ scan.projectId = row.projectId ∧
          row.dataVersion = (db.stateOf row.projectId).dataVersion := by
    intro p hp
    obtain ⟨⟨k, f⟩, hf, hrow⟩ := List.mem_filterMap.1 hp
    obtain ⟨scan, hscan, rfl⟩ := Option.map_eq_some_iff.1 hrow
    rw [Keyed.mem_select, Keyed.mem_rows_iff, decide_eq_true_eq] at hf
    obtain ⟨hk, hs, _⟩ := hf
    exact ⟨hk, hs, scan, by rw [← hs]; exact hscan, rfl, rfl⟩
  unfold findFile at h
  dsimp only at h
  split at h
  · rename_i r rows hrows
    obtain rfl := Option.some.inj h
    exact hmem _ (by rw [hrows]; exact List.mem_cons_self)
  · split at h
    · rename_i r hrows
      obtain rfl := Option.some.inj h
      exact hmem _ (by rw [hrows]; exact List.mem_cons_self)
    · cases h

/-! ## The service -/

/-- The constructor arguments, and what is called outside. -/
structure Config where
  /-- `max_sidecar_stores` -/
  maxSidecarStores : Nat
  /-- `max_identity_entries` -/
  maxIdentityEntries : Nat
  /-- `max_overlay_entries` -/
  maxOverlayEntries : Nat
  /-- `max_identity_bytes` -/
  maxIdentityBytes : Nat
  /-- `max_overlay_bytes` -/
  maxOverlayBytes : Nat
  /-- `max_cache_bytes` -/
  maxCacheBytes : Nat
  /-- `max_cache_entry_bytes` -/
  maxCacheEntryBytes : Nat
  /-- `max_sidecar_cache_bytes` -/
  maxSidecarCacheBytes : Nat
  /-- `max_sidecar_entry_bytes` -/
  maxSidecarEntryBytes : Nat
  /-- `json.dumps` of an identity. -/
  identityText : Identity → String
  /-- `json.dumps` of an overlay. -/
  overlayText : Overlay → String
  /-- `calc_sidecar_file_key` of path and repository. -/
  calcSidecarFileKey : String → String → String

/-- `cache_name` -/
inductive CacheName
  /-- `_identity_cache` -/
  | identity
  /-- `_overlay_cache` -/
  | overlay
  deriving DecidableEq, Repr

/-- The keys of a cache. -/
abbrev CacheName.Key : CacheName → Type
  | identity => IdentityKey
  | overlay => OverlayKey

/-- The values of a cache. -/
abbrev CacheName.Value : CacheName → Type
  | identity => Identity
  | overlay => Overlay

instance CacheName.decidableEqKey : (n : CacheName) → DecidableEq n.Key
  | identity => inferInstanceAs (DecidableEq IdentityKey)
  | overlay => inferInstanceAs (DecidableEq OverlayKey)

namespace Config

variable (cfg : Config)

/-- The limits of a sidecar store. -/
def storeLimits : StoreLimits := ⟨cfg.maxSidecarCacheBytes, cfg.maxSidecarEntryBytes⟩

/-- `max_entries`, at least one. -/
def maxEntries : CacheName → Nat
  | .identity => max 1 cfg.maxIdentityEntries
  | .overlay => max 1 cfg.maxOverlayEntries

/-- `max_bytes` -/
def maxBytes : CacheName → Nat
  | .identity => cfg.maxIdentityBytes
  | .overlay => cfg.maxOverlayBytes

/-- The JSON text of a value. -/
def text : (n : CacheName) → n.Value → String
  | .identity => cfg.identityText
  | .overlay => cfg.overlayText

end Config

/-- The state of the service under its cache lock. -/
structure Service where
  /-- `_identity_cache` -/
  identityCache : SizedCache IdentityKey Identity
  /-- `_overlay_cache` -/
  overlayCache : SizedCache OverlayKey Overlay
  /-- `_identity_index` -/
  identityIndex : Keyed BaseKey IdentityKey
  /-- `_identity_inflight`: the event of the request that loads. -/
  identityInflight : Keyed BaseKey Nat
  /-- `_overlay_inflight` -/
  overlayInflight : Keyed OverlayKey Nat
  /-- The number of the next event. -/
  nextEvent : Nat
  /-- `_sidecar_stores`: root and asset, with the number of the store. -/
  sidecarStores : Keyed (String × String) Nat
  /-- All stores that were ever held. -/
  heap : Keyed Nat SidecarStore
  /-- The number of the next store. -/
  nextStore : Nat
  /-- `_process_cache_budget` -/
  budget : ByteBudget

namespace Service

/-- `__init__` -/
def init (cfg : Config) : Service :=
  ⟨.empty, .empty, .empty, .empty, .empty, 0, .empty, .empty, 0, ⟨cfg.maxCacheBytes, 0, Nat.zero_le _⟩⟩

variable (cfg : Config) (s : Service)

/-- A cache by its name. -/
def cache : (n : CacheName) → SizedCache n.Key n.Value
  | .identity => s.identityCache
  | .overlay => s.overlayCache

/-- Replace a cache. -/
def setCache : (n : CacheName) → SizedCache n.Key n.Value → Service
  | .identity, c => { s with identityCache := c }
  | .overlay, c => { s with overlayCache := c }

/-- `_identity_cache_bytes + _overlay_cache_bytes` -/
def serviceBytes : Nat := s.identityCache.bytes + s.overlayCache.bytes

/-- A removed identity is no longer the latest one of its file. -/
def forgetIndex : (n : CacheName) → n.Key → Service
  | .identity, key =>
    if s.identityIndex.get? key.base = some key then
      { s with identityIndex := s.identityIndex.erase key.base }
    else s
  | .overlay, _ => s

/-- `_remove_service_entry_locked` -/
def removeServiceEntryLocked (n : CacheName) (key : n.Key) : Service :=
  if ((s.cache n).get? key).isSome then
    let s' := (s.forgetIndex n key).setCache n ((s.cache n).remove key)
    { s' with budget := s.budget.release ((s.cache n).sizeOf key) }
  else s

/-- The loop condition of `_store_service_entry_locked`. -/
def crowded (n : CacheName) (size : Nat) (s : Service) : Bool :=
  (s.cache n).length ≠ 0 ∧ (cfg.maxEntries n ≤ (s.cache n).length ∨
    cfg.maxBytes n < (s.cache n).bytes + size ∨ cfg.maxCacheBytes < s.serviceBytes + size)

/-- One eviction of the loop. -/
def evictOldest (n : CacheName) (s : Service) : Option Service :=
  (s.cache n).entries.oldest.map fun key => s.removeServiceEntryLocked n key

/-- The evictions of `_store_service_entry_locked`. -/
def makeRoom (n : CacheName) (key : n.Key) (size : Nat) : Service :=
  let s := s.removeServiceEntryLocked n key
  evictWhile (crowded cfg n size) (evictOldest n) (s.cache n).length s

/-- A value that is too large to be cached. -/
def oversize (n : CacheName) (size : Nat) : Bool :=
  cfg.maxBytes n = 0 ∨ cfg.maxCacheEntryBytes = 0 ∨ cfg.maxBytes n < size ∨
    cfg.maxCacheEntryBytes < size

/-- `_store_service_entry_locked` -/
def storeServiceEntryLocked (n : CacheName) (key : n.Key) (value : n.Value) : Service :=
  let size := estimateCacheBytes (cfg.text n value)
  if oversize cfg n size then s
  else
    let s := s.makeRoom cfg n key size
    if cfg.maxCacheBytes < s.serviceBytes + size then s
    else match s.budget.tryAcquire size with
      | none => s
      | some budget => { s.setCache n ((s.cache n).push key value size) with budget := budget }

/-! ## Sidecar stores -/

/-- The store is held. -/
def holds (id : Nat) : Bool := s.sidecarStores.rows.any fun r => r.2 = id

/-- A function of a sidecar store, on the store with the given number. -/
def withStore (id : Nat) (f : SidecarStore.Account → SidecarStore.Account) : Service :=
  match s.heap.get? id with
  | none => s
  | some store =>
    let a := f (store, s.budget)
    { s with heap := s.heap.put id a.1, budget := a.2 }

/-- `_sidecar_store`, the first section. -/
def findSidecarStore (storeKey : String × String) : Service × Option Nat :=
  match s.sidecarStores.get? storeKey with
  | none => (s, none)
  | some id => ({ s with sidecarStores := s.sidecarStores.moveToEnd storeKey }, some id)

/-- One turn of the eviction loop: `popitem(last=False)` and `clear_caches`. -/
def evictStore (s : Service) : Option Service :=
  s.sidecarStores.oldest.bind fun storeKey =>
    (s.sidecarStores.get? storeKey).map fun id =>
      { s with sidecarStores := s.sidecarStores.erase storeKey }.withStore id
        SidecarStore.clearCaches

/-- `_sidecar_store`, the second section. -/
def insertSidecarStore (storeKey : String × String) : Service × Nat :=
  match s.sidecarStores.get? storeKey with
  | some id => ({ s with sidecarStores := s.sidecarStores.moveToEnd storeKey }, id)
  | none =>
    let id := s.nextStore
    let s := { s with
      heap := s.heap.put id .empty
      nextStore := id + 1
      sidecarStores := s.sidecarStores.push storeKey id }
    (evictWhile (fun s => max 1 cfg.maxSidecarStores < s.sidecarStores.rows.length) evictStore
      s.sidecarStores.rows.length s, id)

/-! ## Sections of `_identity` -/

/-- The lookup at the top of the loop. -/
def lookupIdentity (base : BaseKey) : Service × Option (IdentityKey × Identity) :=
  match s.identityIndex.get? base with
  | none => (s, none)
  | some fullKey =>
    match s.identityCache.get? fullKey with
    | none => (s, none)
    | some identity =>
      ({ s with identityCache := s.identityCache.touch fullKey }, some (fullKey, identity))

/-- The compare-and-set recheck after the version query. -/
def recheckIdentity (base : BaseKey) (fullKey : IdentityKey) : Service × Option Identity :=
  match s.identityCache.get? fullKey with
  | none => (s, none)
  | some identity =>
    if s.identityIndex.get? base = some fullKey then
      ({ s with identityCache := s.identityCache.touch fullKey }, some identity)
    else (s, none)

/-- The removal of an identity that was not returned. -/
def dropIdentity (base : BaseKey) (fullKey : IdentityKey) : Service :=
  if s.identityIndex.get? base = some fullKey then
    { s with identityIndex := s.identityIndex.erase base }.removeServiceEntryLocked .identity
      fullKey
  else s

/-- The single-flight section: the event to wait for, or none for the request that loads. -/
def enterIdentity (base : BaseKey) : Service × Option Nat :=
  match s.identityInflight.get? base with
  | some event => (s, some event)
  | none =>
    ({ s with
      identityInflight := s.identityInflight.put base s.nextEvent
      nextEvent := s.nextEvent + 1 }, none)

/-- The end of the load: the identity is cached and the event is set. -/
def publishIdentity (base : BaseKey) (identity : Identity) : Service :=
  let fullKey : IdentityKey := ⟨base, identity.fileRow.dataVersion, identity.report.assetIdentity⟩
  let s := s.storeServiceEntryLocked cfg .identity fullKey identity
  let index := if (s.identityCache.get? fullKey).isSome then s.identityIndex.put base fullKey
    else s.identityIndex
  { s with identityIndex := index, identityInflight := s.identityInflight.erase base }

/-- A load that raised. -/
def failIdentity (base : BaseKey) : Service :=
  { s with identityInflight := s.identityInflight.erase base }

/-! ## Sections of `_overlay` -/

/-- What the first section of `_overlay` finds. -/
inductive OverlayEntry
  /-- A cached overlay. -/
  | hit (overlay : Overlay)
  /-- Another request is loading it. -/
  | wait (event : Nat)
  /-- Nothing: this request loads. -/
  | owner

/-- The section at the top of the loop. -/
def enterOverlay (key : OverlayKey) : Service × OverlayEntry :=
  match s.overlayCache.get? key with
  | some overlay => ({ s with overlayCache := s.overlayCache.touch key }, .hit overlay)
  | none =>
    match s.overlayInflight.get? key with
    | some event => (s, .wait event)
    | none =>
      ({ s with
        overlayInflight := s.overlayInflight.put key s.nextEvent
        nextEvent := s.nextEvent + 1 }, .owner)

/-- The end of the load: what is cached, or else what was loaded. -/
def publishOverlay (key : OverlayKey) (overlay : Overlay) : Service × Overlay :=
  let s := s.storeServiceEntryLocked cfg .overlay key overlay
  ({ s with overlayInflight := s.overlayInflight.erase key },
    (s.overlayCache.get? key).getD overlay)

/-- A load that raised. -/
def failOverlay (key : OverlayKey) : Service :=
  { s with overlayInflight := s.overlayInflight.erase key }

end Service

end CodeDetail

end FosCoverage
