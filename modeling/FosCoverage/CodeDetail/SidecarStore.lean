import FosCoverage.Lib.SizedCache

/-!
# The byte budget and the caches of a sidecar store

`ByteBudget` and `SidecarStore` as far as bytes are concerned.  A store has three caches, for the
metadata of a file, for files in the old format and for decoded chunks; every payload is charged to
the cache, to the store and to the budget that all caches of the process share.

* A decoded payload is its JSON text; `estimateCacheBytes` is the length of what `json.dumps` writes
  for it.
* The functions that run under the lock of a store take the store and the budget and return both.
* What a file holds and when it changes is up to the caller: the functions get the signature and the
  payload that was read.

`Charged` says that the budget is charged for a store and a rest that belongs to others; every
function keeps it.
-/

set_option autoImplicit false

namespace FosCoverage

namespace CodeDetail

open Relational

/-! ## Budget -/

/-- `ByteBudget` -/
structure ByteBudget where
  /-- `max_bytes` -/
  maxBytes : Nat
  /-- `_bytes` -/
  bytes : Nat
  /-- Never more is reserved than there is. -/
  le : bytes ≤ maxBytes

namespace ByteBudget

/-- `try_acquire` -/
def tryAcquire (b : ByteBudget) (size : Nat) : Option ByteBudget :=
  if h : b.maxBytes < size ∨ b.maxBytes < b.bytes + size then none
  else some ⟨b.maxBytes, b.bytes + size, by omega⟩

/-- `release` -/
def release (b : ByteBudget) (size : Nat) : ByteBudget :=
  ⟨b.maxBytes, b.bytes - size, Nat.le_trans (Nat.sub_le _ _) b.le⟩

theorem tryAcquire_eq_some {b b' : ByteBudget} {size : Nat} (h : b.tryAcquire size = some b') :
    b'.maxBytes = b.maxBytes ∧ b'.bytes = b.bytes + size := by
  unfold tryAcquire at h
  split at h
  · cases h
  · obtain rfl := Option.some.inj h
    exact ⟨rfl, rfl⟩

/-- A reservation is refused exactly when it does not fit. -/
theorem tryAcquire_eq_none {b : ByteBudget} {size : Nat} :
    b.tryAcquire size = none ↔ b.maxBytes < b.bytes + size := by
  unfold tryAcquire
  split
  · simp only [true_iff]
    omega
  · simp only [reduceCtorEq, false_iff]
    omega

end ByteBudget

/-- `_estimate_cache_bytes` of the text that `json.dumps` writes for a value. -/
def estimateCacheBytes (text : String) : Nat := max 1 text.utf8ByteSize

theorem estimateCacheBytes_pos (text : String) : 0 < estimateCacheBytes text :=
  Nat.lt_of_lt_of_le Nat.one_pos (Nat.le_max_left _ _)

/-! ## The caches of a store -/

/-- `cache_name` -/
inductive PayloadKind
  /-- `_metadata_cache` -/
  | metadata
  /-- `_legacy_cache` -/
  | legacy
  /-- `_decoded_chunk_cache` -/
  | chunk
  deriving DecidableEq, Repr

/-- `cache_key` -/
inductive PayloadKey
  /-- Directory, report and file. -/
  | file (cacheDir reportId filePathHash : String)
  /-- Report, file, chunk and `effective_identity`. -/
  | chunk (reportId filePathHash : String) (chunkIndex : Nat) (effectiveIdentity : String)
  deriving DecidableEq, Repr

/-- `_stat_signature`: the modification time and the size of a file. -/
structure Signature where
  /-- `st_mtime_ns` -/
  mtimeNs : Nat
  /-- `st_size` -/
  size : Nat
  deriving DecidableEq, Repr

/-- A cached payload; a decoded chunk has its signature in the key. -/
structure Payload where
  /-- The signature of the file it was read from. -/
  signature : Option Signature
  /-- Its JSON text. -/
  text : String
  deriving DecidableEq, Repr

/-- The limits of a store: the constructor arguments the service passes. -/
structure StoreLimits where
  /-- `max_cache_bytes` -/
  maxCacheBytes : Nat
  /-- `max_entry_bytes` -/
  maxEntryBytes : Nat

/-- `max_metadata_entries`, `max_legacy_entries` and `max_cached_chunks`, which keep their
defaults. -/
def PayloadKind.maxEntries : PayloadKind → Nat
  | metadata => 128
  | legacy => 32
  | chunk => 128

/-- `SidecarStore` -/
structure SidecarStore where
  /-- `_metadata_cache` -/
  metadata : SizedCache PayloadKey Payload
  /-- `_legacy_cache` -/
  legacy : SizedCache PayloadKey Payload
  /-- `_decoded_chunk_cache` -/
  chunk : SizedCache PayloadKey Payload
  /-- `_cache_bytes` -/
  cacheBytes : Nat
  /-- The counter is the sum of the three `_cache_type_bytes`. -/
  exact : cacheBytes = metadata.bytes + legacy.bytes + chunk.bytes

namespace SidecarStore

theorem empty_exact : 0 = (SizedCache.empty : SizedCache PayloadKey Payload).bytes +
    (SizedCache.empty : SizedCache PayloadKey Payload).bytes +
      (SizedCache.empty : SizedCache PayloadKey Payload).bytes := rfl

/-- A new store. -/
def empty : SidecarStore := ⟨.empty, .empty, .empty, 0, empty_exact⟩

/-- The cache of a kind. -/
def cache (s : SidecarStore) : PayloadKind → SizedCache PayloadKey Payload
  | .metadata => s.metadata
  | .legacy => s.legacy
  | .chunk => s.chunk

/-- Replace one cache, and the counter accordingly. -/
def setCache (s : SidecarStore) (kind : PayloadKind) (c : SizedCache PayloadKey Payload)
    (bytes : Nat) (h : bytes + (s.cache kind).bytes = s.cacheBytes + c.bytes) : SidecarStore :=
  match kind, h with
  | .metadata, h => ⟨c, s.legacy, s.chunk, bytes, by have := s.exact; simp only [cache] at h; omega⟩
  | .legacy, h => ⟨s.metadata, c, s.chunk, bytes, by have := s.exact; simp only [cache] at h; omega⟩
  | .chunk, h => ⟨s.metadata, s.legacy, c, bytes, by have := s.exact; simp only [cache] at h; omega⟩

@[simp] theorem cacheBytes_setCache (s : SidecarStore) (kind : PayloadKind)
    (c : SizedCache PayloadKey Payload) (bytes : Nat)
    (h : bytes + (s.cache kind).bytes = s.cacheBytes + c.bytes) :
    (s.setCache kind c bytes h).cacheBytes = bytes := by
  cases kind <;> rfl

theorem cache_setCache (s : SidecarStore) (kind kind' : PayloadKind)
    (c : SizedCache PayloadKey Payload) (bytes : Nat)
    (h : bytes + (s.cache kind).bytes = s.cacheBytes + c.bytes) :
    (s.setCache kind c bytes h).cache kind' = if kind' = kind then c else s.cache kind' := by
  cases kind <;> cases kind' <;> rfl

theorem bytes_cache_le (s : SidecarStore) (kind : PayloadKind) :
    (s.cache kind).bytes ≤ s.cacheBytes := by
  have := s.exact
  cases kind <;> simp only [cache] <;> omega

theorem sizeOf_le (s : SidecarStore) (kind : PayloadKind) (key : PayloadKey) :
    (s.cache kind).sizeOf key ≤ s.cacheBytes :=
  Nat.le_trans (SizedCache.sizeOf_le _ key) (s.bytes_cache_le kind)

/-- Pop an entry. -/
def remove (s : SidecarStore) (kind : PayloadKind) (key : PayloadKey) : SidecarStore :=
  s.setCache kind ((s.cache kind).remove key) (s.cacheBytes - (s.cache kind).sizeOf key) (by
    have := s.sizeOf_le kind key
    have := (s.cache kind).sizeOf_le key
    rw [SizedCache.bytes_remove]
    omega)

/-- Store an entry under a key without one. -/
def push (s : SidecarStore) (kind : PayloadKind) (key : PayloadKey) (payload : Payload)
    (size : Nat) : SidecarStore :=
  if h : (s.cache kind).get? key = none then
    s.setCache kind ((s.cache kind).push key payload size) (s.cacheBytes + size) (by
      rw [SizedCache.bytes_push h]
      omega)
  else s

/-- `move_to_end` -/
def touch (s : SidecarStore) (kind : PayloadKind) (key : PayloadKey) : SidecarStore :=
  s.setCache kind ((s.cache kind).touch key) s.cacheBytes (by rw [SizedCache.bytes_touch])

/-- All entries of a store. -/
def length (s : SidecarStore) : Nat := s.metadata.length + s.legacy.length + s.chunk.length

/-- A store and the budget it is charged to. -/
abbrev Account := SidecarStore × ByteBudget

/-- `_cache_remove_locked`: a key without an entry changes nothing. -/
def cacheRemoveLocked (a : Account) (kind : PayloadKind) (key : PayloadKey) : Account :=
  (a.1.remove kind key, a.2.release ((a.1.cache kind).sizeOf key))

/-- The entry `_evict_oldest_locked` takes: the oldest of the first cache with any.  The caches of
the argument `preferred` are never looked at, since a list of one pair has length one. -/
def oldest (s : SidecarStore) : Option (PayloadKind × PayloadKey) :=
  [PayloadKind.metadata, .legacy, .chunk].findSome? fun kind =>
    (s.cache kind).entries.oldest.map fun key => (kind, key)

/-- `_evict_oldest_locked` -/
def evictOldestLocked (a : Account) : Option Account :=
  a.1.oldest.map fun k => cacheRemoveLocked a k.1 k.2

/-- The first loop of `_cache_put_locked`: the cache of the entry is crowded. -/
def crowded (limits : StoreLimits) (kind : PayloadKind) (size : Nat) (a : Account) : Bool :=
  (a.1.cache kind).length ≠ 0 ∧ (kind.maxEntries ≤ (a.1.cache kind).length ∨
    limits.maxCacheBytes < (a.1.cache kind).bytes + size)

/-- The second loop: the store is full. -/
def full (limits : StoreLimits) (size : Nat) (a : Account) : Bool :=
  limits.maxCacheBytes < a.1.cacheBytes + size

/-- A payload no eviction makes room for. -/
def oversize (limits : StoreLimits) (size : Nat) : Bool :=
  limits.maxCacheBytes = 0 ∨ limits.maxEntryBytes = 0 ∨ limits.maxCacheBytes < size ∨
    limits.maxEntryBytes < size

/-- The evictions of `_cache_put_locked`. -/
def makeRoom (limits : StoreLimits) (kind : PayloadKind) (key : PayloadKey) (size : Nat)
    (a : Account) : Account :=
  let a := cacheRemoveLocked a kind key
  let a := evictWhile (crowded limits kind size) evictOldestLocked a.1.length a
  evictWhile (full limits size) evictOldestLocked a.1.length a

/-- `_cache_put_locked` -/
def cachePutLocked (limits : StoreLimits) (kind : PayloadKind) (key : PayloadKey)
    (payload : Payload) (a : Account) : Account :=
  let size := estimateCacheBytes payload.text
  if oversize limits size then a
  else
    let a := makeRoom limits kind key size a
    if full limits size a then a
    else match a.2.tryAcquire size with
      | none => a
      | some budget => (a.1.push kind key payload size, budget)

/-- `clear_caches`, one cache. -/
def clearCache (kind : PayloadKind) (a : Account) : Account :=
  (a.1.cache kind).entries.rows.foldl (fun a r => cacheRemoveLocked a kind r.1) a

/-- `clear_caches` -/
def clearCaches (a : Account) : Account :=
  clearCache .chunk (clearCache .legacy (clearCache .metadata a))

/-! ## Requests to a store -/

/-- One section of `load_metadata` or `load_lines_ranges` under the lock of the store. -/
inductive Section
  /-- A lookup with the signature of the file; a hit moves the entry to the end. -/
  | lookup (kind : PayloadKind) (key : PayloadKey) (signature : Option Signature)
  /-- A payload was read: put it, unless it has been put meanwhile. -/
  | loaded (kind : PayloadKind) (key : PayloadKey) (payload : Payload)
  /-- The file could not be read. -/
  | failed (kind : PayloadKind) (key : PayloadKey)
  deriving DecidableEq, Repr

/-- The entry is there with the signature. -/
def hit (s : SidecarStore) (kind : PayloadKind) (key : PayloadKey)
    (signature : Option Signature) : Bool :=
  ((s.cache kind).get? key).any fun p => p.signature = signature

/-- What a section does.  A chunk that could not be read leaves the cache alone. -/
def runSection (limits : StoreLimits) (a : Account) : Section → Account
  | .lookup kind key signature =>
    if a.1.hit kind key signature then (a.1.touch kind key, a.2) else a
  | .loaded kind key payload =>
    if a.1.hit kind key payload.signature then a else cachePutLocked limits kind key payload a
  | .failed kind key => if kind = .chunk then a else cacheRemoveLocked a kind key

/-! ## The charge of a store -/

/-- The budget is charged for the store and for `rest` bytes of others. -/
structure Charged (maxBytes rest : Nat) (a : Account) : Prop where
  /-- The limit is a constant. -/
  max : a.2.maxBytes = maxBytes
  /-- Every byte is accounted for. -/
  bytes : a.2.bytes = rest + a.1.cacheBytes

namespace Charged

variable {maxBytes rest : Nat} {a a' : Account}

theorem remove (h : Charged maxBytes rest a) (kind : PayloadKind) (key : PayloadKey) :
    Charged maxBytes rest (cacheRemoveLocked a kind key) where
  max := h.max
  bytes := by
    have hb := h.bytes
    have hs := a.1.sizeOf_le kind key
    show a.2.bytes - _ = rest + (a.1.remove kind key).cacheBytes
    rw [SidecarStore.remove, cacheBytes_setCache]
    omega

theorem evictOldest (h : Charged maxBytes rest a) (he : evictOldestLocked a = some a') :
    Charged maxBytes rest a' := by
  obtain ⟨k, _, rfl⟩ := Option.map_eq_some_iff.1 he
  exact h.remove k.1 k.2

end Charged

/-- A key without an entry gets none from an eviction. -/
theorem absent_remove {a : Account} {kind kind' : PayloadKind} {key key' : PayloadKey}
    (h : (a.1.cache kind).get? key = none) :
    ((cacheRemoveLocked a kind' key').1.cache kind).get? key = none := by
  show ((a.1.remove kind' key').cache kind).get? key = none
  rw [remove, cache_setCache]
  split
  · rename_i hk
    subst hk
    rw [SizedCache.get?_remove, h]
    split <;> rfl
  · exact h

/-- After the evictions the charge is as before and the key has no entry. -/
theorem makeRoom_spec (limits : StoreLimits) (kind : PayloadKind) (key : PayloadKey) (size : Nat)
    {a : Account} {maxBytes rest : Nat} (h : Charged maxBytes rest a) :
    Charged maxBytes rest (makeRoom limits kind key size a) ∧
      ((makeRoom limits kind key size a).1.cache kind).get? key = none := by
  have hevict : ∀ b b' : Account,
      (Charged maxBytes rest b ∧ (b.1.cache kind).get? key = none) →
      evictOldestLocked b = some b' →
      Charged maxBytes rest b' ∧ (b'.1.cache kind).get? key = none := by
    rintro b b' ⟨hb, habs⟩ he
    refine ⟨hb.evictOldest he, ?_⟩
    obtain ⟨k, _, rfl⟩ := Option.map_eq_some_iff.1 he
    exact absent_remove habs
  have hfirst : Charged maxBytes rest (cacheRemoveLocked a kind key) ∧
      ((cacheRemoveLocked a kind key).1.cache kind).get? key = none := by
    refine ⟨h.remove kind key, ?_⟩
    show ((a.1.remove kind key).cache kind).get? key = none
    rw [remove, cache_setCache, if_pos rfl, SizedCache.get?_remove, if_pos rfl]
  exact evictWhile_inv hevict (evictWhile_inv hevict hfirst _) _

theorem Charged.put {maxBytes rest : Nat} {a : Account} (h : Charged maxBytes rest a)
    (limits : StoreLimits) (kind : PayloadKind) (key : PayloadKey) (payload : Payload) :
    Charged maxBytes rest (cachePutLocked limits kind key payload a) := by
  unfold cachePutLocked
  dsimp only
  split
  · exact h
  · obtain ⟨hroom, habs⟩ := makeRoom_spec limits kind key (estimateCacheBytes payload.text) h
    generalize makeRoom limits kind key (estimateCacheBytes payload.text) a = b at hroom habs ⊢
    split
    · exact hroom
    · cases hacq : b.2.tryAcquire (estimateCacheBytes payload.text) with
      | none => exact hroom
      | some budget =>
        obtain ⟨hmax, hbytes⟩ := ByteBudget.tryAcquire_eq_some hacq
        have := hroom.bytes
        refine ⟨hmax.trans hroom.max, ?_⟩
        show budget.bytes = rest + (b.1.push kind key payload _).cacheBytes
        rw [push, dif_pos habs, cacheBytes_setCache, hbytes]
        omega

/-- **Every section keeps the charge.** -/
theorem Charged.runSection {maxBytes rest : Nat} {a : Account} (h : Charged maxBytes rest a)
    (limits : StoreLimits) (s : Section) : Charged maxBytes rest (runSection limits a s) := by
  cases s with
  | lookup kind key signature =>
    simp only [SidecarStore.runSection]
    split
    · refine ⟨h.max, ?_⟩
      show a.2.bytes = rest + (a.1.touch kind key).cacheBytes
      rw [touch, cacheBytes_setCache]
      exact h.bytes
    · exact h
  | loaded kind key payload =>
    simp only [SidecarStore.runSection]
    split
    · exact h
    · exact h.put limits kind key payload
  | failed kind key =>
    simp only [SidecarStore.runSection]
    split
    · exact h
    · exact h.remove kind key

theorem Charged.clearCaches {maxBytes rest : Nat} {a : Account} (h : Charged maxBytes rest a) :
    Charged maxBytes rest (clearCaches a) := by
  have hone : ∀ (kind : PayloadKind) (b : Account), Charged maxBytes rest b →
      Charged maxBytes rest (clearCache kind b) := by
    intro kind b hb
    unfold clearCache
    generalize (b.1.cache kind).entries.rows = rows
    induction rows generalizing b with
    | nil => exact hb
    | cons r rows ih => exact ih _ (hb.remove kind r.1)
  exact hone _ _ (hone _ _ (hone _ _ h))

/-! ## Stores without a payload -/

/-- A payload that an empty store caches: it is not there yet, no limit refuses it, and the budget
has room for it. -/
def grows (limits : StoreLimits) (a : Account) : Section → Bool
  | .loaded kind key payload =>
    let size := estimateCacheBytes payload.text
    !a.1.hit kind key payload.signature && !oversize limits size &&
      decide (a.2.bytes + size ≤ a.2.maxBytes)
  | _ => false

theorem cacheBytes_remove_le (s : SidecarStore) (kind : PayloadKind) (key : PayloadKey) :
    (s.remove kind key).cacheBytes ≤ s.cacheBytes := by
  rw [remove, cacheBytes_setCache]
  exact Nat.sub_le _ _

/-- Evictions leave an empty store empty, and the budget as it was. -/
theorem makeRoom_of_empty (limits : StoreLimits) (kind : PayloadKind) (key : PayloadKey)
    (size : Nat) {a : Account} (h : a.1.cacheBytes = 0) :
    (makeRoom limits kind key size a).1.cacheBytes = 0 ∧
      (makeRoom limits kind key size a).2.bytes = a.2.bytes ∧
      (makeRoom limits kind key size a).2.maxBytes = a.2.maxBytes := by
  have hevict : ∀ b b' : Account, b.1.cacheBytes = 0 → evictOldestLocked b = some b' →
      b'.1.cacheBytes = 0 := by
    intro b b' hb he
    obtain ⟨k, _, rfl⟩ := Option.map_eq_some_iff.1 he
    exact Nat.le_zero.1 (hb ▸ b.1.cacheBytes_remove_le k.1 k.2)
  have hfirst : (cacheRemoveLocked a kind key).1.cacheBytes = 0 :=
    Nat.le_zero.1 (h ▸ a.1.cacheBytes_remove_le kind key)
  have hzero : (makeRoom limits kind key size a).1.cacheBytes = 0 :=
    evictWhile_inv hevict (evictWhile_inv hevict hfirst _) _
  have hcharged : Charged a.2.maxBytes a.2.bytes a := ⟨rfl, by rw [h, Nat.add_zero]⟩
  obtain ⟨hroom, _⟩ := makeRoom_spec limits kind key size hcharged
  exact ⟨hzero, by rw [hroom.bytes, hzero, Nat.add_zero], hroom.max⟩

/-- An empty store has bytes after a section exactly when the section cached a payload. -/
theorem cacheBytes_runSection_of_empty (limits : StoreLimits) {a : Account}
    (h : a.1.cacheBytes = 0) (sec : Section) :
    (SidecarStore.runSection limits a sec).1.cacheBytes = 0 ↔ grows limits a sec = false := by
  cases sec with
  | lookup kind key signature =>
    simp only [SidecarStore.runSection, grows, iff_true]
    split
    · rw [touch, cacheBytes_setCache, h]
    · exact h
  | failed kind key =>
    simp only [SidecarStore.runSection, grows, iff_true]
    split
    · exact h
    · exact Nat.le_zero.1 (h ▸ a.1.cacheBytes_remove_le kind key)
  | loaded kind key payload =>
    simp only [SidecarStore.runSection, grows]
    cases hhit : a.1.hit kind key payload.signature with
    | true => simp [h]
    | false =>
      simp only [Bool.false_eq_true, if_false, cachePutLocked]
      cases hover : oversize limits (estimateCacheBytes payload.text) with
      | true => simp [h]
      | false =>
        obtain ⟨hzero, hbytes, hmax⟩ :=
          makeRoom_of_empty limits kind key (estimateCacheBytes payload.text) h
        obtain ⟨_, habs⟩ := makeRoom_spec limits kind key (estimateCacheBytes payload.text)
          (a := a) ⟨rfl, by rw [h, Nat.add_zero]⟩
        generalize makeRoom limits kind key (estimateCacheBytes payload.text) a = b
          at hzero hbytes hmax habs ⊢
        have hroom : full limits (estimateCacheBytes payload.text) b = false := by
          simp only [oversize, decide_eq_false_iff_not, not_or] at hover
          simp only [full, hzero, decide_eq_false_iff_not]
          omega
        simp only [hroom, Bool.false_eq_true, if_false]
        cases hacq : b.2.tryAcquire (estimateCacheBytes payload.text) with
        | none =>
          have := ByteBudget.tryAcquire_eq_none.1 hacq
          have hno : ¬ a.2.bytes + estimateCacheBytes payload.text ≤ a.2.maxBytes := by omega
          simp [hzero, hno]
        | some budget =>
          have hsome : b.2.tryAcquire (estimateCacheBytes payload.text) ≠ none := by
            rw [hacq]
            exact Option.some_ne_none _
          have hfits : a.2.bytes + estimateCacheBytes payload.text ≤ a.2.maxBytes := by
            have := mt ByteBudget.tryAcquire_eq_none.2 hsome
            omega
          have hpos := estimateCacheBytes_pos payload.text
          have hpush : (b.1.push kind key payload (estimateCacheBytes payload.text)).cacheBytes =
              estimateCacheBytes payload.text := by
            rw [push, dif_pos habs, cacheBytes_setCache, hzero, Nat.zero_add]
          simp only [hpush, hfits]
          constructor
          · intro h0
            omega
          · simp

/-- Clearing a cache leaves none of its entries, and adds none to the others. -/
theorem clearCache_absent (kind kind' : PayloadKind) (a : Account) (key : PayloadKey)
    (h : kind' = kind ∨ (a.1.cache kind').get? key = none) :
    ((clearCache kind a).1.cache kind').get? key = none := by
  have hfold : ∀ (rows : List (PayloadKey × (Payload × Nat))) (b : Account),
      (b.1.cache kind').get? key = none ∨ (kind' = kind ∧ key ∈ rows.map Prod.fst) →
      ((rows.foldl (fun a r => cacheRemoveLocked a kind r.1) b).1.cache kind').get? key = none := by
    intro rows
    induction rows with
    | nil =>
      rintro b (hb | ⟨_, hk⟩)
      · exact hb
      · cases hk
    | cons r rows ih =>
      rintro b (hb | ⟨rfl, hk⟩)
      · exact ih _ (.inl (absent_remove hb))
      · rcases List.mem_cons.1 hk with rfl | hk
        · refine ih _ (.inl ?_)
          show ((b.1.remove kind' r.1).cache kind').get? r.1 = none
          rw [remove, cache_setCache, if_pos rfl, SizedCache.get?_remove, if_pos rfl]
        · exact ih _ (.inr ⟨rfl, hk⟩)
  refine hfold _ a ?_
  rcases h with rfl | h
  · by_cases hk : key ∈ (a.1.cache kind').entries.rows.map Prod.fst
    · exact .inr ⟨rfl, hk⟩
    · refine .inl (Option.map_eq_none_iff.2 (Keyed.get?_eq_none_iff.2 fun e he => hk ?_))
      exact List.mem_map.2 ⟨_, he, rfl⟩
  · exact .inl h

/-- **A cleared store is empty.** -/
theorem cacheBytes_clearCaches (a : Account) : (clearCaches a).1.cacheBytes = 0 := by
  have habs : ∀ kind key, ((clearCaches a).1.cache kind).get? key = none := by
    intro kind key
    unfold clearCaches
    cases kind with
    | metadata =>
      exact clearCache_absent _ _ _ _ (.inr (clearCache_absent _ _ _ _ (.inr
        (clearCache_absent _ _ _ _ (.inl rfl)))))
    | legacy => exact clearCache_absent _ _ _ _ (.inr (clearCache_absent _ _ _ _ (.inl rfl)))
    | chunk => exact clearCache_absent _ _ _ _ (.inl rfl)
  have hbytes : ∀ kind, ((clearCaches a).1.cache kind).bytes = 0 := by
    intro kind
    have hrows : ((clearCaches a).1.cache kind).entries.rows = [] := by
      refine List.eq_nil_iff_forall_not_mem.2 fun r hr => ?_
      have := Option.map_eq_none_iff.1 (habs kind r.1)
      exact Keyed.get?_eq_none_iff.1 this r.2 hr
    rw [((clearCaches a).1.cache kind).exact, Keyed.total, hrows]
    rfl
  have hm := hbytes .metadata
  have hl := hbytes .legacy
  have hc := hbytes .chunk
  have := (clearCaches a).1.exact
  simp only [cache] at hm hl hc
  omega

end SidecarStore

end CodeDetail

end FosCoverage
