import FosCoverage.CodeDetail.SidecarStore

/-!
# Which cache of a sidecar store loses an entry

The caches of `SidecarStore` over whole runs, with any limits on their entries.

* `cachePutWithin` is `_cache_put_locked` with the entry limits as an argument; the service's stores
  have the defaults (`cachePutWithin_default`).
* A run is a list of `CacheOp`s on a new store, under a budget that others change as they like.
  `Tight` is what every run keeps: no cache has more entries than its limit, and all of them
  together no more bytes than the store's.  That the counters are the sums of the stored sizes is a
  field of the stores.
* A put into a cache at its entry limit ought to drop the oldest entries of that cache
  (`Isolated`).  `_evict_oldest_locked` takes the first of the three caches that has an entry, so
  **it does so exactly when the caches in front of it are empty**, or nothing has to go
  (`put_isolated_iff`).
-/

set_option autoImplicit false

namespace FosCoverage

namespace CodeDetail

open Relational

/-! ## Entry limits -/

/-- The caches that `_evict_oldest_locked` tries before this one. -/
def PayloadKind.earlier : PayloadKind → List PayloadKind
  | .metadata => []
  | .legacy => [.metadata]
  | .chunk => [.metadata, .legacy]

namespace SidecarStore

/-- The limits of a store with those on the entries, of which the constructor makes at least one. -/
structure CacheLimits extends StoreLimits where
  /-- `max_metadata_entries`, `max_legacy_entries` and `max_cached_chunks` as they are given. -/
  maxEntries : PayloadKind → Nat

/-- `max(1, int(max_entries))` -/
def CacheLimits.entries (limits : CacheLimits) (kind : PayloadKind) : Nat :=
  max 1 (limits.maxEntries kind)

/-- The first loop of `_cache_put_locked`: the cache of the entry is crowded. -/
def crowdedWithin (limits : CacheLimits) (kind : PayloadKind) (size : Nat) (a : Account) : Bool :=
  (a.1.cache kind).length ≠ 0 ∧ (limits.entries kind ≤ (a.1.cache kind).length ∨
    limits.maxCacheBytes < (a.1.cache kind).bytes + size)

/-- The entries that the first loop leaves. -/
def uncrowd (limits : CacheLimits) (kind : PayloadKind) (key : PayloadKey) (size : Nat)
    (a : Account) : Account :=
  let a := cacheRemoveLocked a kind key
  evictWhile (crowdedWithin limits kind size) evictOldestLocked a.1.length a

/-- The evictions of `_cache_put_locked`. -/
def makeRoomWithin (limits : CacheLimits) (kind : PayloadKind) (key : PayloadKey) (size : Nat)
    (a : Account) : Account :=
  let a := uncrowd limits kind key size a
  evictWhile (full limits.toStoreLimits size) evictOldestLocked a.1.length a

/-- `_cache_put_locked` -/
def cachePutWithin (limits : CacheLimits) (kind : PayloadKind) (key : PayloadKey)
    (payload : Payload) (a : Account) : Account :=
  let size := estimateCacheBytes payload.text
  if oversize limits.toStoreLimits size then a
  else
    let a := makeRoomWithin limits kind key size a
    if full limits.toStoreLimits size a then a
    else match a.2.tryAcquire size with
      | none => a
      | some budget => (a.1.push kind key payload size, budget)

/-- The stores of the service have the default limits on the entries. -/
theorem cachePutWithin_default (limits : StoreLimits) :
    cachePutWithin ⟨limits, PayloadKind.maxEntries⟩ = cachePutLocked limits := by
  have hcrowded : ∀ kind size,
      crowdedWithin ⟨limits, PayloadKind.maxEntries⟩ kind size = crowded limits kind size := by
    intro kind size
    cases kind <;> rfl
  funext kind key payload a
  simp only [cachePutWithin, cachePutLocked, makeRoomWithin, makeRoom, uncrowd, hcrowded]
  rfl

/-! ## Runs -/

/-- What a store is asked for. -/
inductive CacheOp
  /-- `_cache_put_locked` -/
  | put (kind : PayloadKind) (key : PayloadKey) (payload : Payload)
  /-- `_cache_remove_locked` -/
  | remove (kind : PayloadKind) (key : PayloadKey)
  /-- A hit: the entry moves to the end. -/
  | touch (kind : PayloadKind) (key : PayloadKey)
  /-- `clear_caches` -/
  | clear
  /-- The other caches of the process leave another budget. -/
  | others (budget : ByteBudget)

/-- One operation. -/
def applyOp (limits : CacheLimits) (a : Account) : CacheOp → Account
  | .put kind key payload => cachePutWithin limits kind key payload a
  | .remove kind key => cacheRemoveLocked a kind key
  | .touch kind key => (a.1.touch kind key, a.2)
  | .clear => clearCaches a
  | .others budget => (a.1, budget)

/-- A run of a new store. -/
def runOps (limits : CacheLimits) (budget : ByteBudget) (ops : List CacheOp) : Account :=
  ops.foldl (applyOp limits) (SidecarStore.empty, budget)

/-! ## What an eviction does -/

section Evict

variable {a b : Account} {kind kind' : PayloadKind} {key : PayloadKey} {limits : CacheLimits}
  {size : Nat}

/-- The entries of a cache, oldest first. -/
def rows (a : Account) (kind : PayloadKind) : List (PayloadKey × (Payload × Nat)) :=
  (a.1.cache kind).entries.rows

theorem rows_remove (a : Account) (kind kind' : PayloadKind) (key : PayloadKey) :
    rows (cacheRemoveLocked a kind key) kind' =
      if kind' = kind then ((a.1.cache kind).entries.erase key).rows else rows a kind' := by
  show ((a.1.remove kind key).cache kind').entries.rows = _
  rw [remove, cache_setCache]
  split
  · rfl
  · rfl

/-- Without its oldest entry a cache has the others. -/
theorem rows_erase_oldest {t : Keyed PayloadKey (Payload × Nat)} (h : t.oldest = some key) :
    (t.erase key).rows = t.rows.drop 1 := by
  unfold Keyed.oldest at h
  have hnodup := t.nodup
  cases hr : t.rows with
  | nil => simp [hr] at h
  | cons r rest =>
    obtain rfl : r.1 = key := by simpa [hr] using h
    show t.rows.filter _ = _
    rw [hr, List.map_cons, List.nodup_cons] at hnodup
    rw [hr, List.filter_cons, if_neg (by simp), List.drop_one, List.tail_cons, List.filter_eq_self]
    intro r' hr'
    have : r'.1 ≠ r.1 := fun he => hnodup.1 (he ▸ List.mem_map_of_mem hr')
    simpa using this

/-- **One eviction** takes the oldest entry of the first cache with any. -/
theorem evictOldest_rows (h : evictOldestLocked a = some b) :
    ∃ kind, rows a kind ≠ [] ∧ (∀ k ∈ kind.earlier, rows a k = []) ∧
      ∀ k, rows b k = if k = kind then (rows a k).drop 1 else rows a k := by
  obtain ⟨⟨kind, key⟩, holdest, rfl⟩ := Option.map_eq_some_iff.1 h
  have hevict : ∀ {kind key}, (a.1.cache kind).entries.oldest = some key →
      rows a kind ≠ [] ∧ ∀ k, rows (cacheRemoveLocked a kind key) k =
        if k = kind then (rows a k).drop 1 else rows a k := by
    intro kind key hold
    refine ⟨fun hnil => ?_, fun k => ?_⟩
    · have : (a.1.cache kind).entries.oldest = none := by
        rw [Keyed.oldest, show (a.1.cache kind).entries.rows = [] from hnil]
        rfl
      rw [this] at hold
      cases hold
    · rw [rows_remove]
      split
      · next hk =>
        subst hk
        exact rows_erase_oldest hold
      · rfl
  obtain ⟨before, found, behind, horder, hfound, hbefore⟩ :=
    List.findSome?_eq_some_iff.1 holdest
  obtain ⟨key', hold, hpair⟩ := Option.map_eq_some_iff.1 hfound
  obtain ⟨rfl, rfl⟩ := Prod.mk.inj hpair
  have hearlier : found.earlier = before := by
    rcases before with _ | ⟨k₁, _ | ⟨k₂, _ | ⟨k₃, before⟩⟩⟩ <;>
      simp only [List.nil_append, List.cons_append, List.cons.injEq] at horder
    · obtain ⟨rfl, -⟩ := horder
      rfl
    · obtain ⟨rfl, rfl, -⟩ := horder
      rfl
    · obtain ⟨rfl, rfl, rfl, -⟩ := horder
      rfl
    · exact absurd horder.2.2.2 (by simp)
  refine ⟨found, (hevict hold).1, fun k hk => ?_, (hevict hold).2⟩
  exact Keyed.oldest_eq_none (Option.map_eq_none_iff.1 (hbefore k (hearlier ▸ hk)))

theorem length_evictOldest (h : evictOldestLocked a = some b) (kind : PayloadKind) :
    (rows b kind).length ≤ (rows a kind).length := by
  obtain ⟨k, -, -, hrows⟩ := evictOldest_rows h
  rw [hrows]
  split
  · rw [List.length_drop]
    omega
  · exact Nat.le_refl _

/-- An eviction takes an entry. -/
theorem length_store (a : Account) : a.1.length =
    (rows a .metadata).length + (rows a .legacy).length + (rows a .chunk).length := rfl

theorem length_evictOldest_lt (h : evictOldestLocked a = some b) : b.1.length < a.1.length := by
  obtain ⟨k, hne, -, hrows⟩ := evictOldest_rows h
  have hlt : (rows b k).length < (rows a k).length := by
    have := List.length_pos_iff.2 hne
    rw [hrows, if_pos rfl, List.length_drop]
    omega
  have hle := length_evictOldest h
  rw [length_store, length_store]
  have hm := hle .metadata
  have hl := hle .legacy
  have hc := hle .chunk
  cases k <;> omega

/-- Nothing is left to evict. -/
theorem rows_of_evictOldest_none (h : evictOldestLocked a = none) (kind : PayloadKind) :
    rows a kind = [] := by
  have hnone := List.findSome?_eq_none_iff.1 (Option.map_eq_none_iff.1 h) kind (by
    cases kind <;> simp)
  exact Keyed.oldest_eq_none (Option.map_eq_none_iff.1 hnone)

theorem cacheBytes_evictOldest (h : evictOldestLocked a = some b) :
    b.1.cacheBytes ≤ a.1.cacheBytes := by
  obtain ⟨k, -, rfl⟩ := Option.map_eq_some_iff.1 h
  exact cacheBytes_remove_le a.1 k.1 k.2

end Evict

/-! ## What every run keeps -/

/-- **No cache has more entries than its limit, and the store no more bytes than its own.** -/
structure Tight (limits : CacheLimits) (a : Account) : Prop where
  /-- The entries. -/
  entries : ∀ kind, (rows a kind).length ≤ limits.entries kind
  /-- The bytes. -/
  bytes : a.1.cacheBytes ≤ limits.maxCacheBytes

section Runs

variable {a b : Account} {kind : PayloadKind} {key : PayloadKey} {limits : CacheLimits}
  {size : Nat}

/-- Fewer entries and bytes are as tight. -/
theorem Tight.of_le (h : Tight limits a) (hrows : ∀ kind, (rows b kind).length ≤ (rows a kind).length)
    (hbytes : b.1.cacheBytes ≤ a.1.cacheBytes) : Tight limits b :=
  ⟨fun kind => Nat.le_trans (hrows kind) (h.entries kind), Nat.le_trans hbytes h.bytes⟩

theorem length_rows_remove (a : Account) (kind kind' : PayloadKind) (key : PayloadKey) :
    (rows (cacheRemoveLocked a kind key) kind').length ≤ (rows a kind').length := by
  rw [rows_remove]
  split
  · next hk =>
    subst hk
    exact List.length_filter_le _ _
  · exact Nat.le_refl _

theorem Tight.remove (h : Tight limits a) (kind : PayloadKind) (key : PayloadKey) :
    Tight limits (cacheRemoveLocked a kind key) :=
  h.of_le (length_rows_remove a kind · key) (cacheBytes_remove_le a.1 kind key)

theorem Tight.evictOldest (h : Tight limits a) (he : evictOldestLocked a = some b) :
    Tight limits b :=
  h.of_le (length_evictOldest he) (cacheBytes_evictOldest he)

theorem Tight.makeRoom (h : Tight limits a) (kind : PayloadKind) (key : PayloadKey) (size : Nat) :
    Tight limits (makeRoomWithin limits kind key size a) :=
  evictWhile_inv (fun _ _ h he => h.evictOldest he)
    (evictWhile_inv (fun _ _ h he => h.evictOldest he) (h.remove kind key) _) _

theorem entries_pos (limits : CacheLimits) (kind : PayloadKind) : 0 < limits.entries kind :=
  Nat.lt_of_lt_of_le Nat.one_pos (Nat.le_max_left _ _)

theorem crowdedWithin_iff : crowdedWithin limits kind size a = true ↔
    (rows a kind).length ≠ 0 ∧ (limits.entries kind ≤ (rows a kind).length ∨
      limits.maxCacheBytes < (a.1.cache kind).bytes + size) :=
  decide_eq_true_iff

/-- A cache that is not crowded has a free entry. -/
theorem length_lt_of_not_crowded (h : crowdedWithin limits kind size a = false) :
    (rows a kind).length < limits.entries kind := by
  by_contra hle
  have hpos := entries_pos limits kind
  have hcrowded : crowdedWithin limits kind size a = true :=
    crowdedWithin_iff.2 ⟨by omega, .inl (Nat.not_lt.1 hle)⟩
  rw [h] at hcrowded
  cases hcrowded

/-- The loops of a put end where those of the source do: the cache has a free entry. -/
theorem length_makeRoom_lt (limits : CacheLimits) (kind : PayloadKind) (key : PayloadKey)
    (size : Nat) (a : Account) :
    (rows (makeRoomWithin limits kind key size a) kind).length < limits.entries kind := by
  have hfree : (rows (uncrowd limits kind key size a) kind).length < limits.entries kind := by
    unfold uncrowd
    have hstops : crowdedWithin limits kind size _ = false ∨ evictOldestLocked _ = none :=
      evictWhile_stops (fun a => a.1.length) (fun _ _ he => length_evictOldest_lt he)
        (Nat.le_refl (cacheRemoveLocked a kind key).1.length)
    rcases hstops with hstop | hstop
    · exact length_lt_of_not_crowded hstop
    · rw [rows_of_evictOldest_none hstop kind]
      exact entries_pos limits kind
  refine evictWhile_inv (P := fun b => (rows b kind).length < limits.entries kind) ?_ hfree _
  exact fun _ _ h he => Nat.lt_of_le_of_lt (length_evictOldest he kind) h

theorem rows_push {payload : Payload} (h : (a.1.cache kind).get? key = none) (budget : ByteBudget)
    (kind' : PayloadKind) : rows (a.1.push kind key payload size, budget) kind' =
      if kind' = kind then rows a kind ++ [(key, payload, size)] else rows a kind' := by
  show ((a.1.push kind key payload size).cache kind').entries.rows = _
  rw [push, dif_pos h, cache_setCache]
  split
  · have hnone := Option.map_eq_none_iff.1 h
    show ((((a.1.cache kind).entries.erase key).erase key).rows ++ _) = _
    rw [Keyed.erase_of_none hnone, Keyed.erase_of_none hnone]
    rfl
  · rfl

/-- The key has no entry when room is made. -/
theorem absent_makeRoom (limits : CacheLimits) (kind : PayloadKind) (key : PayloadKey) (size : Nat)
    (a : Account) : ((makeRoomWithin limits kind key size a).1.cache kind).get? key = none := by
  have hevict : ∀ b b' : Account, (b.1.cache kind).get? key = none →
      evictOldestLocked b = some b' → (b'.1.cache kind).get? key = none := by
    rintro b b' hb he
    obtain ⟨k, _, rfl⟩ := Option.map_eq_some_iff.1 he
    exact absent_remove hb
  have hfirst : ((cacheRemoveLocked a kind key).1.cache kind).get? key = none := by
    show ((a.1.remove kind key).cache kind).get? key = none
    rw [SidecarStore.remove, cache_setCache, if_pos rfl, SizedCache.get?_remove, if_pos rfl]
  exact evictWhile_inv hevict (evictWhile_inv hevict hfirst _) _

/-- **What a put leaves**: the store as it was, when the payload is refused for its size, or what
the evictions leave, with the payload or without. -/
theorem put_cases (limits : CacheLimits) (kind : PayloadKind) (key : PayloadKey)
    (payload : Payload) (a : Account) :
    (oversize limits.toStoreLimits (estimateCacheBytes payload.text) = true ∧
      cachePutWithin limits kind key payload a = a) ∨
    (oversize limits.toStoreLimits (estimateCacheBytes payload.text) = false ∧
      (cachePutWithin limits kind key payload a =
          makeRoomWithin limits kind key (estimateCacheBytes payload.text) a ∨
        ∃ budget, full limits.toStoreLimits (estimateCacheBytes payload.text)
            (makeRoomWithin limits kind key (estimateCacheBytes payload.text) a) = false ∧
          cachePutWithin limits kind key payload a =
            ((makeRoomWithin limits kind key (estimateCacheBytes payload.text) a).1.push kind key
              payload (estimateCacheBytes payload.text), budget))) := by
  unfold cachePutWithin
  dsimp only
  split
  · next hover => exact .inl ⟨hover, rfl⟩
  · next hover =>
    refine .inr ⟨Bool.eq_false_iff.2 hover, ?_⟩
    split
    · exact .inl rfl
    · next hfull =>
      split
      · exact .inl rfl
      · next budget _ => exact .inr ⟨budget, Bool.eq_false_iff.2 hfull, rfl⟩

theorem Tight.put (h : Tight limits a) (kind : PayloadKind) (key : PayloadKey)
    (payload : Payload) : Tight limits (cachePutWithin limits kind key payload a) := by
  have hroom := h.makeRoom kind key (estimateCacheBytes payload.text)
  have habsent := absent_makeRoom limits kind key (estimateCacheBytes payload.text) a
  have hfree := length_makeRoom_lt limits kind key (estimateCacheBytes payload.text) a
  rcases put_cases limits kind key payload a with ⟨-, heq⟩ | ⟨-, heq | ⟨budget, hfull, heq⟩⟩
  · rw [heq]
    exact h
  · rw [heq]
    exact hroom
  · rw [heq]
    refine ⟨fun kind' => ?_, ?_⟩
    · rw [rows_push habsent]
      split
      · next hk =>
        rw [hk, List.length_append]
        exact hfree
      · exact hroom.entries kind'
    · show (SidecarStore.push _ kind key payload _).cacheBytes ≤ _
      rw [push, dif_pos habsent, cacheBytes_setCache]
      simpa [full] using hfull

theorem Tight.clear (h : Tight limits a) : Tight limits (clearCaches a) := by
  have hone : ∀ (kind : PayloadKind) {b : Account}, Tight limits b →
      Tight limits (clearCache kind b) := by
    intro kind b hb
    unfold clearCache
    generalize (b.1.cache kind).entries.rows = entries
    induction entries generalizing b with
    | nil => exact hb
    | cons r entries ih => exact ih (hb.remove kind r.1)
  exact hone _ (hone _ (hone _ h))

theorem length_rows_touch (a : Account) (kind kind' : PayloadKind) (key : PayloadKey) :
    (rows (a.1.touch kind key, a.2) kind').length = (rows a kind').length := by
  show ((a.1.touch kind key).cache kind').entries.rows.length = _
  rw [touch, cache_setCache]
  split
  · next hk =>
    subst hk
    have htotal := Keyed.total_moveToEnd (fun _ => 1) (a.1.cache kind').entries key
    simp only [Keyed.total, List.map_const', List.sum_replicate_nat, Nat.mul_one] at htotal
    exact htotal
  · rfl

/-- **One operation.** -/
theorem Tight.apply (h : Tight limits a) (op : CacheOp) : Tight limits (applyOp limits a op) := by
  cases op with
  | put kind key payload => exact h.put kind key payload
  | remove kind key => exact h.remove kind key
  | touch kind key =>
    refine h.of_le (fun kind' => Nat.le_of_eq (length_rows_touch a kind kind' key)) ?_
    show (a.1.touch kind key).cacheBytes ≤ _
    exact Nat.le_of_eq (by rw [SidecarStore.touch, cacheBytes_setCache])
  | clear => exact h.clear
  | others budget => exact ⟨h.entries, h.bytes⟩

/-- **Every run.** -/
theorem tight_runOps (limits : CacheLimits) (budget : ByteBudget) (ops : List CacheOp) :
    Tight limits (runOps limits budget ops) := by
  have hempty : Tight limits (SidecarStore.empty, budget) :=
    ⟨fun kind => by cases kind <;> exact Nat.zero_le _, Nat.zero_le _⟩
  have hrun : ∀ {a : Account}, Tight limits a → Tight limits (ops.foldl (applyOp limits) a) := by
    induction ops with
    | nil => exact fun h => h
    | cons op ops ih => exact fun h => ih (h.apply op)
  exact hrun hempty

end Runs

/-! ## Which entries a put drops -/

/-- **The put drops entries of its own cache only, the oldest ones.** -/
structure Isolated (a b : Account) (kind : PayloadKind) (key : PayloadKey) : Prop where
  /-- The other caches are as they were. -/
  others : ∀ kind', kind' ≠ kind → rows b kind' = rows a kind'
  /-- Of the other entries of the cache the newer ones are left. -/
  newest : ∃ n, ((b.1.cache kind).entries.erase key).rows =
    ((a.1.cache kind).entries.erase key).rows.drop n

section Isolation

variable {a : Account} {kind : PayloadKind} {key : PayloadKey} {payload : Payload}
  {limits : CacheLimits}

/-- The cache is at its entry limit, and without the entry that is replaced the store has room. -/
structure AtLimit (limits : CacheLimits) (a : Account) (kind : PayloadKind) (key : PayloadKey)
    (payload : Payload) : Prop where
  /-- The entry limit. -/
  full : limits.entries kind ≤ (rows a kind).length
  /-- The total still fits. -/
  fits : (a.1.remove kind key).cacheBytes + estimateCacheBytes payload.text ≤ limits.maxCacheBytes

theorem erase_rows_of_absent {c : SizedCache PayloadKey Payload} (h : c.get? key = none) :
    (c.entries.erase key).rows = c.entries.rows := by
  rw [Keyed.erase_of_none (Option.map_eq_none_iff.1 h)]

/-- A replaced entry leaves its place free. -/
theorem length_erase_of_present {c : SizedCache PayloadKey Payload} (h : c.get? key ≠ none) :
    (c.entries.erase key).rows.length + 1 = c.entries.rows.length := by
  obtain ⟨entry, hentry⟩ := Option.ne_none_iff_exists'.1 fun he => h (Option.map_eq_none_iff.2 he)
  have htotal := Keyed.total_erase (fun _ => 1) hentry
  simpa [Keyed.total] using htotal

/-- While the total fits, the second loop has nothing to do. -/
theorem AtLimit.makeRoom_eq (h : AtLimit limits a kind key payload) :
    makeRoomWithin limits kind key (estimateCacheBytes payload.text) a =
      uncrowd limits kind key (estimateCacheBytes payload.text) a := by
  have hbytes : (uncrowd limits kind key (estimateCacheBytes payload.text) a).1.cacheBytes ≤
      (a.1.remove kind key).cacheBytes :=
    evictWhile_inv (P := fun b => b.1.cacheBytes ≤ (a.1.remove kind key).cacheBytes)
      (fun _ _ hb he => Nat.le_trans (cacheBytes_evictOldest he) hb) (Nat.le_refl _) _
  have hfull : SidecarStore.full limits.toStoreLimits (estimateCacheBytes payload.text)
      (uncrowd limits kind key (estimateCacheBytes payload.text) a) = false := by
    have := h.fits
    simp only [SidecarStore.full, decide_eq_false_iff_not]
    omega
  exact evictWhile_of_not hfull _

/-- The put stores the payload or not, which is nothing to the other entries. -/
theorem isolated_put_iff (hover : oversize limits.toStoreLimits
      (estimateCacheBytes payload.text) = false) :
    Isolated a (cachePutWithin limits kind key payload a) kind key ↔
      Isolated a (makeRoomWithin limits kind key (estimateCacheBytes payload.text) a) kind key := by
  have habsent := absent_makeRoom limits kind key (estimateCacheBytes payload.text) a
  generalize hroom : makeRoomWithin limits kind key (estimateCacheBytes payload.text) a = b
    at habsent
  have hcases := put_cases limits kind key payload a
  rw [hover, hroom] at hcases
  rcases hcases with ⟨h, -⟩ | ⟨-, heq | ⟨budget, -, heq⟩⟩
  · cases h
  · rw [heq]
  · have hothers : ∀ kind', kind' ≠ kind →
        rows (cachePutWithin limits kind key payload a) kind' = rows b kind' := by
      intro kind' hk
      rw [heq, rows_push habsent, if_neg hk]
    have hown : (((cachePutWithin limits kind key payload a).1.cache kind).entries.erase key).rows =
        ((b.1.cache kind).entries.erase key).rows := by
      have hrows : rows (b.1.push kind key payload (estimateCacheBytes payload.text), budget) kind
          = _ := rows_push habsent budget kind
      rw [if_pos rfl, ← heq] at hrows
      show (rows _ kind).filter _ = (rows b kind).filter _
      rw [hrows, List.filter_append]
      simp
    constructor
    · rintro ⟨h, n, hn⟩
      exact ⟨fun kind' hk => (hothers kind' hk).symm.trans (h kind' hk), n, hown ▸ hn⟩
    · rintro ⟨h, n, hn⟩
      exact ⟨fun kind' hk => (hothers kind' hk).trans (h kind' hk), n, hown.trans hn⟩

/-- Without an entry in front of it, the cache gives up its own oldest entries. -/
theorem isolated_uncrowd_of_earlier (size : Nat) (h : ∀ k ∈ kind.earlier, rows a k = []) :
    Isolated a (uncrowd limits kind key size a) kind key := by
  let start := ((a.1.cache kind).entries.erase key).rows
  have hkind : kind ∉ kind.earlier := by cases kind <;> decide
  have hstart : rows (cacheRemoveLocked a kind key) kind = start := by
    rw [rows_remove, if_pos rfl]
  have hstep : ∀ b b' : Account,
      ((∀ k, k ≠ kind → rows b k = rows a k) ∧ ∃ n, rows b kind = start.drop n) →
      crowdedWithin limits kind size b = true → evictOldestLocked b = some b' →
      (∀ k, k ≠ kind → rows b' k = rows a k) ∧ ∃ n, rows b' kind = start.drop n := by
    rintro b b' ⟨hothers, n, hn⟩ hcrowded he
    have hne : rows b kind ≠ [] := by
      have := (crowdedWithin_iff.1 hcrowded).1
      rintro hnil
      rw [hnil] at this
      exact this rfl
    obtain ⟨k, hk, hearlier, hrows⟩ := evictOldest_rows he
    -- the first cache with an entry is this one
    have hkk : k = kind := by
      have hnot : k ∉ kind.earlier := fun hin => by
        have hne' : k ≠ kind := fun heq => hkind (heq ▸ hin)
        exact hk ((hothers k hne').trans (h k hin))
      have hnot' : kind ∉ k.earlier := fun hin => hne (hearlier kind hin)
      cases k <;> cases kind <;> simp_all [PayloadKind.earlier]
    subst hkk
    refine ⟨fun k' hk' => by rw [hrows, if_neg hk', hothers k' hk'], n + 1, ?_⟩
    rw [hrows, if_pos rfl, hn, List.drop_drop]
  obtain ⟨hothers, n, hn⟩ := evictWhile_keeps hstep (s := cacheRemoveLocked a kind key)
    ⟨fun k hk => by rw [rows_remove, if_neg hk], 0, hstart⟩
    (cacheRemoveLocked a kind key).1.length
  refine ⟨hothers, n, ?_⟩
  show (rows (uncrowd limits kind key size a) kind).filter _ = _
  rw [show rows (uncrowd limits kind key size a) kind = start.drop n from hn, List.filter_eq_self]
  intro r hr
  exact (List.mem_filter.1 (List.mem_of_mem_drop hr)).2

/-- A replaced entry leaves room for the new one. -/
theorem isolated_uncrowd_of_present (htight : Tight limits a)
    (h : AtLimit limits a kind key payload) (hpresent : (a.1.cache kind).get? key ≠ none) :
    Isolated a (uncrowd limits kind key (estimateCacheBytes payload.text) a) kind key := by
  have hrows : rows (cacheRemoveLocked a kind key) kind =
      ((a.1.cache kind).entries.erase key).rows := by rw [rows_remove, if_pos rfl]
  have hfree : crowdedWithin limits kind (estimateCacheBytes payload.text)
      (cacheRemoveLocked a kind key) = false := by
    rw [Bool.eq_false_iff, Ne, crowdedWithin_iff, hrows]
    rintro ⟨-, hfull | hbytes⟩
    · have hlength := length_erase_of_present hpresent
      have hle : (a.1.cache kind).entries.rows.length ≤ limits.entries kind := htight.entries kind
      omega
    · have hfits := h.fits
      have hle := (a.1.remove kind key).bytes_cache_le kind
      change limits.maxCacheBytes < ((a.1.remove kind key).cache kind).bytes + _ at hbytes
      omega
  rw [uncrowd, evictWhile_of_not hfree]
  refine ⟨fun kind' hk => by rw [rows_remove, if_neg hk], 0, ?_⟩
  show (rows (cacheRemoveLocked a kind key) kind).filter _ = _
  rw [hrows, List.drop_zero, List.filter_eq_self]
  exact fun r hr => (List.mem_filter.1 hr).2

/-- An entry in front of the cache is dropped first. -/
theorem not_isolated_uncrowd (h : AtLimit limits a kind key payload)
    (habsent : (a.1.cache kind).get? key = none) (hearlier : ¬ ∀ k ∈ kind.earlier, rows a k = []) :
    ¬ Isolated a (uncrowd limits kind key (estimateCacheBytes payload.text) a) kind key := by
  let start := cacheRemoveLocked a kind key
  have hrows : ∀ k, rows start k = rows a k := by
    intro k
    rw [rows_remove]
    split
    · next hk =>
      subst hk
      exact erase_rows_of_absent habsent
    · rfl
  have hpos := entries_pos limits kind
  have hfull := h.full
  have hcrowded : crowdedWithin limits kind (estimateCacheBytes payload.text) start = true := by
    rw [crowdedWithin_iff, hrows]
    exact ⟨by omega, .inl hfull⟩
  cases hstep : evictOldestLocked start with
  | none =>
    have hnil := rows_of_evictOldest_none hstep kind
    rw [hrows] at hnil
    rw [hnil] at hfull
    exact absurd hpos (Nat.not_lt.2 hfull)
  | some next =>
    obtain ⟨k, hk, hfirst, hnext⟩ := evictOldest_rows hstep
    have hne : k ≠ kind := by
      rintro rfl
      exact hearlier fun k' hk' => (hrows k').symm.trans (hfirst k' hk')
    have hlength : start.1.length ≠ 0 := by
      have := length_evictOldest_lt hstep
      omega
    obtain ⟨fuel, hfuel⟩ := Nat.exists_eq_succ_of_ne_zero hlength
    have heq : uncrowd limits kind key (estimateCacheBytes payload.text) a =
        evictWhile (crowdedWithin limits kind (estimateCacheBytes payload.text)) evictOldestLocked
          fuel next := by
      show evictWhile _ _ start.1.length start = _
      rw [hfuel, evictWhile, if_pos hcrowded, hstep]
    have hle : (rows (uncrowd limits kind key (estimateCacheBytes payload.text) a) k).length ≤
        (rows next k).length := by
      rw [heq]
      exact evictWhile_inv (P := fun b => (rows b k).length ≤ (rows next k).length)
        (fun _ _ hb he => Nat.le_trans (length_evictOldest he k) hb) (Nat.le_refl _) fuel
    have hlt : (rows next k).length < (rows a k).length := by
      have := List.length_pos_iff.2 hk
      rw [hnext, if_pos rfl, List.length_drop, hrows] at *
      omega
    intro hisolated
    rw [hisolated.others k hne] at hle
    omega

/-- A put into a cache at its limit drops entries of other caches, unless the payload is refused,
replaces one, or no cache in front has an entry. -/
theorem Tight.isolated_put_iff (htight : Tight limits a) (h : AtLimit limits a kind key payload) :
    Isolated a (cachePutWithin limits kind key payload a) kind key ↔
      oversize limits.toStoreLimits (estimateCacheBytes payload.text) = true ∨
        (a.1.cache kind).get? key ≠ none ∨ ∀ k ∈ kind.earlier, rows a k = [] := by
  by_cases hover : oversize limits.toStoreLimits (estimateCacheBytes payload.text) = true
  · refine iff_of_true ?_ (.inl hover)
    rcases put_cases limits kind key payload a with ⟨-, heq⟩ | ⟨hno, -⟩
    · rw [heq]
      exact ⟨fun _ _ => rfl, 0, rfl⟩
    · rw [hover] at hno
      cases hno
  · rw [SidecarStore.isolated_put_iff (Bool.eq_false_iff.2 hover), h.makeRoom_eq,
      or_iff_right hover]
    constructor
    · intro hisolated
      by_contra hnot
      rw [not_or, not_not] at hnot
      exact not_isolated_uncrowd h hnot.1 hnot.2 hisolated
    · rintro (hpresent | hearlier)
      · exact isolated_uncrowd_of_present htight h hpresent
      · exact isolated_uncrowd_of_earlier _ hearlier

/-- **The caches of a store**: in every run the counter is the sum of the stored sizes and of the
bytes of the three caches and within the store's limit; and a put into a cache at its entry limit
drops only the oldest entries of that cache exactly when its payload is refused for its size, it
replaces an entry, or the caches that `_evict_oldest_locked` tries first are empty. -/
theorem caches_accounted (limits : CacheLimits) (budget : ByteBudget) (ops : List CacheOp) :
    let a := runOps limits budget ops
    (a.1.cacheBytes = a.1.metadata.entries.total Prod.snd + a.1.legacy.entries.total Prod.snd +
        a.1.chunk.entries.total Prod.snd ∧
      a.1.cacheBytes = a.1.metadata.bytes + a.1.legacy.bytes + a.1.chunk.bytes ∧
      a.1.cacheBytes ≤ limits.maxCacheBytes) ∧
    ∀ kind key payload, AtLimit limits a kind key payload →
      (Isolated a (cachePutWithin limits kind key payload a) kind key ↔
        oversize limits.toStoreLimits (estimateCacheBytes payload.text) = true ∨
          (a.1.cache kind).get? key ≠ none ∨ ∀ k ∈ kind.earlier, rows a k = []) := by
  intro a
  have htight : Tight limits a := tight_runOps limits budget ops
  refine ⟨⟨?_, a.1.exact, htight.bytes⟩, fun kind key payload h => htight.isolated_put_iff h⟩
  rw [a.1.exact, a.1.metadata.exact, a.1.legacy.exact, a.1.chunk.exact]

/-- The metadata goes when the second chunk comes, which the cache of chunks alone has no room
for. -/
theorem chunk_evicts_metadata :
    let limits : CacheLimits := ⟨⟨100, 100⟩, fun _ => 1⟩
    let chunk (i : Nat) : PayloadKey := .chunk "r" "f" i ""
    let a := runOps limits ⟨100, 0, by decide⟩
      [.put .metadata (.file "d" "r" "f") ⟨none, "{}"⟩, .put .chunk (chunk 0) ⟨none, "[]"⟩]
    AtLimit limits a .chunk (chunk 1) ⟨none, "[]"⟩ ∧
      ¬ Isolated a (cachePutWithin limits .chunk (chunk 1) ⟨none, "[]"⟩ a) .chunk (chunk 1) := by
  intro limits chunk a
  refine ⟨⟨by decide +kernel, by decide +kernel⟩, fun h => ?_⟩
  have hsame := h.others .metadata (by decide)
  exact absurd hsame (by decide +kernel)

end Isolation

end SidecarStore

end CodeDetail

end FosCoverage
