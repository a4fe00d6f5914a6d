import FosCoverage.CodeDetail.Requests
import FosCoverage.Lib.Trace

/-!
# The bytes of the process budget

The budget that all caches of the code detail service share, over every run of the system.

* `Booked` is the invariant of every run: the budget is charged for the two caches of the service
  and for all sidecar stores, those that were evicted included (`run_booked`).
* The source means the budget to be charged for the stores that are held (`Accounted`): an evicted
  store is cleared.  Together with `Booked` this says that every other store is empty
  (`accounted_iff`).
* A request keeps the reference of its identity to a store, and a cached identity may name a store
  that has been evicted.  `Leaks` is the step that caches a payload there; nothing ever gives those
  bytes back.  **A run is accounted for exactly as long as no step leaks** (`accounted_run_iff`).
-/

set_option autoImplicit false

namespace FosCoverage

namespace CodeDetail

open Relational

namespace Service

variable {cfg : Config} {s s' : Service}

/-! ## What is charged -/

/-- The cache bytes of a store. -/
def storeBytes (s : Service) (id : Nat) : Nat := ((s.heap.get? id).map (·.cacheBytes)).getD 0

/-- The cache bytes of the stores in `_sidecar_stores`. -/
def heldBytes (s : Service) : Nat := s.sidecarStores.total s.storeBytes

/-- The budget has the bytes of the two caches and of the held stores, and no more than its
maximum. -/
def Accounted (cfg : Config) (s : Service) : Prop :=
  s.budget.bytes = s.identityCache.bytes + s.overlayCache.bytes + s.heldBytes ∧
    s.budget.bytes ≤ cfg.maxCacheBytes

instance (cfg : Config) (s : Service) : Decidable (Accounted cfg s) :=
  inferInstanceAs (Decidable (_ ∧ _))

/-- The invariant of the accounting. -/
structure Booked (cfg : Config) (s : Service) : Prop where
  /-- The maximum is the configured one. -/
  max : s.budget.maxBytes = cfg.maxCacheBytes
  /-- The budget is charged for the service and for every store. -/
  bytes : s.budget.bytes = s.serviceBytes + s.heap.total (·.cacheBytes)
  /-- The numbers of the stores have been issued. -/
  issued : ∀ id store, s.heap.get? id = some store → id < s.nextStore
  /-- So have those of the held ones. -/
  held : ∀ key id, s.sidecarStores.get? key = some id → id < s.nextStore
  /-- A store is held under one key. -/
  distinct : ∀ key key' id, s.sidecarStores.get? key = some id →
    s.sidecarStores.get? key' = some id → key = key'

/-- Every store that is not held is empty. -/
def Drained (s : Service) : Prop :=
  ∀ id store, s.heap.get? id = some store → s.holds id = false → store.cacheBytes = 0

theorem holds_iff {id : Nat} :
    s.holds id = true ↔ ∃ key, s.sidecarStores.get? key = some id := by
  simp only [holds, List.any_eq_true, decide_eq_true_eq]
  constructor
  · rintro ⟨r, hr, rfl⟩
    exact ⟨r.1, Keyed.mem_rows_iff.1 hr⟩
  · rintro ⟨key, hkey⟩
    exact ⟨(key, id), Keyed.mem_rows_iff.2 hkey, rfl⟩

theorem not_holds_iff {id : Nat} :
    s.holds id = false ↔ ∀ key, s.sidecarStores.get? key ≠ some id := by
  rw [← Bool.not_eq_true, holds_iff, not_exists]

/-- The held stores and the rest make up all stores. -/
theorem heldBytes_add (h : Booked cfg s) :
    s.heldBytes + (s.heap.deleteWhere fun id _ => s.holds id).total (·.cacheBytes) =
      s.heap.total (·.cacheBytes) := by
  have hids : (s.sidecarStores.rows.map Prod.snd).Nodup := by
    have := (Keyed.nodup_column (t := s.sidecarStores) (p := fun _ => true) (f := Prod.snd)).2
      fun k k' a a' hk hk' _ _ ha => h.distinct k k' a hk (by rw [show a = a' from ha]; exact hk')
    simpa using this
  have hheld : (s.heap.deleteWhere fun id _ => s.holds id) =
      s.heap.deleteWhere fun id _ => decide (id ∈ s.sidecarStores.rows.map Prod.snd) := by
    refine Keyed.ext' (List.filter_congr fun r _ => ?_)
    congr 1
    rw [Bool.eq_iff_iff, decide_eq_true_eq, List.mem_map]
    simp [holds]
  have hsplit := s.heap.total_split (·.cacheBytes) hids
  rw [List.map_map] at hsplit
  rw [hheld, ← hsplit]
  rfl

/-- **The budget is accounted for exactly when the stores that are not held are empty.** -/
theorem accounted_iff (h : Booked cfg s) : Accounted cfg s ↔ Drained s := by
  have hsum := heldBytes_add h
  have hbytes := h.bytes
  have hle := s.budget.le
  rw [h.max] at hle
  have hrest : (s.heap.deleteWhere fun id _ => s.holds id).total (·.cacheBytes) = 0 ↔ Drained s := by
    rw [Keyed.total_eq_zero]
    simp only [Keyed.get?_deleteWhere, Option.filter_eq_some_iff, Bool.not_eq_true', and_imp,
      Drained]
  rw [← hrest]
  simp only [Accounted, serviceBytes] at hbytes ⊢
  omega

/-! ## The caches of the service -/

/-- The stores are the same, and the budget is charged for the rest as before. -/
structure SameStores (s s' : Service) : Prop where
  /-- All stores. -/
  heap : s'.heap = s.heap
  /-- The held ones. -/
  stores : s'.sidecarStores = s.sidecarStores
  /-- The next number. -/
  next : s'.nextStore = s.nextStore
  /-- The maximum. -/
  max : s'.budget.maxBytes = s.budget.maxBytes
  /-- What the budget has beside the two caches. -/
  bytes : ∀ rest, s.budget.bytes = s.serviceBytes + rest → s'.budget.bytes = s'.serviceBytes + rest

namespace SameStores

theorem refl (s : Service) : SameStores s s := ⟨rfl, rfl, rfl, rfl, fun _ h => h⟩

theorem trans {s₁ s₂ s₃ : Service} (h : SameStores s₁ s₂) (h' : SameStores s₂ s₃) :
    SameStores s₁ s₃ :=
  ⟨h'.heap.trans h.heap, h'.stores.trans h.stores, h'.next.trans h.next, h'.max.trans h.max,
    fun rest hr => h'.bytes rest (h.bytes rest hr)⟩

/-- Only the tables of identities and events differ. -/
theorem of_eq (hheap : s'.heap = s.heap) (hstores : s'.sidecarStores = s.sidecarStores)
    (hnext : s'.nextStore = s.nextStore) (hbudget : s'.budget = s.budget)
    (hbytes : s'.serviceBytes = s.serviceBytes) : SameStores s s' :=
  ⟨hheap, hstores, hnext, by rw [hbudget], fun rest hr => by rw [hbudget, hbytes, hr]⟩

theorem booked (h : SameStores s s') (hb : Booked cfg s) : Booked cfg s' where
  max := h.max.trans hb.max
  bytes := by
    rw [h.heap]
    exact h.bytes _ hb.bytes
  issued := by
    rw [h.heap, h.next]
    exact hb.issued
  held := by
    rw [h.stores, h.next]
    exact hb.held
  distinct := by
    rw [h.stores]
    exact hb.distinct

theorem drained (h : SameStores s s') (hd : Drained s) : Drained s' := by
  intro id store hid hheld
  rw [h.heap] at hid
  rw [holds, h.stores] at hheld
  exact hd id store hid hheld

end SameStores

theorem serviceBytes_setCache (s : Service) (n : CacheName) (c : SizedCache n.Key n.Value) :
    (s.setCache n c).serviceBytes + (s.cache n).bytes = s.serviceBytes + c.bytes := by
  cases n <;> simp only [setCache, serviceBytes, cache] <;> omega

theorem forgetIndex_eq (s : Service) (n : CacheName) (key : n.Key) :
    ∃ index, s.forgetIndex n key = { s with identityIndex := index } := by
  cases n with
  | identity =>
    simp only [forgetIndex]
    split
    · exact ⟨_, rfl⟩
    · exact ⟨s.identityIndex, rfl⟩
  | overlay => exact ⟨s.identityIndex, rfl⟩

theorem sameStores_remove (s : Service) (n : CacheName) (key : n.Key) :
    SameStores s (s.removeServiceEntryLocked n key) := by
  unfold removeServiceEntryLocked
  split
  · obtain ⟨index, hindex⟩ := s.forgetIndex_eq n key
    have hbytes := serviceBytes_setCache { s with identityIndex := index } n ((s.cache n).remove key)
    have hle : (s.cache n).bytes ≤ s.serviceBytes := by
      cases n <;> simp only [cache, serviceBytes] <;> omega
    have hsize := (s.cache n).sizeOf_le key
    rw [hindex]
    have hcache : ({ s with identityIndex := index } : Service).cache n = s.cache n := by
      cases n <;> rfl
    have hsame : ({ s with identityIndex := index } : Service).serviceBytes = s.serviceBytes := rfl
    rw [hcache, hsame, SizedCache.bytes_remove] at hbytes
    refine ⟨?_, ?_, ?_, rfl, ?_⟩
    · cases n <;> rfl
    · cases n <;> rfl
    · cases n <;> rfl
    · intro rest hr
      show s.budget.bytes - (s.cache n).sizeOf key =
        (({ s with identityIndex := index } : Service).setCache n ((s.cache n).remove key)).serviceBytes
          + rest
      omega
  · exact .refl s

/-- A removed entry is gone. -/
theorem get?_remove (s : Service) (n : CacheName) (key key' : n.Key) :
    ((s.removeServiceEntryLocked n key).cache n).get? key' =
      if key' = key then none else (s.cache n).get? key' := by
  unfold removeServiceEntryLocked
  split
  · rw [← SizedCache.get?_remove]
    cases n <;> rfl
  · rename_i h
    rw [Option.not_isSome_iff_eq_none] at h
    split
    · rename_i hk
      rw [hk, h]
    · rfl

/-- The evictions keep the stores, and leave no entry under the key. -/
theorem makeRoom_spec (cfg : Config) (s : Service) (n : CacheName) (key : n.Key) (size : Nat) :
    SameStores s (s.makeRoom cfg n key size) ∧
      ((s.makeRoom cfg n key size).cache n).get? key = none := by
  have hevict : ∀ t t' : Service, (SameStores s t ∧ (t.cache n).get? key = none) →
      evictOldest n t = some t' → SameStores s t' ∧ (t'.cache n).get? key = none := by
    rintro t t' ⟨ht, habs⟩ he
    obtain ⟨key', _, rfl⟩ := Option.map_eq_some_iff.1 he
    refine ⟨ht.trans (sameStores_remove t n key'), ?_⟩
    rw [get?_remove, habs, ite_self]
  refine evictWhile_inv hevict ⟨sameStores_remove s n key, ?_⟩ _
  rw [get?_remove, if_pos rfl]

theorem sameStores_store (cfg : Config) (s : Service) (n : CacheName) (key : n.Key)
    (value : n.Value) : SameStores s (s.storeServiceEntryLocked cfg n key value) := by
  unfold storeServiceEntryLocked
  dsimp only
  split
  · exact .refl s
  · obtain ⟨hroom, habs⟩ := makeRoom_spec cfg s n key (estimateCacheBytes (cfg.text n value))
    generalize s.makeRoom cfg n key (estimateCacheBytes (cfg.text n value)) = t at hroom habs ⊢
    split
    · exact hroom
    · cases hacq : t.budget.tryAcquire (estimateCacheBytes (cfg.text n value)) with
      | none => exact hroom
      | some budget =>
        obtain ⟨hmax, hbytes⟩ := ByteBudget.tryAcquire_eq_some hacq
        have hset := serviceBytes_setCache t n
          ((t.cache n).push key value (estimateCacheBytes (cfg.text n value)))
        rw [SizedCache.bytes_push habs] at hset
        refine hroom.trans ⟨?_, ?_, ?_, hmax, ?_⟩
        · cases n <;> rfl
        · cases n <;> rfl
        · cases n <;> rfl
        · intro rest hr
          show budget.bytes = (t.setCache n _).serviceBytes + rest
          omega

/-! ## Sidecar stores -/

/-- A function that keeps the charge of a store keeps the books. -/
theorem Booked.withStore (h : Booked cfg s) (id : Nat)
    {f : SidecarStore.Account → SidecarStore.Account}
    (hf : ∀ maxBytes rest a, SidecarStore.Charged maxBytes rest a →
      SidecarStore.Charged maxBytes rest (f a)) : Booked cfg (s.withStore id f) := by
  unfold Service.withStore
  cases hid : s.heap.get? id with
  | none => exact h
  | some store =>
    have hle := Keyed.le_total (·.cacheBytes) hid
    have hput := Keyed.total_put (·.cacheBytes) hid (f (store, s.budget)).1
    have hbytes := h.bytes
    obtain ⟨hmax, hafter⟩ := hf cfg.maxCacheBytes (s.budget.bytes - store.cacheBytes)
      (store, s.budget) ⟨h.max, by dsimp only; omega⟩
    refine ⟨hmax, ?_, ?_, h.held, h.distinct⟩
    · show (f (store, s.budget)).2.bytes = s.serviceBytes + (s.heap.put id _).total _
      omega
    · intro id' store' hid'
      rw [Keyed.get?_put] at hid'
      split at hid'
      · rename_i he
        rw [he]
        exact h.issued id store hid
      · exact h.issued id' store' hid'

/-- Reordering the held stores changes nothing. -/
theorem Booked.moveToEnd (h : Booked cfg s) (key : String × String) :
    Booked cfg { s with sidecarStores := s.sidecarStores.moveToEnd key } := by
  refine ⟨h.max, h.bytes, h.issued, ?_, ?_⟩
  · intro key' id hk
    rw [Keyed.get?_moveToEnd] at hk
    exact h.held key' id hk
  · intro key₁ key₂ id h₁ h₂
    rw [Keyed.get?_moveToEnd] at h₁ h₂
    exact h.distinct key₁ key₂ id h₁ h₂

theorem Drained.moveToEnd (h : Drained s) (key : String × String) :
    Drained { s with sidecarStores := s.sidecarStores.moveToEnd key } := by
  intro id store hid hheld
  rw [not_holds_iff] at hheld
  refine h id store hid (not_holds_iff.2 fun key' hk => hheld key' ?_)
  rw [Keyed.get?_moveToEnd]
  exact hk

theorem Booked.findSidecarStore (h : Booked cfg s) (key : String × String) :
    Booked cfg (s.findSidecarStore key).1 := by
  unfold Service.findSidecarStore
  split
  · exact h
  · exact h.moveToEnd key

theorem Drained.findSidecarStore (h : Drained s) (key : String × String) :
    Drained (s.findSidecarStore key).1 := by
  unfold Service.findSidecarStore
  split
  · exact h
  · exact h.moveToEnd key

theorem Booked.evictStore (h : Booked cfg s) (he : s.evictStore = some s') : Booked cfg s' := by
  obtain ⟨key, _, he⟩ := Option.bind_eq_some_iff.1 he
  obtain ⟨id, _, rfl⟩ := Option.map_eq_some_iff.1 he
  have herased : Booked cfg { s with sidecarStores := s.sidecarStores.erase key } := by
    refine ⟨h.max, h.bytes, h.issued, ?_, ?_⟩
    · intro key' id' hk
      rw [Keyed.get?_erase] at hk
      split at hk
      · cases hk
      · exact h.held key' id' hk
    · intro key₁ key₂ id' h₁ h₂
      rw [Keyed.get?_erase] at h₁ h₂
      split at h₁
      · cases h₁
      split at h₂
      · cases h₂
      exact h.distinct key₁ key₂ id' h₁ h₂
  exact herased.withStore id fun _ _ _ hc => hc.clearCaches

/-- **An evicted store is left empty.** -/
theorem Drained.evictStore (hd : Drained s) (he : s.evictStore = some s') : Drained s' := by
  obtain ⟨key, _, he⟩ := Option.bind_eq_some_iff.1 he
  obtain ⟨id, hid, rfl⟩ := Option.map_eq_some_iff.1 he
  -- what is no longer held was not held before, or is the store that has just been cleared
  have hother : ∀ id', id' ≠ id →
      (∀ key', (s.sidecarStores.erase key).get? key' ≠ some id') → s.holds id' = false := by
    intro id' hne hnot
    refine not_holds_iff.2 fun key' hk => ?_
    by_cases hkk : key' = key
    · subst hkk
      exact hne (Option.some.inj (hk.symm.trans hid))
    · refine hnot key' ?_
      rw [Keyed.get?_erase, if_neg hkk, hk]
  unfold Service.withStore
  cases hstore : s.heap.get? id with
  | none =>
    intro id' store' hid' hheld
    rw [not_holds_iff] at hheld
    have hne : id' ≠ id := by
      rintro rfl
      rw [hstore] at hid'
      cases hid'
    exact hd id' store' hid' (hother id' hne hheld)
  | some store =>
    intro id' store' hid' hheld
    rw [not_holds_iff] at hheld
    replace hid' : (s.heap.put id _).get? id' = some store' := hid'
    rw [Keyed.get?_put] at hid'
    split at hid'
    · obtain rfl := Option.some.inj hid'
      exact SidecarStore.cacheBytes_clearCaches _
    · rename_i hne
      exact hd id' store' hid' (hother id' hne hheld)

/-- A store with a new number, under a key without a store. -/
theorem Booked.push (h : Booked cfg s) (key : String × String) :
    Booked cfg { s with
      heap := s.heap.put s.nextStore .empty
      nextStore := s.nextStore + 1
      sidecarStores := s.sidecarStores.push key s.nextStore } := by
  have hfresh : s.heap.get? s.nextStore = none := by
    refine Option.eq_none_iff_forall_ne_some.2 fun store hs => ?_
    exact Nat.lt_irrefl _ (h.issued _ _ hs)
  refine ⟨h.max, ?_, ?_, ?_, ?_⟩
  · have := Keyed.total_put_new (·.cacheBytes) hfresh SidecarStore.empty
    show s.budget.bytes = s.serviceBytes + (s.heap.put s.nextStore .empty).total _
    rw [this]
    exact h.bytes
  · intro id store hid
    rw [Keyed.get?_put] at hid
    split at hid
    · rename_i he
      rw [he]
      exact Nat.lt_succ_self _
    · exact Nat.lt_succ_of_lt (h.issued id store hid)
  · intro key' id hk
    rw [Keyed.get?_push] at hk
    split at hk
    · obtain rfl := Option.some.inj hk
      exact Nat.lt_succ_self _
    · exact Nat.lt_succ_of_lt (h.held key' id hk)
  · intro key₁ key₂ id h₁ h₂
    rw [Keyed.get?_push] at h₁ h₂
    by_cases hk₁ : key₁ = key <;> by_cases hk₂ : key₂ = key
    · rw [hk₁, hk₂]
    · rw [if_pos hk₁] at h₁
      rw [if_neg hk₂] at h₂
      obtain rfl := Option.some.inj h₁
      exact absurd (h.held _ _ h₂) (Nat.lt_irrefl _)
    · rw [if_neg hk₁] at h₁
      rw [if_pos hk₂] at h₂
      obtain rfl := Option.some.inj h₂
      exact absurd (h.held _ _ h₁) (Nat.lt_irrefl _)
    · rw [if_neg hk₁] at h₁
      rw [if_neg hk₂] at h₂
      exact h.distinct key₁ key₂ id h₁ h₂

theorem Drained.push (hd : Drained s) {key : String × String}
    (hkey : s.sidecarStores.get? key = none) :
    Drained { s with
      heap := s.heap.put s.nextStore .empty
      nextStore := s.nextStore + 1
      sidecarStores := s.sidecarStores.push key s.nextStore } := by
  intro id store hid hheld
  rw [not_holds_iff] at hheld
  replace hid : (s.heap.put s.nextStore .empty).get? id = some store := hid
  rw [Keyed.get?_put] at hid
  split at hid
  · obtain rfl := Option.some.inj hid
    rfl
  · refine hd id store hid (not_holds_iff.2 fun key' hk => hheld key' ?_)
    have hne : key' ≠ key := by
      rintro rfl
      rw [hkey] at hk
      cases hk
    rw [Keyed.get?_push, if_neg hne]
    exact hk

theorem Booked.insertSidecarStore (h : Booked cfg s) (key : String × String) :
    Booked cfg (s.insertSidecarStore cfg key).1 := by
  unfold Service.insertSidecarStore
  split
  · exact h.moveToEnd key
  · exact evictWhile_inv (fun _ _ => Booked.evictStore) (h.push key) _

theorem Drained.insertSidecarStore (hd : Drained s) (key : String × String) :
    Drained (s.insertSidecarStore cfg key).1 := by
  unfold Service.insertSidecarStore
  split
  · exact hd.moveToEnd key
  · rename_i hkey
    exact evictWhile_inv (fun _ _ => Drained.evictStore) (hd.push hkey) _

/-! ## Sections -/

theorem sameStores_lookupIdentity (s : Service) (base : BaseKey) :
    SameStores s (s.lookupIdentity base).1 := by
  unfold lookupIdentity
  split
  · exact .refl s
  · split
    · exact .refl s
    · exact .of_eq rfl rfl rfl rfl rfl

theorem sameStores_recheckIdentity (s : Service) (base : BaseKey) (key : IdentityKey) :
    SameStores s (s.recheckIdentity base key).1 := by
  unfold recheckIdentity
  split
  · exact .refl s
  · split
    · exact .of_eq rfl rfl rfl rfl rfl
    · exact .refl s

theorem sameStores_dropIdentity (s : Service) (base : BaseKey) (key : IdentityKey) :
    SameStores s (s.dropIdentity base key) := by
  unfold dropIdentity
  split
  · refine SameStores.trans ?_ (sameStores_remove _ .identity key)
    exact .of_eq rfl rfl rfl rfl rfl
  · exact .refl s

theorem sameStores_enterIdentity (s : Service) (base : BaseKey) :
    SameStores s (s.enterIdentity base).1 := by
  unfold enterIdentity
  split
  · exact .refl s
  · exact .of_eq rfl rfl rfl rfl rfl

theorem sameStores_publishIdentity (cfg : Config) (s : Service) (base : BaseKey)
    (identity : Identity) : SameStores s (s.publishIdentity cfg base identity) :=
  (sameStores_store cfg s .identity
    ⟨base, identity.fileRow.dataVersion, identity.report.assetIdentity⟩ identity).trans
      (.of_eq rfl rfl rfl rfl rfl)

theorem sameStores_enterOverlay (s : Service) (key : OverlayKey) :
    SameStores s (s.enterOverlay key).1 := by
  unfold enterOverlay
  split
  · exact .of_eq rfl rfl rfl rfl rfl
  · split
    · exact .refl s
    · exact .of_eq rfl rfl rfl rfl rfl

theorem sameStores_publishOverlay (cfg : Config) (s : Service) (key : OverlayKey)
    (overlay : Overlay) : SameStores s (s.publishOverlay cfg key overlay).1 :=
  (sameStores_store cfg s .overlay key overlay).trans (.of_eq rfl rfl rfl rfl rfl)

end Service

/-! ## Steps -/

open Service

/-- The store a request reads from: the one of its identity, held or not. -/
def Thread.reads (t : Thread) : Option Nat :=
  match t.pc with
  | .metadata identity | .render identity _ _ => some identity.sidecar
  | _ => none

/-- What a step of a thread does to the stores. -/
inductive StoreStep (cfg : Config) (t : Thread) (e : Event) (s : Service) : Service → Prop
  /-- Nothing. -/
  | same {s' : Service} (h : SameStores s s') : StoreStep cfg t e s s'
  /-- It finds a held one. -/
  | find (key : String × String) : StoreStep cfg t e s (s.findSidecarStore key).1
  /-- It adds one. -/
  | insert (key : String × String) : StoreStep cfg t e s (s.insertSidecarStore cfg key).1
  /-- It runs a section of the one its identity has. -/
  | sidecar (id : Nat) (sec : SidecarStore.Section) (hid : t.reads = some id)
      (he : e = .sidecar sec) : StoreStep cfg t e s
        (s.withStore id fun a => SidecarStore.runSection cfg.storeLimits a sec)

section Steps

variable {env : Env} {cfg : Config} {dbAt : Nat → Db} {now : Nat} {s : Service} {t : Thread}
  {e : Event}

theorem sameStores_fail (s : Service) (t : Thread) : SameStores s (t.fail s).1 := by
  unfold Thread.fail
  split <;> exact .of_eq rfl rfl rfl rfl rfl

theorem storeStep_identity : StoreStep cfg t e s (t.stepIdentity env cfg dbAt now s e).1 := by
  unfold Thread.stepIdentity
  dsimp only
  split
  · have := sameStores_lookupIdentity s t.request.base
    split <;> (rename_i heq; rw [heq] at this; exact .same this)
  · split <;> exact .same (.refl s)
  · rename_i fullKey _
    have := sameStores_recheckIdentity s t.request.base fullKey
    split <;> (rename_i heq; rw [heq] at this; exact .same this)
  · exact .same (sameStores_dropIdentity s _ _)
  · have := sameStores_enterIdentity s t.request.base
    split <;> (rename_i heq; rw [heq] at this; exact .same this)
  · split <;> exact .same (.refl s)
  · split
    · split
      · exact .same (sameStores_fail s t)
      · exact .same (.refl s)
    · exact .same (.refl s)
  · rename_i report row _
    have : StoreStep cfg t .next s
        (s.findSidecarStore (report.reportRoot, report.assetIdentity)).1 := .find _
    split <;> (rename_i heq; rw [heq] at this; exact this)
  · exact .insert _
  · exact .same (sameStores_publishIdentity cfg s _ _)
  · exact .same (.refl s)

theorem storeStep_sidecar : StoreStep cfg t e s (t.stepSidecar cfg s e).1 := by
  unfold Thread.stepSidecar
  split
  · rename_i hpc
    exact .sidecar _ _ (by rw [Thread.reads, hpc]) rfl
  · rename_i hpc
    exact .sidecar _ _ (by rw [Thread.reads, hpc]) rfl
  · split
    · exact .same (.refl s)
    · split <;> exact .same (.refl s)
  · exact .same (.refl s)
  · exact .same (.refl s)

theorem storeStep_overlay : StoreStep cfg t e s (t.stepOverlay cfg dbAt now s e).1 := by
  unfold Thread.stepOverlay
  dsimp only
  split
  · rename_i identity ranges _
    have := sameStores_enterOverlay s (overlayKey t.request.base identity ranges)
    split <;> (rename_i heq; rw [heq] at this; exact .same this)
  · split <;> exact .same (.refl s)
  · split
    · split <;> exact .same (.refl s)
    · exact .same (.refl s)
  · split <;> exact .same (.refl s)
  · exact .same (sameStores_publishOverlay cfg s _ _)
  · exact .same (.refl s)

/-- **The step of a thread, as far as the stores are concerned.** -/
theorem storeStep_step : StoreStep cfg t e s (t.step env cfg dbAt now s e).1 := by
  unfold Thread.step
  split
  · exact .same (sameStores_fail s t)
  · split
    · exact .same (.refl s)
    · exact .same (.refl s)
    · exact .same (.refl s)
    · exact storeStep_sidecar
    · exact storeStep_sidecar
    · exact storeStep_overlay
    · exact storeStep_overlay
    · exact storeStep_overlay
    · exact storeStep_overlay
    · exact storeStep_overlay
    · exact storeStep_identity

end Steps

/-! ## Runs -/

/-- A request caches a payload in a sidecar store that is no longer held: `runSection` finds no such
payload yet, and the limits and the budget admit it. -/
def Leaks (cfg : Config) (w : World) : Step → Bool
  | .run i (.sidecar sec) =>
    match (w.threads i).reads with
    | none => false
    | some id => !w.service.holds id && (w.service.heap.get? id).any fun store =>
        SidecarStore.grows cfg.storeLimits (store, w.service.budget) sec
  | _ => false

variable {env : Env} {cfg : Config}

theorem booked_exec (env : Env) (w : World) (step : Step) (h : Booked cfg w.service) :
    Booked cfg (w.exec env cfg step).service := by
  cases step with
  | commit a => exact h
  | submit i r => exact h
  | run i e =>
    have hstep : StoreStep cfg (w.threads i) e w.service (w.exec env cfg (.run i e)).service :=
      storeStep_step
    generalize (w.exec env cfg (.run i e)).service = s' at hstep ⊢
    cases hstep with
    | same hs => exact hs.booked h
    | find key => exact h.findSidecarStore key
    | insert key => exact h.insertSidecarStore key
    | sidecar id sec _ _ => exact h.withStore id fun _ _ _ hc => hc.runSection _ sec

theorem booked_init (cfg : Config) : Booked cfg (World.init cfg).service :=
  ⟨rfl, rfl, fun _ _ h => (nomatch h), fun _ _ h => (nomatch h), fun _ _ _ h => (nomatch h)⟩

/-- **In every run the budget is charged for every cached byte**, in whatever store it is. -/
theorem run_booked (env : Env) (cfg : Config) (steps : List Step) :
    Booked cfg (Trace.run (World.exec env cfg) (World.init cfg) steps).service :=
  Trace.run_inv (I := fun w : World => Booked cfg w.service) (booked_exec env) (booked_init cfg) steps

/-- A section of the store of the identity. -/
theorem step_sidecar {s : Service} {t : Thread} {id : Nat} (h : t.reads = some id)
    (dbAt : Nat → Db) (now : Nat) (sec : SidecarStore.Section) :
    (t.step env cfg dbAt now s (.sidecar sec)).1 =
      s.withStore id fun a => SidecarStore.runSection cfg.storeLimits a sec := by
  unfold Thread.reads at h
  split at h
  · rename_i hpc
    obtain rfl := Option.some.inj h
    simp [Thread.step, Thread.stepSidecar, hpc]
  · rename_i hpc
    obtain rfl := Option.some.inj h
    simp [Thread.step, Thread.stepSidecar, hpc]
  · cases h

/-- **A section leaves the stores that are not held empty** exactly when it caches nothing in one
of them. -/
theorem drained_withStore_iff {s : Service} (hd : Drained s) (id : Nat)
    (sec : SidecarStore.Section) :
    Drained (s.withStore id fun a => SidecarStore.runSection cfg.storeLimits a sec) ↔
      (!s.holds id && (s.heap.get? id).any fun store =>
        SidecarStore.grows cfg.storeLimits (store, s.budget) sec) = false := by
  unfold withStore
  cases hid : s.heap.get? id with
  | none => simp [hd]
  | some store =>
    simp only [Option.any_some]
    cases hheld : s.holds id with
    | true =>
      simp only [Bool.not_true, Bool.false_and, iff_true]
      intro id' store' hid' hheld'
      replace hid' : (s.heap.put id _).get? id' = some store' := hid'
      rw [Keyed.get?_put] at hid'
      split at hid'
      · rename_i he
        subst he
        exact absurd (hheld.symm.trans hheld') (by decide)
      · exact hd id' store' hid' hheld'
    | false =>
      have hempty := SidecarStore.cacheBytes_runSection_of_empty cfg.storeLimits
        (a := (store, s.budget)) (hd id store hid hheld) sec
      simp only [Bool.not_false, Bool.true_and]
      rw [← hempty]
      constructor
      · intro h
        refine h id _ ?_ hheld
        show (s.heap.put id _).get? id = some _
        rw [Keyed.get?_put, if_pos rfl]
      · intro h id' store' hid' hheld'
        replace hid' : (s.heap.put id _).get? id' = some store' := hid'
        rw [Keyed.get?_put] at hid'
        split at hid'
        · obtain rfl := Option.some.inj hid'
          exact h
        · exact hd id' store' hid' hheld'

/-- A step of a service whose evicted stores are empty leaves them so unless it leaks. -/
theorem drained_exec_iff (env : Env) (cfg : Config) (w : World) (step : Step) (hd : Drained w.service) :
    Drained (w.exec env cfg step).service ↔ Leaks cfg w step = false := by
  cases step with
  | commit a => exact ⟨fun _ => rfl, fun _ => hd⟩
  | submit i r => exact ⟨fun _ => rfl, fun _ => hd⟩
  | run i e =>
    by_cases hleak : ∃ id sec, (w.threads i).reads = some id ∧ e = .sidecar sec
    · obtain ⟨id, sec, hid, rfl⟩ := hleak
      show Drained ((w.threads i).step env cfg _ _ w.service _).1 ↔ _
      rw [step_sidecar hid, drained_withStore_iff hd]
      simp only [Leaks, hid]
    · have hno : Leaks cfg w (.run i e) = false := by
        cases e with
        | sidecar sec =>
          cases hid : (w.threads i).reads with
          | none => simp [Leaks, hid]
          | some id => exact absurd ⟨id, sec, hid, rfl⟩ hleak
        | _ => rfl
      rw [hno]
      refine ⟨fun _ => rfl, fun _ => ?_⟩
      have hstep : StoreStep cfg (w.threads i) e w.service (w.exec env cfg (.run i e)).service :=
        storeStep_step
      generalize (w.exec env cfg (.run i e)).service = s' at hstep ⊢
      cases hstep with
      | same hs => exact hs.drained hd
      | find key => exact hd.findSidecarStore key
      | insert key => exact hd.insertSidecarStore key
      | sidecar id sec hid he => exact absurd ⟨id, sec, hid, he⟩ hleak

theorem drained_init (cfg : Config) : Drained (World.init cfg).service :=
  fun _ _ h => (nomatch h)

/-- **The budget is accounted for after every step of a run exactly when no step of the run
leaks.** -/
theorem accounted_run_iff (env : Env) (cfg : Config) (steps : List Step) :
    (∀ n, Accounted cfg
      (Trace.run (World.exec env cfg) (World.init cfg) (steps.take n)).service) ↔
      Trace.Along (World.exec env cfg) (fun w step => Leaks cfg w step = false) (World.init cfg)
        steps := by
  have key : ∀ (steps : List Step) (w : World), Booked cfg w.service → Drained w.service →
      ((∀ n, Accounted cfg (Trace.run (World.exec env cfg) w (steps.take n)).service) ↔
        Trace.Along (World.exec env cfg) (fun w step => Leaks cfg w step = false) w steps) := by
    intro steps
    induction steps with
    | nil =>
      intro w hb hd
      simp only [List.take_nil, Trace.run_nil, Trace.Along, iff_true]
      exact fun _ => (accounted_iff hb).2 hd
    | cons step steps ih =>
      intro w hb hd
      have hb' := booked_exec env w step hb
      have hstep := drained_exec_iff env cfg w step hd
      constructor
      · intro h
        have hd' : Drained (w.exec env cfg step).service := (accounted_iff hb').1 (h 1)
        exact ⟨hstep.1 hd', (ih _ hb' hd').1 fun n => h (n + 1)⟩
      · rintro ⟨hno, hrest⟩ n
        cases n with
        | zero => exact (accounted_iff hb).2 hd
        | succ n => exact (ih _ hb' (hstep.2 hno)).2 hrest n
  exact key steps _ (booked_init cfg) (drained_init cfg)

/-! ## A run that leaks

Two reports, one store at a time.  A second request for the first report is answered from the
identity cache, and caches the metadata of its file in the store that the other report evicted. -/

namespace Sample

/-- A request that finds its identity in the cache. -/
def reuses (report : String) : List Step :=
  .submit 0 (layout report) :: [Event.next, .read 2, .next].map (.run 0)

/-- The report that is opened first is opened again after the other one. -/
def leakingRun : List Step :=
  opened "a" ++ loads "b" ++ [caches "b"] ++ answers ++ reuses "a" ++ [caches "a"] ++ answers

/-- The service afterwards. -/
def leaked : Service :=
  (Trace.run (World.exec FosCoverage.Sample.env config) (World.init config) leakingRun).service

end Sample

/-- The budget is charged for more than the two caches and the held store. -/
theorem not_accounted_leaked : ¬ Accounted Sample.config Sample.leaked ∧
    Sample.leaked.budget.bytes = Sample.leaked.identityCache.bytes +
      Sample.leaked.overlayCache.bytes + Sample.leaked.heldBytes + 3 := by
  decide +kernel

end CodeDetail

end FosCoverage
