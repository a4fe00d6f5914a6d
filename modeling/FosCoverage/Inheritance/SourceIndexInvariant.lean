import Mathlib.Algebra.Order.Ring.Int
import Mathlib.Data.List.Induction
import FosCoverage.Inheritance.SourceIndexCache

/-!
# The invariant of the source index cache

Between two operations the cache is `Settled`: the counter is exact and within the limit, the two
maps have the same keys, and what is cached is pinned by an active pair.  Within an operation there
may be one cached key too many, that of an index whose pair was given up while it was being loaded;
`Within` describes these states.

`Evolves` says what a step other than a release may do to the indexes: an active pair keeps what is
cached for it, or both of its indexes are flagged.  It is transitive, so one lemma for each small
step (`markIndexPairBudgetExhausted_evolves`, `insert_evolves`, …) gives it for the operations.
-/

set_option autoImplicit false

namespace FosCoverage

namespace SourceIndexCache

open Relational

/-! ## The invariant -/

/-- What holds at every point. -/
structure Core (s : State) : Prop where
  /-- The two maps have the same keys. -/
  keys : ∀ k, (s.indexes.get? k).isSome = (s.sizes.get? k).isSome
  /-- **The counter is the sum of the recorded sizes.** -/
  bytes : s.bytes = (s.sizes.total id : Nat)
  /-- The active keys are those of the active pairs. -/
  active : ∀ k, k ∈ s.activeKeys ↔ ∃ pair ∈ s.activePairs, k ∈ pairKeys pair
  /-- What is cached is an object. -/
  objects : ∀ k o, s.indexes.get? k = some o → o < s.objects.length

/-- **The invariant between two operations.** -/
structure Settled (limit : Nat) (s : State) : Prop extends Core s where
  /-- Every cached key belongs to an active pair. -/
  pinned : ∀ k, (s.indexes.get? k).isSome → k ∈ s.activeKeys
  /-- The sizes are within the limit. -/
  budget : s.bytes ≤ limit

/-- Without the given key the cache would be settled. -/
structure Within (limit : Nat) (key : IndexKey) (s : State) : Prop extends Core s where
  /-- Every other cached key belongs to an active pair. -/
  pinned : ∀ k, (s.indexes.get? k).isSome → k ∈ s.activeKeys ∨ k = key
  /-- The other sizes are within the limit. -/
  budget : (s.sizes.erase key).total id ≤ limit

/-- What a step other than a release may do to the indexes. -/
structure Evolves (s s' : State) : Prop where
  /-- A flag stays. -/
  flags : ∀ o, s.Flagged o → s'.Flagged o
  /-- An object stays. -/
  length : s.objects.length ≤ s'.objects.length
  /-- A pair that was given up once is remembered. -/
  failed : ∀ pair ∈ s.failedPairs, pair ∈ s'.failedPairs
  /-- A pair that is not active any more was given up. -/
  lost : ∀ pair ∈ s.activePairs, pair ∈ s'.activePairs ∨ pair ∈ s'.failedPairs
  /-- What leaves the cache is flagged. -/
  cached : ∀ k o, s.indexes.get? k = some o → s'.indexes.get? k = some o ∨ s'.Flagged o
  /-- An active pair keeps what is cached for it, or all of that is flagged. -/
  pairs : ∀ pair ∈ s.activePairs,
    (pair ∈ s'.activePairs ∧
      ∀ k ∈ pairKeys pair, ∀ o, s.indexes.get? k = some o → s'.indexes.get? k = some o) ∨
    ∀ k ∈ pairKeys pair, ∀ o, s.indexes.get? k = some o → s'.Flagged o
  /-- A new object is cached or flagged. -/
  fresh : ∀ o, s.objects.length ≤ o → o < s'.objects.length →
    (∃ k, s'.indexes.get? k = some o) ∨ s'.Flagged o

theorem Evolves.refl (s : State) : Evolves s s :=
  ⟨fun _ h => h, Nat.le_refl _, fun _ h => h, fun _ h => .inl h, fun _ _ h => .inl h,
    fun _ h => .inl ⟨h, fun _ _ _ ho => ho⟩, fun _ h h' => absurd h (Nat.not_le.2 h')⟩

theorem Evolves.trans {s s' s'' : State} (h : Evolves s s') (h' : Evolves s' s'') :
    Evolves s s'' := by
  refine ⟨fun o ho => h'.flags o (h.flags o ho), h.length.trans h'.length,
    fun p hp => h'.failed p (h.failed p hp), fun p hp => ?_, fun k o ho => ?_, fun p hp => ?_,
    fun o hlo hhi => ?_⟩
  · rcases h.lost p hp with hp | hp
    · exact h'.lost p hp
    · exact .inr (h'.failed p hp)
  · rcases h.cached k o ho with ho | ho
    · exact h'.cached k o ho
    · exact .inr (h'.flags o ho)
  · rcases h.pairs p hp with ⟨hp', hstay⟩ | hflag
    · rcases h'.pairs p hp' with ⟨hp'', hstay'⟩ | hflag'
      · exact .inl ⟨hp'', fun k hk o ho => hstay' k hk o (hstay k hk o ho)⟩
      · exact .inr fun k hk o ho => hflag' k hk o (hstay k hk o ho)
    · exact .inr fun k hk o ho => h'.flags o (hflag k hk o ho)
  · by_cases hmid : o < s'.objects.length
    · rcases h.fresh o hlo hmid with ⟨k, hk⟩ | hf
      · exact (h'.cached k o hk).imp (fun h => ⟨k, h⟩) id
      · exact .inr (h'.flags o hf)
    · exact h'.fresh o (Nat.not_lt.1 hmid) hhi

/-- A step that leaves indexes and objects alone and takes no pair away. -/
theorem Evolves.of_eq {s s' : State} (hi : ∀ k, s'.indexes.get? k = s.indexes.get? k)
    (ho : s'.objects = s.objects) (hf : s'.failedPairs = s.failedPairs)
    (ha : ∀ p ∈ s.activePairs, p ∈ s'.activePairs) : Evolves s s' := by
  refine ⟨fun o h => ?_, by rw [ho], fun p hp => by rwa [hf], fun p hp => .inl (ha p hp),
    fun k o h => .inl (by rwa [hi]), fun p hp => .inl ⟨ha p hp, fun k _ o h => by rwa [hi]⟩,
    fun o hlo hhi => absurd hlo (Nat.not_le.2 (by rwa [ho] at hhi))⟩
  rwa [State.Flagged, ho]

theorem erase_total_le (t : Keyed IndexKey Nat) (k : IndexKey) :
    (t.erase k).total id ≤ t.total id := by
  cases hk : t.get? k with
  | none => rw [Keyed.erase_of_none hk]
  | some n =>
    have := Keyed.total_erase id hk
    omega

theorem Settled.within {limit : Nat} {s : State} (h : Settled limit s) (key : IndexKey) :
    Within limit key s := by
  refine ⟨h.toCore, fun k hk => .inl (h.pinned k hk), ?_⟩
  have hle := erase_total_le s.sizes key
  have := h.budget
  rw [h.bytes] at this
  omega

/-- A cache that is settled but for one key is settled when nothing is cached under it. -/
theorem Within.settled {limit : Nat} {key : IndexKey} {s : State} (h : Within limit key s)
    (hk : s.indexes.get? key = none) : Settled limit s := by
  refine ⟨h.toCore, fun k hk' => (h.pinned k hk').resolve_right ?_, ?_⟩
  · rintro rfl
    rw [hk] at hk'
    cases hk'
  · have hsize : s.sizes.get? key = none := by
      have := h.keys key
      rw [hk] at this
      exact Option.not_isSome_iff_eq_none.1 (by rw [← this]; simp)
    have hb := h.budget
    rw [Keyed.erase_of_none hsize] at hb
    rw [h.bytes]
    omega

/-! ## Popping keys -/

/-- What popping some keys does. -/
structure Pops (keys : List IndexKey) (s s' : State) : Prop where
  /-- The maps lose the keys that are not active. -/
  indexes : ∀ k, s'.indexes.get? k =
    if k ∈ keys ∧ k ∉ s.activeKeys then none else s.indexes.get? k
  /-- Nothing grows. -/
  total : ∀ k, (s'.sizes.erase k).total id ≤ (s.sizes.erase k).total id
  /-- Nor does the counter. -/
  bytes : s'.bytes ≤ s.bytes
  /-- The rest stays. -/
  objects : s'.objects = s.objects
  /-- The rest stays. -/
  activePairs : s'.activePairs = s.activePairs
  /-- The rest stays. -/
  activeKeys : s'.activeKeys = s.activeKeys
  /-- The rest stays. -/
  failedPairs : s'.failedPairs = s.failedPairs

theorem erase_comm (t : Keyed IndexKey Nat) (k k' : IndexKey) :
    (t.erase k).erase k' = (t.erase k').erase k := by
  refine Keyed.ext' ?_
  simp only [Keyed.erase, Keyed.deleteWhere, List.filter_filter]
  exact List.filter_congr fun r _ => Bool.and_comm _ _

theorem pop_core {s : State} (h : Core s) (key : IndexKey) : Core (s.pop key) := by
  refine ⟨fun k => ?_, ?_, h.active, fun k o ho => ?_⟩
  · simp only [State.pop, Keyed.get?_erase]
    split
    · rfl
    · exact h.keys k
  · have := h.bytes
    simp only [State.pop]
    cases hk : s.sizes.get? key with
    | none =>
      rw [Keyed.erase_of_none hk]
      simp only [Option.getD_none]
      omega
    | some n =>
      have := Keyed.total_erase id hk
      simp only [Option.getD_some, id] at this ⊢
      omega
  · simp only [State.pop, Keyed.get?_erase] at ho
    split at ho
    · cases ho
    · exact h.objects k o ho

theorem popInactive_foldl (keys : List IndexKey) {s : State} (h : Core s) :
    Core (keys.foldl State.popInactive s) ∧ Pops keys s (keys.foldl State.popInactive s) := by
  induction keys generalizing s with
  | nil =>
    exact ⟨h, fun k => by simp, fun _ => Nat.le_refl _, Int.le_refl _, rfl, rfl, rfl, rfl⟩
  | cons key keys ih =>
    rw [List.foldl_cons]
    by_cases hk : key ∈ s.activeKeys
    · rw [State.popInactive, if_pos hk]
      obtain ⟨hcore, hp⟩ := ih h
      refine ⟨hcore, fun k => ?_, hp.total, hp.bytes, hp.objects, hp.activePairs, hp.activeKeys,
        hp.failedPairs⟩
      rw [hp.indexes]
      refine if_congr ?_ rfl rfl
      rw [List.mem_cons]
      exact ⟨fun hc => ⟨.inr hc.1, hc.2⟩,
        fun hc => ⟨hc.1.resolve_left fun he => hc.2 (he ▸ hk), hc.2⟩⟩
    · rw [State.popInactive, if_neg hk]
      obtain ⟨hcore, hp⟩ := ih (pop_core h key)
      refine ⟨hcore, fun k => ?_, fun k => ?_, ?_, hp.objects, hp.activePairs, hp.activeKeys,
        hp.failedPairs⟩
      · rw [hp.indexes]
        simp only [State.pop, Keyed.get?_erase, List.mem_cons]
        by_cases he : k = key
        · simp [he, hk]
        · simp [he]
      · refine (hp.total k).trans ?_
        show ((s.sizes.erase key).erase k).total id ≤ _
        rw [erase_comm]
        exact erase_total_le _ _
      · refine hp.bytes.trans ?_
        simp only [State.pop]
        omega

theorem popAll_spec (keys : List IndexKey) {s : State} (h : Core s) :
    Core (s.popAll keys) ∧ Pops keys s (s.popAll keys) := by
  obtain ⟨hcore, hp⟩ := popInactive_foldl keys h
  have hmax : max 0 (keys.foldl State.popInactive s).bytes =
      (keys.foldl State.popInactive s).bytes := by
    rw [hcore.bytes]
    omega
  have hs : s.popAll keys = keys.foldl State.popInactive s := by
    rw [State.popAll, hmax]
  rw [hs]
  exact ⟨hcore, hp⟩

/-! ## Giving a pair up -/

theorem flagged_flag {s : State} {o i : Nat} (ho : o < s.objects.length) :
    (s.flag o).Flagged i ↔ s.Flagged i ∨ i = o := by
  simp only [State.Flagged, State.flag, List.getElem?_modify]
  by_cases hi : o = i
  · subst hi
    simp [List.getElem?_eq_getElem ho]
  · simp [hi, Ne.symm hi]

theorem flagKey_foldl (keys : List IndexKey) {s : State}
    (h : ∀ k o, s.indexes.get? k = some o → o < s.objects.length) :
    ∃ objects, keys.foldl State.flagKey s = { s with objects := objects } ∧
      objects.length = s.objects.length ∧
      ∀ i, ({ s with objects := objects } : State).Flagged i ↔
        s.Flagged i ∨ ∃ k ∈ keys, s.indexes.get? k = some i := by
  induction keys generalizing s with
  | nil => exact ⟨s.objects, rfl, rfl, fun i => by simp⟩
  | cons key keys ih =>
    rw [List.foldl_cons]
    cases hk : s.indexes.get? key with
    | none =>
      obtain ⟨objects, he, hl, hf⟩ := ih h
      refine ⟨objects, by rwa [State.flagKey, hk], hl, fun i => ?_⟩
      rw [hf]
      simp [hk]
    | some o =>
      have ho := h key o hk
      have hlen : (s.flag o).objects.length = s.objects.length := List.length_modify _ _ _
      obtain ⟨objects, he, hl, hf⟩ := ih (s := s.flag o) fun k i hki => by
        rw [hlen]
        exact h k i hki
      refine ⟨objects, by rwa [State.flagKey, hk], hl.trans hlen, fun i => ?_⟩
      have hf' := hf i
      rw [flagged_flag ho, show (s.flag o).indexes = s.indexes from rfl] at hf'
      refine hf'.trans ?_
      rw [or_assoc]
      refine or_congr_right ?_
      simp [hk, eq_comm]

/-- What giving a pair up does. -/
structure GivesUp (pair : IndexPair) (s s' : State) : Prop where
  /-- Its keys are popped unless another pair needs them. -/
  indexes : ∀ k, s'.indexes.get? k =
    if k ∈ pairKeys pair ∧ k ∉ s'.activeKeys then none else s.indexes.get? k
  /-- Nothing grows. -/
  total : ∀ k, (s'.sizes.erase k).total id ≤ (s.sizes.erase k).total id
  /-- Nor does the counter. -/
  bytes : s'.bytes ≤ s.bytes
  /-- The pair is not active any more. -/
  activePairs : s'.activePairs = s.activePairs.filter fun p => p ≠ pair
  /-- The pair is remembered. -/
  failedPairs : ∀ p, p ∈ s'.failedPairs ↔ p = pair ∨ p ∈ s.failedPairs
  /-- No object is made. -/
  length : s'.objects.length = s.objects.length
  /-- **Both of its indexes are flagged.** -/
  flagged : ∀ i, s'.Flagged i ↔ s.Flagged i ∨ ∃ k ∈ pairKeys pair, s.indexes.get? k = some i

theorem markIndexPairBudgetExhausted_spec {s : State} (h : Core s) (pair : IndexPair) :
    Core (s.markIndexPairBudgetExhausted pair true) ∧
      GivesUp pair s (s.markIndexPairBudgetExhausted pair true) := by
  obtain ⟨objects, he, hlen, hflag⟩ := flagKey_foldl (pairKeys pair)
    (s := { s with failedPairs := s.failedPairs.insert pair }) h.objects
  set s₁ : State := { s with
    failedPairs := s.failedPairs.insert pair
    objects := objects
    activePairs := s.activePairs.filter fun p => p ≠ pair } with hs₁
  have hmark : s.markIndexPairBudgetExhausted pair true =
      ((s₁.discardFromScopes pair).refreshKeys).popAll (pairKeys pair) := by
    simp only [State.markIndexPairBudgetExhausted, he, if_true]
    rfl
  have hcore : Core (s₁.discardFromScopes pair).refreshKeys := by
    refine ⟨h.keys, h.bytes, fun k => ?_, fun k o ho => ?_⟩
    · exact List.mem_flatMap
    · exact lt_of_lt_of_eq (h.objects k o ho) hlen.symm
  obtain ⟨hcore', hp⟩ := popAll_spec (pairKeys pair) hcore
  rw [hmark]
  refine ⟨hcore', fun k => ?_, hp.total, hp.bytes, hp.activePairs, fun p => ?_, ?_, fun i => ?_⟩
  · rw [hp.indexes, hp.activeKeys]
    rfl
  · rw [hp.failedPairs]
    exact List.mem_insert_iff
  · rw [hp.objects]
    exact hlen
  · rw [State.Flagged, hp.objects]
    exact hflag i

theorem GivesUp.evolves {pair : IndexPair} {s s' : State} (h : Core s') (hg : GivesUp pair s s') :
    Evolves s s' := by
  refine ⟨fun o ho => (hg.flagged o).2 (.inl ho), hg.length.ge, fun p hp =>
    (hg.failedPairs p).2 (.inr hp), fun p hp => ?_, fun k o ho => ?_, fun p hp => ?_,
    fun o hlo hhi => absurd hlo (Nat.not_le.2 (hg.length ▸ hhi))⟩
  · by_cases hpp : p = pair
    · exact .inr ((hg.failedPairs p).2 (.inl hpp))
    · exact .inl (by rw [hg.activePairs]; exact List.mem_filter.2 ⟨hp, decide_eq_true hpp⟩)
  · rw [hg.indexes]
    by_cases hk : k ∈ pairKeys pair ∧ k ∉ s'.activeKeys
    · exact .inr ((hg.flagged o).2 (.inr ⟨k, hk.1, ho⟩))
    · rw [if_neg hk]
      exact .inl ho
  · by_cases hpp : p = pair
    · subst hpp
      exact .inr fun k hk o ho => (hg.flagged o).2 (.inr ⟨k, hk, ho⟩)
    · have hp' : p ∈ s'.activePairs := by
        rw [hg.activePairs]
        exact List.mem_filter.2 ⟨hp, decide_eq_true hpp⟩
      refine .inl ⟨hp', fun k hk o ho => ?_⟩
      rw [hg.indexes, if_neg fun hc => hc.2 ((h.active k).2 ⟨p, hp', hk⟩)]
      exact ho

/-- A key that is still active in another pair was active before. -/
theorem GivesUp.activeKeys {pair : IndexPair} {s s' : State} (h' : Core s')
    (hg : GivesUp pair s s') (k : IndexKey) :
    k ∈ s'.activeKeys ↔ ∃ p ∈ s.activePairs, p ≠ pair ∧ k ∈ pairKeys p := by
  rw [h'.active, hg.activePairs]
  simp only [List.mem_filter, decide_eq_true_eq, and_assoc]

/-- What is still cached was cached before, and is as active as it was. -/
theorem GivesUp.stays {pair : IndexPair} {s s' : State} (h : Core s) (h' : Core s')
    (hg : GivesUp pair s s') {k : IndexKey} (hk : (s'.indexes.get? k).isSome) :
    (s.indexes.get? k).isSome ∧ (k ∈ s.activeKeys → k ∈ s'.activeKeys) := by
  rw [hg.indexes] at hk
  split at hk
  · cases hk
  · rename_i hstay
    refine ⟨hk, fun hact => ?_⟩
    -- the key is active in another pair, or it would have been popped
    obtain ⟨p, hp, hkp⟩ := (h.active k).1 hact
    by_contra hnot
    by_cases hpp : p = pair
    · exact hstay ⟨hpp ▸ hkp, hnot⟩
    · exact hnot ((hg.activeKeys h' k).2 ⟨p, hp, hpp, hkp⟩)

/-- Giving a pair up keeps the cache settled but for one key. -/
theorem GivesUp.within {limit : Nat} {key : IndexKey} {pair : IndexPair} {s s' : State}
    (h : Within limit key s) (h' : Core s') (hg : GivesUp pair s s') : Within limit key s' := by
  refine ⟨h', fun k hk => ?_, (hg.total key).trans h.budget⟩
  obtain ⟨hcached, hact⟩ := hg.stays h.toCore h' hk
  exact (h.pinned k hcached).imp_left hact

/-- Giving a pair up keeps the cache settled. -/
theorem GivesUp.settled {limit : Nat} {pair : IndexPair} {s s' : State} (h : Settled limit s)
    (h' : Core s') (hg : GivesUp pair s s') : Settled limit s' := by
  refine ⟨h', fun k hk => ?_, hg.bytes.trans h.budget⟩
  obtain ⟨hcached, hact⟩ := hg.stays h.toCore h' hk
  exact hact (h.pinned k hcached)

/-- Giving up all pairs of a list. -/
theorem giveUp_foldl {limit : Nat} {key : IndexKey} {s : State} (pairs : List IndexPair)
    (h : Within limit key s) (hkey : ∀ p ∈ pairs, key ∈ pairKeys p) :
    let s' := pairs.foldl (fun s pair => s.markIndexPairBudgetExhausted pair true) s
    Within limit key s' ∧ Evolves s s' ∧ s'.activePairs = s.activePairs.filter (· ∉ pairs) ∧
      (pairs ≠ [] → key ∉ s'.activeKeys → s'.indexes.get? key = none) := by
  induction pairs using List.reverseRecOn with
  | nil => exact ⟨h, .refl s, by simp, fun hne => absurd rfl hne⟩
  | append_singleton pairs pair ih =>
    obtain ⟨hw, hev, hpairs, -⟩ := ih fun p hp => hkey p (List.mem_append_left _ hp)
    rw [List.foldl_append, List.foldl_cons, List.foldl_nil]
    set s₁ := pairs.foldl (fun s pair => s.markIndexPairBudgetExhausted pair true) s
    obtain ⟨hcore, hg⟩ := markIndexPairBudgetExhausted_spec hw.toCore pair
    refine ⟨hg.within hw hcore, hev.trans (hg.evolves hcore), ?_, fun _ hk => ?_⟩
    · rw [hg.activePairs, hpairs, List.filter_filter]
      refine List.filter_congr fun p _ => ?_
      simp only [List.mem_append, List.mem_singleton, not_or, Bool.decide_and, Bool.and_comm]
    · rw [hg.indexes, if_pos ⟨hkey pair (by simp), hk⟩]

/-! ## An index changes its size -/

theorem record_spec {limit : Nat} {key : IndexKey} {s : State} (h : Within limit key s)
    (hk : (s.indexes.get? key).isSome) (n : Nat) :
    Within limit key (s.record key n) ∧ Evolves s (s.record key n) := by
  obtain ⟨prev, hprev⟩ := Option.isSome_iff_exists.1 (h.keys key ▸ hk)
  have hput := Keyed.total_put id hprev n
  have herase := Keyed.total_erase id hprev
  have herase' := Keyed.total_erase id (show (s.sizes.put key n).get? key = some n by simp)
  simp only [id] at hput herase herase'
  refine ⟨⟨⟨fun k => ?_, ?_, h.active, fun k o ho => ?_⟩, fun k hk' => ?_, ?_⟩, ?_⟩
  · simp only [State.record, Keyed.get?_moveToEnd, Keyed.get?_put]
    split
    · rename_i he
      rw [he, hk]
      rfl
    · exact h.keys k
  · have hb := h.bytes
    simp only [State.record, hprev, Option.getD_some]
    omega
  · simp only [State.record, Keyed.get?_moveToEnd] at ho
    exact h.objects k o ho
  · simp only [State.record, Keyed.get?_moveToEnd] at hk'
    exact h.pinned k hk'
  · have hb := h.budget
    simp only [State.record]
    omega
  · exact Evolves.of_eq (fun k => by simp [State.record]) rfl rfl fun p hp => hp

theorem evict_eq_none {limit : Nat} {key : IndexKey} {s : State} (h : Within limit key s) :
    State.evict key s = none := by
  rw [State.evict, Option.map_eq_none_iff, List.find?_eq_none]
  rintro ⟨k, o⟩ hr hc
  obtain ⟨hne, hnot⟩ := of_decide_eq_true hc
  have hk : (s.indexes.get? k).isSome := by
    rw [Keyed.get?_eq_some_iff.2 hr]
    rfl
  exact (h.pinned k hk).elim hnot hne

/-- **The callback.** -/
theorem sourceIndexChanged_spec {limit : Nat} {key : IndexKey} {s : State}
    (h : Within limit key s) (o : Nat) :
    Within limit key (s.sourceIndexChanged limit key o) ∧
      Evolves s (s.sourceIndexChanged limit key o) ∧
      (∀ p ∈ (s.sourceIndexChanged limit key o).activePairs, p ∈ s.activePairs) ∧
      (key ∈ s.activeKeys → Settled limit (s.sourceIndexChanged limit key o)) := by
  unfold State.sourceIndexChanged
  split
  · rename_i hnone
    exact ⟨h, .refl s, fun p hp => hp, fun _ => h.settled (Option.isNone_iff_eq_none.1 hnone)⟩
  · rename_i hsome
    have hk : (s.indexes.get? key).isSome := by
      cases hg : s.indexes.get? key <;> simp_all
    obtain ⟨hw, hev⟩ :=
      record_spec h hk ((s.objects[o]?.map SourceIndex.totalIndexBytes).getD 0)
    set s₁ := s.record key ((s.objects[o]?.map SourceIndex.totalIndexBytes).getD 0) with hs₁
    dsimp only
    rw [evictWhile_of_none (evict_eq_none hw), State.markActivePairsOverBudget]
    split
    · rename_i hfit
      refine ⟨hw, hev, fun p hp => hp, fun hact => ⟨hw.toCore, fun k hk' => ?_, hfit⟩⟩
      rcases hw.pinned k hk' with hk' | rfl
      · exact hk'
      · exact hact
    · obtain ⟨hw', hev', hpairs, hpopped⟩ := giveUp_foldl
        (s₁.activePairs.filter fun pair => key ∈ pairKeys pair) hw
        fun p hp => of_decide_eq_true (List.mem_filter.1 hp).2
      refine ⟨hw', hev.trans hev', fun p hp => ?_, fun hact => hw'.settled (hpopped ?_ ?_)⟩
      · rw [hpairs] at hp
        exact (List.mem_filter.1 hp).1
      · -- some active pair has the key
        obtain ⟨p, hp, hkp⟩ := (h.active key).1 hact
        exact List.ne_nil_of_mem (List.mem_filter.2 ⟨hp, decide_eq_true hkp⟩)
      · rw [hw'.active, hpairs]
        rintro ⟨p, hp, hkp⟩
        obtain ⟨hp, hnot⟩ := List.mem_filter.1 hp
        exact of_decide_eq_true hnot (List.mem_filter.2 ⟨hp, decide_eq_true hkp⟩)

/-! ## The operations -/

theorem insert_spec {limit : Nat} {key : IndexKey} {s : State} (h : Settled limit s)
    (hk : s.indexes.get? key = none) (size : Nat) :
    Within limit key (s.insert key size) ∧ Evolves s (s.insert key size) := by
  have hsize : s.sizes.get? key = none := by
    have := h.keys key
    rw [hk] at this
    exact Option.not_isSome_iff_eq_none.1 (by rw [← this]; simp)
  have hput := Keyed.total_put_new id hsize size
  have herase := Keyed.total_erase id (show (s.sizes.put key size).get? key = some size by simp)
  simp only [id] at hput herase
  have hflags : ∀ o, s.Flagged o → (s.insert key size).Flagged o := by
    rintro o ⟨index, hi, hf⟩
    refine ⟨index, ?_, hf⟩
    simp only [State.insert]
    rw [List.getElem?_append_left (List.getElem?_eq_some_iff.1 hi).1, hi]
  have hlen : (s.insert key size).objects.length = s.objects.length + 1 := by simp [State.insert]
  have hold : ∀ k o, s.indexes.get? k = some o → (s.insert key size).indexes.get? k = some o := by
    intro k o ho
    have hne : k ≠ key := by
      rintro rfl
      rw [hk] at ho
      cases ho
    simpa only [State.insert, Keyed.get?_put, if_neg hne] using ho
  refine ⟨⟨⟨fun k => ?_, ?_, h.active, fun k o ho => ?_⟩, fun k hk' => ?_, ?_⟩, hflags, ?_,
    fun p hp => hp, fun p hp => .inl hp, fun k o ho => .inl (hold k o ho),
    fun p hp => .inl ⟨hp, fun k _ o ho => hold k o ho⟩, fun o hlo hhi => .inl ⟨key, ?_⟩⟩
  · simp only [State.insert, Keyed.get?_put]
    split
    · rfl
    · exact h.keys k
  · have hb := h.bytes
    simp only [State.insert]
    omega
  · simp only [State.insert, Keyed.get?_put] at ho
    rw [hlen]
    split at ho
    · obtain rfl := Option.some.inj ho
      omega
    · have := h.objects k o ho
      omega
  · simp only [State.insert, Keyed.get?_put] at hk'
    split at hk'
    · exact .inr ‹k = key›
    · exact .inl (h.pinned k hk')
  · have hb := h.budget
    rw [h.bytes] at hb
    simp only [State.insert]
    omega
  · simp [State.insert]
  · rw [hlen] at hhi
    obtain rfl : o = s.objects.length := by omega
    simp [State.insert]

/-- What a lookup of one index does. -/
structure Looks (limit : Nat) (key : IndexKey) (s s' : State) : Prop where
  /-- At most the key itself is one too many. -/
  within : Within limit key s'
  /-- The indexes evolve. -/
  evolves : Evolves s s'
  /-- No pair becomes active. -/
  activePairs : ∀ p ∈ s'.activePairs, p ∈ s.activePairs
  /-- With an active key the cache is settled again. -/
  settled : key ∈ s.activeKeys → Settled limit s'

/-- **`_source_index`** -/
theorem sourceIndex_spec {limit : Nat} {s : State} (h : Settled limit s) (key : IndexKey)
    (load : Option Nat) :
    Looks limit key s (s.sourceIndex limit key load).2 ∧
      ((s.sourceIndex limit key load).1 = none →
        Settled limit (s.sourceIndex limit key load).2) := by
  unfold State.sourceIndex
  split
  · rename_i o ho
    have hact : key ∈ s.activeKeys := h.pinned key (by rw [ho]; rfl)
    set s₁ : State := { s with indexes := s.indexes.moveToEnd key } with hs₁
    have hmove : ∀ k, s₁.indexes.get? k = s.indexes.get? k := fun k => by simp [hs₁]
    have h₁ : Settled limit s₁ := by
      refine ⟨⟨fun k => ?_, h.bytes, h.active, fun k i hi => ?_⟩, fun k hk => ?_, h.budget⟩
      · rw [hmove]
        exact h.keys k
      · rw [hmove] at hi
        exact h.objects k i hi
      · rw [hmove] at hk
        exact h.pinned k hk
    obtain ⟨hw, hev, hpairs, hset⟩ := sourceIndexChanged_spec (h₁.within key) o
    have hstart : Evolves s s₁ := .of_eq hmove rfl rfl fun p hp => hp
    exact ⟨⟨hw, hstart.trans hev, hpairs, hset⟩, fun _ => hset hact⟩
  · exact ⟨⟨h.within key, .refl s, fun p hp => hp, fun _ => h⟩, fun _ => h⟩
  · rename_i size hk
    obtain ⟨hw, hev⟩ := insert_spec h hk size
    obtain ⟨hw', hev', hpairs, hset⟩ := sourceIndexChanged_spec hw s.objects.length
    exact ⟨⟨hw', hev.trans hev', hpairs, hset⟩, fun hn => by cases hn⟩

theorem activate_spec {limit : Nat} {s : State} (h : Settled limit s) (pair : IndexPair)
    (scope : Option String) : Settled limit (s.activate pair scope) ∧
      Evolves s (s.activate pair scope) := by
  have hkeys : ∀ k, k ∈ (s.activate pair scope).activeKeys ↔
      k ∈ s.activeKeys ∨ k ∈ pairKeys pair := by
    intro k
    simp only [State.activate, List.mem_insert_iff, pairKeys, List.mem_cons, List.not_mem_nil,
      or_false]
    tauto
  refine ⟨⟨⟨h.keys, h.bytes, fun k => ?_, h.objects⟩, fun k hk => ?_, h.budget⟩, ?_⟩
  · rw [hkeys, h.active]
    simp only [State.activate, List.mem_insert_iff, exists_eq_or_imp]
    exact or_comm
  · exact (hkeys k).2 (.inl (h.pinned k hk))
  · exact .of_eq (fun k => rfl) rfl rfl fun p hp => List.mem_insert_of_mem hp

/-- **`_source_index_pair`** -/
theorem sourceIndexPair_spec {limit : Nat} {s : State} (h : Settled limit s) (pair : IndexPair)
    (scope : Option String) (load : IndexKey → Option Nat) :
    Settled limit (s.sourceIndexPair limit pair scope load).2 ∧
      Evolves s (s.sourceIndexPair limit pair scope load).2 := by
  unfold State.sourceIndexPair
  split
  · obtain ⟨hcore, hg⟩ := markIndexPairBudgetExhausted_spec h.toCore pair
    exact ⟨hg.settled h hcore, hg.evolves hcore⟩
  · obtain ⟨h₀, hev₀⟩ := activate_spec h pair scope
    have hactive : pair ∈ (s.activate pair scope).activePairs := List.mem_insert_self
    obtain ⟨hold, holdnone⟩ := sourceIndex_spec h₀ pair.1 (load pair.1)
    split
    · rename_i s₁ hr
      rw [hr] at hold holdnone
      exact ⟨holdnone rfl, hev₀.trans hold.evolves⟩
    · rename_i old s₁ hr
      rw [hr] at hold
      have h₁ : Settled limit s₁ :=
        hold.settled ((h₀.active _).2 ⟨pair, hactive, by simp [pairKeys]⟩)
      have hev₁ := hev₀.trans hold.evolves
      obtain ⟨hnew, hnewnone⟩ := sourceIndex_spec h₁ pair.2 (load pair.2)
      split
      · rename_i s₂ hr'
        rw [hr'] at hnew hnewnone
        exact ⟨hnewnone rfl, hev₁.trans hnew.evolves⟩
      · rename_i new s₂ hr'
        rw [hr'] at hnew
        have hev₂ := hev₁.trans hnew.evolves
        split
        · obtain ⟨hcore, hg⟩ := markIndexPairBudgetExhausted_spec hnew.within.toCore pair
          refine ⟨?_, hev₂.trans (hg.evolves hcore)⟩
          by_cases hb : pair.2 ∈ s₁.activeKeys
          · exact hg.settled (hnew.settled hb) hcore
          · -- the pair was given up while its old index was loaded; the new one goes now
            refine (hg.within hnew.within hcore).settled ?_
            have hgone : pair.2 ∉ (s₂.markIndexPairBudgetExhausted pair true).activeKeys := by
              intro hact
              obtain ⟨p, hp, _, hk⟩ := (hg.activeKeys hcore _).1 hact
              exact hb ((h₁.active _).2 ⟨p, hnew.activePairs p hp, hk⟩)
            rw [hg.indexes, if_pos ⟨by simp [pairKeys], hgone⟩]
        · rename_i hok
          refine ⟨hnew.settled ?_, hev₂⟩
          rcases hold.evolves.lost pair hactive with hp | hp
          · exact (h₁.active _).2 ⟨pair, hp, by simp [pairKeys]⟩
          · exact absurd (.inl (hnew.evolves.failed pair hp)) hok

theorem grow_spec {limit : Nat} {s : State} (h : Settled limit s) (o size : Nat) :
    Settled limit (s.grow limit o size) ∧ Evolves s (s.grow limit o size) := by
  unfold State.grow
  split
  · exact ⟨h, .refl s⟩
  · rename_i index hindex
    set s₁ : State :=
      { s with objects := s.objects.modify o fun index => { index with totalIndexBytes := size } }
      with hs₁
    have hlen : s₁.objects.length = s.objects.length := List.length_modify _ _ _
    have h₁ : Settled limit s₁ :=
      ⟨⟨h.keys, h.bytes, h.active, fun k i hi => hlen ▸ h.objects k i hi⟩, h.pinned, h.budget⟩
    have hflag : ∀ i, s.Flagged i → s₁.Flagged i := by
      rintro i ⟨index', hi, hf⟩
      simp only [State.Flagged, hs₁, List.getElem?_modify, hi]
      refine ⟨_, rfl, ?_⟩
      split <;> exact hf
    have hev : Evolves s s₁ := ⟨hflag, hlen.ge, fun p hp => hp, fun p hp => .inl hp,
      fun k i hi => .inl hi, fun p hp => .inl ⟨hp, fun _ _ _ hi => hi⟩,
      fun i hlo hhi => absurd hlo (Nat.not_le.2 (hlen ▸ hhi))⟩
    obtain ⟨hw, hev', _, hset⟩ := sourceIndexChanged_spec (h₁.within index.key) o
    refine ⟨?_, hev.trans hev'⟩
    by_cases hk : (s₁.indexes.get? index.key).isSome
    · exact hset (h₁.pinned _ hk)
    · rw [State.sourceIndexChanged, if_pos (by simpa using hk)]
      exact h₁

/-- What a release does to the indexes. -/
theorem releaseIndexPairsForScope_spec {limit : Nat} {s : State} (h : Settled limit s)
    (scope : String) : Settled limit (s.releaseIndexPairsForScope scope) ∧
      (s.releaseIndexPairsForScope scope).objects = s.objects ∧
      ∀ pair ∈ s.activePairs, pair ∉ (s.pairsByScope.get? scope).getD [] →
        ∀ k ∈ pairKeys pair, (s.releaseIndexPairsForScope scope).indexes.get? k =
          s.indexes.get? k := by
  unfold State.releaseIndexPairsForScope
  dsimp only
  split
  · exact ⟨⟨⟨h.keys, h.bytes, h.active, h.objects⟩, h.pinned, h.budget⟩, rfl, fun _ _ _ _ _ => rfl⟩
  · set releasable := ((s.pairsByScope.get? scope).getD []).filter fun pair =>
      pair ∉ (s.pairsByScope.erase scope).rows.flatMap Prod.snd with hrel
    set s₁ : State := { s with
      pairsByScope := s.pairsByScope.erase scope
      activePairs := s.activePairs.filter fun pair => pair ∉ releasable } with hs₁
    have hcore : Core s₁.refreshKeys :=
      ⟨h.keys, h.bytes, fun k => List.mem_flatMap, h.objects⟩
    have hactive : ∀ k, k ∈ s₁.refreshKeys.activeKeys ↔
        ∃ p ∈ s.activePairs, p ∉ releasable ∧ k ∈ pairKeys p := by
      intro k
      rw [hcore.active]
      simp only [State.refreshKeys, hs₁, List.mem_filter, decide_eq_true_eq, and_assoc]
    obtain ⟨hcore', hp⟩ := popAll_spec (releasable.flatMap pairKeys) hcore
    refine ⟨⟨hcore', fun k hk => ?_, hp.bytes.trans h.budget⟩, hp.objects,
      fun p hpa hnot k hk => ?_⟩
    · rw [hp.indexes] at hk
      split at hk
      · cases hk
      · rename_i hstay
        -- a pair that pinned the key and was released takes the key along
        obtain ⟨p, hpa, hkp⟩ := (h.active k).1 (h.pinned k hk)
        rw [hp.activeKeys]
        by_contra hnot
        refine hstay ⟨List.mem_flatMap.2 ⟨p, ?_, hkp⟩, hnot⟩
        by_contra hr
        exact hnot ((hactive k).2 ⟨p, hpa, hr, hkp⟩)
    · have hact : k ∈ s₁.refreshKeys.activeKeys :=
        (hactive k).2 ⟨p, hpa, fun hr => hnot (List.mem_filter.1 hr).1, hk⟩
      rw [hp.indexes, if_neg fun hc => hc.2 hact]
      rfl

theorem mark_spec {limit : Nat} {s : State} (h : Settled limit s) (pair : IndexPair) (drop : Bool) :
    Settled limit (s.markIndexPairBudgetExhausted pair drop) ∧
      Evolves s (s.markIndexPairBudgetExhausted pair drop) := by
  cases drop with
  | true =>
    obtain ⟨hcore, hg⟩ := markIndexPairBudgetExhausted_spec h.toCore pair
    exact ⟨hg.settled h hcore, hg.evolves hcore⟩
  | false =>
    obtain ⟨objects, he, hlen, hflag⟩ := flagKey_foldl (pairKeys pair)
      (s := { s with failedPairs := s.failedPairs.insert pair }) h.objects
    have hmark : s.markIndexPairBudgetExhausted pair false =
        { s with failedPairs := s.failedPairs.insert pair, objects := objects } := by
      rw [State.markIndexPairBudgetExhausted, he]
      rfl
    rw [hmark]
    refine ⟨⟨⟨h.keys, h.bytes, h.active, fun k o ho => ?_⟩, h.pinned, h.budget⟩,
      fun o ho => (hflag o).2 (.inl ho), hlen.ge, fun p hp => List.mem_insert_of_mem hp,
      fun p hp => .inl hp, fun k o ho => .inl ho, fun p hp => .inl ⟨hp, fun _ _ _ ho => ho⟩,
      fun o hlo hhi => absurd hlo (Nat.not_le.2 (lt_of_lt_of_eq hhi hlen))⟩
    exact lt_of_lt_of_eq (h.objects k o ho) hlen.symm

/-! ## Runs -/

/-- How indexes leave the cache in one operation. -/
structure Leaves (s : State) (op : Op) (s' : State) : Prop where
  /-- **An index of an active pair leaves with the release of a scope of the pair, or with both
  indexes of the pair flagged.** -/
  pairs : ∀ pair ∈ s.activePairs, ∀ k ∈ pairKeys pair, ∀ o, s.indexes.get? k = some o →
    s'.indexes.get? k = some o ∨
    (∃ scope, op = .release scope ∧ pair ∈ (s.pairsByScope.get? scope).getD []) ∨
    ∀ k' ∈ pairKeys pair, ∀ o', s.indexes.get? k' = some o' → s'.Flagged o'
  /-- An index made by the operation is cached after it, or flagged. -/
  fresh : ∀ o, s.objects.length ≤ o → o < s'.objects.length →
    (∃ k, s'.indexes.get? k = some o) ∨ s'.Flagged o

theorem Evolves.leaves {s s' : State} (h : Evolves s s') (op : Op) : Leaves s op s' := by
  refine ⟨fun p hp k hk o ho => ?_, h.fresh⟩
  rcases h.pairs p hp with ⟨_, hstay⟩ | hflag
  · exact .inl (hstay k hk o ho)
  · exact .inr (.inr hflag)

/-- **One operation** keeps the invariant. -/
theorem step_spec {limit : Nat} {s : State} (h : Settled limit s) (op : Op) :
    Settled limit (step limit s op) ∧ Leaves s op (step limit s op) := by
  cases op with
  | pair pair scope load =>
    obtain ⟨hs, hev⟩ := sourceIndexPair_spec h pair scope load
    exact ⟨hs, hev.leaves _⟩
  | grow o size =>
    obtain ⟨hs, hev⟩ := grow_spec h o size
    exact ⟨hs, hev.leaves _⟩
  | release scope =>
    obtain ⟨hs, hobj, hstay⟩ := releaseIndexPairsForScope_spec h scope
    refine ⟨hs, fun p hp k hk o ho => ?_, fun o hlo hhi => ?_⟩
    · by_cases hscope : p ∈ (s.pairsByScope.get? scope).getD []
      · exact .inr (.inl ⟨scope, rfl, hscope⟩)
      · exact .inl ((hstay p hp hscope k hk).trans ho)
    · exact absurd hlo (Nat.not_le.2 (hobj ▸ hhi))
  | mark pair drop =>
    obtain ⟨hs, hev⟩ := mark_spec h pair drop
    exact ⟨hs, hev.leaves _⟩

theorem settled_start (limit : Nat) : Settled limit {} := by
  refine ⟨⟨fun k => rfl, rfl, fun k => ?_, fun k o ho => (by cases ho)⟩,
    fun k hk => (by cases hk), ?_⟩
  · simp
  · exact Int.natCast_nonneg limit

/-- **The invariant of the source index cache**, after any operations, and how indexes leave it in
the next one. -/
theorem sourceIndexCache_invariant (limit : Nat) (ops : List Op) :
    Settled limit (Trace.run (step limit) {} ops) ∧
      ∀ op, Leaves (Trace.run (step limit) {} ops) op
        (step limit (Trace.run (step limit) {} ops) op) := by
  have h : Settled limit (Trace.run (step limit) {} ops) := by
    refine Trace.run_inv (fun s op (hs : Settled limit s) => ?_) (settled_start limit) ops
    exact (step_spec hs op).1
  exact ⟨h, fun op => (step_spec h op).2⟩

/-- The old index of a pair outgrows the budget: the pair is given up, and both objects are
flagged. -/
example :
    let pair : IndexPair := (⟨"/repo", "old", "v1"⟩, ⟨"/repo", "new", "v1"⟩)
    let s := Trace.run (step 4) {} [.pair pair (some "core") fun _ => some 2, .grow 0 3]
    (s.indexes.rows, s.bytes, s.activePairs, s.objects.map SourceIndex.budgetExhausted) =
      ([], 0, [], [true, true]) := by decide +kernel

end SourceIndexCache

end FosCoverage
