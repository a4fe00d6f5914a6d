import FosCoverage.Lib.Ownership
import FosCoverage.Lib.Trace
import FosCoverage.Repository.ConnectionPool
import Mathlib.Data.Finset.Card

/-!
# Safety of the connection pool

`exec_transition` says what a step can do, and everything here is proved from it.

* `State.holds` says where a connection is: in the queue, with a borrower, or with a caller of
  `close_all`.  `Places` says that a connection is open exactly when it is at one of the places, and
  `Counts` that the counters count.  Both hold in every run.
* `Clean` says that a connection that nobody uses has no uncommitted work, and `Drained` that a pool
  that is shut down has nothing left.  They hold in the runs whose steps meet `Meets`.
* `pool_safe_of`: **in these runs the pool is safe**, and `pool_not_safe` has a run for each of the two
  conditions that is not.
-/

set_option autoImplicit false

namespace FosCoverage

namespace MySQLConnectionPool

open Ownership Function

/-! ## Where a connection is -/

/-- The queue, a borrower, or a caller of `close_all`. -/
inductive Place
  | pool
  | thread (t : Nat)
  | closer (c : Nat)
  deriving DecidableEq

/-- The connection is at the place. -/
def State.holds (s : State) : Place → ConnId → Prop
  | .pool, id => id ∈ s.pool
  | .thread t, id => (s.thread t).conn? = some id
  | .closer c, id => (s.closer c).conn? = some id

/-- A connection is open exactly when it is somewhere. -/
def Fits (s : State) (id : ConnId) (o : Option Place) : Prop := id ∈ s.opened ↔ o.isSome = true

/-- **Where the connections are.** -/
structure Places (s : State) : Prop where
  /-- An open connection is at one place, and a closed one nowhere. -/
  owned : Owned s.holds (Fits s)
  /-- A connection is in the queue once. -/
  poolNodup : s.pool.Nodup

/-- **What the counters count.** -/
structure Counts (cfg : PoolConfig) (s : State) : Prop where
  openedNodup : s.opened.Nodup
  /-- The next number is new. -/
  fresh : ∀ id ∈ s.opened, id < s.next
  active : s.activeCount = s.opened.length
  /-- A borrower that is about to connect has a reservation. -/
  reserved : ∃ threads : Finset Nat, (∀ t, t ∈ threads ↔ s.thread t = .connecting) ∧
    threads.card = s.connectingCount
  capacity : s.activeCount + s.connectingCount ≤ cfg.capacity

section Frames

variable {s s' s₁ : State} {id x : ConnId} {p q : Place}

/-- `s'` is `s₁` but for one place, which has the connection `o`. -/
def Replaced (s₁ s' : State) (p : Place) (o : Option ConnId) : Prop :=
  ∀ q x, s'.holds q x ↔ (q = p ∧ o = some x) ∨ (q ≠ p ∧ s₁.holds q x)

theorem replaced_setThread (s : State) (t : Nat) (pc : ThreadPc) :
    Replaced s (s.setThread t pc) (.thread t) pc.conn? := by
  intro q x
  cases q with
  | pool => simp [State.holds, State.setThread]
  | closer c => simp [State.holds, State.setThread]
  | thread u => by_cases hu : u = t <;> simp [State.holds, State.setThread, hu]

theorem replaced_setCloser (s : State) (c : Nat) (pc : CloserPc) :
    Replaced s (s.setCloser c pc) (.closer c) pc.conn? := by
  intro q x
  cases q with
  | pool => simp [State.holds, State.setCloser]
  | thread t => simp [State.holds, State.setCloser]
  | closer d => by_cases hd : d = c <;> simp [State.holds, State.setCloser, hd]

/-- The places are the queue and the threads. -/
theorem holds_congr (hpool : s'.pool = s.pool) (hthread : s'.thread = s.thread)
    (hcloser : s'.closer = s.closer) (q : Place) (x : ConnId) : s'.holds q x ↔ s.holds q x := by
  cases q <;> simp only [State.holds, hpool, hthread, hcloser]

/-- A place that has one connection and then another leaves the others alone. -/
theorem Replaced.of_ne {o : Option ConnId} (h : Replaced s₁ s' p o)
    (hbefore : ∀ y, s₁.holds p y → y = id) (hafter : ∀ y, o = some y → y = id) (hx : x ≠ id)
    (q : Place) : s'.holds q x ↔ s₁.holds q x := by
  rw [h q x]
  constructor
  · rintro (⟨-, ho⟩ | ⟨-, hq⟩)
    · exact absurd (hafter x ho) hx
    · exact hq
  · refine fun hq => .inr ⟨?_, hq⟩
    rintro rfl
    exact hx (hbefore x hq)

/-- A place that keeps its connection. -/
theorem Replaced.same {o : Option ConnId} (h : Replaced s₁ s' p o)
    (hsame : ∀ y, s₁.holds p y ↔ o = some y) (q : Place) (x : ConnId) :
    s'.holds q x ↔ s₁.holds q x := by
  rw [h q x]
  constructor
  · rintro (⟨rfl, ho⟩ | ⟨-, hq⟩)
    · exact (hsame x).2 ho
    · exact hq
  · intro hq
    by_cases hp : q = p
    · subst hp
      exact .inl ⟨rfl, (hsame x).1 hq⟩
    · exact .inr ⟨hp, hq⟩

end Frames

section Places

variable {s s' s₁ : State} {id : ConnId} {p : Place}

/-- A step after which every connection is where it was. -/
theorem Places.stay (h : Places s) (hholds : ∀ q x, s'.holds q x ↔ s.holds q x)
    (hopened : s'.opened = s.opened) (hpool : s'.pool = s.pool) : Places s' :=
  ⟨h.owned.stay (fun x q => hholds q x) (fun x o hfits => by rwa [Fits, hopened]),
    by rw [hpool]; exact h.poolNodup⟩

/-- **A connection leaves the queue for a thread that has none.** -/
theorem Places.take (h : Places s) {rest : List ConnId} (hpool : s.pool = id :: rest)
    (hp : p ≠ .pool) (hfree : ∀ y, ¬ s.holds p y)
    (hreplaced : Replaced { s with pool := rest } s' p (some id)) (hopened : s'.opened = s.opened)
    (hpool' : s'.pool = rest) : Places s' := by
  have hnodup := h.poolNodup
  rw [hpool] at hnodup
  obtain ⟨hnot, hrest⟩ := List.nodup_cons.1 hnodup
  have hheld : s.holds .pool id := by
    rw [State.holds, hpool]
    exact List.mem_cons_self
  have hbase : ∀ q x, ({ s with pool := rest } : State).holds q x ↔
      (x ≠ id ∨ q ≠ .pool) ∧ s.holds q x := by
    intro q x
    cases q with
    | pool =>
      simp only [State.holds, hpool, List.mem_cons, ne_eq, not_true_eq_false, or_false]
      constructor
      · exact fun hx => ⟨fun heq => hnot (by rwa [← heq]), .inr hx⟩
      · exact fun hx => hx.2.resolve_left hx.1
    | thread t => simp [State.holds]
    | closer c => simp [State.holds]
  refine ⟨h.owned.transfer (q := p) hheld (fun x hx r => ?_) (fun x _ o hfits => ?_) (fun r => ?_)
    ?_, by rw [hpool']; exact hrest⟩
  · rw [hreplaced.of_ne (fun y hy => ?_) (fun y hy => (Option.some.inj hy).symm) hx,
      hbase]
    · exact and_iff_right (.inl hx)
    · exact absurd ((hbase p y).1 hy).2 (hfree y)
  · rwa [Fits, hopened]
  · rw [hreplaced r id, hbase]
    constructor
    · rintro (⟨rfl, -⟩ | ⟨-, hne, hr⟩)
      · exact .inl rfl
      · exact .inr ⟨hne.resolve_left fun h => h rfl, hr⟩
    · rintro (rfl | ⟨hne, hr⟩)
      · exact .inl ⟨rfl, rfl⟩
      · refine .inr ⟨?_, .inr hne, hr⟩
        rintro rfl
        exact hfree id hr
  · rw [Fits, hopened]
    exact (h.owned.at_place hheld).2

/-- **A thread closes its connection.** -/
theorem Places.discard (h : Places s) (hp : s.holds p id)
    (honly : ∀ y, s.holds p y → y = id)
    (hreplaced : Replaced (s.discardWrapper id) s' p none)
    (hopened : s'.opened = (s.discardWrapper id).opened)
    (hpool : s'.pool = s.pool) : Places s' := by
  have hmem : ∀ x, x ∈ s'.opened ↔ x ∈ s.opened ∧ x ≠ id := by
    intro x
    rw [hopened]
    exact List.mem_filter.trans (and_congr_right fun _ => decide_eq_true_iff)
  have hbase : ∀ q x, (s.discardWrapper id).holds q x ↔ s.holds q x := holds_congr rfl rfl rfl
  refine ⟨h.owned.release hp (fun x hx r => ?_) (fun x hx o hfits => ?_) (fun r hr => ?_) ?_,
    by rw [hpool]; exact h.poolNodup⟩
  · rw [hreplaced.of_ne (fun y hy => honly y ((hbase p y).1 hy)) nofun hx, hbase]
  · rw [Fits, hmem, and_iff_left hx]
    exact hfits
  · rcases (hreplaced r id).1 hr with ⟨-, hnone⟩ | ⟨hne, hr⟩
    · cases hnone
    · exact ⟨hne, (hbase r id).1 hr⟩
  · rw [Fits, hmem]
    simp

/-- **A connection is made.** -/
theorem Places.connected (h : Places s) (hfresh : ∀ x ∈ s.opened, x < s.next) (now : Nat) {t : Nat}
    (hfree : (s.thread t).conn? = none) :
    Places ((s.connected now).setThread t (.holding s.next)) := by
  have hnew : s.next ∉ s.opened := fun hin => Nat.lt_irrefl _ (hfresh _ hin)
  have hbase : ∀ q x, (s.connected now).holds q x ↔ s.holds q x := holds_congr rfl rfl rfl
  have hreplaced := replaced_setThread (s.connected now) t (.holding s.next)
  have hmem : ∀ x, x ∈ ((s.connected now).setThread t (.holding s.next)).opened ↔
      x ∈ s.opened ∨ x = s.next := by
    intro x
    change x ∈ s.opened ++ [s.next] ↔ _
    rw [List.mem_append, List.mem_singleton]
  refine ⟨h.owned.acquire (t := s.next) (q := .thread t) (fun p hfits => hnew (hfits.2 rfl))
    (fun x hx r => ?_) (fun x hx o hfits => ?_) (fun r hr => ?_) ?_ ?_, h.poolNodup⟩
  · rw [hreplaced.of_ne (fun y hy => ?_) (fun y hy => (Option.some.inj hy).symm) hx,
      hbase]
    change (s.thread t).conn? = some y at hy
    rw [hfree] at hy
    cases hy
  · rw [Fits, hmem, or_iff_left hx]
    exact hfits
  · rcases (hreplaced r s.next).1 hr with ⟨hr, -⟩ | ⟨-, hr⟩
    · exact .inl hr
    · exact .inr ((hbase r s.next).1 hr)
  · exact (hreplaced _ _).2 (.inl ⟨rfl, rfl⟩)
  · rw [Fits, hmem]
    simp

/-- **A connection goes back into the queue.** -/
theorem Places.put (h : Places s) {t : Nat} (hpc : (s.thread t).conn? = some id) (conn : Conn) :
    Places ({ s.setConn id conn with pool := s.pool ++ [id] }.setThread t .idle) := by
  have hheld : s.holds (.thread t) id := hpc
  obtain ⟨hlocated, hfits⟩ := h.owned.at_place hheld
  have hnot : id ∉ s.pool := fun hin => by
    have := (hlocated .pool).1 hin
    cases this
  have hbase : ∀ q x, ({ s.setConn id conn with pool := s.pool ++ [id] } : State).holds q x ↔
      s.holds q x ∨ (q = .pool ∧ x = id) := by
    intro q x
    cases q with
    | pool => simp [State.holds]
    | thread u => simp [State.holds, State.setConn]
    | closer c => simp [State.holds, State.setConn]
  have hreplaced := replaced_setThread { s.setConn id conn with pool := s.pool ++ [id] } t .idle
  refine ⟨h.owned.transfer (q := .pool) hheld (fun x hx r => ?_) (fun x _ o hfits => hfits)
    (fun r => ?_) hfits, ?_⟩
  · rw [hreplaced.of_ne (fun y hy => ?_) nofun hx, hbase]
    · simp [hx]
    · rcases (hbase _ _).1 hy with hy | ⟨hy, -⟩
      · exact Option.some.inj ((hpc.symm.trans hy).symm)
      · cases hy
  · rw [hreplaced r id, hbase]
    constructor
    · rintro (⟨-, hnone⟩ | ⟨hne, hr | ⟨rfl, -⟩⟩)
      · cases hnone
      · exact .inr ⟨hne, hr⟩
      · exact .inl rfl
    · rintro (rfl | ⟨hne, hr⟩)
      · exact .inr ⟨nofun, .inr ⟨rfl, rfl⟩⟩
      · exact .inr ⟨hne, .inl hr⟩
  · change (s.pool ++ [id]).Nodup
    rw [← List.concat_eq_append]
    exact h.poolNodup.concat hnot

end Places

section Counts

variable {cfg : PoolConfig} {s s' : State} {id : ConnId}

/-- A step that opens and closes nothing and reserves nothing. -/
theorem Counts.frame (h : Counts cfg s) (hopened : s'.opened = s.opened) (hnext : s'.next = s.next)
    (hactive : s'.activeCount = s.activeCount)
    (hconnecting : s'.connectingCount = s.connectingCount)
    (hthread : ∀ t, s'.thread t = .connecting ↔ s.thread t = .connecting) : Counts cfg s' := by
  obtain ⟨threads, hthreads, hcard⟩ := h.reserved
  refine ⟨by rw [hopened]; exact h.openedNodup, ?_, ?_, ⟨threads, fun t => ?_, ?_⟩, ?_⟩
  · rw [hopened, hnext]
    exact h.fresh
  · rw [hactive, hopened]
    exact h.active
  · rw [hthread]
    exact hthreads t
  · rw [hconnecting]
    exact hcard
  · rw [hactive, hconnecting]
    exact h.capacity

theorem setThread_connecting {t : Nat} {pc : ThreadPc} (hbefore : s.thread t ≠ .connecting)
    (hafter : pc ≠ .connecting) (u : Nat) :
    (s.setThread t pc).thread u = .connecting ↔ s.thread u = .connecting := by
  change update s.thread t pc u = .connecting ↔ _
  rw [update_apply]
  split
  · next heq =>
    rw [heq]
    exact ⟨fun h => absurd h hafter, fun h => absurd h hbefore⟩
  · exact Iff.rfl

/-- A connection less, and one less that is counted. -/
theorem Counts.discardWrapper (h : Counts cfg s) (hin : id ∈ s.opened) :
    Counts cfg (s.discardWrapper id) := by
  have herase : (s.opened.filter fun x => decide (x ≠ id)) = s.opened.erase id := by
    rw [h.openedNodup.erase_eq_filter]
    refine List.filter_congr fun x _ => ?_
    rw [Bool.eq_iff_iff, decide_eq_true_iff, bne_iff_ne]
  refine ⟨h.openedNodup.filter _, fun x hx => h.fresh x (List.mem_filter.1 hx).1, ?_, h.reserved,
    ?_⟩
  · change s.activeCount - 1 = (s.opened.filter fun x => decide (x ≠ id)).length
    rw [herase, List.length_erase_of_mem hin, h.active]
  · have := h.capacity
    change s.activeCount - 1 + s.connectingCount ≤ cfg.capacity
    omega

/-- **A borrower reserves a connection**, when there is room for one more. -/
theorem Counts.reserve (h : Counts cfg s) {t : Nat} (hpc : s.thread t = .reserving)
    (hroom : s.activeCount + s.connectingCount < cfg.capacity) :
    Counts cfg ({ s with connectingCount := s.connectingCount + 1 }.setThread t .connecting) := by
  obtain ⟨threads, hthreads, hcard⟩ := h.reserved
  have hnot : t ∉ threads := by
    rw [hthreads, hpc]
    exact nofun
  refine ⟨h.openedNodup, h.fresh, h.active, ⟨insert t threads, fun u => ?_, ?_⟩, ?_⟩
  · rw [Finset.mem_insert, hthreads]
    change _ ↔ update s.thread t .connecting u = .connecting
    rw [update_apply]
    split
    · next heq => exact iff_of_true (.inl heq) rfl
    · next hne => exact or_iff_right hne
  · rw [Finset.card_insert_of_notMem hnot, hcard]
    rfl
  · change s.activeCount + (s.connectingCount + 1) ≤ cfg.capacity
    omega

/-- A borrower that was about to connect takes its reservation with it. -/
theorem Counts.unreserve (h : Counts cfg s) {t : Nat} (hpc : s.thread t = .connecting)
    {pc : ThreadPc} (hafter : pc ≠ .connecting) :
    0 < s.connectingCount ∧ ∃ threads : Finset Nat,
      (∀ u, u ∈ threads ↔ (s.setThread t pc).thread u = .connecting) ∧
        threads.card = s.connectingCount - 1 := by
  obtain ⟨threads, hthreads, hcard⟩ := h.reserved
  have hin : t ∈ threads := (hthreads t).2 hpc
  refine ⟨by rw [← hcard]; exact Finset.card_pos.2 ⟨t, hin⟩, threads.erase t, fun u => ?_, ?_⟩
  · rw [Finset.mem_erase, hthreads]
    change _ ↔ update s.thread t pc u = .connecting
    rw [update_apply]
    split
    · next heq => exact iff_of_false (fun h => h.1 heq) hafter
    · next hne => exact and_iff_right hne
  · rw [Finset.card_erase_of_mem hin, hcard]

/-- **A connection is made** and takes the place of its reservation. -/
theorem Counts.connected (h : Counts cfg s) (now : Nat) {t : Nat} (hpc : s.thread t = .connecting) :
    Counts cfg ((s.connected now).setThread t (.holding s.next)) := by
  obtain ⟨hpos, hreserved⟩ := h.unreserve hpc (nofun : ThreadPc.holding s.next ≠ .connecting)
  have hnew : s.next ∉ s.opened := fun hin => Nat.lt_irrefl _ (h.fresh _ hin)
  refine ⟨?_, fun x hx => ?_, ?_, hreserved, ?_⟩
  · change (s.opened ++ [s.next]).Nodup
    rw [← List.concat_eq_append]
    exact h.openedNodup.concat hnew
  · change x < s.next + 1
    rcases List.mem_append.1 hx with hx | hx
    · exact (h.fresh x hx).trans (Nat.lt_succ_self _)
    · rw [List.mem_singleton.1 hx]
      exact Nat.lt_succ_self _
  · change s.activeCount + 1 = (s.opened ++ [s.next]).length
    rw [List.length_append, h.active]
    rfl
  · have := h.capacity
    change s.activeCount + 1 + (s.connectingCount - 1) ≤ cfg.capacity
    omega

/-- A connection attempt fails. -/
theorem Counts.fail (h : Counts cfg s) {t : Nat} (hpc : s.thread t = .connecting) :
    Counts cfg ({ s with connectingCount := s.connectingCount - 1 }.setThread t .idle) := by
  obtain ⟨hpos, hreserved⟩ := h.unreserve hpc (nofun : ThreadPc.idle ≠ .connecting)
  refine ⟨h.openedNodup, h.fresh, h.active, hreserved, ?_⟩
  have := h.capacity
  change s.activeCount + (s.connectingCount - 1) ≤ cfg.capacity
  omega

end Counts

/-! ## Every run -/

section Steps

variable {cfg : PoolConfig} {s s' : State} {step : Step} {id : ConnId}

/-- A borrower that keeps its connection, whatever is written into wrappers. -/
theorem Places.setThread (h : Places s) {t : Nat} {pc : ThreadPc} (conn : ConnId → Conn)
    (hconn : pc.conn? = (s.thread t).conn?) : Places ({ s with conn }.setThread t pc) := by
  refine h.stay (fun q x => ?_) rfl rfl
  refine ((replaced_setThread { s with conn } t pc).same (fun y => ?_) q x).trans
    (holds_congr rfl rfl rfl q x)
  rw [hconn]
  exact Iff.rfl

/-- So does a caller of `close_all`. -/
theorem Places.setCloser (h : Places s) {c : Nat} {pc : CloserPc} (flag : Bool)
    (hconn : pc.conn? = (s.closer c).conn?) :
    Places ({ s with isShutdown := flag }.setCloser c pc) := by
  refine h.stay (fun q x => ?_) rfl rfl
  refine ((replaced_setCloser { s with isShutdown := flag } c pc).same (fun y => ?_) q x).trans
    (holds_congr rfl rfl rfl q x)
  rw [hconn]
  exact Iff.rfl

/-- **Every step keeps the places.** -/
theorem Places.transition (h : Places s) (hcounts : Counts cfg s)
    (hstep : Transition cfg s step s') : Places s' := by
  cases hstep with
  | stay => exact h
  | move hpc hconn => exact h.setThread s.conn (by rw [hpc, hconn])
  | @take _ t pc id rest hpc hconn hfrom hpool =>
    refine h.take (p := .thread t) hpool nofun (fun y hy => ?_)
      (replaced_setThread { s with pool := rest } t (.checking id)) rfl rfl
    rw [State.holds, hpc, hconn] at hy
    cases hy
  | handOut t now ping hpc => exact h.setThread _ (by rw [hpc]; rfl)
  | @discard _ t pc pc' id hpc hconn hpc' =>
    have hnone : pc'.conn? = none := by rcases hpc' with rfl | rfl <;> rfl
    refine h.discard (p := .thread t) (by rw [State.holds, hpc, hconn]) (fun y hy => ?_)
      (hnone ▸ replaced_setThread (s.discardWrapper id) t pc') rfl rfl
    rw [State.holds, hpc, hconn] at hy
    exact (Option.some.inj hy).symm
  | reserve t hpc hroom =>
    refine h.stay (fun q x => ?_) rfl rfl
    refine ((replaced_setThread _ t .connecting).same (fun y => ?_) q x).trans
      (holds_congr rfl rfl rfl q x)
    change (s.thread t).conn? = some y ↔ _
    rw [hpc]
    exact Iff.rfl
  | connect t now hpc => exact h.connected hcounts.fresh now (by rw [hpc]; rfl)
  | fail t now hpc =>
    refine h.stay (fun q x => ?_) rfl rfl
    refine ((replaced_setThread _ t .idle).same (fun y => ?_) q x).trans
      (holds_congr rfl rfl rfl q x)
    change (s.thread t).conn? = some y ↔ _
    rw [hpc]
    exact Iff.rfl
  | use t u conn hpc => exact h.stay (holds_congr rfl rfl rfl) rfl rfl
  | @lost id t hpc hclosed =>
    have hheld : s.holds (.thread t) id := by
      rw [State.holds, hpc]
      rfl
    exact absurd ((h.owned.at_place hheld).2.2 rfl) hclosed
  | skip t answers ok hpc => exact h.setThread s.conn (by rw [hpc]; rfl)
  | rollback t answers hpc => exact h.setThread _ (by rw [hpc]; rfl)
  | put t now hpc => exact h.put (by rw [hpc]; rfl) _
  | full t now hpc => exact h.setThread _ (by rw [hpc]; rfl)
  | close c hpc => exact h.setCloser true (by rw [hpc]; rfl)
  | goOn c hpc => exact h.setCloser s.isShutdown (by rw [hpc]; rfl)
  | stop hpc hconn => exact h.setCloser s.isShutdown (by rw [hpc, hconn]; rfl)
  | @closeGet id rest c hpc hpool =>
    refine h.take (p := .closer c) hpool nofun (fun y hy => ?_)
      (replaced_setCloser { s with pool := rest } c (.closing id)) rfl rfl
    rw [State.holds, hpc] at hy
    cases hy
  | @dispose id c hpc =>
    refine h.discard (p := .closer c) (by rw [State.holds, hpc]; rfl) (fun y hy => ?_)
      (replaced_setCloser (s.discardWrapper id) c .testing) rfl rfl
    rw [State.holds, hpc] at hy
    exact (Option.some.inj hy).symm

/-- **Every step keeps the counters right.** -/
theorem Counts.transition (h : Counts cfg s) (hplaces : Places s)
    (hstep : Transition cfg s step s') : Counts cfg s' := by
  have hframe : ∀ {t : Nat} {pc : ThreadPc} {pool : List ConnId} (conn : ConnId → Conn),
      s.thread t ≠ .connecting → pc ≠ .connecting →
      Counts cfg ({ s with conn, pool }.setThread t pc) := fun {t pc pool} conn hbefore hafter =>
    h.frame rfl rfl rfl rfl (setThread_connecting (s := { s with conn, pool }) hbefore hafter)
  cases hstep with
  | stay => exact h
  | move hpc hconn hfrom hto => exact hframe s.conn (by rwa [hpc]) hto
  | take hpc hconn hfrom => exact hframe s.conn (by rwa [hpc]) nofun
  | handOut t now ping hpc => exact hframe _ (by rw [hpc]; exact nofun) nofun
  | @discard _ t pc pc' id hpc hconn hpc' =>
    have hin : id ∈ s.opened :=
      (hplaces.owned.at_place (p := .thread t) (by rw [State.holds, hpc, hconn])).2.2 rfl
    refine (h.discardWrapper hin).frame rfl rfl rfl rfl
      (setThread_connecting (s := s.discardWrapper id) ?_ ?_)
    · change s.thread t ≠ .connecting
      rw [hpc]
      rintro rfl
      cases hconn
    · rcases hpc' with rfl | rfl <;> exact nofun
  | reserve t hpc hroom => exact h.reserve hpc hroom
  | connect t now hpc => exact h.connected now hpc
  | fail t now hpc => exact h.fail hpc
  | use t u conn hpc => exact h.frame rfl rfl rfl rfl fun _ => Iff.rfl
  | lost t hpc hclosed => exact hframe s.conn (by rw [hpc]; exact nofun) nofun
  | skip t answers ok hpc => exact hframe s.conn (by rw [hpc]; exact nofun) nofun
  | rollback t answers hpc => exact hframe _ (by rw [hpc]; exact nofun) nofun
  | put t now hpc => exact hframe _ (by rw [hpc]; exact nofun) nofun
  | full t now hpc => exact hframe _ (by rw [hpc]; exact nofun) nofun
  | close | goOn | stop | closeGet => exact h.frame rfl rfl rfl rfl fun _ => Iff.rfl
  | @dispose id c hpc =>
    have hin : id ∈ s.opened :=
      (hplaces.owned.at_place (p := .closer c) (by rw [State.holds, hpc]; rfl)).2.2 rfl
    exact (h.discardWrapper hin).frame rfl rfl rfl rfl fun _ => Iff.rfl

end Steps

theorem places_init : Places init := by
  refine ⟨fun id => ⟨none, fun q hq => ?_, by simp [Fits, init]⟩, List.nodup_nil⟩
  cases q <;> cases hq

theorem counts_init (cfg : PoolConfig) : Counts cfg init :=
  ⟨List.nodup_nil, nofun, rfl, ⟨∅, fun t => by simp [init], rfl⟩, Nat.zero_le _⟩

/-- **The places and the counters are right in every run.** -/
theorem counted_run (cfg : PoolConfig) (events : List Step) :
    Places (Trace.run (exec cfg) init events) ∧ Counts cfg (Trace.run (exec cfg) init events) :=
  Trace.run_inv (I := fun s => Places s ∧ Counts cfg s)
    (fun s step h => ⟨h.1.transition h.2 (exec_transition cfg s step),
      h.2.transition h.1 (exec_transition cfg s step)⟩)
    ⟨places_init, counts_init cfg⟩ events

/-! ## Uncommitted work -/

section Clean

variable {cfg : PoolConfig} {s s' : State} {step : Step} {id x : ConnId} {t : Nat}

/-- A connection that nobody uses: it is in the queue, on the way into it, or just taken from it. -/
def Free (s : State) (id : ConnId) : Prop :=
  id ∈ s.pool ∨ ∃ t, (s.thread t).clean? = some id

/-- **A connection that nobody uses has no uncommitted work.** -/
def Clean (cfg : PoolConfig) (s : State) : Prop :=
  cfg.rollbackOnReturn = true → ∀ id, Free s id → (s.conn id).dirty = false

/-- **When a return leaves no work behind**: where the rollback is skipped there is nothing to roll
back; and **when a shutdown leaves no connection behind**: where a connection goes into the queue of a
pool that is shut down, a caller of `close_all` is still in its loop. -/
def Meets (cfg : PoolConfig) (s : State) : Step → Prop
  | .rollback t answers _ => ∀ id, s.thread t = .cleaning id → cfg.rollbackOnReturn = true →
      skipsRollback cfg (s.conn id) answers = true → (s.conn id).dirty = false
  | .put t _ => ∀ id, s.thread t = .putting id → s.isShutdown = true →
      ∃ c, (s.closer c).inLoop = true
  | _ => True

theorem ThreadPc.clean?_eq {pc : ThreadPc} (h : pc.clean? = some x) : pc.conn? = some x := by
  cases pc <;> first | exact h | cases h

theorem free_setThread {pc : ThreadPc} (h : Free (s.setThread t pc) x) :
    Free s x ∨ pc.clean? = some x := by
  rcases h with hin | ⟨u, hu⟩
  · exact .inl (.inl hin)
  · change (update s.thread t pc u).clean? = some x at hu
    rw [update_apply] at hu
    split at hu
    · exact .inr hu
    · exact .inl (.inr ⟨u, hu⟩)

/-- Two borrowers with one connection are one. -/
theorem Places.exclusive (h : Places s) {u : Nat} (ht : (s.thread t).conn? = some id)
    (hu : (s.thread u).conn? = some id) : t = u := by
  have hheld : s.holds (.thread t) id := ht
  have hheld' : s.holds (.thread u) id := hu
  exact Place.thread.inj (h.owned.eq_of_holds hheld hheld')

/-- A connection in use is not free. -/
theorem Places.not_free (h : Places s) (hpc : (s.thread t).conn? = some id)
    (hused : (s.thread t).clean? = none) : ¬ Free s id := by
  rintro (hin | ⟨u, hu⟩)
  · have hheld : s.holds (.thread t) id := hpc
    have hheld' : s.holds .pool id := hin
    cases h.owned.eq_of_holds hheld hheld'
  · obtain rfl := h.exclusive hpc (ThreadPc.clean?_eq hu)
    rw [hused] at hu
    cases hu

theorem pinged_dirty {conn : Conn} {now : Nat} {ping : Ping} (h : conn.dirty = false) :
    (pinged cfg conn now ping).dirty = false := by
  unfold pinged
  split
  · rfl
  · exact h

theorem setConn_conn (s : State) (id : ConnId) (conn : Conn) (x : ConnId) :
    (s.setConn id conn).conn x = if x = id then conn else s.conn x := by
  rw [State.setConn]
  exact update_apply ..

/-- **Every step keeps it**, when it leaves no work behind. -/
theorem Clean.transition (h : Clean cfg s) (hplaces : Places s)
    (hstep : Transition cfg s step s') (hmeets : Meets cfg s step) : Clean cfg s' := by
  intro hon x hfree
  have hwritten : ∀ {id : ConnId} {conn : Conn}, Free s x →
      ((s.conn id).dirty = false → conn.dirty = false) →
      ((s.setConn id conn).conn x).dirty = false := by
    intro id conn hx hconn
    rw [setConn_conn]
    split
    · next heq => exact hconn (by rw [← heq]; exact h hon x hx)
    · exact h hon x hx
  cases hstep with
  | stay => exact h hon x hfree
  | move hpc hconn hfrom hto hclean =>
    refine h hon x ((free_setThread hfree).resolve_right fun hx => ?_)
    rw [hclean] at hx
    cases hx
  | @take _ t pc id rest hpc hconn hfrom hpool =>
    have hin : ∀ y ∈ id :: rest, (s.conn y).dirty = false := fun y hy =>
      h hon y (.inl (by rwa [hpool]))
    rcases free_setThread hfree with (hx | ⟨u, hu⟩) | hx
    · exact hin x (List.mem_cons_of_mem id hx)
    · exact h hon x (.inr ⟨u, hu⟩)
    · exact hin x (by rw [← Option.some.inj hx]; exact List.mem_cons_self)
  | @handOut id t now ping hpc =>
    exact hwritten ((free_setThread hfree).resolve_right nofun) fun hid => pinged_dirty hid
  | discard hpc hconn hpc' =>
    refine h hon x ((free_setThread hfree).resolve_right fun hx => ?_)
    rcases hpc' with rfl | rfl <;> cases hx
  | reserve t hpc => exact h hon x ((free_setThread hfree).resolve_right nofun)
  | connect t now hpc =>
    have hx := (free_setThread hfree).resolve_right nofun
    change (update s.conn s.next (Conn.new now) x).dirty = false
    rw [update_apply]
    split
    · rfl
    · exact h hon x hx
  | fail t now hpc => exact h hon x ((free_setThread hfree).resolve_right nofun)
  | use t u conn hpc =>
    rw [setConn_conn, if_neg]
    · exact h hon x hfree
    · rintro rfl
      exact hplaces.not_free (t := t) (by rw [hpc]; rfl) (by rw [hpc]; rfl) hfree
  | lost t hpc => exact h hon x ((free_setThread hfree).resolve_right nofun)
  | skip t answers ok hpc hskip =>
    rcases free_setThread hfree with hx | hx
    · exact h hon x hx
    · obtain rfl := Option.some.inj hx
      exact hmeets _ hpc hon hskip
  | @rollback id t answers hpc =>
    rcases free_setThread hfree with hx | hx
    · exact hwritten hx fun _ => rfl
    · obtain rfl := Option.some.inj hx
      change ((s.setConn id _).conn id).dirty = false
      rw [setConn_conn, if_pos rfl]
  | @put id t now hpc =>
    refine hwritten ?_ (fun hid => hid :
      (s.conn id).dirty = false → { s.conn id with lastReturnedAt := now }.dirty = false)
    rcases (free_setThread hfree).resolve_right nofun with hx | ⟨u, hu⟩
    · rcases List.mem_append.1 hx with hx | hx
      · exact .inl hx
      · exact .inr ⟨t, by rw [hpc, List.mem_singleton.1 hx]; rfl⟩
    · exact .inr ⟨u, hu⟩
  | full t now hpc =>
    exact hwritten ((free_setThread hfree).resolve_right nofun) fun hid => hid
  | close | goOn | stop | dispose => exact h hon x hfree
  | @closeGet id rest c hpc hpool =>
    refine h hon x (hfree.imp_left fun hx => ?_)
    rw [hpool]
    exact List.mem_cons_of_mem id hx

theorem setThread_holding {u : Nat} {pc : ThreadPc}
    (h : (s.setThread u pc).thread t = .holding id) :
    s.thread t = .holding id ∨ pc = .holding id := by
  change update s.thread u pc t = .holding id at h
  rw [update_apply] at h
  split at h
  · exact .inr h
  · exact .inl h

/-- **A connection that is handed out has no uncommitted work.** -/
theorem Clean.handed (h : Clean cfg s) (hon : cfg.rollbackOnReturn = true)
    (hstep : Transition cfg s step s') (hbefore : s.thread t ≠ .holding id)
    (hafter : s'.thread t = .holding id) : (s'.conn id).dirty = false := by
  cases hstep with
  | handOut u now ping hpc =>
    have hpc' := (setThread_holding hafter).resolve_left hbefore
    obtain rfl := ThreadPc.holding.inj hpc'
    change ((s.setConn _ _).conn _).dirty = false
    rw [setConn_conn, if_pos rfl]
    exact pinged_dirty (h hon _ (.inr ⟨u, by rw [hpc]; rfl⟩))
  | connect u now hpc =>
    have hpc' := (setThread_holding hafter).resolve_left hbefore
    obtain rfl := ThreadPc.holding.inj hpc'
    change (update s.conn s.next (Conn.new now) s.next).dirty = false
    rw [update_self]
    rfl
  | move hpc hconn hfrom hto hclean hholding =>
    exact absurd ((setThread_holding hafter).resolve_left hbefore) (hholding id)
  | discard hpc hconn hpc' =>
    have hpc'' := (setThread_holding hafter).resolve_left hbefore
    rcases hpc' with rfl | rfl <;> cases hpc''
  | take | reserve | fail | lost | skip | rollback | put | full =>
    cases (setThread_holding hafter).resolve_left hbefore
  | stay | use | close | goOn | stop | closeGet | dispose => exact absurd hafter hbefore

end Clean

/-! ## Shutdown -/

section Drained

variable {cfg : PoolConfig} {s s' : State} {step : Step}

/-- **The queue of a pool that is shut down is empty**, when no caller of `close_all` is in its
loop. -/
def Drained (s : State) : Prop :=
  s.isShutdown = true → (∀ c, (s.closer c).inLoop = false) → s.pool = []

/-- A caller of `close_all` is in its loop. -/
theorem drained_inLoop {c : Nat} {pc : CloserPc} (hpc : pc.inLoop = true) :
    Drained (s.setCloser c pc) := by
  intro _ hout
  have hc := hout c
  rw [show (s.setCloser c pc).closer c = pc from update_self .., hpc] at hc
  cases hc

/-- **Every step keeps it**, when it leaves no connection behind. -/
theorem Drained.transition (h : Drained s) (hstep : Transition cfg s step s')
    (hmeets : Meets cfg s step) : Drained s' := by
  cases hstep with
  | stay | move | handOut | discard | reserve | connect | fail | use => exact h
  | lost | skip | rollback | full => exact h
  | take hpc hconn hfrom hpool =>
    intro hshut hout
    have hempty := h hshut hout
    rw [hpool] at hempty
    cases hempty
  | put t now hpc =>
    intro hshut hout
    obtain ⟨c, hc⟩ := hmeets _ hpc hshut
    have hc' : (s.closer c).inLoop = false := hout c
    rw [hc'] at hc
    cases hc
  | close | goOn | closeGet | dispose => exact drained_inLoop rfl
  | stop hpc hconn hpool => exact fun _ _ => hpool

end Drained

/-! ## The pool -/

/-- **A pool is safe** when the open connections are counted and within the bound, nobody shares a
connection, a connection that is handed out has no uncommitted work, and a pool that is closed and got
all its connections back has none. -/
structure PoolSafe (cfg : PoolConfig) (s : State) : Prop where
  capacity : s.opened.length ≤ cfg.capacity
  counted : s.opened.length = s.activeCount
  exclusive : ∀ t u id, (s.thread t).conn? = some id → (s.thread u).conn? = some id → t = u
  clean : cfg.rollbackOnReturn = true → ∀ step t id, s.thread t ≠ .holding id →
    (exec cfg s step).thread t = .holding id → ((exec cfg s step).conn id).dirty = false
  closed : s.isShutdown = true → (∀ c, (s.closer c).inLoop = false) →
    (∀ t, (s.thread t).conn? = none) → s.opened = []

section Safe

variable {cfg : PoolConfig} {s : State}

/-- A closed pool that got everything back: an open connection would have no place. -/
theorem Places.closed (h : Places s) (hdrained : Drained s) (hshut : s.isShutdown = true)
    (hout : ∀ c, (s.closer c).inLoop = false) (hreturned : ∀ t, (s.thread t).conn? = none) :
    s.opened = [] := by
  refine List.eq_nil_iff_forall_not_mem.2 fun id hin => ?_
  obtain ⟨o, hlocated, hfits⟩ := h.owned id
  cases o with
  | none => cases hfits.1 hin
  | some p =>
    have hheld : s.holds p id := (hlocated p).2 rfl
    cases p with
    | pool =>
      rw [State.holds, hdrained hshut hout] at hheld
      cases hheld
    | thread t =>
      rw [State.holds, hreturned] at hheld
      cases hheld
    | closer c =>
      have hc := hout c
      rw [State.holds] at hheld
      cases hpc : s.closer c with
      | idle =>
        rw [hpc] at hheld
        cases hheld
      | testing =>
        rw [hpc] at hc
        cases hc
      | getting =>
        rw [hpc] at hc
        cases hc
      | closing id' =>
        rw [hpc] at hc
        cases hc

theorem Places.poolSafe (h : Places s) (hcounts : Counts cfg s) (hclean : Clean cfg s)
    (hdrained : Drained s) : PoolSafe cfg s where
  capacity := by
    have hcapacity := hcounts.capacity
    rw [hcounts.active] at hcapacity
    omega
  counted := hcounts.active.symm
  exclusive _ _ _ ht hu := h.exclusive ht hu
  clean hon step _ _ hbefore hafter :=
    hclean.handed hon (exec_transition cfg s step) hbefore hafter
  closed hshut hout hreturned := h.closed hdrained hshut hout hreturned

end Safe

/-- **The pool is safe in every state of a run** in which every return that skips the rollback finds
nothing to roll back, and no connection goes into the queue of a closed pool. -/
theorem pool_safe_of (cfg : PoolConfig) (events : List Step)
    (hmeets : Trace.Along (exec cfg) (Meets cfg) init events) :
    PoolSafe cfg (Trace.run (exec cfg) init events) := by
  have hinv : Places (Trace.run (exec cfg) init events) ∧
      Counts cfg (Trace.run (exec cfg) init events) ∧
      Clean cfg (Trace.run (exec cfg) init events) ∧
      Drained (Trace.run (exec cfg) init events) := by
    refine Trace.run_inv_along
      (I := fun s => Places s ∧ Counts cfg s ∧ Clean cfg s ∧ Drained s)
      (fun s step h hstep => ?_) ⟨places_init, counts_init cfg, fun _ _ _ => rfl, fun _ _ => rfl⟩
      hmeets
    obtain ⟨hplaces, hcounts, hclean, hdrained⟩ := h
    have htransition := exec_transition cfg s step
    exact ⟨hplaces.transition hcounts htransition, hcounts.transition hplaces htransition,
      hclean.transition hplaces htransition hstep, hdrained.transition htransition hstep⟩
  exact hinv.1.poolSafe hinv.2.1 hinv.2.2.1 hinv.2.2.2

/-- A pool of one connection. -/
def single : PoolConfig := ⟨1, 1, 1800, 60, true⟩

/-- One borrower after the other, and then the end of the pool. -/
theorem pool_safe_of_two :
    PoolSafe single (Trace.run (exec single) init
      [.borrow 0, .poll 0, .reserve 0, .connect 0 1 true, .use 0 ⟨true, false, true⟩, .giveBack 0,
        .rollback 0 true true, .put 0 2, .borrow 1, .poll 1, .check 1 3 .answers, .close 0,
        .testEmpty 0, .giveBack 1, .discard 1]) := by
  refine pool_safe_of single _ ⟨trivial, trivial, trivial, trivial, trivial, trivial, ?_, ?_,
    trivial, trivial, trivial, trivial, trivial, trivial, trivial, trivial⟩
  · intro id hpc _ hskip
    obtain rfl : 0 = id := ThreadPc.cleaning.inj hpc
    cases hskip
  · intro id _ hshut
    cases hshut

/-- The borrower returns its connection when the pool is open, and puts it into the queue when it is
closed. -/
def lateReturn : List Step :=
  [.borrow 0, .poll 0, .reserve 0, .connect 0 1 true, .giveBack 0, .rollback 0 true true, .close 0,
    .testEmpty 0, .put 0 2]

/-- The borrower says that it reads, turns autocommit on, and leaves a transaction open. -/
def dirtyReturn : List Step :=
  [.borrow 0, .poll 0, .reserve 0, .connect 0 1 true, .use 0 ⟨true, true, true⟩, .giveBack 0,
    .rollback 0 true true, .put 0 2, .borrow 1, .poll 1]

/-- **The pool is not safe in every run**: a connection that is returned late stays open, and an open
transaction goes to the next borrower. -/
theorem pool_not_safe :
    ¬ PoolSafe single (Trace.run (exec single) init lateReturn) ∧
      ¬ PoolSafe single (Trace.run (exec single) init dirtyReturn) := by
  constructor
  · intro h
    have hopened := h.closed rfl (fun c => by cases c <;> rfl) (fun t => by cases t <;> rfl)
    cases hopened
  · intro h
    have hbefore : (Trace.run (exec single) init dirtyReturn).thread 1 ≠ .holding 0 := by
      decide +kernel
    have hafter : (exec single (Trace.run (exec single) init dirtyReturn)
        (.check 1 3 .answers)).thread 1 = .holding 0 := by decide +kernel
    have hdirty := h.clean rfl _ 1 0 hbefore hafter
    exact absurd hdirty (by decide +kernel)

end MySQLConnectionPool

end FosCoverage
